import LocalSend.Library.Blocks
import LocalSend.Library.Budget
import LocalSend.Library.RingBuffer
import LocalSend.Library.Transition
import LocalSend.Model.Auth
import LocalSend.Model.FastUpload.Listener
import LocalSend.Model.HttpServer
import LocalSend.Model.Receiver
import LocalSend.Model.Router.Transfer
import LocalSend.Model.Sha256
import LocalSend.Model.Upload.FileTree
import LocalSend.Model.Upload.System
import LocalSend.Verification.Auth.GuessBudget
import LocalSend.Verification.Auth.History
import LocalSend.Verification.Auth.Json
import LocalSend.Verification.Auth.RateLimit
import LocalSend.Verification.Auth.Sessions
import LocalSend.Verification.Auth.Table
import LocalSend.Verification.Config.Accepted
import LocalSend.Verification.Config.RoundTrip
import LocalSend.Verification.FastUpload.Calls
import LocalSend.Verification.FastUpload.Framing
import LocalSend.Verification.FastUpload.Listener
import LocalSend.Verification.FastUpload.Origin
import LocalSend.Verification.FastUpload.Server
import LocalSend.Verification.FileName
import LocalSend.Verification.HttpServer
import LocalSend.Verification.Receiver.Gate
import LocalSend.Verification.Receiver.Orphans
import LocalSend.Verification.Receiver.Requests
import LocalSend.Verification.Router.Dispatch
import LocalSend.Verification.Router.Protocol
import LocalSend.Verification.Router.Status
import LocalSend.Verification.Router.Storage
import LocalSend.Verification.Router.Target
import LocalSend.Verification.Sha256.Correctness
import LocalSend.Verification.UniqueName
import LocalSend.Verification.Upload.Assembly
import LocalSend.Verification.Upload.Chunks
import LocalSend.Verification.Upload.Clear
import LocalSend.Verification.Upload.Destination
import LocalSend.Verification.Upload.EnsureDirectory
import LocalSend.Verification.Upload.Frame
import LocalSend.Verification.Upload.Geometry
import LocalSend.Verification.Upload.Invariant
import LocalSend.Verification.Upload.Lease
import LocalSend.Verification.Upload.Metadata
import LocalSend.Verification.Upload.Names
import LocalSend.Verification.Upload.Orderly
import LocalSend.Verification.Upload.Placement
import LocalSend.Verification.Upload.Prepare
import LocalSend.Verification.Upload.Publish
import LocalSend.Verification.Upload.Queue
import LocalSend.Verification.Upload.Quota
import LocalSend.Verification.Upload.Returns
import LocalSend.Verification.Upload.Stream
import LocalSend.Verification.Upload.Updates
import LocalSend.Verification.Upload.Window
import LocalSend.Verification.Upload.Writer
import LocalSend.Verification.Web.ChunkUpload
