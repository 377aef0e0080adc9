import LocalSend.Library.Double
import LocalSend.Model.Config

/-! # The web page

The chunk requests of `app.js`. A number is the rational it stands for; every operation on
numbers rounds to the nearest double.
-/

namespace LocalSend.Web

open Config SafePath

def add (a b : ℚ) : ℚ := Double.round (a + b)

def subtract (a b : ℚ) : ℚ := Double.round (a - b)

def multiply (a b : ℚ) : ℚ := Double.round (a * b)

def divide (a b : ℚ) : ℚ := Double.round (a / b)

/-- A number in a text: a whole one below `10 ^ 21`, in decimal. -/
def numberText (number : ℚ) : CString := decimal number.num.toNat

/-- What `start` in `uploadChunks` sends. -/
structure ChunkRequest where
  start : ℚ
  chunkLength : ℚ
  contentRange : CString
  deriving DecidableEq

/-- `start` in `uploadChunks`. -/
def startChunk (total chunkSize chunkIndex : ℚ) : ChunkRequest :=
  let start := multiply chunkIndex chunkSize
  let stop := min total (add start chunkSize)
  { start
    chunkLength := subtract stop start
    contentRange := ascii "bytes " ++ numberText start ++ ascii "-" ++
      numberText (subtract stop 1) ++ ascii "/" ++ numberText total }

/-- The requests of `uploadChunks` in the order `schedule` starts them. -/
def uploadChunks (total chunkSize : ℚ) : List ChunkRequest :=
  (List.range ⌈divide total chunkSize⌉₊).map fun index : ℕ => startChunk total chunkSize index

end LocalSend.Web
