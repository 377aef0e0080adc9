import LocalSend.Model.FastUpload.Listener
import LocalSend.Verification.FastUpload.Framing
import LocalSend.Verification.Router.Protocol

/-! # The fast listener follows the protocol

A connection hands over the bytes behind its headers, as many as it has declared, and closes
what it has begun however the peer behaves.
-/

namespace LocalSend.FastUpload

open Config Routing Text
open Program (Obeys)

variable {authMode : AuthMode} {routed : Routing.Request} {begun : Begun} {origin : CString}
  {arrivals later : List Arrival} {body : Body} {received data buffer : Bytes}
  {contentLength fuel : ℕ} {stage : Stage}

/-! ## Receiving -/

/-- What a `recv` delivers stands in front of what is delivered later. -/
theorem recv_bytes {requested : ℕ} (h : recv requested arrivals = (.bytes data, later)) :
    data.length ≤ requested ∧ data ++ delivered later = delivered arrivals := by
  cases arrivals with
  | nil => cases h
  | cons arrival arrivals =>
      cases arrival with
      | interrupted => cases h
      | bytes bytes =>
          rw [recv] at h
          split at h
          · cases h
          · split at h
            · cases h
              exact ⟨‹_›, rfl⟩
            · cases h
              refine ⟨List.length_take_le .., ?_⟩
              rw [delivered, delivered, ← List.append_assoc, List.take_append_drop]

theorem recv_interrupted {requested : ℕ} (h : recv requested arrivals = (.interrupted, later)) :
    delivered later = delivered arrivals := by
  cases arrivals with
  | nil => cases h
  | cons arrival arrivals =>
      cases arrival with
      | interrupted =>
          cases h
          rfl
      | bytes bytes =>
          rw [recv] at h
          split at h
          · cases h
          · split at h <;> cases h

/-! ## The stream -/

/-- The stream `begun` stands for, with these bytes handed over. -/
abbrev Begun.after (begun : Begun) (received : Bytes) : Stage :=
  .receiving begun.uploadId (chunkOf begun.chunk) received

/-- What a part of the connection's code keeps that runs to its end. -/
abbrev Serves (authMode : AuthMode) (routed : Routing.Request) (body : Body)
    (handler : Handler Served) (stage : Stage) : Prop :=
  Obeys (requestProtocol authMode routed body) (fun _ stage => stage.Closed) handler stage

theorem serves_abortStream (h : stage.stream = some (begun.uploadId, chunkOf begun.chunk)) :
    Serves authMode routed body (abortStream begun) stage := by
  unfold abortStream
  cases hchunk : begun.chunk with
  | none =>
      rw [hchunk] at h
      exact (obeys_routerUploadStreamAbort h).bind fun _ _ hclosed => hclosed
  | some chunk =>
      rw [hchunk] at h
      exact (obeys_routerUploadStreamAbortChunk h).bind fun _ _ hclosed => hclosed

/-- A finished stream is over; a chunk that could not be finished is aborted as well. -/
theorem serves_completeStream (hcomplete : body.complete) :
    Serves authMode routed body (completeStream begun origin) (begun.after body.bytes) := by
  unfold completeStream Begun.after
  cases begun.chunk with
  | none =>
      refine (obeys_routerUploadStreamFinish hcomplete).bind ?_
      rintro response _ rfl
      trivial
  | some chunk =>
      refine (obeys_routerUploadStreamFinishChunk hcomplete).bind ?_
      rintro ⟨response, finished⟩ _ rfl
      cases finished with
      | true => trivial
      | false =>
          exact (obeys_routerUploadStreamAbortChunk rfl).bind fun _ _ hclosed => hclosed

theorem obeys_writePart (hpart : received ++ data <+: body.bytes) :
    Obeys (requestProtocol authMode routed body)
      (Writes begun.uploadId (chunkOf begun.chunk) (received ++ data))
      (writePart begun received.length data) (begun.after received) := by
  unfold writePart Begun.after
  cases begun.chunk with
  | none => exact obeys_routerUploadStreamWriteDirect hpart
  | some chunk => exact obeys_routerUploadStreamWriteChunk hpart rfl

theorem serves_orAbortStream {next : Handler Served} (hpart : received ++ data <+: body.bytes)
    (hnext : Serves authMode routed body next (begun.after (received ++ data))) :
    Serves authMode routed body (orAbortStream begun received.length data next)
      (begun.after received) := by
  refine (obeys_writePart hpart).bind ?_
  rintro answer stage hwritten
  cases answer with
  | ok =>
      obtain rfl := hwritten
      exact hnext
  | error response =>
      obtain rfl := hwritten
      refine serves_abortStream ?_
      cases chunkOf begun.chunk <;> rfl

/-- The body a peer has declared, of what it sends: the first `contentLength` bytes, and all of
it only if there are so many. -/
def declared (contentLength : ℕ) (sent : Bytes) : Body :=
  ⟨sent.take contentLength, (sent.take contentLength).length = contentLength⟩

/-- What has been received and is still to come is the body, as far as it is asked for. -/
structure Ahead (contentLength : ℕ) (body : Body) (received rest : Bytes) : Prop where
  body_eq : body = declared contentLength (received ++ rest)
  within : received.length ≤ contentLength

theorem Ahead.part {rest : Bytes} (h : Ahead contentLength body received (data ++ rest))
    (hdata : data.length ≤ contentLength - received.length) :
    received ++ data <+: body.bytes := by
  rw [h.body_eq, declared, ← List.append_assoc, List.prefix_take_iff]
  refine ⟨List.prefix_append .., ?_⟩
  have hwithin := h.within
  rw [List.length_append]
  omega

theorem Ahead.next {rest : Bytes} (h : Ahead contentLength body received (data ++ rest))
    (hdata : data.length ≤ contentLength - received.length) :
    Ahead contentLength body (received ++ data) rest := by
  refine ⟨by rw [h.body_eq, List.append_assoc], ?_⟩
  have hwithin := h.within
  rw [List.length_append]
  omega

/-- Once as many bytes have been received as were declared, they are the whole body. -/
theorem Ahead.eq_body {rest : Bytes} (h : Ahead contentLength body received rest)
    (hall : contentLength ≤ received.length) : received = body.bytes ∧ body.complete := by
  have htake : (received ++ rest).take contentLength = received := by
    rw [List.take_append_of_le_length hall, List.take_of_length_le h.within]
  rw [h.body_eq, declared, htake]
  exact ⟨rfl, Nat.le_antisymm h.within hall⟩

/-- The loop hands over what arrives until the declared length is reached. -/
theorem serves_receiveBody (h : Ahead contentLength body received (delivered arrivals)) :
    Serves authMode routed body
      (receiveBody begun origin contentLength fuel received.length buffer arrivals)
      (begun.after received) := by
  induction fuel generalizing received buffer arrivals with
  | zero => exact serves_abortStream rfl
  | succ fuel ih =>
      rw [receiveBody]
      split
      · rename_i hall
        obtain ⟨rfl, hcomplete⟩ := h.eq_body hall
        exact serves_completeStream hcomplete
      · split
        · rename_i later hrecv
          rw [← recv_interrupted hrecv] at h
          exact ih h
        · exact serves_abortStream rfl
        · rename_i data later hrecv
          obtain ⟨hfits, hdelivered⟩ := recv_bytes hrecv
          rw [← hdelivered] at h
          have hdata : data.length ≤ contentLength - received.length :=
            hfits.trans (min_le_left ..)
          dsimp only
          rw [List.take_left']
          · refine serves_orAbortStream (h.part hdata) ?_
            rw [← List.length_append]
            exact ih (h.next hdata)
          · rfl

/-- The loop behind a part that was read with the headers. -/
theorem serves_firstPart {first : Bytes}
    (h : Ahead contentLength body [] (first ++ delivered arrivals))
    (hfirst : first.length ≤ contentLength) :
    Serves authMode routed body (orAbortStream begun 0 first
      (receiveBody begun origin contentLength fuel first.length buffer arrivals))
      (begun.after []) := by
  have hnext : Ahead contentLength body first (delivered arrivals) := by
    rw [← List.nil_append first]
    exact h.next hfirst
  have hbody : Serves authMode routed body
      (receiveBody begun origin contentLength fuel first.length buffer arrivals)
      (begun.after ([] ++ first)) := by
    rw [List.nil_append]
    exact serves_receiveBody hnext
  have hwrite : Serves authMode routed body (orAbortStream begun ([] : Bytes).length first
      (receiveBody begun origin contentLength fuel first.length buffer arrivals))
      (begun.after []) := serves_orAbortStream (h.part hfirst) hbody
  exact hwrite

/-- The body of a connection: what follows its headers, as far as their `Content-Length`. -/
def declaredBody (request : Request) (buffer : Bytes) (arrivals : List Arrival) : Body :=
  declared request.contentLength.toNat
    ((buffer.drop request.bodyOffset).take request.bufferedBytes ++ delivered arrivals)

/-- What was read behind the header block is counted. -/
def Buffered (request : Request) (buffer : Bytes) : Prop :=
  request.bodyOffset + request.bufferedBytes = buffer.length

theorem parseLines_counted {line : ℕ} {request parsed : Request}
    (h : (parseLines fuel buffer line request).1 = some parsed) :
    parsed.bufferedBytes = request.bufferedBytes := by
  have hbuffered : (parseLines fuel buffer line request).1 =
      (parseLines fuel buffer line request).1.map (·.buffered request.bufferedBytes) :=
    congrArg Prod.fst (@parseLines_buffered buffer request.bufferedBytes line fuel request)
  rw [h] at hbuffered
  have hparsed : parsed = parsed.buffered request.bufferedBytes := Option.some.inj hbuffered
  rw [hparsed]
  rfl

theorem parseRequest_counted {cut : Bytes} {request : Request}
    (h : parseRequest buffer = (.parsed request, cut)) : Buffered request cut := by
  unfold parseRequest at h
  split at h
  · cases h
  · rename_i stop hstop
    have hend : stop + 4 ≤ buffer.length := search_le hstop
    dsimp only at h
    split at h
    · cases h
    · rename_i next hnext
      split at h
      · cases h
      · rename_i method path hscan
        have hline : next + 2 ≤ ((buffer.set stop 0).set next 0).length := by
          have hle := lineEnd_le hnext
          have htext := @length_textAt (buffer.set stop 0) 0 (Nat.zero_le _)
          rw [List.length_set, List.length_set] at *
          omega
        have hcut := (@parseLines_append ((buffer.set stop 0).set next 0) [] (next + 2) stop
          (startRequest method path (stop + 4) (buffer.length - (stop + 4))) hline).2
        obtain ⟨hparsed, rfl⟩ := Prod.mk.inj h
        cases hlines : (parseLines stop ((buffer.set stop 0).set next 0) (next + 2)
            (startRequest method path (stop + 4) (buffer.length - (stop + 4)))).1 with
        | none =>
            rw [hlines] at hparsed
            cases hparsed
        | some parsed =>
            rw [hlines] at hparsed
            cases hparsed
            rw [Buffered, parseLines_offset hlines, parseLines_counted hlines, hcut,
              List.length_set, List.length_set]
            simp only [startRequest]
            omega

theorem headersLoop_counted {request : Request}
    (h : headersLoop fuel received arrivals = some (request, buffer, later)) :
    Buffered request buffer := by
  induction fuel generalizing received arrivals with
  | zero => cases h
  | succ fuel ih =>
      rw [headersLoop] at h
      split at h
      · cases h
      · split at h
        · exact ih h
        · cases h
        · split at h
          · exact ih h
          · cases h
          · rename_i hparse
            cases h
            exact parseRequest_counted hparse

theorem serves_receiveStream {request : Request} (hbuffered : Buffered request buffer) :
    Serves authMode routed (declaredBody request buffer arrivals)
      (receiveStream begun request buffer arrivals) (begun.after []) := by
  have hlength : ((buffer.drop request.bodyOffset).take request.bufferedBytes).length =
      request.bufferedBytes := by
    rw [Buffered] at hbuffered
    rw [List.length_take, List.length_drop]
    omega
  have hahead : Ahead request.contentLength.toNat (declaredBody request buffer arrivals) []
      ((buffer.drop request.bodyOffset).take request.bufferedBytes ++ delivered arrivals) :=
    ⟨rfl, Nat.zero_le _⟩
  unfold receiveStream
  dsimp only
  split
  · exact serves_abortStream rfl
  · rename_i hfits
    have hdata : ((buffer.drop request.bodyOffset).take request.bufferedBytes).length ≤
        request.contentLength.toNat := by
      rw [hlength]
      omega
    split
    · have hfirst : Serves authMode routed (declaredBody request buffer arrivals)
          (orAbortStream begun 0 ((buffer.drop request.bodyOffset).take request.bufferedBytes)
            (receiveBody begun request.origin.text request.contentLength.toNat
              (pending arrivals + 1)
              ((buffer.drop request.bodyOffset).take request.bufferedBytes).length buffer arrivals))
          (begun.after []) := serves_firstPart hahead hdata
      rwa [hlength] at hfirst
    · rename_i hnone
      have hzero : request.bufferedBytes = 0 := by omega
      rw [hzero, List.take_zero, List.nil_append] at hahead
      exact serves_receiveBody hahead

/-- `connection_main` behind the checks of the headers. -/
theorem serves_serveStream {request : Request} {uiAuthority address : CString}
    (hbuffered : Buffered request buffer) :
    Serves authMode (routerRequest request uiAuthority address)
      (declaredBody request buffer arrivals)
      (serveStream authMode uiAuthority address request buffer arrivals) (.start authMode) := by
  unfold serveStream
  refine (obeys_routerUploadStreamBeginEx _ _).bind ?_
  rintro answer stage hbegins
  cases answer with
  | error response => exact hbegins
  | ok begun =>
      obtain rfl := hbegins
      dsimp only
      split
      · rename_i hwhole
        have henable : Obeys
            (requestProtocol authMode (routerRequest request uiAuthority address)
              (declaredBody request buffer arrivals))
            (Writes begun.uploadId none []) (routerUploadStreamEnableDirect begun.uploadId)
            (begun.after []) := by
          rw [Begun.after, hwhole]
          exact obeys_routerUploadStreamEnableDirect
        refine henable.bind ?_
        rintro enabled stage hwritten
        cases enabled with
        | error response =>
            obtain rfl := hwritten
            trivial
        | ok =>
            have hstage : stage = begun.after [] := by
              rw [Begun.after, hwhole]
              exact hwritten
            rw [hstage]
            exact serves_receiveStream hbuffered
      · exact serves_receiveStream hbuffered

/-- The request of a connection and its body, once its headers have been read. -/
def streamOf (uiPort boundPort : UInt16) (address : CString) (arrivals : List Arrival) :
    Option (Routing.Request × Body) :=
  (receiveHeaders arrivals).bind fun (request, buffer, arrivals) =>
    (validateOrigin uiPort boundPort request).map fun uiAuthority =>
      (routerRequest request uiAuthority.text address, declaredBody request buffer arrivals)

/-- A connection whose headers are refused makes no call; any other follows the protocol. -/
theorem serves_serveConnection (authMode : AuthMode) (uiPort boundPort : UInt16)
    (address : CString) (arrivals : List Arrival) :
    match streamOf uiPort boundPort address arrivals with
    | none => ∃ served, serveConnection authMode uiPort boundPort address arrivals = .done served
    | some (routed, body) => Serves authMode routed body
        (serveConnection authMode uiPort boundPort address arrivals) (.start authMode) := by
  unfold streamOf serveConnection
  cases hheaders : receiveHeaders arrivals with
  | none => exact ⟨_, rfl⟩
  | some received =>
      obtain ⟨request, buffer, later⟩ := received
      dsimp only [Option.bind_some]
      cases validateOrigin uiPort boundPort request with
      | none => exact ⟨_, rfl⟩
      | some uiAuthority =>
          dsimp only [Option.map_some]
          split
          · exact closed_start authMode
          · split
            · exact closed_start authMode
            · exact serves_serveStream (headersLoop_counted hheaders)

/-- Whatever the managers and the platform reply and however the bytes arrive, the calls of a
connection are in the order of the protocol, for the request in its headers and the bytes behind
them; nothing is finished unless as many have come as the headers declare. -/
theorem permitted_serveConnection {authMode : AuthMode} {uiPort boundPort : UInt16}
    {address : CString} {arrivals : List Arrival} {trace : List (Program.Exchange Effect.Reply)}
    {served : Served}
    (hpath : Program.Path (serveConnection authMode uiPort boundPort address arrivals) trace
      served) :
    (∀ routed body, streamOf uiPort boundPort address arrivals = some (routed, body) →
      ∃ last, Program.Permitted (requestProtocol authMode routed body) (.start authMode) trace
        last ∧ last.Closed) ∧
      (streamOf uiPort boundPort address arrivals = none → trace = []) := by
  have hserves := serves_serveConnection authMode uiPort boundPort address arrivals
  constructor
  · intro routed body hstream
    rw [hstream] at hserves
    exact Obeys.path hserves hpath
  · intro hstream
    rw [hstream] at hserves
    obtain ⟨served', hdone⟩ := hserves
    rw [hdone] at hpath
    cases hpath
    rfl

namespace Sample

/-- A chunk of three bytes in three arrivals, the last one interrupted before. -/
def chunkArrivals : List Arrival :=
  [.bytes (ascii "PUT /api/v1/uploads/aaaaaaaaaaaaaaaaaaaaaaaaaaaaaaaa HTTP/1.1\r\n" ++
      ascii "Host: ps5:8081\r\n"),
    .bytes (ascii "Origin: http://ps5:8080\r\nContent-Type: application/octet-stream\r\n" ++
      ascii "Content-Range: bytes 0-2/3\r\nContent-Length: 3\r\n\r\nx"),
    .interrupted, .bytes (ascii "yz")]

def chunkCalls : List (Program.Exchange Effect.Reply) :=
  let id : CString := .replicate 32 97
  let reply : Upload.Reply := .of .ok
  [⟨.uploads (.chunkBegin id (ascii "10.0.0.2") (ascii "NoAuth") 3 0 3), reply⟩,
    ⟨.uploads (.chunkWrite id 0 (ascii "x")), reply⟩,
    ⟨.uploads (.chunkWrite id 1 (ascii "yz")), reply⟩, ⟨.uploads (.chunkFinish id 0 3), reply⟩]

end Sample

open Sample in
/-- The chunk is finished: all it declares has come. -/
theorem permitted_chunkArrivals :
    ∃ routed body last,
      streamOf 8080 8081 (ascii "10.0.0.2") chunkArrivals = some (routed, body) ∧
        body.bytes = ascii "xyz" ∧
        Program.Permitted (requestProtocol .none routed body) .authorized chunkCalls last ∧
        last.Closed := by
  have hreplay : ((serveConnection .none 8080 8081 (ascii "10.0.0.2") chunkArrivals).replay
      chunkCalls).isSome = true := by decide +kernel
  obtain ⟨served, hserved⟩ := Option.isSome_iff_exists.mp hreplay
  have hpath : Program.Path (serveConnection .none 8080 8081 (ascii "10.0.0.2") chunkArrivals)
      chunkCalls served := Program.path_of_replay hserved
  have hbody : (streamOf 8080 8081 (ascii "10.0.0.2") chunkArrivals).map (fun stream =>
      stream.2.bytes) = some (ascii "xyz") := by decide +kernel
  obtain ⟨⟨routed, body⟩, hstream, hbody⟩ := Option.map_eq_some_iff.mp hbody
  obtain ⟨last, htrace, hclosed⟩ := (permitted_serveConnection hpath).1 routed body hstream
  exact ⟨routed, body, last, hstream, hbody, htrace, hclosed⟩

end LocalSend.FastUpload
