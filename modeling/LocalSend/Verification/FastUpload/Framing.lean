import LocalSend.Model.FastUpload.Connection

/-! # However a request is fragmented

The header parser runs again on each longer part of the request, and cuts up only what stands
before the empty line. So the fields are those of the header block, and the router is handed the
body in pieces that follow each other.
-/

namespace LocalSend.FastUpload

open Config SafePath Text

variable {front back buffer text : Bytes} {position count stop line fuel : ℕ} {request : Request}

/-! ## Strings in front of a terminator -/

/-- A string ends at the first zero at the latest, whatever follows it. -/
theorem textAt_append (h : position ≤ front.length) :
    textAt (front ++ 0 :: back) position = textAt front position := by
  rw [textAt, textAt, List.drop_append_of_le_length h]
  generalize front.drop position = rest
  induction rest with
  | nil => simp
  | cons byte rest ih =>
      by_cases hbyte : byte = 0
      · simp [hbyte]
      · simpa [hbyte] using ih

theorem length_textAt (h : position ≤ front.length) :
    position + (textAt front position).length ≤ front.length := by
  have hlength := (List.takeWhile_prefix (· ≠ 0) (l := front.drop position)).length_le
  rw [List.length_drop] at hlength
  simp only [textAt]
  omega

theorem length_terminate : (terminate front position count).length = front.length := by
  induction count with
  | zero => rfl
  | succ count ih => rw [terminate, List.length_set, ih]

theorem terminate_append (h : position + count ≤ front.length) :
    terminate (front ++ 0 :: back) position count =
      terminate front position count ++ 0 :: back := by
  induction count with
  | zero => rfl
  | succ count ih =>
      rw [terminate, ih (by omega), terminate, List.set_append_left]
      rw [length_terminate]
      omega

theorem length_trimAt : (trimAt front position).1.length = front.length := length_terminate

/-- The blanks at both ends and what is kept are all of the text. -/
theorem length_trim_le (space : UInt8 → Bool) (text : Bytes) :
    (text.takeWhile space).length + (trim space text).length ≤ text.length := by
  have hkept : (trim space text).length ≤ (text.dropWhile space).length :=
    (List.rdropWhile_prefix _ _).length_le
  have hsum := congrArg List.length (List.takeWhile_append_dropWhile (p := space) (l := text))
  rw [List.length_append] at hsum
  omega

/-- `trim` works on the string alone. -/
theorem trimAt_append (h : position ≤ front.length) :
    trimAt (front ++ 0 :: back) position =
      ((trimAt front position).1 ++ 0 :: back, (trimAt front position).2) ∧
    (trimAt front position).2 ≤ front.length := by
  have hlength := length_textAt h
  have htrim := length_trim_le isSpace (textAt front position)
  simp only [trimAt, textAt_append h]
  constructor
  · rw [terminate_append (by omega)]
  · omega

theorem lineEnd_le (h : lineEnd text = some stop) : stop + 2 ≤ text.length := search_le h

/-! ## Header lines -/

theorem length_storeLine : (storeLine front line request).2.length = front.length := by
  simp only [storeLine]
  split
  · rfl
  · simp only [length_trimAt, List.length_set]

theorem storeLine_append (h : line ≤ front.length) :
    storeLine (front ++ 0 :: back) line request =
      ((storeLine front line request).1, (storeLine front line request).2 ++ 0 :: back) := by
  simp only [storeLine, textAt_append h]
  by_cases hcolon : 58 ∉ textAt front line
  · simp only [hcolon, not_false_eq_true, if_true]
  · rw [if_neg hcolon, if_neg hcolon]
    have hlength := length_textAt h
    have hindex := List.idxOf_lt_length_iff.mpr (not_not.mp hcolon)
    generalize hplace : line + (textAt front line).idxOf 58 = colon
    have hset : (front ++ 0 :: back).set colon 0 = front.set colon 0 ++ 0 :: back :=
      List.set_append_left _ _ (by omega)
    have hname := @trimAt_append (front.set colon 0) back line (by
      rw [List.length_set]
      exact h)
    have hname_length : (trimAt (front.set colon 0) line).1.length = front.length := by
      rw [length_trimAt, List.length_set]
    have hvalue := @trimAt_append (trimAt (front.set colon 0) line).1 back (colon + 1) (by omega)
    have hvalue_length :
        (trimAt (trimAt (front.set colon 0) line).1 (colon + 1)).1.length = front.length := by
      rw [length_trimAt, hname_length]
    simp only [hset, hname.1, hvalue.1]
    rw [textAt_append (by rw [hvalue_length]; simpa using hname.2),
      textAt_append (by rw [hvalue_length]; simpa [hname_length] using hvalue.2)]

/-- The loop over the header lines stays in front of the terminator. -/
theorem parseLines_append (h : line ≤ front.length) :
    parseLines fuel (front ++ 0 :: back) line request =
      ((parseLines fuel front line request).1,
        (parseLines fuel front line request).2 ++ 0 :: back) ∧
    (parseLines fuel front line request).2.length = front.length := by
  induction fuel generalizing front line request with
  | zero => exact ⟨rfl, rfl⟩
  | succ fuel ih =>
      simp only [parseLines, textAt_append h]
      by_cases hempty : textAt front line = []
      · rw [if_pos hempty, if_pos hempty]
        exact ⟨rfl, rfl⟩
      rw [if_neg hempty, if_neg hempty]
      cases hend : lineEnd (textAt front line) with
      | none =>
          simp only [Option.map_none, Option.elim_none, storeLine_append h]
          cases hstore : storeLine front line request with
          | mk stored cut =>
              have hlength : cut.length = front.length := by
                have hkept : (storeLine front line request).2.length = front.length :=
                  length_storeLine
                rwa [hstore] at hkept
              cases stored with
              | none => exact ⟨rfl, hlength⟩
              | some stored => exact ⟨rfl, hlength⟩
      | some offset =>
          have hoffset := lineEnd_le hend
          have htext := length_textAt h
          have hset : (front ++ 0 :: back).set (line + offset) 0 =
              front.set (line + offset) 0 ++ 0 :: back :=
            List.set_append_left _ _ (by omega)
          have hline : line ≤ (front.set (line + offset) 0).length := by
            rwa [List.length_set]
          simp only [Option.map_some, Option.elim_some, hset, storeLine_append hline]
          cases hstore : storeLine (front.set (line + offset) 0) line request with
          | mk stored cut =>
              have hlength : cut.length = front.length := by
                have hkept : (storeLine (front.set (line + offset) 0) line request).2.length =
                    (front.set (line + offset) 0).length := length_storeLine
                rwa [hstore, List.length_set] at hkept
              cases stored with
              | none => exact ⟨rfl, hlength⟩
              | some stored =>
                  have hnext : line + offset + 2 ≤ cut.length := by omega
                  exact ⟨(ih hnext).1, (ih hnext).2.trans hlength⟩

/-! ## The bytes behind the headers -/

/-- The request with this many bytes behind its headers. -/
def Request.buffered (request : Request) (count : ℕ) : Request :=
  { request with bufferedBytes := count }

theorem storeHeader_buffered (name value : CString) :
    storeHeader (request.buffered count) name value =
      (storeHeader request name value).map (·.buffered count) := by
  simp only [storeHeader, Request.buffered]
  split_ifs <;> simp_all [Option.map_map, Function.comp_def]

theorem storeHeader_offset {stored : Request} {name value : CString}
    (h : storeHeader request name value = some stored) :
    stored.bodyOffset = request.bodyOffset := by
  simp only [storeHeader] at h
  split_ifs at h
  all_goals first
    | cases h; rfl
    | obtain ⟨_, -, rfl⟩ := Option.map_eq_some_iff.mp h; rfl

theorem storeLine_buffered : storeLine buffer line (request.buffered count) =
    ((storeLine buffer line request).1.map (·.buffered count),
      (storeLine buffer line request).2) := by
  simp only [storeLine]
  split
  · rfl
  · rw [storeHeader_buffered]

theorem storeLine_offset {stored : Request}
    (h : (storeLine buffer line request).1 = some stored) :
    stored.bodyOffset = request.bodyOffset := by
  simp only [storeLine] at h
  split at h
  · cases h
  · exact storeHeader_offset h

/-- Nothing in the headers depends on the bytes behind them. -/
theorem parseLines_buffered : parseLines fuel buffer line (request.buffered count) =
    ((parseLines fuel buffer line request).1.map (·.buffered count),
      (parseLines fuel buffer line request).2) := by
  induction fuel generalizing buffer line request with
  | zero => rfl
  | succ fuel ih =>
      simp only [parseLines]
      by_cases hempty : textAt buffer line = []
      · simp [hempty]
      rw [if_neg hempty, if_neg hempty, storeLine_buffered]
      generalize ((lineEnd (textAt buffer line)).map (line + ·)) = next
      cases hstore : storeLine (next.elim buffer (buffer.set · 0)) line request with
      | mk stored cut =>
          cases stored with
          | none => rfl
          | some stored =>
              cases next with
              | none => rfl
              | some next => exact ih

theorem parseLines_offset {parsed : Request}
    (h : (parseLines fuel buffer line request).1 = some parsed) :
    parsed.bodyOffset = request.bodyOffset := by
  induction fuel generalizing buffer line request with
  | zero => cases h
  | succ fuel ih =>
      simp only [parseLines] at h
      split at h
      · cases h
        rfl
      split at h
      · cases h
      · rename_i stored cut hstore
        have hoffset := storeLine_offset (congrArg Prod.fst hstore)
        split at h
        · cases h
          exact hoffset
        · exact (ih h).trans hoffset

/-! ## The header block -/

/-- The lines of the block, cut up where the empty line's first byte was. -/
theorem parseRequest_front (front : Bytes)
    (hblock : headerEnd (front ++ [13, 10, 13, 10]) = some front.length) :
    ∃ (parsed : Option Request) (cut : Bytes), cut.length = front.length ∧
      (∀ request ∈ parsed, request.bodyOffset = front.length + 4) ∧
        ∀ back, parseRequest (front ++ [13, 10, 13, 10] ++ back) =
          (.ofOption (parsed.map (·.buffered back.length)),
            cut ++ 0 :: [10, 13, 10] ++ back) := by
  have hsearch : ∀ back : Bytes, headerEnd (front ++ [13, 10, 13, 10] ++ back) =
      some front.length := fun back => search_append hblock back
  have hset : ∀ back : Bytes, (front ++ [13, 10, 13, 10] ++ back).set front.length 0 =
      front ++ 0 :: ([10, 13, 10] ++ back) := by
    intro back
    simp
  have htext : ∀ back : Bytes, textAt (front ++ 0 :: back) 0 = textAt front 0 := fun back =>
    textAt_append (Nat.zero_le _)
  cases hline : lineEnd (textAt front 0) with
  | none =>
      refine ⟨none, front, rfl, by simp, fun back => ?_⟩
      simp only [parseRequest, hsearch, hset, htext, hline]
      simp [ParseResult.ofOption]
  | some next =>
      have hnext := lineEnd_le hline
      have hlength : (textAt front 0).length ≤ front.length := by
        simpa using @length_textAt front 0 (Nat.zero_le _)
      have hnextSet : ∀ back : Bytes, (front ++ 0 :: back).set next 0 =
          front.set next 0 ++ 0 :: back := fun back => List.set_append_left _ _ (by omega)
      have hcut : ∀ back : Bytes, textAt (front.set next 0 ++ 0 :: back) 0 =
          textAt (front.set next 0) 0 := fun back => textAt_append (Nat.zero_le _)
      cases hwords : scanRequestLine (textAt (front.set next 0) 0) with
      | none =>
          refine ⟨none, front.set next 0, List.length_set, by simp, fun back => ?_⟩
          simp only [parseRequest, hsearch, hset, htext, hline, hnextSet, hcut, hwords]
          simp [ParseResult.ofOption]
      | some words =>
          have hlines : ∀ (back : Bytes) (request : Request), _ := fun back request =>
            @parseLines_append (front.set next 0) back (next + 2) front.length request (by
              rw [List.length_set]
              omega)
          refine ⟨(parseLines front.length (front.set next 0) (next + 2)
              (startRequest words.1 words.2 (front.length + 4) 0)).1,
            (parseLines front.length (front.set next 0) (next + 2)
              (startRequest words.1 words.2 (front.length + 4) 0)).2, ?_, ?_, fun back => ?_⟩
          · exact (hlines [] _).2.trans List.length_set
          · intro request hrequest
            exact parseLines_offset hrequest
          · have hsize : (front ++ [13, 10, 13, 10] ++ back).length - (front.length + 4) =
                back.length := by
              simp only [List.length_append, List.length_cons, List.length_nil]
              omega
            have hstart : startRequest words.1 words.2 (front.length + 4) back.length =
                (startRequest words.1 words.2 (front.length + 4) 0).buffered back.length := rfl
            simp only [parseRequest, hsearch, hset, htext, hline, hnextSet, hcut, hwords, hsize,
              hstart, (hlines _ _).1, parseLines_buffered]
            simp

/-! ## Receiving -/

variable {arrivals later : List Arrival} {requested received : ℕ} {data block body : Bytes}

/-- The bytes that have come in. -/
def delivered : List Arrival → Bytes
  | [] => []
  | .interrupted :: arrivals => delivered arrivals
  | .bytes data :: arrivals => data ++ delivered arrivals

/-- The stream has not been closed. -/
def Open (arrivals : List Arrival) : Prop := Arrival.bytes [] ∉ arrivals

/-- What one `recv` does with arrivals of an open stream. -/
inductive Receives (requested : ℕ) (arrivals : List Arrival) :
    Received × List Arrival → Prop where
  | interrupted {later : List Arrival} (hdelivered : delivered later = delivered arrivals)
      (hopen : Open later) (hpending : pending later < pending arrivals) :
      Receives requested arrivals (.interrupted, later)
  | bytes {data : Bytes} {later : List Arrival}
      (hdelivered : data ++ delivered later = delivered arrivals) (hopen : Open later)
      (hpending : pending later < pending arrivals) (hne : data ≠ [])
      (hfits : data.length ≤ requested) : Receives requested arrivals (.bytes data, later)
  | failed (hdelivered : delivered arrivals = []) : Receives requested arrivals (.failed, [])

theorem recv_receives (hopen : Open arrivals) (hrequested : 0 < requested) :
    Receives requested arrivals (recv requested arrivals) := by
  cases arrivals with
  | nil => exact .failed rfl
  | cons arrival arrivals =>
      have hrest : Open arrivals := fun hmem => hopen (List.mem_cons_of_mem _ hmem)
      cases arrival with
      | interrupted => exact .interrupted rfl hrest (Nat.lt_succ_self _)
      | bytes data =>
          have hne : data ≠ [] := by
            rintro rfl
            exact hopen (List.mem_cons_self ..)
          rw [recv, if_neg hne]
          split
          · rename_i hfits
            exact .bytes rfl hrest (by simp only [pending]; omega) hne hfits
          · rename_i hlong
            have htake : (data.take requested).length = requested := by
              rw [List.length_take]
              omega
            refine .bytes ?_ ?_ ?_ ?_ ?_
            · rw [delivered, delivered, ← List.append_assoc, List.take_append_drop]
            · intro hmem
              rcases List.mem_cons.mp hmem with heq | hmem
              · have hnil := (Arrival.bytes.inj heq).symm
                rw [List.drop_eq_nil_iff] at hnil
                exact hlong hnil
              · exact hrest hmem
            · simp only [pending, List.length_drop]
              omega
            · intro hnil
              rw [hnil] at htake
              simp only [List.length_nil] at htake
              omega
            · exact htake.le

/-- However the block comes in, its fields are stored, and `count` bytes of the body with it. -/
theorem headersLoop_fields {parsed : Option Request} {cut : Bytes}
    (hparse : ∀ back, parseRequest (block ++ back) =
      (.ofOption (parsed.map (·.buffered back.length)), cut ++ back))
    (hshort : ∀ part, part <+: block → part.length < block.length →
      parseRequest part = (.more, part))
    (hblock : block.length ≤ FAST_UPLOAD_HEADER_BYTES) (hopen : Open arrivals)
    (hpending : pending arrivals < fuel) (hbuffer : buffer.length < block.length)
    (hstream : buffer ++ delivered arrivals = block ++ body) :
    ∃ count later, count ≤ body.length ∧ delivered later = body.drop count ∧ Open later ∧
      headersLoop fuel buffer arrivals =
        parsed.map fun request => (request.buffered count, cut ++ body.take count, later) := by
  induction fuel generalizing buffer arrivals with
  | zero => omega
  | succ fuel ih =>
      have hroom : ¬FAST_UPLOAD_HEADER_BYTES ≤ buffer.length := by omega
      rw [headersLoop, if_neg hroom]
      have hasked : 0 < FAST_UPLOAD_HEADER_BYTES - buffer.length := by omega
      have hreceives := recv_receives hopen hasked
      generalize recv (FAST_UPLOAD_HEADER_BYTES - buffer.length) arrivals = result at hreceives
      cases hreceives with
      | interrupted hdelivered hlater hless =>
          exact ih hlater (by omega) hbuffer (by rw [hdelivered, hstream])
      | failed hdelivered =>
          have hlength := congrArg List.length hstream
          rw [hdelivered, List.append_nil, List.length_append] at hlength
          omega
      | @bytes data later hdelivered hlater hless hne hfits =>
          have hjoined : (buffer ++ data) ++ delivered later = block ++ body := by
            rw [List.append_assoc, hdelivered, hstream]
          by_cases hmore : (buffer ++ data).length < block.length
          · have hpart : buffer ++ data <+: block := by
              have hwhole : buffer ++ data <+: block ++ body := by
                rw [← hjoined]
                exact List.prefix_append _ _
              exact List.prefix_of_prefix_length_le hwhole (List.prefix_append _ _) hmore.le
            simp only [hshort _ hpart hmore]
            exact ih hlater (by omega) hmore hjoined
          · obtain ⟨back, hback⟩ : block <+: buffer ++ data := by
              have hwhole : buffer ++ data <+: block ++ body := by
                rw [← hjoined]
                exact List.prefix_append _ _
              exact List.prefix_of_prefix_length_le (List.prefix_append _ _) hwhole
                (Nat.le_of_not_lt hmore)
            rw [← hback, List.append_assoc] at hjoined
            have hbody := List.append_cancel_left hjoined
            refine ⟨back.length, later, ?_, ?_, hlater, ?_⟩
            · rw [← hbody, List.length_append]
              exact Nat.le_add_right _ _
            · rw [← hbody, List.drop_left]
            · rw [← hbody, List.take_left]
              simp only [← hback, hparse]
              cases parsed with
              | none => rfl
              | some request => rfl

/-- The header block is read as if it came alone. -/
theorem receiveHeaders_block (hblock : headerEnd block = some stop)
    (hstop : stop + 4 = block.length) (hlength : block.length ≤ FAST_UPLOAD_HEADER_BYTES) :
    ∃ (parsed : Option Request) (cut : Bytes), cut.length = block.length ∧
      (∀ request ∈ parsed, request.bodyOffset = block.length) ∧
      (parseRequest block).1 = .ofOption (parsed.map (·.buffered 0)) ∧
      ∀ arrivals body, Open arrivals → delivered arrivals = block ++ body →
        ∃ count later, count ≤ body.length ∧ delivered later = body.drop count ∧ Open later ∧
          receiveHeaders arrivals =
            parsed.map fun request => (request.buffered count, cut ++ body.take count, later) := by
  obtain ⟨front, rest, hsplit, hfront⟩ := search_split hblock
  have hrest : rest = [] := by
    rw [hsplit] at hstop
    simp only [List.length_append, lineBreak, List.length_cons, List.length_nil] at hstop
    exact List.length_eq_zero_iff.mp (by omega)
  obtain rfl : block = front ++ [13, 10, 13, 10] := by
    rw [hsplit, hrest]
    rfl
  subst hfront
  obtain ⟨parsed, cut, hcut, hoffset, hparse⟩ := parseRequest_front front hblock
  refine ⟨parsed, cut ++ 0 :: [10, 13, 10], by simp [hcut], ?_, ?_, ?_⟩
  · intro request hrequest
    rw [hoffset request hrequest]
    simp
  · have hnothing := congrArg Prod.fst (hparse [])
    rwa [List.append_nil] at hnothing
  · intro arrivals body hopen hstream
    refine headersLoop_fields hparse ?_ hlength hopen (Nat.lt_succ_self _) ?_ hstream
    · intro part hpart hshort
      have hnone : headerEnd part = none := search_short hblock hstop hpart hshort
      simp only [parseRequest, hnone]
    · simp

/-! ## The body -/

variable {answers : Answers} {begun : Begun} {origin : CString} {contentLength : ℕ}
  {calls : List Call} {pieces : List Bytes}

def Call.isWrite : Call → Bool
  | .writeChunk .. => true
  | .writeDirect .. => true
  | _ => false

/-- The calls that hand over these pieces one after the other, `received` bytes into the body. -/
def writesOf (begun : Begun) : ℕ → List Bytes → List Call
  | _, [] => []
  | received, piece :: pieces =>
      writeCall begun received piece :: writesOf begun (received + piece.length) pieces

/-- Every write among the calls was answered with success. -/
def WritesSucceed (answers : Answers) (calls : List Call) : Prop :=
  ∀ call earlier, call :: earlier <:+ calls → call.isWrite = true →
    answers.succeeds (call :: earlier) = true

/-- Calls that were made after `calls`: all of `body` in pieces, then no more writes. -/
structure HandsOver (begun : Begun) (received : ℕ) (body : Bytes) (calls all : List Call) :
    Prop where
  handed : ∃ pieces ending,
    all.reverse = calls.reverse ++ writesOf begun received pieces ++ ending ∧
      pieces.flatten = body ∧ [] ∉ pieces ∧ ∀ call ∈ ending, call.isWrite = false

theorem writeCall_isWrite : (writeCall begun received data).isWrite = true := by
  simp only [writeCall]
  split <;> rfl

theorem finishStream_hands :
    HandsOver begun received [] calls (finishStream answers begun origin calls).calls := by
  simp only [finishStream]
  cases begun.chunk with
  | none =>
      exact ⟨[], [.finish begun.uploadId], by simp [writesOf], rfl, by simp,
        by simp [Call.isWrite]⟩
  | some chunk =>
      dsimp only
      split
      · exact ⟨[], [.finishChunk begun.uploadId chunk.1 chunk.2], by simp [writesOf], rfl,
          by simp, by simp [Call.isWrite]⟩
      · exact ⟨[], [.finishChunk begun.uploadId chunk.1 chunk.2,
          .abortChunk begun.uploadId chunk.1 chunk.2], by simp [writesOf], rfl, by simp,
          by simp [Call.isWrite]⟩

theorem HandsOver.write {all : List Call} (hne : data ≠ [])
    (h : HandsOver begun (received + data.length) body (writeCall begun received data :: calls)
      all) : HandsOver begun received (data ++ body) calls all := by
  obtain ⟨pieces, ending, hall, hbody, hpieces, hending⟩ := h.handed
  refine ⟨data :: pieces, ending, ?_, ?_, ?_, hending⟩
  · rw [hall, writesOf]
    simp
  · rw [List.flatten_cons, hbody]
  · exact fun hmem => (List.mem_cons.mp hmem).elim (fun heq => hne heq.symm) hpieces

theorem streamError_calls : ∃ call, (streamError begun calls).calls = call :: calls := by
  simp only [streamError]
  split
  · exact ⟨_, rfl⟩
  · exact ⟨_, rfl⟩

/-- A write that was answered with an error is the last one. -/
theorem write_succeeds (h : WritesSucceed answers
      (streamError begun (writeCall begun received data :: calls)).calls) :
    answers.succeeds (writeCall begun received data :: calls) = true := by
  obtain ⟨call, hcalls⟩ := @streamError_calls begun (writeCall begun received data :: calls)
  rw [hcalls] at h
  exact h _ _ (List.suffix_cons _ _) writeCall_isWrite

theorem bodyLoop_hands (hopen : Open arrivals) (hpending : pending arrivals < fuel)
    (hlength : received + (delivered arrivals).length = contentLength)
    (hwrites : WritesSucceed answers
      (bodyLoop answers begun origin contentLength fuel received buffer arrivals calls).calls) :
    HandsOver begun received (delivered arrivals) calls
      (bodyLoop answers begun origin contentLength fuel received buffer arrivals calls).calls := by
  induction fuel generalizing received buffer arrivals calls with
  | zero => omega
  | succ fuel ih =>
      rw [bodyLoop] at hwrites ⊢
      by_cases hdone : contentLength ≤ received
      · rw [if_pos hdone]
        have hnil : delivered arrivals = [] := List.length_eq_zero_iff.mp (by omega)
        rw [hnil]
        exact finishStream_hands
      rw [if_neg hdone] at hwrites ⊢
      have hasked : 0 < min (contentLength - received) FAST_UPLOAD_READ_BYTES := by
        simp only [FAST_UPLOAD_READ_BYTES]
        omega
      have hreceives := recv_receives hopen hasked
      generalize recv (min (contentLength - received) FAST_UPLOAD_READ_BYTES) arrivals = result
        at hreceives hwrites ⊢
      cases hreceives with
      | interrupted hdelivered hlater hless =>
          rw [← hdelivered]
          exact ih hlater (by omega) (by rw [hdelivered, hlength]) hwrites
      | failed hdelivered =>
          rw [hdelivered, List.length_nil] at hlength
          omega
      | @bytes data later hdelivered hlater hless hne hfits =>
          simp only [List.take_left] at hwrites ⊢
          by_cases hanswer :
              answers.succeeds (writeCall begun received data :: calls) = true
          · rw [if_pos hanswer] at hwrites ⊢
            rw [← hdelivered]
            apply HandsOver.write hne
            apply ih hlater (by omega) _ hwrites
            rw [← hdelivered, List.length_append] at hlength
            omega
          · rw [if_neg hanswer] at hwrites
            exact absurd (write_succeeds hwrites) hanswer

theorem streamBody_hands {cut : Bytes} (hopen : Open later) (hcount : count ≤ body.length)
    (hlater : delivered later = body.drop count) (hoffset : request.bodyOffset = cut.length)
    (hbuffered : request.bufferedBytes = count)
    (hdeclared : request.contentLength.toNat = body.length)
    (hwrites : WritesSucceed answers
      (streamBody answers begun request (cut ++ body.take count) later calls).calls) :
    HandsOver begun 0 body calls
      (streamBody answers begun request (cut ++ body.take count) later calls).calls := by
  have hfew : ¬body.length < count := by omega
  have hrest : count + (delivered later).length = body.length := by
    rw [hlater, List.length_drop]
    omega
  simp only [streamBody, hdeclared, hbuffered, hoffset, List.drop_left, List.take_take,
    Nat.min_self, if_neg hfew] at hwrites ⊢
  by_cases hpos : 0 < count
  · have hsize : (body.take count).length = count := by
      rw [List.length_take]
      omega
    have hne : body.take count ≠ [] := List.ne_nil_of_length_pos (by omega)
    rw [if_pos hpos] at hwrites ⊢
    by_cases hanswer : answers.succeeds (writeCall begun 0 (body.take count) :: calls) = true
    · rw [if_pos hanswer] at hwrites ⊢
      have hloop := bodyLoop_hands hopen (Nat.lt_succ_self _) hrest hwrites
      rw [hlater] at hloop
      have hsum : count = 0 + (body.take count).length := by rw [hsize, Nat.zero_add]
      generalize bodyLoop answers begun request.origin.text body.length (pending later).succ count
        (cut ++ body.take count) later (writeCall begun 0 (body.take count) :: calls) = ended
        at hloop ⊢
      have hwritten : HandsOver begun (0 + (body.take count).length) (body.drop count)
          (writeCall begun 0 (body.take count) :: calls) ended.calls := by rwa [← hsum]
      have hall := HandsOver.write hne hwritten
      rwa [List.take_append_drop] at hall
    · rw [if_neg hanswer] at hwrites
      exact absurd (write_succeeds hwrites) hanswer
  · obtain rfl : count = 0 := by omega
    rw [if_neg hpos] at hwrites ⊢
    rw [List.drop_zero] at hlater
    have hloop := bodyLoop_hands hopen (Nat.lt_succ_self _) hrest hwrites
    rwa [hlater] at hloop

/-! ## The connection -/

/-- The calls that open a stream, newest first. -/
def opening (begun : Begun) (call : Call) : List Call :=
  if begun.chunk = none then [.enableDirect begun.uploadId, call] else [call]

/-- The first call was answered with a stream, which is written directly if it is a whole file. -/
structure Begins (answers : Answers) (calls : List Call) (call : Call) (begun : Begun) : Prop where
  first : calls.getLast? = some call
  answered : answers.begin_ call = some begun
  direct : begun.chunk = none → answers.succeeds [.enableDirect begun.uploadId, call] = true

theorem HandsOver.first {call : Call} {all : List Call}
    (h : HandsOver begun received body (opening begun call) all) : all.getLast? = some call := by
  obtain ⟨pieces, ending, hall, -⟩ := h.handed
  rw [← List.head?_reverse, hall, opening]
  split <;> simp

theorem streamMain_hands {cut uiAuthority address : CString} {call : Call} {outcome : Outcome}
    (houtcome : outcome =
      streamMain answers uiAuthority address request (cut ++ body.take count) later)
    (hopen : Open later) (hcount : count ≤ body.length)
    (hlater : delivered later = body.drop count) (hoffset : request.bodyOffset = cut.length)
    (hbuffered : request.bufferedBytes = count)
    (hdeclared : request.contentLength.toNat = body.length)
    (hbegins : Begins answers outcome.calls call begun)
    (hwrites : WritesSucceed answers outcome.calls) :
    HandsOver begun 0 body (opening begun call) outcome.calls := by
  subst houtcome
  have hfirst := hbegins.first
  simp only [streamMain] at hfirst hwrites ⊢
  generalize Call.begin_ (routerRequest request uiAuthority address) request.hasContentLength
    request.contentLength = asked at hfirst hwrites ⊢
  cases hasked : answers.begin_ asked with
  | none =>
      simp only [hasked, List.getLast?_singleton, Option.some.injEq] at hfirst
      rw [hfirst, hbegins.answered] at hasked
      cases hasked
  | some stream =>
      simp only [hasked] at hfirst hwrites ⊢
      have hsame : asked = call → stream = begun := by
        rintro rfl
        rw [hbegins.answered] at hasked
        exact (Option.some.inj hasked).symm
      by_cases hchunk : stream.chunk = none
      · rw [if_pos hchunk] at hfirst hwrites ⊢
        by_cases hdirect : answers.succeeds [.enableDirect stream.uploadId, asked] = true
        · rw [if_pos hdirect] at hfirst hwrites ⊢
          have hhands := streamBody_hands hopen hcount hlater hoffset hbuffered hdeclared hwrites
          have hopening : [.enableDirect stream.uploadId, asked] = opening stream asked := by
            rw [opening, if_pos hchunk]
          rw [hopening] at hhands hfirst ⊢
          obtain rfl : asked = call := Option.some.inj (hhands.first.symm.trans hfirst)
          rwa [← hsame rfl]
        · rw [if_neg hdirect] at hfirst
          obtain rfl : asked = call := by simpa using hfirst
          obtain rfl := hsame rfl
          exact absurd (hbegins.direct hchunk) hdirect
      · rw [if_neg hchunk] at hfirst hwrites ⊢
        have hhands := streamBody_hands hopen hcount hlater hoffset hbuffered hdeclared hwrites
        have hopening : [asked] = opening stream asked := by rw [opening, if_neg hchunk]
        rw [hopening] at hhands hfirst ⊢
        obtain rfl : asked = call := Option.some.inj (hhands.first.symm.trans hfirst)
        rwa [← hsame rfl]

/-- Behind the headers a connection makes no call, or it streams. -/
theorem connectionMain_calls {uiPort boundPort : UInt16} {address : CString}
    (hheaders : receiveHeaders arrivals = some (request, buffer, later)) :
    (connectionMain answers uiPort boundPort address arrivals).calls = [] ∨
      ∃ uiAuthority, connectionMain answers uiPort boundPort address arrivals =
        streamMain answers uiAuthority address request buffer later := by
  simp only [connectionMain, hheaders]
  split
  · exact .inl rfl
  split
  · exact .inl rfl
  split
  · exact .inl rfl
  · exact .inr ⟨_, rfl⟩

/-- However the headers and the body are fragmented, the headers are read as if they came alone,
and a stream that begins and whose writes succeed is handed the body, piece by piece. -/
theorem connectionMain_fragmented (answers : Answers) (uiPort boundPort : UInt16)
    (address : CString) (block body : Bytes) (arrivals : List Arrival)
    (hblock : headerEnd block = some (block.length - 4))
    (hlength : block.length ≤ FAST_UPLOAD_HEADER_BYTES)
    (hdeclared : ∀ request, (parseRequest block).1 = .parsed request →
      request.contentLength.toNat = body.length)
    (hopen : Open arrivals) (hstream : delivered arrivals = block ++ body) :
    (receiveHeaders arrivals).map (·.1.buffered 0) =
        (receiveHeaders [.bytes block]).map (·.1) ∧
      ∀ call begun,
        Begins answers (connectionMain answers uiPort boundPort address arrivals).calls call
          begun →
        WritesSucceed answers (connectionMain answers uiPort boundPort address arrivals).calls →
        HandsOver begun 0 body (opening begun call)
          (connectionMain answers uiPort boundPort address arrivals).calls := by
  have hstop : block.length - 4 + 4 = block.length := by
    have hfits := search_le hblock
    simp only [lineBreak, List.length_append, List.length_cons, List.length_nil] at hfits
    omega
  obtain ⟨parsed, cut, hcut, hoffset, hparse, hreceive⟩ :=
    receiveHeaders_block hblock hstop hlength
  obtain ⟨count, later, hcount, hlater, hopenLater, hheaders⟩ :=
    hreceive arrivals body hopen hstream
  constructor
  · have halone : Open [.bytes block] := by
      intro hmem
      have hnil : block = [] := by simpa using hmem
      rw [hnil] at hstop
      simp at hstop
    obtain ⟨none, behind, hnone, -, -, hblockHeaders⟩ := hreceive [.bytes block] [] halone
      (by simp [delivered])
    obtain rfl : none = 0 := by simpa using hnone
    rw [hheaders, hblockHeaders]
    cases parsed <;> rfl
  · intro call begun hbegins hwrites
    cases parsed with
    | none =>
        have hfirst := hbegins.first
        simp [connectionMain, hheaders] at hfirst
    | some request =>
        have hrequest := hdeclared _ hparse
        have hcalls : (connectionMain answers uiPort boundPort address arrivals).calls = [] ∨
            ∃ authority, connectionMain answers uiPort boundPort address arrivals =
              streamMain answers authority address (request.buffered count)
                (cut ++ body.take count) later :=
          connectionMain_calls hheaders
        rcases hcalls with hnil | ⟨authority, hmain⟩
        · have hfirst := hbegins.first
          rw [hnil] at hfirst
          cases hfirst
        · exact streamMain_hands hmain hopenLater hcount hlater
            ((hoffset request rfl).trans hcut.symm) rfl hrequest hbegins hwrites

/-! A file of three bytes in five arrivals, with interruptions. -/
namespace Sample

def putHeaders : Bytes :=
  ascii "PUT / HTTP/1.1\r\nHost: ps5:8081\r\nOrigin: http://ps5:8080\r\nContent-Length: 3\r\n\r\n"

def putRequest : Request where
  method := ⟨ascii "PUT", by decide⟩
  path := ⟨ascii "/", by decide⟩
  host := ⟨ascii "ps5:8081", by decide⟩
  origin := ⟨ascii "http://ps5:8080", by decide⟩
  authorization := .zero 79
  contentType := .zero 63
  contentRange := .zero 127
  contentLength := 3
  hasContentLength := true
  bodyOffset := 78
  bufferedBytes := 0

def fragments : List Arrival :=
  [.bytes (putHeaders.take 20), .interrupted, .bytes (putHeaders.drop 20 ++ ascii "a"),
    .interrupted, .bytes (ascii "bc")]

def willing : Answers := ⟨fun _ => some ⟨ascii "id", none⟩, fun _ => true⟩

def putCall : Call :=
  .begin_ (routerRequest putRequest (ascii "ps5:8080") (ascii "10.0.0.2")) true 3

end Sample

open Sample in
theorem fragments_handed :
    (receiveHeaders fragments).map (·.1.buffered 0) = some putRequest ∧
      HandsOver ⟨ascii "id", none⟩ 0 (ascii "abc") (opening ⟨ascii "id", none⟩ putCall)
        (connectionMain willing 8080 8081 (ascii "10.0.0.2") fragments).calls := by
  have hparse : (parseRequest putHeaders).1 = .parsed putRequest := by decide +kernel
  have hdeclared : ∀ request, (parseRequest putHeaders).1 = .parsed request →
      request.contentLength.toNat = (ascii "abc").length := by
    intro request hrequest
    rw [hparse] at hrequest
    cases hrequest
    rfl
  obtain ⟨hfields, hhands⟩ := connectionMain_fragmented willing 8080 8081 (ascii "10.0.0.2")
    putHeaders (ascii "abc") fragments (by decide +kernel) (by decide +kernel) hdeclared
    (by decide +kernel : Arrival.bytes [] ∉ fragments) (by decide +kernel)
  constructor
  · rw [hfields]
    decide +kernel
  · exact hhands putCall ⟨ascii "id", none⟩ ⟨by decide +kernel, rfl, fun _ => rfl⟩
      fun _ _ _ _ => rfl

end LocalSend.FastUpload
