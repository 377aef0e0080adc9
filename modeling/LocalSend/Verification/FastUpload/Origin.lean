import LocalSend.Model.FastUpload.Request

/-! # The origin check

Which `Host` and `Origin` headers `validate_origin` takes for the receiver's own page. The
ports are read by `strtoull`, which skips blanks: behind one even a sign passes.
-/

namespace LocalSend.FastUpload

open Config SafePath Text
open Upload (isDigit)

variable {text rest host authority portText : CString} {port : UInt64}

/-! ## Numbers -/

/-- A port in digits. -/
structure DecimalPort (port : UInt16) (text : CString) : Prop where
  ne_nil : text ≠ []
  digits : ∀ byte ∈ text, isDigit byte = true
  value : digitsValue text = port.toNat

/-- A blank comes first. -/
def StartsBlank (text : CString) : Prop := ∃ byte ∈ text.head?, isSpace byte = true

theorem isDigit_bounds {byte : UInt8} :
    isDigit byte = true ↔ 48 ≤ byte.toNat ∧ byte.toNat ≤ 57 := by
  simp [isDigit, UInt8.le_iff_toNat_le]

theorem isSpace_bounds {byte : UInt8} :
    isSpace byte = true ↔ byte.toNat = 32 ∨ 9 ≤ byte.toNat ∧ byte.toNat ≤ 13 := by
  simp [isSpace, UInt8.le_iff_toNat_le, ← UInt8.toNat_inj]

/-- What stands in a number that `strtoull` takes whole. -/
theorem strtoull_bytes {number : ℕ} (h : strtoull text = some (number, [])) :
    ∀ byte ∈ text, isSpace byte = true ∨ byte = 45 ∨ byte = 43 ∨ isDigit byte = true := by
  unfold strtoull at h
  dsimp only at h
  generalize hskipped : text.dropWhile isSpace = skipped at h
  generalize hunsigned : (if peek skipped = 45 ∨ peek skipped = 43 then skipped.tail
    else skipped) = unsigned at h
  split at h
  · cases h
  simp only [Option.some.injEq, Prod.mk.injEq] at h
  have hwhole : unsigned.takeWhile isDigit = unsigned :=
    (List.takeWhile_prefix isDigit).eq_of_length_le (List.drop_eq_nil_iff.mp h.2)
  have hdigits : ∀ byte ∈ unsigned, isDigit byte = true := fun byte hbyte =>
    List.mem_takeWhile_imp (hwhole ▸ hbyte)
  intro byte hbyte
  rw [← List.takeWhile_append_dropWhile (p := isSpace) (l := text), List.mem_append,
    hskipped] at hbyte
  rcases hbyte with hblank | hbyte
  · exact .inl (List.mem_takeWhile_imp hblank)
  split at hunsigned
  · rename_i hsign
    cases skipped with
    | nil => simp at hbyte
    | cons sign digits =>
        rcases List.mem_cons.mp hbyte with rfl | hbyte
        · exact .inr (hsign.imp_right .inl)
        · exact .inr (.inr (.inr (hdigits byte (hunsigned ▸ hbyte))))
  · exact .inr (.inr (.inr (hdigits byte (hunsigned ▸ hbyte))))

theorem parseU64_bytes (h : parseU64 text = some port) :
    ∀ byte ∈ text, isSpace byte = true ∨ byte = 45 ∨ byte = 43 ∨ isDigit byte = true := by
  simp only [parseU64] at h
  split at h
  · cases h
  split at h
  · rename_i hparsed
    exact strtoull_bytes hparsed
  · cases h

/-- Neither a slash nor a colon stands in a number. -/
theorem parseU64_no_mark (h : parseU64 text = some port) : 47 ∉ text ∧ 58 ∉ text := by
  constructor
  · intro hmem
    exact absurd (parseU64_bytes h 47 hmem) (by decide)
  · intro hmem
    exact absurd (parseU64_bytes h 58 hmem) (by decide)

/-- Neither blank nor sign in front: only the digits are read. -/
theorem strtoull_unsigned (hblank : ¬StartsBlank text) (hsign : peek text ≠ 45 ∧ peek text ≠ 43) :
    strtoull text = if text.takeWhile isDigit = [] ∨ 2 ^ 64 ≤ digitsValue (text.takeWhile isDigit)
      then none
      else some (digitsValue (text.takeWhile isDigit),
        text.drop (text.takeWhile isDigit).length) := by
  have hskip : text.dropWhile isSpace = text := by
    cases text with
    | nil => rfl
    | cons first rest =>
        have hspace : isSpace first = false := by
          rw [Bool.eq_false_iff]
          exact fun hspace => hblank ⟨first, rfl, hspace⟩
        simp [hspace]
  unfold strtoull
  simp only [hskip, hsign.1, hsign.2, or_self, if_false]

/-- A digit is neither a blank nor a sign. -/
theorem digits_first (hne : text ≠ []) (h : ∀ byte ∈ text, isDigit byte = true) :
    ¬StartsBlank text ∧ peek text ≠ 45 ∧ peek text ≠ 43 := by
  cases text with
  | nil => exact absurd rfl hne
  | cons first rest =>
      have hfirst := h first (List.mem_cons_self ..)
      refine ⟨?_, ?_, ?_⟩
      · rintro ⟨byte, hbyte, hblank⟩
        obtain rfl : first = byte := by simpa using hbyte
        rw [isSpace_bounds] at hblank
        rw [isDigit_bounds] at hfirst
        omega
      · rintro hminus
        rw [show first = 45 from hminus] at hfirst
        exact absurd hfirst (by decide)
      · rintro hplus
        rw [show first = 43 from hplus] at hfirst
        exact absurd hfirst (by decide)

/-- What is read of a port without a blank in front is its value in digits. -/
theorem parseU64_decimal {port : UInt16} :
    DecimalPort port text ↔ parseU64 text = some port.toUInt64 ∧ ¬StartsBlank text := by
  constructor
  · intro h
    obtain ⟨hblank, hsign⟩ := digits_first h.ne_nil h.digits
    have hbound := port.toNat_lt
    have hwhole : text.takeWhile isDigit = text := List.takeWhile_eq_self_iff.mpr h.digits
    have hread : strtoull text = some (port.toNat, []) := by
      rw [strtoull_unsigned hblank hsign, hwhole, h.value, if_neg, List.drop_length]
      exact not_or.mpr ⟨h.ne_nil, by omega⟩
    refine ⟨?_, hblank⟩
    rw [parseU64, if_neg (by simp [h.ne_nil, hsign]), hread]
    simp
  · rintro ⟨hparse, hblank⟩
    simp only [parseU64] at hparse
    split at hparse
    · cases hparse
    rename_i hfirst
    simp only [not_or] at hfirst
    split at hparse
    · rename_i number hnumber
      rw [strtoull_unsigned hblank hfirst.2] at hnumber
      split at hnumber
      · cases hnumber
      rename_i hrange
      simp only [not_or, not_le] at hrange
      simp only [Option.some.injEq, Prod.mk.injEq] at hnumber
      have hwhole : text.takeWhile isDigit = text :=
        (List.takeWhile_prefix isDigit).eq_of_length_le (List.drop_eq_nil_iff.mp hnumber.2)
      rw [hwhole] at hnumber hrange
      refine ⟨hfirst.1, List.takeWhile_eq_self_iff.mp hwhole, ?_⟩
      have hvalue := congrArg UInt64.toNat (Option.some.inj hparse)
      rw [← hnumber.1, UInt64.toNat_ofNat_of_lt' hrange.2] at hvalue
      simpa using hvalue
    · cases hparse

/-! ## Authorities -/

/-- A host: in brackets up to its first closing one, or without a colon. -/
structure Host (host : CString) : Prop where
  ne_nil : host ≠ []
  short : host.length < 256
  bracket : host.head? = some 91 → ∃ inner, host = inner ++ [93] ∧ 93 ∉ inner
  plain : host.head? ≠ some 91 → 58 ∉ host

theorem peek_eq_head {text : CString} (h : text ≠ []) {byte : UInt8} :
    peek text = byte ↔ text.head? = some byte := by
  cases text with
  | nil => exact absurd rfl h
  | cons first rest => simp [peek]

/-- The host and the port's text, before either is checked. -/
theorem authority_split {parts : CString × CString}
    (h : (if peek authority = 91 then
        match authority.drop (authority.takeWhile (· ≠ 93)).length with
        | 93 :: 58 :: portText => some (authority.takeWhile (· ≠ 93) ++ [93], portText)
        | _ => none
      else
        match cut 58 authority with
        | some (host, portText) => if 58 ∈ portText then none else some (host, portText)
        | none => none) = some parts) :
    authority = parts.1 ++ 58 :: parts.2 ∧
      (parts.1.head? = some 91 → ∃ inner, parts.1 = inner ++ [93] ∧ 93 ∉ inner) ∧
        (parts.1.head? ≠ some 91 → 58 ∉ parts.1) := by
  split at h
  · rename_i hbracket
    split at h
    · rename_i portText hdrop
      cases h
      have hauthority : authority = authority.takeWhile (· ≠ 93) ++ 93 :: 58 :: portText := by
        rw [← hdrop]
        exact (List.prefix_iff_eq_append.mp (List.takeWhile_prefix _)).symm
      have hhead : (authority.takeWhile (· ≠ 93) ++ [93]).head? = some 91 := by
        cases authority with
        | nil => simp [peek] at hbracket
        | cons first rest =>
            have hfirst : first = 91 := hbracket
            simp [hfirst]
      refine ⟨by simpa using hauthority, fun _ => ⟨_, rfl, fun hmem => ?_⟩,
        fun hne => absurd hhead hne⟩
      simpa using List.mem_takeWhile_imp hmem
    · cases h
  · rename_i hbracket
    split at h
    · rename_i host portText hcut
      split at h
      · cases h
      cases h
      obtain ⟨rfl, hhost⟩ := cut_eq_some hcut
      refine ⟨rfl, fun hhead => ?_, fun _ => hhost⟩
      obtain ⟨rest, rfl⟩ := List.head?_eq_some_iff.mp hhead
      exact absurd rfl hbracket
    · cases h

theorem splitAuthority_iff : splitAuthority authority 256 = some (host, port) ↔
    ∃ portText, authority = host ++ 58 :: portText ∧ Host host ∧
      parseU64 portText = some port ∧ port ≤ 65535 := by
  constructor
  · intro h
    simp only [splitAuthority] at h
    split at h
    · cases h
    rename_i found portText hsplit
    obtain ⟨hauthority, hbracket, hplain⟩ := authority_split hsplit
    split at h
    · cases h
    rename_i hlength
    rw [not_or, not_le] at hlength
    split at h
    · cases h
    rename_i number hnumber
    split at h
    · cases h
    rename_i hrange
    cases h
    refine ⟨portText, hauthority, ⟨?_, hlength.2, hbracket, hplain⟩, hnumber, ?_⟩
    · exact fun hnil => hlength.1 (by simp [hnil])
    · exact UInt64.not_lt.mp hrange
  · rintro ⟨portText, rfl, hhost, hnumber, hrange⟩
    have hlength : ¬(host.length = 0 ∨ 256 ≤ host.length) := by
      have hpos := List.length_pos_iff.mpr hhost.ne_nil
      have hshort := hhost.short
      omega
    have hrange : ¬65535 < port := UInt64.not_lt.mpr hrange
    have hpeek : peek (host ++ 58 :: portText) = peek host := by
      cases host with
      | nil => exact absurd rfl hhost.ne_nil
      | cons first rest => rfl
    simp only [splitAuthority, hpeek, peek_eq_head hhost.ne_nil]
    by_cases hbracket : host.head? = some 91
    · obtain ⟨inner, rfl, hinner⟩ := hhost.bracket hbracket
      have htake : (inner ++ [93] ++ 58 :: portText).takeWhile (· ≠ 93) = inner := by
        rw [List.append_assoc, List.takeWhile_append_of_pos]
        · simp
        · intro byte hbyte
          simp only [decide_eq_true_eq]
          rintro rfl
          exact hinner hbyte
      rw [if_pos hbracket, htake]
      simp [hnumber, hrange] at hlength ⊢
      omega
    · have hmark := (parseU64_no_mark hnumber).2
      rw [if_neg hbracket, cut_append (hhost.plain hbracket)]
      simp only [hmark, if_false]
      rw [if_neg hlength, hnumber]
      exact if_neg hrange

/-! ## The two headers -/

/-- An origin and a host name the same machine, each with the port its own text is read as. -/
inductive SameMachine (Ports : CString → CString → Prop) : CString → CString → Prop where
  | mk {originHost originPort requestHost requestPort} (horigin : Host originHost)
      (hslash : 47 ∉ originHost) (hrequest : Host requestHost)
      (hsame : sameIgnoringCase originHost requestHost = true)
      (hports : Ports originPort requestPort) :
      SameMachine Ports (originPrefix ++ (originHost ++ 58 :: originPort))
        (requestHost ++ 58 :: requestPort)

theorem SameMachine.mono {Ports Others : CString → CString → Prop} {origin host : CString}
    (h : SameMachine Ports origin host)
    (hports : ∀ originPort requestPort, Ports originPort requestPort →
      Others originPort requestPort) : SameMachine Others origin host := by
  cases h with
  | mk horigin hslash hrequest hsame hpair =>
      exact .mk horigin hslash hrequest hsame (hports _ _ hpair)

/-- The ports are those of the page and of the fast upload server, in digits. -/
def InDigits (uiPort boundPort : UInt16) (originPort requestPort : CString) : Prop :=
  DecimalPort uiPort originPort ∧ DecimalPort boundPort requestPort

/-- The ports as `parse_u64` reads them. -/
def Read (uiPort boundPort : UInt16) (originPort requestPort : CString) : Prop :=
  parseU64 originPort = some uiPort.toUInt64 ∧ parseU64 requestPort = some boundPort.toUInt64

/-- They are so read, and one of them starts with a blank. -/
def ReadBehindBlank (uiPort boundPort : UInt16) (originPort requestPort : CString) : Prop :=
  Read uiPort boundPort originPort requestPort ∧
    (StartsBlank originPort ∨ StartsBlank requestPort)

variable {uiPort boundPort : UInt16} {request : Request}

theorem inDigits_iff {originPort requestPort : CString} :
    InDigits uiPort boundPort originPort requestPort ↔
      Read uiPort boundPort originPort requestPort ∧
        ¬(StartsBlank originPort ∨ StartsBlank requestPort) := by
  simp only [InDigits, Read, parseU64_decimal]
  tauto

theorem toUInt64_le (port : UInt16) : port.toUInt64 ≤ 65535 := by
  rw [UInt64.le_iff_toNat_le, UInt16.toNat_toUInt64]
  exact Nat.le_of_lt_succ port.toNat_lt

/-- `validate_origin` with the ports as they are read. -/
theorem validateOrigin_read : (validateOrigin uiPort boundPort request).isSome = true ↔
    SameMachine (Read uiPort boundPort) request.origin.text request.host.text := by
  constructor
  · intro h
    simp only [validateOrigin] at h
    split at h
    · cases h
    rename_i hprefix
    rw [ne_eq, not_not] at hprefix
    split at h
    · cases h
    rename_i hslash
    split at h
    · rename_i originHost originPort requestHost requestPort hfirst hsecond
      obtain ⟨originText, horigin, hhost, hnumber, -⟩ := splitAuthority_iff.mp hfirst
      obtain ⟨requestText, hrequest, hhost', hnumber', -⟩ := splitAuthority_iff.mp hsecond
      split at h
      · cases h
      rename_i hequal
      simp only [not_or, not_not] at hequal
      obtain ⟨rfl, rfl, hsame⟩ := hequal
      have htext : request.origin.text = originPrefix ++ (originHost ++ 58 :: originText) := by
        rw [← horigin]
        exact (List.prefix_iff_eq_append.mp (List.prefix_iff_eq_take.mpr hprefix.symm)).symm
      rw [htext, hrequest]
      rw [horigin, List.mem_append, not_or] at hslash
      exact .mk hhost hslash.1 hhost' hsame ⟨hnumber, hnumber'⟩
    · cases h
  · intro h
    generalize horigin : request.origin.text = origin at h
    generalize hrequest : request.host.text = host at h
    cases h with
    | mk hhost hslash hhost' hsame hports =>
        have hfirst := splitAuthority_iff.mpr ⟨_, rfl, hhost, hports.1, toUInt64_le uiPort⟩
        have hsecond := splitAuthority_iff.mpr ⟨_, rfl, hhost', hports.2, toUInt64_le boundPort⟩
        have hmark := (parseU64_no_mark hports.1).1
        have hfits := request.origin.fits
        rw [horigin, List.length_append] at hfits
        simp only [validateOrigin, horigin, hrequest, List.take_left, List.drop_left, ne_eq,
          not_true_eq_false, if_false, List.mem_append, List.mem_cons, hslash, hmark, hfirst,
          hsecond, hsame]
        rw [if_neg (by simp), if_neg (by simp), dif_pos (by omega)]
        rfl

/-- The port's text is what stands behind the last colon. -/
theorem portText_unique {first second one two : CString}
    (h : first ++ 58 :: one = second ++ 58 :: two) (hone : 58 ∉ one) (htwo : 58 ∉ two) :
    one = two := by
  have hcut : ∀ {host port : CString}, 58 ∉ port →
      cut 58 (host ++ 58 :: port).reverse = some (port.reverse, host.reverse) := by
    intro host port hport
    have hreverse : 58 ∉ port.reverse := by simpa using hport
    simpa using cut_append hreverse host.reverse
  have heq : some (one.reverse, first.reverse) = some (two.reverse, second.reverse) := by
    rw [← hcut hone, ← hcut htwo, h]
  simpa using (Prod.mk.inj (Option.some.inj heq)).1

theorem read_unique {origin host : CString}
    (hdigits : SameMachine (InDigits uiPort boundPort) origin host)
    (hblank : SameMachine (ReadBehindBlank uiPort boundPort) origin host) : False := by
  cases hdigits with
  | @mk originHost originPort requestHost requestPort _ _ _ _ hports =>
      generalize horigin : originPrefix ++ (originHost ++ 58 :: originPort) = origin at hblank
      generalize hrequest : requestHost ++ 58 :: requestPort = host at hblank
      cases hblank with
      | mk _ _ _ _ hblank =>
          obtain ⟨hread, hfree⟩ := inDigits_iff.mp hports
          obtain ⟨hread', hstarts⟩ := hblank
          have hfirst := portText_unique (List.append_cancel_left horigin)
            (parseU64_no_mark hread.1).2 (parseU64_no_mark hread'.1).2
          have hsecond := portText_unique hrequest (parseU64_no_mark hread.2).2
            (parseU64_no_mark hread'.2).2
          rw [hfirst, hsecond] at hfree
          exact hfree hstarts

/-- Exactly the requests with a blank in front of a port, acceptable otherwise, are taken against
the rule that ports are digits. -/
theorem validateOrigin_iff (uiPort boundPort : UInt16) (request : Request) :
    ((validateOrigin uiPort boundPort request).isSome = true ↔
      SameMachine (InDigits uiPort boundPort) request.origin.text request.host.text) ↔
    ¬SameMachine (ReadBehindBlank uiPort boundPort) request.origin.text request.host.text := by
  rw [validateOrigin_read]
  constructor
  · intro hagree hblank
    exact read_unique (hagree.mp (hblank.mono fun _ _ h => h.1)) hblank
  · intro hfree
    constructor
    · intro hread
      generalize horigin : request.origin.text = origin at hread hfree
      generalize hrequest : request.host.text = host at hread hfree
      cases hread with
      | mk hhost hslash hhost' hsame hports =>
          refine .mk hhost hslash hhost' hsame (inDigits_iff.mpr ⟨hports, fun hstarts => ?_⟩)
          exact hfree (.mk hhost hslash hhost' hsame ⟨hports, hstarts⟩)
    · intro hdigits
      exact hdigits.mono fun _ _ h => (inDigits_iff.mp h).1

/-! A page on port 8080 whose port stands behind a blank. -/
namespace Sample

def spacedHeaders : Bytes :=
  ascii "PUT / HTTP/1.1\r\nHost: ps5:8081\r\nOrigin: http://ps5: 8080\r\n\r\n"

theorem fits_put : (ascii "PUT").length < 8 := by decide

theorem fits_slash : (ascii "/").length < ROUTER_MAX_PATH_BYTES + 1 := by decide

theorem fits_console : (ascii "ps5:8081").length < 264 := by decide

theorem fits_spaced : (ascii "http://ps5: 8080").length < 264 := by decide

def spacedRequest : Request where
  method := ⟨ascii "PUT", fits_put⟩
  path := ⟨ascii "/", fits_slash⟩
  host := ⟨ascii "ps5:8081", fits_console⟩
  origin := ⟨ascii "http://ps5: 8080", fits_spaced⟩
  authorization := .zero 79
  contentType := .zero 63
  contentRange := .zero 127
  contentLength := 0
  hasContentLength := false
  bodyOffset := 60
  bufferedBytes := 0

end Sample

open Sample in
theorem validateOrigin_blank : (parseRequest spacedHeaders).1 = .parsed spacedRequest ∧
    ¬((validateOrigin 8080 8081 spacedRequest).isSome = true ↔
      SameMachine (InDigits 8080 8081) spacedRequest.origin.text spacedRequest.host.text) := by
  refine ⟨by decide +kernel, fun hagree => ?_⟩
  have hdigits := hagree.mp (by decide +kernel)
  generalize horigin : spacedRequest.origin.text = origin at hdigits
  generalize hrequest : spacedRequest.host.text = host at hdigits
  cases hdigits with
  | @mk originHost originPort _ _ _ _ _ _ hports =>
      have htext : originPrefix ++ (ascii "ps5" ++ 58 :: ascii " 8080") =
          originPrefix ++ (originHost ++ 58 :: originPort) := by
        rw [← horigin]
        rfl
      have hmark : 58 ∉ originPort := fun hmem => absurd (hports.1.digits 58 hmem) (by decide)
      have hport := portText_unique (List.append_cancel_left htext) (by decide) hmark
      exact absurd (hports.1.digits 32 (by rw [← hport]; decide)) (by decide)

end LocalSend.FastUpload
