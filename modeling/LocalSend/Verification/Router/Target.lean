import LocalSend.Model.Router.Request
import LocalSend.Verification.Auth.Json

/-! # The storage request's body

The body is read with the blanks of `isspace`, of which JSON knows all but two: a vertical
tab or a form feed between the tokens passes here and nowhere else.
-/

namespace LocalSend.Routing

open Braced Json Config

variable {body rest : Bytes} {value : CString}

/-! ## The grammar -/

/-- An identifier of a storage target. -/
def TargetValue (value : CString) : Prop :=
  1 ≤ value.length ∧ value.length ≤ 31 ∧
    ∀ byte ∈ value, isAlnum byte = true ∨ byte = 95 ∨ byte = 45

/-- Only blanks. -/
def Blanks (blank : UInt8 → Bool) (text : Bytes) : Prop := ∀ byte ∈ text, blank byte = true

/-- One object with the single member `target`, with blanks around each of its tokens. -/
inductive TargetObject (blank : UInt8 → Bool) (value : CString) : Bytes → Prop where
  | mk {before opened named split valued after} (hbefore : Blanks blank before)
      (hopened : Blanks blank opened) (hnamed : Blanks blank named) (hsplit : Blanks blank split)
      (hvalued : Blanks blank valued) (hafter : Blanks blank after) (hvalue : TargetValue value) :
      TargetObject blank value
        (before ++ 123 :: (opened ++ (quoted (ascii "target") ++ (named ++ 58 ::
          (split ++ (quoted value ++ (valued ++ 125 :: after)))))))

theorem comma_ne_brace : (44 : UInt8) ≠ 125 := by decide

/-- The punctuation as `parse_storage_target` reads it. -/
def spaceMarks : Marks UInt8 := ⟨isSpace, 123, 44, 125, rfl, rfl, rfl, comma_ne_brace⟩

theorem skipJsonWhitespace_eq (input : Bytes) : skipJsonWhitespace input = spaceMarks.skip input :=
  rfl

/-- A token behind blanks is what is left of them. -/
theorem skipJsonWhitespace_blanks {blanks : Bytes} (hblanks : Blanks isSpace blanks)
    {symbol : UInt8} (hsymbol : isSpace symbol = false) (rest : Bytes) :
    skipJsonWhitespace (blanks ++ symbol :: rest) = symbol :: rest := by
  have hmarked : spaceMarks.Blank blanks := hblanks
  have hopen : spaceMarks.blank symbol = false := hsymbol
  rw [skipJsonWhitespace_eq, skip_blank hmarked, skip_symbol hopen]

/-! ## Strings -/

/-- `parse_json_string_token` takes what `parse_literal_string` takes. -/
theorem jsonTokenLoop_eq (capacity : ℕ) (output : CString) (input : Bytes) :
    jsonTokenLoop capacity output input = Auth.literalLoop capacity output input := by
  induction input generalizing output with
  | nil => rfl
  | cons byte input ih =>
      by_cases hquote : byte = 34
      · subst hquote
        rfl
      · rw [Auth.literalLoop, if_neg hquote, jsonTokenLoop]
        · simp only [ih, or_left_comm]
        · exact hquote

theorem parseJsonStringToken_eq (capacity : ℕ) (input : Bytes) :
    parseJsonStringToken capacity input = Auth.parseLiteralString capacity input := by
  cases input with
  | nil => rfl
  | cons byte input =>
      by_cases hquote : byte = 34
      · subst hquote
        exact jsonTokenLoop_eq capacity [] input
      · rw [Auth.parseLiteralString, if_neg hquote, parseJsonStringToken]
        simpa using hquote

theorem parseJsonStringToken_iff {capacity : ℕ} (hcapacity : 0 < capacity) {input : Bytes} :
    parseJsonStringToken capacity input = some (value, rest) ↔
      Plain value ∧ value.length < capacity ∧ input = quoted value ++ rest := by
  rw [parseJsonStringToken_eq, Auth.parseLiteralString_iff hcapacity]

/-- The bytes of an identifier stand for themselves. -/
theorem TargetValue.plain (h : TargetValue value) : Plain value := by
  intro byte hbyte
  have hrange := h.2.2 byte hbyte
  simp only [isAlnum, Upload.isDigit, decide_eq_true_eq, UInt8.le_iff_toNat_le, ← UInt8.toNat_inj,
    UInt8.reduceToNat] at hrange
  simp only [UInt8.le_iff_toNat_le, ne_eq, ← UInt8.toNat_inj, UInt8.reduceToNat]
  omega

theorem plain_target : Plain (ascii "target") := by
  simp only [Plain]
  decide +kernel

/-! ## The parser -/

/-- The blanks in front of a token. -/
theorem skipped_symbol {input : Bytes} {symbol : UInt8}
    (h : skipJsonWhitespace input = symbol :: rest) :
    ∃ blanks, Blanks isSpace blanks ∧ input = blanks ++ symbol :: rest := by
  obtain ⟨blanks, hblanks, hinput⟩ := skip_split spaceMarks input
  exact ⟨blanks, hblanks, by rw [← h]; exact hinput⟩

theorem skipped_quoted {input text : Bytes}
    (h : skipJsonWhitespace input = quoted text ++ rest) :
    ∃ blanks, Blanks isSpace blanks ∧ input = blanks ++ (quoted text ++ rest) :=
  skipped_symbol h

theorem skipJsonWhitespace_quoted {blanks : Bytes} (hblanks : Blanks isSpace blanks)
    (text rest : Bytes) :
    skipJsonWhitespace (blanks ++ (quoted text ++ rest)) = quoted text ++ rest :=
  skipJsonWhitespace_blanks hblanks rfl _

theorem skipJsonWhitespace_nil {text : Bytes} :
    skipJsonWhitespace text = [] ↔ Blanks isSpace text :=
  List.dropWhile_eq_nil_iff

theorem parseStorageTarget_sound (h : parseStorageTarget (some body) = some value) :
    TargetObject isSpace value body := by
  simp only [parseStorageTarget] at h
  split at h
  · rename_i inner hopening
    obtain ⟨before, hbefore, rfl⟩ := skipped_symbol hopening
    simp only [parseTargetMember] at h
    split at h
    · cases h
    rename_i key behind hkey
    obtain ⟨-, -, hkey⟩ := (parseJsonStringToken_iff (by decide)).mp hkey
    obtain ⟨opened, hopened, rfl⟩ := skipped_quoted hkey
    split at h
    · cases h
    rename_i hname
    rw [ne_eq, not_not] at hname
    split at h
    · rename_i behind hcolon
      obtain ⟨named, hnamed, rfl⟩ := skipped_symbol hcolon
      split at h
      · cases h
      rename_i target behind htarget
      obtain ⟨-, hlength, htarget⟩ := (parseJsonStringToken_iff (by decide)).mp htarget
      obtain ⟨split, hsplit, rfl⟩ := skipped_quoted htarget
      split at h
      · rename_i after hclosing
        obtain ⟨valued, hvalued, rfl⟩ := skipped_symbol hclosing
        split at h
        · cases h
        rename_i hrest
        rw [not_or, not_not] at hrest
        split at h
        · rename_i hbytes
          cases h
          have hpos : 0 < value.length := List.length_pos_iff.mpr hrest.2
          have hbound : value.length < 32 := hlength
          rw [hname]
          exact .mk hbefore hopened hnamed hsplit hvalued (skipJsonWhitespace_nil.mp hrest.1)
            ⟨hpos, by omega, by simpa using hbytes⟩
        · cases h
      · cases h
    · cases h
  · cases h

theorem parseStorageTarget_complete (h : TargetObject isSpace value body) :
    parseStorageTarget (some body) = some value := by
  cases h with
  | mk hbefore hopened hnamed hsplit hvalued hafter hvalue =>
      have hkey : ∀ behind : Bytes, parseJsonStringToken 16 (quoted (ascii "target") ++ behind) =
          some (ascii "target", behind) := fun behind =>
        (parseJsonStringToken_iff (by decide)).mpr ⟨plain_target, by decide, rfl⟩
      have hlength : value.length < CONFIG_STORAGE_ID_CAPACITY :=
        Nat.lt_succ_of_le hvalue.2.1
      have htarget : ∀ behind : Bytes,
          parseJsonStringToken CONFIG_STORAGE_ID_CAPACITY (quoted value ++ behind) =
            some (value, behind) := fun behind =>
        (parseJsonStringToken_iff (by decide)).mpr ⟨hvalue.plain, hlength, rfl⟩
      have hne : value ≠ [] := List.ne_nil_of_length_pos hvalue.1
      have hend := skipJsonWhitespace_nil.mpr hafter
      simp [parseStorageTarget, parseTargetMember, hkey, htarget, hne, hend,
        skipJsonWhitespace_blanks hbefore, skipJsonWhitespace_quoted hopened,
        skipJsonWhitespace_blanks hnamed, skipJsonWhitespace_quoted hsplit,
        skipJsonWhitespace_blanks hvalued, show isSpace 123 = false from rfl,
        show isSpace 58 = false from rfl, show isSpace 125 = false from rfl]
      intro byte hbyte halnum hunderscore
      exact ((hvalue.2.2 byte hbyte).resolve_left (by simp [halnum])).resolve_left hunderscore

/-- What the parser accepts: the object with the blanks of `isspace`. -/
theorem parseStorageTarget_eq_some :
    parseStorageTarget (some body) = some value ↔ TargetObject isSpace value body :=
  ⟨parseStorageTarget_sound, parseStorageTarget_complete⟩

/-! ## Vertical tabs and form feeds -/

/-- A vertical tab or a form feed turned into a space. -/
def spaced (byte : UInt8) : UInt8 := if byte = 11 ∨ byte = 12 then 32 else byte

theorem isBlank_spaced (byte : UInt8) : isBlank (spaced byte) = isSpace byte := by
  have hbytes : ∀ value < 256, isBlank (spaced (.ofNat value)) = isSpace (.ofNat value) := by
    decide +kernel
  simpa using hbytes byte.toNat byte.toNat_lt

/-- A text without them is its own image. -/
theorem map_spaced {text : Bytes} (h : 11 ∉ text ∧ 12 ∉ text) : text.map spaced = text := by
  have hself : ∀ byte ∈ text, spaced byte = byte := by
    intro byte hbyte
    have htab : byte ≠ 11 := fun heq => h.1 (heq ▸ hbyte)
    have hfeed : byte ≠ 12 := fun heq => h.2 (heq ▸ hbyte)
    simp [spaced, htab, hfeed]
  simpa using List.map_congr_left hself

theorem blanks_spaced (text : Bytes) : Blanks isBlank (text.map spaced) ↔ Blanks isSpace text := by
  simp [Blanks, isBlank_spaced]

/-- Neither is a JSON blank. -/
theorem Blanks.no_tab {text : Bytes} (h : Blanks isBlank text) : 11 ∉ text ∧ 12 ∉ text :=
  ⟨fun hmem => absurd (h 11 hmem) (by decide), fun hmem => absurd (h 12 hmem) (by decide)⟩

/-- No byte of a string is one either. -/
theorem quoted_no_tab {text : Bytes} (h : Plain text) : 11 ∉ quoted text ∧ 12 ∉ quoted text := by
  constructor
  · intro hmem
    exact absurd (h 11 (by simpa [quoted] using hmem)).1 (by decide)
  · intro hmem
    exact absurd (h 12 (by simpa [quoted] using hmem)).1 (by decide)

theorem TargetObject.no_tab (h : TargetObject isBlank value body) : 11 ∉ body ∧ 12 ∉ body := by
  cases h with
  | mk hbefore hopened hnamed hsplit hvalued hafter hvalue =>
      simp [hbefore.no_tab, hopened.no_tab, hnamed.no_tab, hsplit.no_tab, hvalued.no_tab,
        hafter.no_tab, quoted_no_tab plain_target, quoted_no_tab hvalue.plain]

theorem spaced_eq {byte symbol : UInt8} (h : spaced byte = symbol) (hsymbol : symbol ≠ 32) :
    byte = symbol := by
  by_cases htab : byte = 11 ∨ byte = 12
  · rw [spaced, if_pos htab] at h
    exact absurd h.symm hsymbol
  · rwa [spaced, if_neg htab] at h

/-- A token without spaces is its own only preimage. -/
theorem map_spaced_eq {text token : Bytes} (h : text.map spaced = token) (htoken : 32 ∉ token) :
    text = token := by
  induction text generalizing token with
  | nil => exact h
  | cons byte text ih =>
      subst h
      simp only [List.map_cons, List.mem_cons, not_or] at htoken
      rw [List.map_cons, ← spaced_eq rfl (Ne.symm htoken.1), ← ih rfl htoken.2]

theorem TargetObject.spaced_of (h : TargetObject isSpace value body) :
    TargetObject isBlank value (body.map spaced) := by
  cases h with
  | mk hbefore hopened hnamed hsplit hvalued hafter hvalue =>
      simp only [List.map_append, List.map_cons, map_spaced (quoted_no_tab plain_target),
        map_spaced (quoted_no_tab hvalue.plain)]
      exact .mk ((blanks_spaced _).mpr hbefore) ((blanks_spaced _).mpr hopened)
        ((blanks_spaced _).mpr hnamed) ((blanks_spaced _).mpr hsplit)
        ((blanks_spaced _).mpr hvalued) ((blanks_spaced _).mpr hafter) hvalue

/-- No token has a space. -/
theorem TargetValue.no_space (h : TargetValue value) : 32 ∉ quoted value := by
  intro hmem
  have hbyte : (32 : UInt8) ∈ value := by simpa [quoted] using hmem
  exact absurd (h.2.2 32 hbyte) (by decide)

theorem TargetObject.of_spaced (h : TargetObject isBlank value (body.map spaced)) :
    TargetObject isSpace value body := by
  generalize htext : body.map spaced = text at h
  cases h with
  | mk hbefore hopened hnamed hsplit hvalued hafter hvalue =>
      simp only [List.map_eq_append_iff, List.map_eq_cons_iff] at htext
      obtain ⟨before, _, rfl, rfl, opening, _, rfl, hopening, opened, _, rfl, rfl, name, _, rfl,
        hname, named, _, rfl, rfl, colon, _, rfl, hcolon, split, _, rfl, rfl, word, _, rfl, hword,
        valued, _, rfl, rfl, closing, after, rfl, hclosing, rfl⟩ := htext
      rw [spaced_eq hopening (by decide), spaced_eq hcolon (by decide),
        spaced_eq hclosing (by decide), map_spaced_eq hname (by decide),
        map_spaced_eq hword hvalue.no_space]
      exact .mk ((blanks_spaced _).mp hbefore) ((blanks_spaced _).mp hopened)
        ((blanks_spaced _).mp hnamed) ((blanks_spaced _).mp hsplit)
        ((blanks_spaced _).mp hvalued) ((blanks_spaced _).mp hafter) hvalue

/-- The parser agrees with the grammar of JSON exactly on the bodies that are no storage request
at all, or one without a vertical tab and a form feed. -/
theorem parseStorageTarget_iff (body : Bytes) :
    (∀ value, parseStorageTarget (some body) = some value ↔ TargetObject isBlank value body) ↔
      ¬((11 ∈ body ∨ 12 ∈ body) ∧ ∃ value, TargetObject isBlank value (body.map spaced)) := by
  constructor
  · rintro hagree ⟨htab, value, hobject⟩
    have hparse := parseStorageTarget_eq_some.mpr hobject.of_spaced
    have hnone := ((hagree value).mp hparse).no_tab
    tauto
  · intro hfree value
    constructor
    · intro hparse
      have hspaced := (parseStorageTarget_eq_some.mp hparse).spaced_of
      have hnone : ¬(11 ∈ body ∨ 12 ∈ body) := fun htab => hfree ⟨htab, value, hspaced⟩
      rwa [map_spaced (not_or.mp hnone)] at hspaced
    · intro hobject
      apply parseStorageTarget_eq_some.mpr
      apply TargetObject.of_spaced
      rwa [map_spaced hobject.no_tab]

/-- A vertical tab behind the opening brace. -/
theorem parseStorageTarget_tab :
    let body := ascii "\x7b\x0b\"target\":\"internal\"\x7d"
    ¬∀ value, parseStorageTarget (some body) = some value ↔ TargetObject isBlank value body := by
  intro body hagree
  have hparse : parseStorageTarget (some body) = some (ascii "internal") := by decide +kernel
  exact absurd ((hagree _).mp hparse).no_tab.1 (by decide +kernel)

end LocalSend.Routing
