import LocalSend.Verification.Config.Loading

/-! # Accepted files

What a configuration is like when its file was accepted, and what the file is like: every
line fits and is blank, a comment or the assignment of a value to a known key, and only the
storage paths are given more than once.
-/

namespace LocalSend.Config

open SafePath Text
open Upload (CONFIG_DESTINATION_CAPACITY Errno isDigit)

variable {config : AppConfig} {progress next : Progress} {line key value : CString}

/-! ## The configuration -/

/-- Neither a control byte nor DEL, `"` or `\`. -/
def Visible (byte : UInt8) : Prop := 0x20 ≤ byte ∧ byte ≠ 0x7f ∧ byte ≠ 34 ∧ byte ≠ 92

/-- An absolute path of proper segments, outside of the system's own directories. -/
structure CleanPath (path : CString) : Prop where
  length_lt : path.length < 1024
  segments : ∃ segments : List CString, segments ≠ [] ∧ path = segments.flatMap (47 :: ·) ∧
    ∀ segment ∈ segments, segment ≠ [] ∧ segment ≠ [46] ∧ segment ≠ [46, 46] ∧ 47 ∉ segment
  visible : ∀ byte ∈ path, Visible byte
  outside : ∀ root ∈ [ascii "/dev", ascii "/proc", ascii "/sys"],
    path ≠ root ∧ ¬root ++ [47] <+: path

/-- What an accepted configuration consists of. -/
structure Accepted (config : AppConfig) : Prop where
  range : InRange config
  count : 1 ≤ config.storageTargets.length ∧ config.storageTargets.length ≤ 8
  distinct : (config.storageTargets.map StorageTarget.id).Nodup
  ids : ∀ target ∈ config.storageTargets, 1 ≤ target.id.length ∧ target.id.length ≤ 31 ∧
    ∀ byte ∈ target.id, isAlnum byte = true ∨ byte = 95 ∨ byte = 45
  labels : ∀ target ∈ config.storageTargets, ∀ byte ∈ target.label, Visible byte ∧ byte ≠ 124
  paths : ∀ target ∈ config.storageTargets, CleanPath target.path
  destination : CleanPath config.destination ∧
    ∃ target ∈ config.storageTargets, target.path = config.destination

theorem visible_iff {byte : UInt8} : unquotable byte = false ↔ Visible byte := by
  simp only [unquotable, Visible, decide_eq_false_iff_not, not_or, UInt8.not_lt]
  tauto

/-- A path that starts with a slash is put together from what stands between its slashes. -/
theorem flatMap_splitOn (text : CString) : (text.splitOn 47).flatMap (47 :: ·) = 47 :: text ∧
    ∀ segment ∈ text.splitOn 47, 47 ∉ segment := by
  induction text with
  | nil => simp
  | cons byte text ih =>
      rw [List.splitOn_cons_eq_if_modifyHead]
      by_cases hslash : byte = 47
      · subst hslash
        simpa using ih
      · obtain ⟨first, rest, hsplit⟩ := List.exists_cons_of_ne_nil (List.splitOn_ne_nil 47 text)
        rw [hsplit] at ih ⊢
        have hne : (byte == 47) = false := by simpa using hslash
        simp only [hne, Bool.false_eq_true, if_false, List.modifyHead_cons, List.flatMap_cons,
          List.cons_append, List.cons.injEq, true_and, List.mem_cons, forall_eq_or_imp] at ih ⊢
        exact ⟨ih.1, by simpa [eq_comm, hslash] using ih.2.1, ih.2.2⟩

theorem below_iff {root path : CString} :
    below root path = true ↔ path = root ∨ root ++ [47] <+: path := by
  simp only [below, decide_eq_true_eq]
  constructor
  · rintro ⟨htake, hend⟩
    have hpath : path = root ++ path.drop root.length := by
      conv_lhs => rw [← List.take_append_drop root.length path, htake]
    cases hdrop : path.drop root.length with
    | nil => exact .inl (by rw [hpath, hdrop, List.append_nil])
    | cons byte rest =>
        rw [hdrop] at hend
        rcases hend with hnil | hslash
        · cases hnil
        · obtain rfl : byte = 47 := hslash
          exact .inr ⟨rest, by rw [hpath, hdrop, List.append_assoc]; rfl⟩
  · rintro (rfl | ⟨rest, rfl⟩)
    · simp
    · simp [peek]

theorem cleanPath_of_safe {path : CString} (hlength : path.length < CONFIG_DESTINATION_CAPACITY)
    (hsafe : destinationIsSafe path = true) : CleanPath path := by
  simp only [destinationIsSafe, destinationSyntaxIsSafe, decide_eq_true_eq] at hsafe
  obtain ⟨hslash, hne, hroots, hbytes, hsegments⟩ := hsafe
  cases path with
  | nil => exact absurd hslash (by decide)
  | cons first text =>
      obtain rfl : first = 47 := hslash
      obtain ⟨htext, hslashes⟩ := flatMap_splitOn text
      refine ⟨hlength, ⟨text.splitOn 47, List.splitOn_ne_nil 47 text, htext.symm, ?_⟩, ?_, ?_⟩
      · intro segment hmem
        have hsegment := List.all_eq_true.mp hsegments segment hmem
        simp only [segmentSafe, decide_eq_true_eq] at hsegment
        exact ⟨hsegment.1, hsegment.2.1, hsegment.2.2, hslashes segment hmem⟩
      · intro byte hmem
        exact visible_iff.mp (by simpa using List.all_eq_true.mp hbytes byte hmem)
      · intro root hmem
        have hroot := List.all_eq_true.mp hroots root hmem
        rw [decide_eq_true_eq, below_iff, not_or] at hroot
        exact hroot

theorem SafeDirectory.clean {path : CString} (h : SafeDirectory path) : CleanPath path :=
  cleanPath_of_safe h.length_lt h.safe

/-- A valid configuration, in the terms of the bytes of its texts. -/
theorem Valid.accepted (h : Valid config) : Accepted config := by
  obtain ⟨target, htarget, hpath⟩ := h.destination
  have hclean : ∀ target ∈ config.storageTargets, CleanPath target.path :=
    fun target hmem => (h.targets.sound target hmem).path.clean
  refine ⟨h.range, ⟨List.length_pos_of_mem htarget, h.targets.count⟩, h.targets.distinct, ?_, ?_,
    hclean, hpath ▸ hclean target htarget, target, htarget, hpath⟩
  · intro target hmem
    have hid := (h.targets.sound target hmem).id
    simp only [storageIdIsSafe, decide_eq_true_eq, List.all_eq_true] at hid
    exact ⟨Nat.pos_of_ne_zero hid.1, Nat.lt_succ_iff.mp hid.2.1, hid.2.2⟩
  · intro target hmem byte hbyte
    have hlabel := (h.targets.sound target hmem).label
    simp only [storageLabelIsSafe, decide_eq_true_eq, List.all_eq_true] at hlabel
    have hboth := hlabel.2.2 byte hbyte
    exact ⟨visible_iff.mp (by simpa using hboth.1), hboth.2⟩

/-! ## The file -/

/-- The lines of a file, without the byte order mark at its start. -/
def sourceLines (content : Bytes) : List CString :=
  match content.splitOn 10 with
  | [] => []
  | first :: rest => skipMark first :: rest

/-- A blank line or a comment. -/
def Skipped (line : CString) : Prop := ∀ byte ∈ (trim isSpace line).head?, byte = 35 ∨ byte = 59

/-- The line gives a value to a key, around its first `=`. -/
def Assigns (line key value : CString) : Prop :=
  ∃ before after, trim isSpace line = before ++ 61 :: after ∧ 61 ∉ before ∧
    key = trim isSpace before ∧ value = trim isSpace after

/-- What the lines of an accepted file are like. -/
structure ProperLines (lines : List CString) : Prop where
  assigns : ∀ line ∈ lines, ¬Skipped line →
    ∃ (key : Key) (value : CString), Assigns line key.name value ∧ value ≠ []
  once : lines.Pairwise fun earlier later => ∀ (key : Key) (value value' : CString),
    ¬Skipped earlier → ¬Skipped later → Assigns earlier key.name value →
      Assigns later key.name value' → key = .storagePath

/-- What an accepted file is like. -/
structure ProperFile (content : Bytes) : Prop where
  short : ∀ line ∈ content.splitOn 10, line.length < 2047
  lines : ProperLines (sourceLines content)

theorem Key.name_injective {key key' : Key} (h : key.name = key'.name) : key = key' := by
  revert h
  cases key <;> cases key' <;> decide

/-- A line assigns one key only. -/
theorem Assigns.unique {key' value' : CString} (h : Assigns line key value)
    (h' : Assigns line key' value') : key = key' ∧ value = value' := by
  obtain ⟨before, after, hline, hbefore, rfl, rfl⟩ := h
  obtain ⟨before', after', hline', hbefore', rfl, rfl⟩ := h'
  have hcut := cut_append hbefore after
  have hcut' := cut_append hbefore' after'
  rw [← hline] at hcut
  rw [← hline', hcut] at hcut'
  cases hcut'
  exact ⟨rfl, rfl⟩

theorem applyValue_seen (h : applyValue progress key value = .ok next) :
    ∃ known : Key, known.name = key ∧ (known = .storagePath ∨ known ∉ progress.seen) ∧
      next.seen = known :: progress.seen := by
  unfold applyValue at h
  split at h
  · cases h
  rename_i known hfind
  split at h
  · cases h
  rename_i hseen
  obtain ⟨config', -, rfl⟩ := map_eq_ok h
  refine ⟨known, by simpa using List.find?_some hfind, ?_, rfl⟩
  by_cases hkey : known = .storagePath
  · exact .inl hkey
  · exact .inr fun hmem => hseen ⟨hkey, hmem⟩

/-- What one turn of the loop finds in a line without a zero byte. -/
theorem loadEntry_ok {ended : Bool} (hnul : 0 ∉ line)
    (h : loadEntry progress ended line = .ok next) :
    (10 ∈ line ∨ ended = true) ∧ (Skipped line ∧ next.seen = progress.seen ∨
      ¬Skipped line ∧ ∃ (key : Key) (value : CString), Assigns line key.name value ∧ value ≠ [] ∧
        (key = .storagePath ∨ key ∉ progress.seen) ∧ next.seen = key :: progress.seen) := by
  have htrim : 0 ∉ trim isSpace line := fun hmem =>
    hnul ((List.dropWhile_suffix _).subset ((List.rdropWhile_prefix _ _).subset hmem))
  unfold loadEntry at h
  split at h
  · cases h
  rename_i hwhole
  refine ⟨by simpa [or_iff_not_imp_left] using hwhole, ?_⟩
  dsimp only at h
  split at h
  · rename_i hskipped
    cases h
    refine .inl ⟨?_, rfl⟩
    intro byte hbyte
    obtain ⟨rest, hrest⟩ := List.head?_eq_some_iff.mp hbyte
    rw [hrest] at hskipped htrim
    rcases hskipped with hzero | hcomment
    · exact absurd (by simp [show byte = 0 from hzero]) htrim
    · exact hcomment
  rename_i hplain
  refine .inr ⟨fun hskipped => ?_, ?_⟩
  · cases hline : trim isSpace line with
    | nil => exact hplain (.inl (by rw [hline]; rfl))
    | cons byte rest =>
        have hbyte := hskipped byte (by simp [hline])
        exact hplain (.inr (by rw [hline]; exact hbyte))
  · split at h
    · cases h
    rename_i before after hcut
    obtain ⟨hline, hbefore⟩ := cut_eq_some hcut
    split at h
    · cases h
    rename_i hfilled
    rw [not_or] at hfilled
    obtain ⟨known, hname, hseen, hnext⟩ := applyValue_seen (mapError_eq_ok h)
    exact ⟨known, trim isSpace after, ⟨before, after, hline, hbefore, hname, rfl⟩, hfilled.2,
      hseen, hnext⟩

/-- The lines of a file as they come, and the keys they may still give values to. -/
structure Fresh (seen : List Key) (lines : List CString) : Prop extends ProperLines lines where
  fresh : ∀ line ∈ lines, ∀ (key : Key) (value : CString), ¬Skipped line →
    Assigns line key.name value → key = .storagePath ∨ key ∉ seen

theorem fresh_nil (seen : List Key) : Fresh seen [] := by
  constructor
  · constructor
    · intro line hmem
      cases hmem
    · exact .nil
  · intro line hmem
    cases hmem

theorem Fresh.cons_skipped {seen : List Key} {lines : List CString} (hskipped : Skipped line)
    (h : Fresh seen lines) : Fresh seen (line :: lines) := by
  constructor
  · constructor
    · intro other hmem hplain
      rcases List.mem_cons.mp hmem with rfl | hmem
      · exact absurd hskipped hplain
      · exact h.assigns other hmem hplain
    · exact .cons (fun _ _ _ _ _ hplain => absurd hskipped hplain) h.once
  · intro other hmem key value hplain
    rcases List.mem_cons.mp hmem with rfl | hmem
    · exact absurd hskipped hplain
    · exact h.fresh other hmem key value hplain

theorem Fresh.cons_assigns {seen : List Key} {lines : List CString} {key : Key}
    (hassigns : Assigns line key.name value) (hvalue : value ≠ [])
    (hseen : key = .storagePath ∨ key ∉ seen) (h : Fresh (key :: seen) lines) :
    Fresh seen (line :: lines) := by
  constructor
  · constructor
    · intro other hmem hplain
      rcases List.mem_cons.mp hmem with rfl | hmem
      · exact ⟨key, value, hassigns, hvalue⟩
      · exact h.assigns other hmem hplain
    · refine .cons (fun other hmem key' value' value'' _ hplain hfirst hlater => ?_) h.once
      obtain rfl := Key.name_injective (hassigns.unique hfirst).1
      rcases h.fresh other hmem key value'' hplain hlater with hstorage | hnot
      · exact hstorage
      · exact absurd (List.mem_cons_self ..) hnot
  · intro other hmem key' value' hplain hother
    rcases List.mem_cons.mp hmem with rfl | hmem
    · obtain rfl := Key.name_injective (hassigns.unique hother).1
      exact hseen
    · rcases h.fresh other hmem key' value' hplain hother with hstorage | hnot
      · exact .inl hstorage
      · exact .inr fun hin => hnot (List.mem_cons_of_mem _ hin)

/-- One line in front of lines that are proper behind it. -/
theorem loadEntry_fresh {ended : Bool} {lines : List CString} (hnul : 0 ∉ line)
    (h : loadEntry progress ended line = .ok next) (hrest : Fresh next.seen lines) :
    (10 ∈ line ∨ ended = true) ∧ Fresh progress.seen (line :: lines) := by
  obtain ⟨hwhole, ⟨hskipped, hseen⟩ | ⟨-, key, value, hassigns, hvalue, hfree, hseen⟩⟩ :=
    loadEntry_ok hnul h
  · exact ⟨hwhole, .cons_skipped hskipped (hseen ▸ hrest)⟩
  · exact ⟨hwhole, .cons_assigns hassigns hvalue hfree (hseen ▸ hrest)⟩

theorem takeWhile_nul {text : CString} (h : 0 ∉ text) : text.takeWhile (· ≠ 0) = text := by
  rw [List.takeWhile_eq_self_iff]
  intro byte hmem
  simp only [decide_eq_true_eq]
  rintro rfl
  exact h hmem

theorem loadLines_fresh {lines : List (Line UInt8)} (hnul : ∀ line ∈ lines, 0 ∉ line.text)
    (h : loadLines progress false lines = .ok next) :
    (∀ line ∈ lines, line.Whole 10) ∧ Fresh progress.seen (lines.map Line.text) := by
  induction lines generalizing progress with
  | nil => exact ⟨by simp, fresh_nil _⟩
  | cons line lines ih =>
      rw [loadLines, takeWhile_nul (hnul line (List.mem_cons_self ..))] at h
      split at h
      · cases h
      rename_i stored hline
      obtain ⟨hwhole, hfresh⟩ := ih (fun line hmem => hnul line (List.mem_cons_of_mem _ hmem)) h
      obtain ⟨hfirst, hlines⟩ := loadEntry_fresh (hnul line (List.mem_cons_self ..)) hline hfresh
      refine ⟨?_, hlines⟩
      intro other hmem
      rcases List.mem_cons.mp hmem with rfl | hmem
      · exact hfirst
      · exact hwhole other hmem

theorem skipMark_subset (line : CString) : skipMark line ⊆ line := by
  unfold skipMark
  split
  · exact fun _ hmem => List.mem_of_mem_drop hmem
  · exact fun _ hmem => hmem

/-- The first line, with its byte order mark taken off. -/
theorem loadLines_first {first : Line UInt8} {lines : List (Line UInt8)}
    (hnul : ∀ line ∈ first :: lines, 0 ∉ line.text)
    (h : loadLines progress true (first :: lines) = .ok next) :
    (∀ line ∈ first :: lines, line.Whole 10) ∧
      Fresh progress.seen (skipMark first.text :: lines.map Line.text) := by
  have hzero := hnul first (List.mem_cons_self ..)
  rw [loadLines, takeWhile_nul hzero] at h
  split at h
  · cases h
  rename_i stored hline
  rw [loadLine, if_pos rfl] at hline
  split at hline
  · cases hline
  obtain ⟨hwhole, hfresh⟩ := loadLines_fresh
    (fun line hmem => hnul line (List.mem_cons_of_mem _ hmem)) h
  obtain ⟨hfirst, hlines⟩ :=
    loadEntry_fresh (fun hmem => hzero (skipMark_subset _ hmem)) hline hfresh
  refine ⟨?_, hlines⟩
  intro other hmem
  rcases List.mem_cons.mp hmem with rfl | hmem
  · exact hfirst.imp (fun hmem => skipMark_subset _ hmem) id
  · exact hwhole other hmem

/-! ### From the lines as they are read to the lines of the file -/

theorem skipMark_newline (body : CString) : skipMark (body ++ [10]) = skipMark body ++ [10] := by
  match body with
  | [] => rfl
  | [_] => rfl
  | [_, _] => simp [skipMark]
  | first :: second :: third :: rest =>
      simp only [skipMark, List.cons_append, List.take_succ_cons, List.take_zero,
        List.drop_succ_cons, List.drop_zero, List.length_cons, Nat.le_add_left, true_and]
      split <;> rfl

theorem trim_trim (line : CString) : trim isSpace (trim isSpace line) = trim isSpace line :=
  trim_eq_self (trimmed_trim isSpace line)

/-- Only what is left of the lines after trimming matters. -/
theorem properLines_map {lines : List CString} :
    ProperLines (lines.map (trim isSpace)) ↔ ProperLines lines := by
  constructor
  · rintro ⟨hassigns, honce⟩
    simp only [List.forall_mem_map, List.pairwise_map, Skipped, Assigns, trim_trim]
      at hassigns honce
    exact ⟨hassigns, honce⟩
  · rintro ⟨hassigns, honce⟩
    constructor
    · simpa only [List.forall_mem_map, Skipped, Assigns, trim_trim] using hassigns
    · simpa only [List.pairwise_map, Skipped, Assigns, trim_trim] using honce

theorem ProperLines.append_nil {lines rest : List CString} (h : ProperLines lines)
    (hrest : rest = [] ∨ rest = [[]]) : ProperLines (lines ++ rest) := by
  have hblank : Skipped [] := by
    intro byte hmem
    cases hmem
  rcases hrest with rfl | rfl
  · rwa [List.append_nil]
  · constructor
    · intro line hmem hplain
      rcases List.mem_append.mp hmem with hmem | hmem
      · exact h.assigns line hmem hplain
      · exact absurd (List.mem_singleton.mp hmem ▸ hblank) hplain
    · refine List.pairwise_append.mpr ⟨h.once, List.pairwise_singleton .., ?_⟩
      intro earlier _ later hmem key value value' _ hplain
      exact absurd (List.mem_singleton.mp hmem ▸ hblank) hplain

theorem trim_newline {text body : CString} (h : text = body ++ [10] ∨ text = body) :
    trim isSpace text = trim isSpace body ∧
      trim isSpace (skipMark text) = trim isSpace (skipMark body) := by
  rcases h with rfl | rfl
  · rw [skipMark_newline, trim_space (by decide), trim_space (by decide)]
    exact ⟨rfl, rfl⟩
  · exact ⟨rfl, rfl⟩

/-- The lines that were read, against the lines of the file. -/
theorem loadLines_proper {content : Bytes} (hnul : 0 ∉ content)
    (h : loadLines progress true (lines 10 (CONFIG_LINE_CAPACITY - 1) content) = .ok next) :
    ProperFile content := by
  have hzero : ∀ line ∈ lines 10 (CONFIG_LINE_CAPACITY - 1) content, 0 ∉ line.text :=
    fun line hmem hin => hnul (readLines_subset line hmem hin)
  cases hlines : lines 10 (CONFIG_LINE_CAPACITY - 1) content with
  | nil =>
      have hcontent : content = [] := by
        cases content with
        | nil => rfl
        | cons byte content => cases hlines
      subst hcontent
      refine ⟨by simp, ?_⟩
      exact ProperLines.append_nil (fresh_nil []).toProperLines (.inr rfl)
  | cons first others =>
      rw [hlines] at h hzero
      obtain ⟨hwhole, hfresh⟩ := loadLines_first hzero h
      rw [← hlines] at hwhole
      have hshort := readLines_short hwhole
      obtain ⟨rest, hrest, hsplit⟩ := readLines_splitOn le_rfl hwhole
      rw [← lines, hlines] at hsplit hshort
      constructor
      · intro line hmem
        rw [hsplit] at hmem
        rcases List.mem_append.mp hmem with hmem | hmem
        · obtain ⟨read, hread, rfl⟩ := List.mem_map.mp hmem
          exact (hshort read hread).1
        · rcases hrest with rfl | rfl
          · cases hmem
          · rw [List.mem_singleton.mp hmem]
            decide
      · have hsource : sourceLines content =
            (skipMark (first.body 10) :: others.map (Line.body 10)) ++ rest := by
          rw [sourceLines, hsplit]
          rfl
        have htrim : (skipMark first.text :: others.map Line.text).map (trim isSpace) =
            (skipMark (first.body 10) :: others.map (Line.body 10)).map (trim isSpace) := by
          simp only [List.map_cons, List.map_map]
          rw [(trim_newline (hshort first (List.mem_cons_self ..)).2).2]
          congr 1
          refine List.map_congr_left fun line hmem => ?_
          exact (trim_newline (hshort line (List.mem_cons_of_mem _ hmem)).2).1
        rw [hsource]
        refine ProperLines.append_nil (properLines_map.mp ?_) hrest
        rw [← htrim]
        exact properLines_map.mpr hfresh.toProperLines

/-- A file that is accepted has proper lines, and its configuration is sound as a whole. -/
theorem configLoadFile_accepted {files : Files} {path : CString} {io : LoadIo} {content : Bytes}
    (hfile : files path = some content) (hnul : 0 ∉ content)
    (h : configLoadFile files path io = .ok config) : Accepted config ∧ ProperFile content := by
  refine ⟨(configLoadFile_valid h).accepted, ?_⟩
  unfold configLoadFile at h
  rw [hfile] at h
  split at h
  · split at h
    · cases h
    · cases h
  · cases h
  · rename_i found hfound
    cases hfound
    unfold loadContent at h
    dsimp only at h
    split at h
    · cases h
    rename_i progress hlines
    split at h
    · cases h
    rename_i hread
    rw [Bool.not_eq_true, Option.isSome_eq_false_iff, Option.isNone_iff_eq_none] at hread
    rw [hread] at hlines
    exact loadLines_proper hnul hlines

/-- A comment, a blank line and one key among spaces. -/
def portFile : Bytes := ascii "# receiver\n\n port = 8080\n"

def portFiles : Files := fun _ => some portFile

theorem configLoadFile_accepted_portFile :
    Accepted { configSetDefaults with port := 8080 } ∧ ProperFile portFile :=
  configLoadFile_accepted (rfl : portFiles (ascii "/data/config.ini") = some portFile)
    (by decide)
    (by decide +kernel : configLoadFile portFiles (ascii "/data/config.ini") ⟨none, none⟩ =
      .ok { configSetDefaults with port := 8080 })

end LocalSend.Config
