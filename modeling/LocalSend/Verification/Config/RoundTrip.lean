import LocalSend.Verification.Config.Loading
import LocalSend.Verification.Decimal

/-! # Saving and loading again

A saved file is a list of entries, one a line. Each entry is read back as the value it was
printed from, but for a storage target whose path contains a `|`.
-/

namespace LocalSend.Config

open SafePath Text
open Upload (CONFIG_DESTINATION_CAPACITY Errno isDigit)

variable {config : AppConfig} {progress next : Progress} {value : CString} {key : Key}

/-! ## Numbers -/

theorem isDigit_not_space {byte : UInt8} (h : isDigit byte = true) :
    isSpace byte = false ∧ byte ≠ 45 ∧ byte ≠ 43 ∧ 0x20 ≤ byte := by
  grind [isDigit, isSpace]

/-- A printed number is read back, and then compared with the range. -/
theorem parseU64_decimal {number : ℕ} (minimum maximum : ℕ) (h64 : number < 2 ^ 64) :
    parseU64 (decimal number) minimum maximum =
      if number < minimum ∨ maximum < number then none else some number := by
  have hdigits := decimal_digits number
  have hvalue := digitsValue_decimal number
  have hne := decimal_ne_nil number
  generalize decimal number = digits at hdigits hvalue hne
  have htake : digits.takeWhile isDigit = digits := List.takeWhile_eq_self_iff.mpr hdigits
  cases digits with
  | nil => exact absurd rfl hne
  | cons first rest =>
      obtain ⟨hspace, hminus, hplus, -⟩ := isDigit_not_space (hdigits first (List.mem_cons_self ..))
      have hdrop : (first :: rest).dropWhile isSpace = first :: rest :=
        List.dropWhile_cons_of_neg (by simp [hspace])
      have hparse : strtoull (first :: rest) = some (number, []) := by
        unfold strtoull
        simp only [hdrop, peek, hminus, hplus, or_self, if_false, htake, hvalue, hne, false_or,
          List.drop_length, if_neg (not_le.mpr h64)]
      rw [parseU64, if_neg (by simp [peek, hminus, hplus]), hparse]

/-! ## Values -/

/-- A value as the writer prints it: the reader trims nothing from it. -/
structure Printed (value : CString) : Prop where
  nonempty : value ≠ []
  trimmed : Trimmed isSpace value
  visible : ∀ byte ∈ value, 0x20 ≤ byte

theorem Printed.no_newline (h : Printed value) : 10 ∉ value ∧ 0 ∉ value := by
  constructor
  · intro hmem
    exact absurd (h.visible 10 hmem) (by decide)
  · intro hmem
    exact absurd (h.visible 0 hmem) (by decide)

/-- A value checked by evaluation. -/
theorem printed_of_check (hne : value ≠ []) (hfirst : value.head?.all (!isSpace ·) = true)
    (hlast : value.getLast?.all (!isSpace ·) = true)
    (hvisible : value.all (0x20 ≤ ·) = true) : Printed value := by
  refine ⟨hne, trimmed_of_ends hfirst hlast, fun byte hbyte => ?_⟩
  simpa using List.all_eq_true.mp hvisible byte hbyte

theorem printed_of_digits (hne : value ≠ []) (h : ∀ byte ∈ value, isDigit byte = true) :
    Printed value := by
  refine ⟨hne, ⟨fun byte hbyte => ?_, fun byte hbyte => ?_⟩, fun byte hbyte => ?_⟩
  · exact (isDigit_not_space (h byte (List.mem_of_mem_head? hbyte))).1
  · exact (isDigit_not_space (h byte (List.mem_of_mem_getLast? hbyte))).1
  · exact (isDigit_not_space (h byte hbyte)).2.2.2

theorem printed_decimal (number : ℕ) : Printed (decimal number) :=
  printed_of_digits (decimal_ne_nil number) (decimal_digits number)

theorem visible_of_unquotable {byte : UInt8} (h : unquotable byte = false) : 0x20 ≤ byte := by
  grind [unquotable]

theorem SafeDirectory.absolute (h : SafeDirectory value) : peek value = 47 := by
  have hsafe := h.safe
  simp only [destinationIsSafe, destinationSyntaxIsSafe, decide_eq_true_eq] at hsafe
  exact hsafe.1

theorem SafeDirectory.printed (h : SafeDirectory value) : Printed value := by
  have hsafe := h.safe
  simp only [destinationIsSafe, destinationSyntaxIsSafe, decide_eq_true_eq] at hsafe
  refine ⟨?_, h.trimmed, ?_⟩
  · rintro rfl
    exact absurd hsafe.1 (by decide)
  · intro byte hbyte
    have hvisible := List.all_eq_true.mp hsafe.2.2.2.1 byte hbyte
    exact visible_of_unquotable (by simpa using hvisible)

theorem storageId_bytes {id : CString} (h : storageIdIsSafe id = true) :
    id ≠ [] ∧ ∀ byte ∈ id, isSpace byte = false ∧ byte ≠ 124 ∧ 0x20 ≤ byte := by
  simp only [storageIdIsSafe, decide_eq_true_eq] at h
  refine ⟨List.ne_nil_of_length_pos (Nat.pos_of_ne_zero h.1), fun byte hmem => ?_⟩
  have hbyte := List.all_eq_true.mp h.2.2 byte hmem
  grind [isAlnum, isDigit, isSpace]

theorem storageLabel_bytes {label : CString} (h : storageLabelIsSafe label = true) :
    label ≠ [] ∧ ∀ byte ∈ label, byte ≠ 124 ∧ 0x20 ≤ byte := by
  simp only [storageLabelIsSafe, decide_eq_true_eq] at h
  refine ⟨List.ne_nil_of_length_pos (Nat.pos_of_ne_zero h.1), fun byte hmem => ?_⟩
  have hbyte := List.all_eq_true.mp h.2.2 byte hmem
  grind [unquotable]

theorem Printed.of_append {before after : CString} {separator : UInt8} (hbefore : Printed before)
    (hafter : Printed after) (hseparator : 0x20 ≤ separator) :
    Printed (before ++ separator :: after) := by
  refine ⟨by simp, ⟨fun byte hbyte => ?_, fun byte hbyte => ?_⟩, fun byte hbyte => ?_⟩
  · rw [List.head?_append_of_ne_nil _ hbefore.nonempty] at hbyte
    exact hbefore.trimmed.first byte hbyte
  · rw [List.getLast?_append_of_ne_nil _ (List.cons_ne_nil separator after),
      List.getLast?_cons_of_ne_nil hafter.nonempty] at hbyte
    exact hafter.trimmed.last byte hbyte
  · rcases List.mem_append.mp hbyte with hmem | hmem
    · exact hbefore.visible byte hmem
    · rcases List.mem_cons.mp hmem with rfl | hmem
      · exact hseparator
      · exact hafter.visible byte hmem

theorem SoundTarget.printed {target : StorageTarget} (h : SoundTarget target) :
    Printed target.id ∧ Printed target.label ∧ Printed target.path := by
  obtain ⟨hid, hidBytes⟩ := storageId_bytes h.id
  obtain ⟨hlabel, hlabelBytes⟩ := storageLabel_bytes h.label
  refine ⟨⟨hid, ⟨fun byte hbyte => ?_, fun byte hbyte => ?_⟩, fun byte hbyte => ?_⟩,
    ⟨hlabel, h.labelTrimmed, fun byte hbyte => (hlabelBytes byte hbyte).2⟩, h.path.printed⟩
  · exact (hidBytes byte (List.mem_of_mem_head? hbyte)).1
  · exact (hidBytes byte (List.mem_of_mem_getLast? hbyte)).1
  · exact (hidBytes byte hbyte).2.2

theorem SoundTarget.text_printed {target : StorageTarget} (h : SoundTarget target) :
    Printed target.text := by
  obtain ⟨hid, hlabel, hpath⟩ := h.printed
  rw [StorageTarget.text, List.append_assoc]
  exact hid.of_append (hlabel.of_append hpath (by decide)) (by decide)

/-- The three parts of a printed target are found again. -/
theorem storageParts_text {target : StorageTarget} (h : SoundTarget target) :
    storageParts target.text = some target := by
  obtain ⟨hid, hlabel, hpath⟩ := h.printed
  have htext := trim_eq_self h.text_printed.trimmed
  have hrest : trim isSpace (target.label ++ 124 :: target.path) =
      target.label ++ 124 :: target.path :=
    trim_eq_self (hlabel.of_append hpath (by decide)).trimmed
  have hidCut := cut_append (fun hmem => ((storageId_bytes h.id).2 124 hmem).2.1 rfl)
    (target.label ++ 124 :: target.path)
  have hlabelCut := cut_append (fun hmem => ((storageLabel_bytes h.label).2 124 hmem).1 rfl)
    target.path
  rw [StorageTarget.text, List.append_assoc] at htext ⊢
  rw [storageParts, htext, List.cons_append, hidCut]
  dsimp only
  rw [hrest, hlabelCut]
  dsimp only
  rw [trim_eq_self hid.trimmed, trim_eq_self hlabel.trimmed, trim_eq_self hpath.trimmed]

theorem SoundTarget.text_length {target : StorageTarget} (h : SoundTarget target) :
    target.text.length < CONFIG_STORAGE_ID_CAPACITY + CONFIG_STORAGE_LABEL_CAPACITY +
      CONFIG_DESTINATION_CAPACITY := by
  have hid := h.id
  have hlabel := h.label
  have hpath := h.path.length_lt
  simp only [storageIdIsSafe, storageLabelIsSafe, decide_eq_true_eq] at hid hlabel
  simp only [StorageTarget.text, List.length_append, List.length_cons]
  omega

/-- A printed target is added again unless its path contains a `|`. -/
theorem addStorageTarget_text {target : StorageTarget} (h : SoundTarget target)
    (hcount : config.storageTargets.length < CONFIG_STORAGE_TARGETS_MAX)
    (hnew : target.id ∉ config.storageTargets.map StorageTarget.id) (hpath : 124 ∉ target.path) :
    addStorageTarget config target.text =
      .ok { config with storageTargets := config.storageTargets ++ [target] } := by
  have hlength := h.text_length
  have hfound : (configStorageById config target.id).isSome = false := by
    rw [Option.isSome_eq_false_iff, Option.isNone_iff_eq_none, configStorageById,
      List.find?_eq_none]
    intro other hother hid
    exact hnew (List.mem_map.mpr ⟨other, hother, of_decide_eq_true hid⟩)
  have hsafe : ¬(124 ∈ target.path ∨ ¬storageIdIsSafe target.id = true ∨
      ¬storageLabelIsSafe target.label = true ∨
      CONFIG_DESTINATION_CAPACITY ≤ target.path.length ∨
      ¬destinationIsSafe target.path = true) := by
    simp [hpath, h.id, h.label, h.path.length_lt, h.path.safe]
  rw [addStorageTarget, if_neg, storageParts_text h]
  · simp only [if_neg hsafe, if_neg (not_le.mpr hcount), hfound, Bool.false_eq_true, if_false]
  · simp only [CONFIG_LINE_CAPACITY, CONFIG_STORAGE_ID_CAPACITY, CONFIG_STORAGE_LABEL_CAPACITY,
      CONFIG_DESTINATION_CAPACITY] at hlength ⊢
    omega

theorem addStorageTarget_refused (config : AppConfig) {target : StorageTarget}
    (h : SoundTarget target) (hpath : 124 ∈ target.path) :
    ∃ error, addStorageTarget config target.text = .error error := by
  rw [addStorageTarget, storageParts_text h]
  split
  · exact ⟨_, rfl⟩
  · exact ⟨_, if_pos (.inl hpath)⟩

/-! ## Entries -/

/-- The text of one line. -/
def entry (key : Key) (value : CString) : CString := key.name ++ 61 :: value

theorem keyLine_eq (key : Key) (value : CString) : keyLine key value = entry key value ++ [10] :=
  rfl

theorem Key.name_printed (key : Key) : Printed key.name := by
  cases key <;> exact printed_of_check (by decide) (by decide) (by decide) (by decide)

theorem Key.name_bytes (key : Key) : 61 ∉ key.name ∧ peek key.name ≠ 35 ∧ peek key.name ≠ 59 ∧
    peek key.name ≠ 0 := by
  cases key <;> decide

theorem Key.find_name (key : Key) : keys.find? (·.name = key.name) = some key := by
  cases key <;> decide

theorem entry_printed (key : Key) (hvalue : Printed value) : Printed (entry key value) :=
  key.name_printed.of_append hvalue (by decide)

theorem peek_append {before : CString} (h : before ≠ []) (after : CString) :
    peek (before ++ after) = peek before := by
  cases before with
  | nil => exact absurd rfl h
  | cons first rest => rfl

/-- A printed entry is cut into its key and its value again. -/
theorem loadEntry_entry (hvalue : Printed value) :
    loadEntry progress false (entry key value ++ [10]) =
      (applyValue progress key.name value).mapError some := by
  have hentry := entry_printed key hvalue
  have htrim : trim isSpace (entry key value ++ [10]) = entry key value :=
    trim_append hentry.trimmed (by decide)
  have hname := key.name_printed
  obtain ⟨hequals, hhash, hsemicolon, hzero⟩ := key.name_bytes
  have hpeek : peek (entry key value) = peek key.name := peek_append hname.nonempty _
  have hcut : cut 61 (entry key value) = some (key.name, value) := cut_append hequals value
  rw [loadEntry, if_neg (by simp), htrim]
  simp only [hpeek, hhash, hsemicolon, hzero, or_self, if_false, hcut, trim_eq_self hvalue.trimmed,
    trim_eq_self hname.trimmed, hvalue.nonempty, hname.nonempty]

/-- The C string in the buffer of a printed line is the whole line. -/
theorem takeWhile_entry (hvalue : Printed value) :
    (entry key value ++ [10]).takeWhile (· ≠ 0) = entry key value ++ [10] := by
  rw [List.takeWhile_eq_self_iff]
  intro byte hbyte
  rcases List.mem_append.mp hbyte with hmem | hmem
  · have hzero : byte ≠ 0 := by
      rintro rfl
      exact (entry_printed key hvalue).no_newline.2 hmem
    simpa using hzero
  · obtain rfl := List.mem_singleton.mp hmem
    decide

/-- The line of one entry. -/
def entryLine (key : Key) (value : CString) : Line UInt8 := ⟨entry key value ++ [10], false⟩

theorem loadLine_entry (hvalue : Printed value) :
    loadLine progress false (entryLine key value).ended
        ((entryLine key value).text.takeWhile (· ≠ 0)) =
      (applyValue progress key.name value).mapError some := by
  rw [loadLine, if_neg Bool.false_ne_true, entryLine, takeWhile_entry hvalue,
    loadEntry_entry hvalue]

theorem loadLines_entry (hvalue : Printed value)
    (happly : applyValue progress key.name value = .ok next) (lines : List (Line UInt8)) :
    loadLines progress false (entryLine key value :: lines) = loadLines next false lines := by
  rw [loadLines, loadLine_entry hvalue, happly]
  rfl

/-- A line that is refused whatever was read before it fails the file. -/
theorem loadLines_refused (progress : Progress) {line : Line UInt8} {lines : List (Line UInt8)}
    (hmem : line ∈ lines) (hline : ∀ progress, ∃ error,
      loadLine progress false line.ended (line.text.takeWhile (· ≠ 0)) = .error error) :
    ∃ error, loadLines progress false lines = .error error := by
  induction lines generalizing progress with
  | nil => cases hmem
  | cons other lines ih =>
      rw [loadLines]
      rcases List.mem_cons.mp hmem with rfl | hmem
      · obtain ⟨error, herror⟩ := hline progress
        rw [herror]
        exact ⟨error, rfl⟩
      · split
        · exact ⟨_, rfl⟩
        · exact ih _ hmem

/-- A key that has not been seen yet is applied. -/
theorem applyValue_fresh {config' : AppConfig} (hkey : key ≠ .storagePath)
    (hseen : key ∉ progress.seen) (hstore : storeValue progress.config key value = .ok config') :
    applyValue progress key.name value = .ok ⟨config', key :: progress.seen⟩ := by
  rw [applyValue, key.find_name]
  simp only [hseen, hkey, and_false, false_and, if_false, hstore, Except.map]

/-- The targets a `storage_path` is added to. -/
def Progress.targets (progress : Progress) : List StorageTarget :=
  if .storagePath ∈ progress.seen then progress.config.storageTargets else []

/-- The progress with the target list `targets`, read from the file. -/
def Progress.withTargets (progress : Progress) (targets : List StorageTarget) (seen : List Key) :
    Progress :=
  ⟨{ progress.config with storageTargets := targets }, seen⟩

theorem applyValue_storagePath {target : StorageTarget} (h : SoundTarget target)
    (hcount : progress.targets.length < CONFIG_STORAGE_TARGETS_MAX)
    (hnew : target.id ∉ progress.targets.map StorageTarget.id) (hpath : 124 ∉ target.path) :
    applyValue progress Key.storagePath.name target.text =
      .ok (progress.withTargets (progress.targets ++ [target])
        (.storagePath :: progress.seen)) := by
  rw [applyValue, Key.find_name]
  by_cases hseen : Key.storagePath ∈ progress.seen
  · rw [Progress.targets, if_pos hseen] at hcount hnew ⊢
    have hadd := addStorageTarget_text h hcount hnew hpath
    simp [hseen, storeValue, hadd, Except.map, Progress.withTargets]
  · rw [Progress.targets, if_neg hseen] at hcount hnew ⊢
    have hadd : addStorageTarget { progress.config with storageTargets := [] } target.text =
        .ok { progress.config with storageTargets := [] ++ [target] } :=
      addStorageTarget_text h hcount hnew hpath
    simp [hseen, storeValue, hadd, Except.map, Progress.withTargets]

/-- The lines of a list of targets add these, in their order. -/
theorem loadLines_targets {targets : List StorageTarget} (hne : targets ≠ [])
    (hsound : SoundTargets (progress.targets ++ targets))
    (hpath : ∀ target ∈ targets, 124 ∉ target.path) (lines : List (Line UInt8)) :
    ∃ seen, Key.storagePath ∈ seen ∧
      (∀ key, key ∈ seen → key = .storagePath ∨ key ∈ progress.seen) ∧
      loadLines progress false
          (targets.map (fun target => entryLine .storagePath target.text) ++ lines) =
        loadLines (progress.withTargets (progress.targets ++ targets) seen) false lines := by
  induction targets generalizing progress with
  | nil => exact absurd rfl hne
  | cons target targets ih =>
      have htarget := hsound.sound target (List.mem_append_right _ (List.mem_cons_self ..))
      have hcount := hsound.count
      rw [List.length_append, List.length_cons] at hcount
      have hdistinct := hsound.distinct
      rw [List.map_append, List.map_cons] at hdistinct
      have hnew : target.id ∉ progress.targets.map StorageTarget.id := by
        intro hmem
        exact (List.nodup_append.mp hdistinct).2.2 _ hmem _ (List.mem_cons_self ..) rfl
      have happly := applyValue_storagePath htarget (by omega) hnew
        (hpath target (List.mem_cons_self ..))
      rw [List.map_cons, List.cons_append, loadLines_entry htarget.text_printed happly]
      have hnext : (progress.withTargets (progress.targets ++ [target])
          (.storagePath :: progress.seen)).targets = progress.targets ++ [target] :=
        if_pos (List.mem_cons_self ..)
      by_cases hlast : targets = []
      · subst hlast
        exact ⟨_, List.mem_cons_self .., by simp, rfl⟩
      · have hrest : SoundTargets ((progress.withTargets (progress.targets ++ [target])
            (.storagePath :: progress.seen)).targets ++ targets) := by
          rwa [hnext, List.append_assoc]
        obtain ⟨seen, hstorage, hseen, hload⟩ := ih hlast hrest
          fun other hmem => hpath other (List.mem_cons_of_mem _ hmem)
        refine ⟨seen, hstorage, fun key hkey => ?_, ?_⟩
        · rcases hseen key hkey with rfl | hmem
          · exact .inl rfl
          · simpa [Progress.withTargets] using hmem
        · rw [hload, hnext, List.append_assoc]
          rfl

/-! ## The whole file -/

/-- `"# PS5 LocalSend configuration"`. -/
def comment : CString := ascii "# PS5 LocalSend configuration"

/-- The entries above the storage targets, in the order of the file. -/
def headEntries (config : AppConfig) : List (Key × CString) :=
  [(.port, decimal config.port), (.authMode, configAuthModeName config.authMode),
    (.language, configLanguageName config.language),
    (.pinTtlSeconds, decimal config.pinTtlSeconds),
    (.sessionTtlSeconds, decimal config.sessionTtlSeconds), (.destination, config.destination)]

/-- The entries below them. -/
def tailEntries (config : AppConfig) : List (Key × CString) :=
  [(.maxFileBytes, decimal config.maxFileBytes),
    (.maxFilesPerSession, decimal config.maxFilesPerSession)]

def targetEntries (config : AppConfig) : List (Key × CString) :=
  config.storageTargets.map fun target => (.storagePath, target.text)

/-- All entries of a saved file. -/
def entries (config : AppConfig) : List (Key × CString) :=
  headEntries config ++ targetEntries config ++ tailEntries config

theorem configText_eq (config : AppConfig) :
    configText config =
      (comment :: (entries config).map fun pair => entry pair.1 pair.2).flatMap (· ++ [10]) := by
  have hcomment : ascii "# PS5 LocalSend configuration\n" = comment ++ [10] := by decide
  simp only [configText, hcomment, keyLine_eq, entries, headEntries, targetEntries, tailEntries,
    List.map_append, List.map_cons, List.map_nil, List.map_map, List.flatMap_cons,
    List.flatMap_append, List.flatMap_nil, List.flatMap_map, List.append_nil, List.append_assoc,
    Function.comp_def]

/-- A value a saved line has room for. -/
structure Stored (value : CString) : Prop where
  printed : Printed value
  length_le : value.length ≤ CONFIG_STORAGE_ID_CAPACITY + CONFIG_STORAGE_LABEL_CAPACITY +
    CONFIG_DESTINATION_CAPACITY

theorem stored_decimal {number : ℕ} (h : number < 2 ^ 64) : Stored (decimal number) := by
  refine ⟨printed_decimal number, ?_⟩
  have hlength : (Nat.toDigits 10 number).length ≤ 20 :=
    (Nat.length_toDigits_le_iff (by decide) (by decide)).mpr (by omega)
  rw [decimal, List.length_map]
  exact hlength.trans (by decide)

/-- The ranges keep every number below `2 ^ 64`. -/
theorem InRange.below (h : InRange config) :
    config.port < 2 ^ 64 ∧ config.pinTtlSeconds < 2 ^ 64 ∧ config.sessionTtlSeconds < 2 ^ 64 ∧
      config.maxFileBytes < 2 ^ 64 ∧ config.maxFilesPerSession < 2 ^ 64 := by
  have hport := h.port
  have hpin := h.pinTtl
  have hsession := h.sessionTtl
  have hbytes := h.maxFileBytes
  have hfiles := h.maxFiles
  omega

theorem stored_authMode (mode : AuthMode) : Stored (configAuthModeName mode) := by
  cases mode <;>
    exact ⟨printed_of_check (by decide) (by decide) (by decide) (by decide), by decide⟩

theorem stored_language (language : Language) : Stored (configLanguageName language) := by
  cases language <;>
    exact ⟨printed_of_check (by decide) (by decide) (by decide) (by decide), by decide⟩

theorem Valid.destination_safe (h : Valid config) : SafeDirectory config.destination := by
  obtain ⟨target, hmem, hpath⟩ := h.destination
  exact hpath ▸ (h.targets.sound target hmem).path

/-- Every line of a save has room for its value; the ranges may be left. -/
structure Savable (config : AppConfig) : Prop where
  below : config.port < 2 ^ 64 ∧ config.pinTtlSeconds < 2 ^ 64 ∧
    config.sessionTtlSeconds < 2 ^ 64 ∧ config.maxFileBytes < 2 ^ 64 ∧
    config.maxFilesPerSession < 2 ^ 64
  targets : SoundTargets config.storageTargets
  destination : SafeDirectory config.destination

theorem Valid.savable (h : Valid config) : Savable config :=
  ⟨h.range.below, h.targets, h.destination_safe⟩

theorem Savable.stored (h : Savable config) : ∀ pair ∈ entries config, Stored pair.2 := by
  obtain ⟨hport, hpin, hsession, hbytes, hfiles⟩ := h.below
  have hdestination := h.destination
  intro pair hpair
  rcases List.mem_append.mp hpair with hpair | hpair
  · rcases List.mem_append.mp hpair with hpair | hpair
    · simp only [headEntries, List.mem_cons, List.not_mem_nil, or_false] at hpair
      rcases hpair with rfl | rfl | rfl | rfl | rfl | rfl
      · exact stored_decimal hport
      · exact stored_authMode _
      · exact stored_language _
      · exact stored_decimal hpin
      · exact stored_decimal hsession
      · exact ⟨hdestination.printed, hdestination.length_lt.le.trans (by decide)⟩
    · obtain ⟨target, hmem, rfl⟩ := List.mem_map.mp hpair
      have hsound := h.targets.sound target hmem
      exact ⟨hsound.text_printed, hsound.text_length.le⟩
  · simp only [tailEntries, List.mem_cons, List.not_mem_nil, or_false] at hpair
    rcases hpair with rfl | rfl
    · exact stored_decimal hbytes
    · exact stored_decimal hfiles

theorem Key.name_length_le (key : Key) : key.name.length ≤ 22 := by
  cases key <;> decide

/-- The lines a saved file is read as. -/
theorem lines_configText (h : Savable config) :
    lines 10 (CONFIG_LINE_CAPACITY - 1) (configText config) =
      ⟨comment ++ [10], false⟩ :: (entries config).map fun pair => entryLine pair.1 pair.2 := by
  rw [configText_eq, lines_flatMap, List.map_cons, List.map_map]
  · rfl
  · intro text htext
    rcases List.mem_cons.mp htext with rfl | htext
    · decide
    · obtain ⟨pair, hpair, rfl⟩ := List.mem_map.mp htext
      have hstored := h.stored pair hpair
      have hname := pair.1.name_length_le
      have hvalue := hstored.length_le
      refine ⟨(entry_printed pair.1 hstored.printed).no_newline.1, ?_⟩
      simp only [CONFIG_STORAGE_ID_CAPACITY, CONFIG_STORAGE_LABEL_CAPACITY,
        CONFIG_DESTINATION_CAPACITY] at hvalue
      simp only [entry, List.length_append, List.length_cons, CONFIG_LINE_CAPACITY]
      omega

theorem loadLines_comment (lines : List (Line UInt8)) :
    loadLines ⟨configSetDefaults, []⟩ true (⟨comment ++ [10], false⟩ :: lines) =
      loadLines ⟨configSetDefaults, []⟩ false lines := by
  have hcomment : loadLine ⟨configSetDefaults, []⟩ true false
      ((comment ++ [10]).takeWhile (· ≠ 0)) = .ok ⟨configSetDefaults, []⟩ := by
    decide +kernel
  rw [loadLines, hcomment]

theorem numberValue_decimal {number minimum maximum : ℕ} {error : String}
    (h64 : number < 2 ^ 64) (hrange : minimum ≤ number ∧ number ≤ maximum) :
    numberValue (decimal number) minimum maximum error = .ok number := by
  rw [numberValue, parseU64_decimal minimum maximum h64, if_neg (by omega)]

theorem storeValue_authMode (mode : AuthMode) :
    storeValue config .authMode (configAuthModeName mode) =
      .ok { config with authMode := mode } := by
  cases mode with
  | pin => rfl
  | none => rfl

theorem storeValue_language (language : Language) :
    storeValue config .language (configLanguageName language) =
      .ok { config with language := language } := by
  cases language with
  | en => rfl
  | ru => rfl

theorem storeValue_destination (h : SafeDirectory value) :
    storeValue config .destination value = .ok { config with destination := value } := by
  rw [storeValue, if_neg]
  simp [h.length_lt, h.safe]

/-- The configuration and the keys above the storage targets. -/
def headProgress (config : AppConfig) : Progress :=
  ⟨{ configSetDefaults with
      port := config.port
      authMode := config.authMode
      language := config.language
      pinTtlSeconds := config.pinTtlSeconds
      sessionTtlSeconds := config.sessionTtlSeconds
      destination := config.destination },
    [.destination, .sessionTtlSeconds, .pinTtlSeconds, .language, .authMode, .port]⟩

theorem loadLines_head (h : Valid config) (lines : List (Line UInt8)) :
    loadLines ⟨configSetDefaults, []⟩ false
        ((headEntries config).map (fun pair => entryLine pair.1 pair.2) ++ lines) =
      loadLines (headProgress config) false lines := by
  obtain ⟨hport, hpin, hsession, -, -⟩ := h.range.below
  have hdestination := h.destination_safe
  simp only [headEntries, List.map_cons, List.map_nil, List.cons_append, List.nil_append]
  rw [loadLines_entry (printed_decimal _) (applyValue_fresh (by decide) (by simp)
      (by rw [storeValue, numberValue_decimal hport h.range.port]; rfl)),
    loadLines_entry (stored_authMode _).printed (applyValue_fresh (by decide) (by simp)
      (storeValue_authMode _)),
    loadLines_entry (stored_language _).printed (applyValue_fresh (by decide) (by simp)
      (storeValue_language _)),
    loadLines_entry (printed_decimal _) (applyValue_fresh (by decide) (by simp)
      (by rw [storeValue, numberValue_decimal hpin h.range.pinTtl]; rfl)),
    loadLines_entry (printed_decimal _) (applyValue_fresh (by decide) (by simp)
      (by rw [storeValue, numberValue_decimal hsession h.range.sessionTtl]; rfl)),
    loadLines_entry hdestination.printed (applyValue_fresh (by decide) (by simp)
      (storeValue_destination hdestination))]
  rfl

/-- The configuration with the legacy destinations it does not save. -/
def AppConfig.reloaded (config : AppConfig) : AppConfig :=
  { config with
    internalDestination := configSetDefaults.internalDestination
    usbDestination := configSetDefaults.usbDestination }

theorem finishLoad_saved (h : Valid config) {seen : List Key} (hseen : .storagePath ∈ seen) :
    finishLoad ⟨config.reloaded, seen⟩ = .ok config.reloaded := by
  obtain ⟨target, hmem, hpath⟩ := h.destination
  have hfold : foldDestination ⟨config.reloaded, seen⟩ = config.reloaded := by
    simp [foldDestination, hseen]
  have hfound : (configStorageByPath config.reloaded config.destination).isNone = false := by
    rw [configStorageByPath, Option.isNone_eq_false_iff]
    exact List.find?_isSome.mpr ⟨target, hmem, decide_eq_true hpath⟩
  cases hcons : config.reloaded.storageTargets with
  | nil =>
      have hnil : config.storageTargets = [] := hcons
      rw [hnil] at hmem
      cases hmem
  | cons first rest =>
      simp only [finishLoad, hfold, hseen, not_true_eq_false, if_false, hcons]
      exact if_neg (Bool.eq_false_iff.mp hfound)

/-- A valid configuration without a `|` in a path is loaded from what is saved of it. -/
theorem loadContent_saved (h : Valid config)
    (hpath : ∀ target ∈ config.storageTargets, 124 ∉ target.path) :
    loadContent (configText config) none = .ok config.reloaded := by
  obtain ⟨-, -, -, hbytes, hfiles⟩ := h.range.below
  have hne : config.storageTargets ≠ [] := by
    obtain ⟨target, hmem, -⟩ := h.destination
    exact List.ne_nil_of_mem hmem
  have htargets : (headProgress config).targets = [] := if_neg (by simp [headProgress])
  have hsound : SoundTargets ((headProgress config).targets ++ config.storageTargets) := by
    rw [htargets]
    exact h.targets
  obtain ⟨seen, hstorage, hseen, hload⟩ := loadLines_targets hne hsound hpath
    ((tailEntries config).map fun pair => entryLine pair.1 pair.2)
  have hbytesSeen : Key.maxFileBytes ∉ seen := fun hmem => by
    simpa [headProgress] using hseen _ hmem
  have hfilesSeen : Key.maxFilesPerSession ∉ seen := fun hmem => by
    simpa [headProgress] using hseen _ hmem
  have hlines : loadLines ⟨configSetDefaults, []⟩ true
      (lines 10 (CONFIG_LINE_CAPACITY - 1) (configText config)) =
        .ok ⟨config.reloaded, .maxFilesPerSession :: .maxFileBytes :: seen⟩ := by
    rw [lines_configText h.savable, loadLines_comment, entries, List.map_append, List.map_append,
      List.append_assoc, loadLines_head h, targetEntries, List.map_map]
    refine hload.trans ?_
    rw [htargets, List.nil_append]
    simp only [tailEntries, List.map_cons, List.map_nil]
    rw [loadLines_entry (printed_decimal _) (applyValue_fresh (by decide) hbytesSeen
        (by rw [storeValue, numberValue_decimal hbytes h.range.maxFileBytes]; rfl)),
      loadLines_entry (printed_decimal _) (applyValue_fresh (by decide) (by
        simpa [Progress.withTargets] using hfilesSeen)
        (by rw [storeValue, numberValue_decimal hfiles h.range.maxFiles]; rfl))]
    rfl
  rw [loadContent]
  simp only [Option.elim_none, hlines, Option.isSome_none, Bool.false_eq_true, if_false]
  exact finishLoad_saved h (by simp [hstorage])

/-- An entry that is refused whatever was read before it fails the file it is saved in. -/
theorem loadContent_refused_of_entry (h : Savable config) {pair : Key × CString}
    (hmem : pair ∈ entries config) (hrefused : ∀ progress, ∃ error,
      applyValue progress pair.1.name pair.2 = .error error) :
    ∃ error, loadContent (configText config) none = .invalid error := by
  have hline : entryLine pair.1 pair.2 ∈
      (entries config).map fun pair => entryLine pair.1 pair.2 :=
    List.mem_map.mpr ⟨pair, hmem, rfl⟩
  have hload : ∀ progress, ∃ error, loadLine progress false (entryLine pair.1 pair.2).ended
      ((entryLine pair.1 pair.2).text.takeWhile (· ≠ 0)) = .error error := by
    intro progress
    obtain ⟨error, herror⟩ := hrefused progress
    rw [loadLine_entry (h.stored pair hmem).printed, herror]
    exact ⟨_, rfl⟩
  obtain ⟨error, herror⟩ := loadLines_refused ⟨configSetDefaults, []⟩ hline hload
  refine ⟨error, ?_⟩
  rw [loadContent]
  simp only [Option.elim_none, lines_configText h, loadLines_comment, herror]

/-- A target with a `|` in its path fails the file it is saved in. -/
theorem loadContent_refused (h : Savable config) {target : StorageTarget}
    (hmem : target ∈ config.storageTargets) (hpath : 124 ∈ target.path) :
    ∃ error, loadContent (configText config) none = .invalid error := by
  have hentry : (Key.storagePath, target.text) ∈ entries config :=
    List.mem_append_left _ (List.mem_append_right _ (List.mem_map.mpr ⟨target, hmem, rfl⟩))
  apply loadContent_refused_of_entry h hentry
  intro progress
  rw [applyValue, Key.find_name]
  simp only [ne_eq, not_true_eq_false, false_and, if_false, storeValue]
  obtain ⟨error, herror⟩ := addStorageTarget_refused
    (if Key.storagePath ∉ progress.seen then { progress.config with storageTargets := [] }
      else progress.config) (h.targets.sound target hmem) hpath
  simp only [true_and, herror]
  exact ⟨_, rfl⟩

/-- A port below 1024 fails the file it is saved in. -/
theorem loadContent_refused_of_port (h : Savable config) (hport : config.port < 1024) :
    ∃ error, loadContent (configText config) none = .invalid error := by
  have hentry : (Key.port, decimal config.port) ∈ entries config :=
    List.mem_append_left _ (List.mem_append_left _ (List.mem_cons_self ..))
  apply loadContent_refused_of_entry h hentry
  intro progress
  have hnumber : parseU64 (decimal config.port) 1024 65535 = none := by
    rw [parseU64_decimal 1024 65535 h.below.1, if_pos (.inl hport)]
  rw [applyValue, Key.find_name]
  by_cases hseen : Key.port ∈ progress.seen
  · exact ⟨_, if_pos ⟨(by decide : Key.port ≠ .storagePath), hseen⟩⟩
  · simp only [hseen, and_false, if_false, storeValue, numberValue, hnumber]
    exact ⟨_, rfl⟩

/-! ## What a save keeps -/

/-- The two configurations agree in what is saved. -/
structure SameSettings (config config' : AppConfig) : Prop where
  port : config.port = config'.port
  authMode : config.authMode = config'.authMode
  language : config.language = config'.language
  pinTtlSeconds : config.pinTtlSeconds = config'.pinTtlSeconds
  sessionTtlSeconds : config.sessionTtlSeconds = config'.sessionTtlSeconds
  destination : config.destination = config'.destination
  storageTargets : config.storageTargets = config'.storageTargets
  maxFileBytes : config.maxFileBytes = config'.maxFileBytes
  maxFilesPerSession : config.maxFilesPerSession = config'.maxFilesPerSession

/-- The file of a save that succeeded. -/
theorem configSaveFile_ok {files files' : Files} {path : CString} {io : SaveIo}
    (h : configSaveFile files path config io = (files', none)) :
    files' path = some (configText config) := by
  unfold configSaveFile at h
  dsimp only at h
  split at h
  · cases h
  split at h
  · cases h
  · cases h
  · cases h
  · cases h
    exact Function.update_self ..

/-- A file that can be read. -/
def LoadIo.calm : LoadIo := ⟨none, none⟩

/-- What a loaded configuration is saved as loads again, with the same settings, exactly
when no storage target has a `|` in its path. -/
theorem reload_iff_no_separator {files saved saved' : Files} {source path : CString} {io : LoadIo}
    {saveIo : SaveIo} (hload : configLoadFile files source io = .ok config)
    (hsave : configSaveFile saved path config saveIo = (saved', none)) :
    (∃ reloaded, configLoadFile saved' path .calm = .ok reloaded ∧ SameSettings reloaded config) ↔
      ∀ target ∈ config.storageTargets, 124 ∉ target.path := by
  have hvalid := configLoadFile_valid hload
  have hfile : configLoadFile saved' path .calm = loadContent (configText config) none := by
    simp only [configLoadFile, LoadIo.calm, configSaveFile_ok hsave]
  rw [hfile]
  constructor
  · rintro ⟨reloaded, hreloaded, -⟩ target hmem hpath
    obtain ⟨error, herror⟩ := loadContent_refused hvalid.savable hmem hpath
    cases hreloaded.symm.trans herror
  · intro hpath
    exact ⟨config.reloaded, loadContent_saved hvalid hpath, rfl, rfl, rfl, rfl, rfl, rfl, rfl,
      rfl, rfl⟩

namespace Sample

/-- Every call of a save succeeds. -/
def saved : SaveIo := ⟨none, none, none, false⟩

/-- No files but this one. -/
def onlyFile (path : CString) (content : Bytes) : Files :=
  Function.update (fun _ => none) path (some content)

/-- `"/data/config.ini"`. -/
def configPath : CString := ascii "/data/config.ini"

/-- A file with two targets, the second of them chosen. -/
def ownFile : Bytes :=
  ascii "port=9000\nstorage_path=games|My games|/data/games\n" ++
    ascii "storage_path=stick|USB stick|/mnt/usb1/inbox\ndestination=/mnt/usb1/inbox\n"

/-- What it is loaded as. -/
def ownConfig : AppConfig :=
  { configSetDefaults with
    port := 9000
    destination := ascii "/mnt/usb1/inbox"
    storageTargets :=
      [⟨ascii "games", ascii "My games", ascii "/data/games"⟩,
        ⟨ascii "stick", ascii "USB stick", ascii "/mnt/usb1/inbox"⟩] }

/-- A legacy file whose internal destination contains a `|`. -/
def legacyFile : Bytes := ascii "internal_destination=/data/a|b\n"

/-- What it is loaded as. -/
def legacyConfig : AppConfig :=
  { configSetDefaults with
    destination := ascii "/data/a|b"
    internalDestination := ascii "/data/a|b"
    storageTargets :=
      [⟨ascii "internal", ascii "Internal storage", ascii "/data/a|b"⟩,
        ⟨ascii "usb", ascii "USB drive", ascii "/mnt/usb0/ps5localsend/inbox"⟩] }

end Sample

open Sample

/-- A configuration with targets of its own is saved and loaded again. -/
theorem reload_ownTargets :
    ∃ saved' reloaded,
      configLoadFile (onlyFile configPath ownFile) configPath .calm = .ok ownConfig ∧
      configSaveFile (onlyFile configPath ownFile) configPath ownConfig saved = (saved', none) ∧
      configLoadFile saved' configPath .calm = .ok reloaded ∧
      SameSettings reloaded ownConfig := by
  have hload : configLoadFile (onlyFile configPath ownFile) configPath .calm = .ok ownConfig := by
    decide +kernel
  have hsave : configSaveFile (onlyFile configPath ownFile) configPath ownConfig saved =
      ((configSaveFile (onlyFile configPath ownFile) configPath ownConfig saved).1, none) := rfl
  obtain ⟨reloaded, hreloaded, hsame⟩ :=
    (reload_iff_no_separator hload hsave).mpr (by decide +kernel)
  exact ⟨_, reloaded, hload, hsave, hreloaded, hsame⟩

/-- The legacy file is loaded, but what is saved of it is refused. -/
theorem legacyPath_not_reloaded :
    ∃ saved', configLoadFile (onlyFile configPath legacyFile) configPath .calm = .ok legacyConfig ∧
      configSaveFile (onlyFile configPath legacyFile) configPath legacyConfig saved =
        (saved', none) ∧
      configLoadFile saved' configPath .calm = .invalid (some "invalid storage_path entry") := by
  refine ⟨_, by decide +kernel, rfl, by decide +kernel⟩

end LocalSend.Config
