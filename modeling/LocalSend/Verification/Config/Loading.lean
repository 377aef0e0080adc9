import LocalSend.Model.Config

/-! # What a load accepts

Every value passes the check of its key, so a configuration that has been loaded is valid as
a whole: the numbers lie in their ranges, the targets are sound and distinct, and one of
them is the destination.
-/

namespace LocalSend.Config

open SafePath Text
open Upload (CONFIG_DESTINATION_CAPACITY Errno isDigit)

/-! ## Validity -/

/-- A directory the loader accepts. -/
structure SafeDirectory (path : CString) : Prop where
  length_lt : path.length < CONFIG_DESTINATION_CAPACITY
  safe : destinationIsSafe path = true
  trimmed : Trimmed isSpace path

/-- A storage target the loader accepts; its path may still contain a `|`. -/
structure SoundTarget (target : StorageTarget) : Prop where
  id : storageIdIsSafe target.id = true
  label : storageLabelIsSafe target.label = true
  labelTrimmed : Trimmed isSpace target.label
  path : SafeDirectory target.path

/-- The list of targets the loader has built. -/
structure SoundTargets (targets : List StorageTarget) : Prop where
  sound : ∀ target ∈ targets, SoundTarget target
  count : targets.length ≤ CONFIG_STORAGE_TARGETS_MAX
  distinct : (targets.map StorageTarget.id).Nodup

/-- The numbers of a configuration are in their ranges. -/
structure InRange (config : AppConfig) : Prop where
  port : 1024 ≤ config.port ∧ config.port ≤ 65535
  pinTtl : 30 ≤ config.pinTtlSeconds ∧ config.pinTtlSeconds ≤ 600
  sessionTtl : 60 ≤ config.sessionTtlSeconds ∧ config.sessionTtlSeconds ≤ 86400
  maxFileBytes : 1 ≤ config.maxFileBytes ∧ config.maxFileBytes ≤ 1099511627776
  maxFiles : 1 ≤ config.maxFilesPerSession ∧ config.maxFilesPerSession ≤ 1000

/-- The values read so far have passed their checks. -/
structure Checked (config : AppConfig) : Prop where
  range : InRange config
  destination : SafeDirectory config.destination
  internal : SafeDirectory config.internalDestination
  usb : SafeDirectory config.usbDestination
  targets : SoundTargets config.storageTargets

/-- What holds of the configuration while it is being read. -/
structure Reading (progress : Progress) : Prop where
  checked : Checked progress.config
  defaults : .storagePath ∉ progress.seen →
    progress.config.storageTargets = configSetDefaults.storageTargets

/-- A configuration the receiver can start with. -/
structure Valid (config : AppConfig) : Prop where
  range : InRange config
  targets : SoundTargets config.storageTargets
  destination : ∃ target ∈ config.storageTargets, target.path = config.destination

variable {config : AppConfig} {progress next : Progress} {value : CString} {result : LoadResult}

/-! ## One value -/

theorem parseU64_range {text : CString} {minimum maximum number : ℕ}
    (h : parseU64 text minimum maximum = some number) : minimum ≤ number ∧ number ≤ maximum := by
  unfold parseU64 at h
  split at h
  · cases h
  split at h
  · split at h
    · cases h
    · rename_i hrange
      cases h
      exact ⟨not_lt.mp (not_or.mp hrange).1, not_lt.mp (not_or.mp hrange).2⟩
  · cases h

theorem numberValue_range {minimum maximum number : ℕ} {error : String}
    (h : numberValue value minimum maximum error = .ok number) :
    minimum ≤ number ∧ number ≤ maximum := by
  unfold numberValue at h
  split at h
  · cases h
  · rename_i hparse
    cases h
    exact parseU64_range hparse

theorem map_eq_ok {α β ε : Type} {outcome : Except ε α} {f : α → β} {result : β}
    (h : outcome.map f = .ok result) : ∃ value, outcome = .ok value ∧ f value = result := by
  cases outcome with
  | error error => cases h
  | ok value => exact ⟨value, rfl, Except.ok.inj h⟩

theorem mapError_eq_ok {α ε ε' : Type} {outcome : Except ε α} {f : ε → ε'} {result : α}
    (h : outcome.mapError f = .ok result) : outcome = .ok result := by
  cases outcome with
  | error error => cases h
  | ok value => exact congrArg _ (Except.ok.inj h)

theorem SafeDirectory.of_root {root : CString} (htrimmed : Trimmed isSpace value)
    (h : ¬(CONFIG_DESTINATION_CAPACITY ≤ value.length ∨
      ¬destinationIsSafeForRoot value root = true)) : SafeDirectory value := by
  obtain ⟨hlength, hsafe⟩ := not_or.mp h
  have hroot : destinationIsSafeForRoot value root = true := not_not.mp hsafe
  simp only [destinationIsSafeForRoot, decide_eq_true_eq] at hroot
  exact ⟨not_le.mp hlength, hroot.1, htrimmed⟩

theorem storageParts_trimmed {target : StorageTarget} (h : storageParts value = some target) :
    Trimmed isSpace target.label ∧ Trimmed isSpace target.path := by
  unfold storageParts at h
  split at h
  · cases h
  split at h
  · cases h
  · cases h
    exact ⟨trimmed_trim .., trimmed_trim ..⟩

/-- A target that is added is sound, and its identifier is new. -/
theorem addStorageTarget_spec {config' : AppConfig}
    (h : addStorageTarget config value = .ok config')
    (htargets : SoundTargets config.storageTargets) :
    ∃ target, config' = { config with storageTargets := config.storageTargets ++ [target] } ∧
      124 ∉ target.path ∧ SoundTargets (config.storageTargets ++ [target]) := by
  unfold addStorageTarget at h
  split at h
  · cases h
  split at h
  · cases h
  rename_i target hparts
  split at h
  · cases h
  rename_i hsafe
  split at h
  · cases h
  rename_i hcount
  split at h
  · cases h
  rename_i hnew
  cases h
  simp only [not_or, not_not, not_le] at hsafe
  obtain ⟨hseparator, hid, hlabel, hlength, hpath⟩ := hsafe
  obtain ⟨hlabelTrimmed, hpathTrimmed⟩ := storageParts_trimmed hparts
  refine ⟨target, rfl, hseparator, ?_, ?_, ?_⟩
  · intro other hother
    rcases List.mem_append.mp hother with hmem | hmem
    · exact htargets.sound other hmem
    · obtain rfl := List.mem_singleton.mp hmem
      exact ⟨hid, hlabel, hlabelTrimmed, hlength, hpath, hpathTrimmed⟩
  · rw [List.length_append]
    exact not_le.mp hcount
  · have hfresh : target.id ∉ config.storageTargets.map StorageTarget.id := by
      rintro hmem
      obtain ⟨other, hother, hid⟩ := List.mem_map.mp hmem
      exact hnew (List.find?_isSome.mpr ⟨other, hother, decide_eq_true hid⟩)
    rw [List.map_append, List.map_singleton, ← List.concat_eq_append]
    exact htargets.distinct.concat hfresh

/-- A stored value has passed its check, and the others are kept. -/
theorem storeValue_checked {key : Key} {config' : AppConfig} (hchecked : Checked config)
    (htrimmed : Trimmed isSpace value) (h : storeValue config key value = .ok config') :
    Checked config' := by
  have hrange := hchecked.range
  cases key with
  | port =>
      obtain ⟨number, hnumber, rfl⟩ := map_eq_ok h
      exact { hchecked with range := { hrange with port := numberValue_range hnumber } }
  | pinTtlSeconds =>
      obtain ⟨number, hnumber, rfl⟩ := map_eq_ok h
      exact { hchecked with range := { hrange with pinTtl := numberValue_range hnumber } }
  | sessionTtlSeconds =>
      obtain ⟨number, hnumber, rfl⟩ := map_eq_ok h
      exact { hchecked with range := { hrange with sessionTtl := numberValue_range hnumber } }
  | maxFileBytes =>
      obtain ⟨number, hnumber, rfl⟩ := map_eq_ok h
      exact { hchecked with range := { hrange with maxFileBytes := numberValue_range hnumber } }
  | maxFilesPerSession =>
      obtain ⟨number, hnumber, rfl⟩ := map_eq_ok h
      exact { hchecked with range := { hrange with maxFiles := numberValue_range hnumber } }
  | storagePath =>
      obtain ⟨target, rfl, -, htargets⟩ := addStorageTarget_spec h hchecked.targets
      exact { hchecked with range := { hrange with }, targets := htargets }
  | destination =>
      rw [storeValue] at h
      split at h
      · cases h
      · rename_i hsafe
        cases h
        obtain ⟨hlength, hsafe⟩ := not_or.mp hsafe
        have hdirectory : SafeDirectory value := ⟨not_le.mp hlength, not_not.mp hsafe, htrimmed⟩
        exact { hchecked with range := { hrange with }, destination := hdirectory }
  | internalDestination =>
      rw [storeValue] at h
      split at h
      · cases h
      · rename_i hsafe
        cases h
        exact { hchecked with range := { hrange with }, internal := .of_root htrimmed hsafe }
  | usbDestination =>
      rw [storeValue] at h
      split at h
      · cases h
      · rename_i hsafe
        cases h
        exact { hchecked with range := { hrange with }, usb := .of_root htrimmed hsafe }
  | authMode =>
      rw [storeValue] at h
      split at h
      · cases h
        exact { hchecked with range := { hrange with } }
      split at h
      · cases h
        exact { hchecked with range := { hrange with } }
      · cases h
  | language =>
      rw [storeValue] at h
      split at h
      · cases h
        exact { hchecked with range := { hrange with } }
      split at h
      · cases h
        exact { hchecked with range := { hrange with } }
      · cases h

/-- Only `storage_path` touches the targets. -/
theorem storeValue_targets {key : Key} {config' : AppConfig} (hkey : key ≠ .storagePath)
    (h : storeValue config key value = .ok config') :
    config'.storageTargets = config.storageTargets := by
  cases key with
  | storagePath => exact absurd rfl hkey
  | port | pinTtlSeconds | sessionTtlSeconds | maxFileBytes | maxFilesPerSession =>
      obtain ⟨number, -, rfl⟩ := map_eq_ok h
      rfl
  | authMode | language =>
      rw [storeValue] at h
      split at h
      · cases h
        rfl
      split at h
      · cases h
        rfl
      · cases h
  | destination | internalDestination | usbDestination =>
      rw [storeValue] at h
      split at h
      · cases h
      · cases h
        rfl

theorem soundTargets_nil : SoundTargets [] := by
  refine ⟨?_, Nat.zero_le _, List.nodup_nil⟩
  intro target hmem
  cases hmem

theorem applyValue_reading {key : CString} (hreading : Reading progress)
    (htrimmed : Trimmed isSpace value) (h : applyValue progress key value = .ok next) :
    Reading next := by
  have hchecked := hreading.checked
  unfold applyValue at h
  split at h
  · cases h
  rename_i key _
  split at h
  · cases h
  obtain ⟨config', hstore, rfl⟩ := map_eq_ok h
  by_cases hkey : key = .storagePath
  · refine ⟨storeValue_checked ?_ htrimmed hstore, fun hseen => ?_⟩
    · split
      · exact { hchecked with range := { hchecked.range with }, targets := soundTargets_nil }
      · exact hchecked
    · exact absurd (hkey ▸ List.mem_cons_self ..) hseen
  · rw [if_neg (by simp [hkey])] at hstore
    refine ⟨storeValue_checked hchecked htrimmed hstore, fun hseen => ?_⟩
    rw [storeValue_targets hkey hstore]
    exact hreading.defaults fun hmem => hseen (List.mem_cons_of_mem _ hmem)

/-! ## The whole file -/

theorem loadEntry_reading {ended : Bool} {line : CString} (hreading : Reading progress)
    (h : loadEntry progress ended line = .ok next) : Reading next := by
  unfold loadEntry at h
  split at h
  · cases h
  dsimp only at h
  split at h
  · cases h
    exact hreading
  split at h
  · cases h
  split at h
  · cases h
  · exact applyValue_reading hreading (trimmed_trim ..) (mapError_eq_ok h)

theorem loadLine_reading {first ended : Bool} {line : CString} (hreading : Reading progress)
    (h : loadLine progress first ended line = .ok next) : Reading next := by
  unfold loadLine at h
  split at h
  · split at h
    · cases h
    · exact loadEntry_reading hreading h
  · exact loadEntry_reading hreading h

theorem loadLines_reading {first : Bool} {lines : List (Line UInt8)} (hreading : Reading progress)
    (h : loadLines progress first lines = .ok next) : Reading next := by
  induction lines generalizing progress first with
  | nil =>
      cases h
      exact hreading
  | cons line lines ih =>
      rw [loadLines] at h
      split at h
      · cases h
      · rename_i hline
        exact ih (loadLine_reading hreading hline) h

theorem checked_defaults : Checked configSetDefaults := by
  have hinternal : SafeDirectory configSetDefaults.internalDestination :=
    ⟨by decide, by decide +kernel, trimmed_of_ends (by decide) (by decide)⟩
  have husb : SafeDirectory configSetDefaults.usbDestination :=
    ⟨by decide, by decide +kernel, trimmed_of_ends (by decide) (by decide)⟩
  refine ⟨⟨?_, ?_, ?_, ?_, ?_⟩, hinternal, hinternal, husb, ?_, by decide, by decide⟩
  · decide
  · decide
  · decide
  · decide
  · decide
  · intro target hmem
    rcases List.mem_pair.mp hmem with rfl | rfl
    · exact ⟨by decide, by decide, trimmed_of_ends (by decide) (by decide), hinternal⟩
    · exact ⟨by decide, by decide, trimmed_of_ends (by decide) (by decide), husb⟩

theorem foldDestination_checked (h : Checked progress.config) :
    Checked (foldDestination progress) ∧
      (foldDestination progress).storageTargets = progress.config.storageTargets := by
  unfold foldDestination
  dsimp only
  split
  · split
    · exact ⟨{ h with range := { h.range with }, usb := h.destination }, rfl⟩
    split
    · exact ⟨{ h with range := { h.range with }, internal := h.destination }, rfl⟩
    · exact ⟨h, rfl⟩
  · exact ⟨h, rfl⟩

/-- The default targets stay sound with the paths of the legacy keys. -/
theorem setDefaultPaths_checked (h : Checked config)
    (htargets : config.storageTargets = configSetDefaults.storageTargets) :
    Checked (setDefaultPaths config) := by
  have hdefaults := checked_defaults.targets
  rw [setDefaultPaths, htargets]
  refine { h with range := { h.range with }, targets := ⟨?_, hdefaults.count, ?_⟩ }
  · intro target hmem
    rcases List.mem_pair.mp hmem with rfl | rfl
    · have hinternal := hdefaults.sound _ (List.mem_cons_self ..)
      exact { hinternal with path := h.internal }
    · have husb := hdefaults.sound _ (List.mem_cons_of_mem _ (List.mem_cons_self ..))
      exact { husb with path := h.usb }
  · exact hdefaults.distinct

theorem finishLoad_valid (hreading : Reading progress) (h : finishLoad progress = .ok config) :
    Valid config := by
  obtain ⟨hfolded, htargets⟩ := foldDestination_checked hreading.checked
  have hchecked : Checked (if .storagePath ∉ progress.seen then
      setDefaultPaths (foldDestination progress) else foldDestination progress) := by
    split
    · rename_i hseen
      exact setDefaultPaths_checked hfolded (htargets.trans (hreading.defaults hseen))
    · exact hfolded
  unfold finishLoad at h
  dsimp only at h
  generalize (if .storagePath ∉ progress.seen then
      setDefaultPaths (foldDestination progress) else foldDestination progress) = folded
    at h hchecked
  split at h
  · cases h
  rename_i target rest hcons
  split at h
  · cases h
    exact ⟨{ hchecked.range with }, hchecked.targets, target, hcons ▸ List.mem_cons_self .., rfl⟩
  · rename_i hfound
    cases h
    rw [configStorageByPath, Option.isNone_iff_eq_none, List.find?_eq_none] at hfound
    push Not at hfound
    obtain ⟨found, hmem, hpath⟩ := hfound
    exact ⟨hchecked.range, hchecked.targets, found, hmem, of_decide_eq_true hpath⟩

/-- A configuration that was loaded is valid, whatever the file contained. -/
theorem loadContent_valid {content : Bytes} {failsAfter : Option ℕ}
    (h : loadContent content failsAfter = .ok config) : Valid config := by
  unfold loadContent at h
  dsimp only at h
  split at h
  · cases h
  rename_i progress hlines
  split at h
  · cases h
  · have hreading : Reading ⟨configSetDefaults, []⟩ := ⟨checked_defaults, fun _ => rfl⟩
    exact finishLoad_valid (loadLines_reading hreading hlines) h

/-- The defaults are what an empty file is loaded as. -/
theorem valid_defaults : Valid configSetDefaults := by
  have hload : loadContent [] none = .ok configSetDefaults := by
    decide +kernel
  exact loadContent_valid hload

theorem finishLoad_found {error : String} : finishLoad progress ≠ .notFound config error := by
  unfold finishLoad
  dsimp only
  generalize (if .storagePath ∉ progress.seen then setDefaultPaths (foldDestination progress)
    else foldDestination progress) = loaded
  split
  · exact nofun
  · split <;> exact nofun

theorem loadContent_found {content : Bytes} {failsAfter : Option ℕ} {error : String} :
    loadContent content failsAfter ≠ .notFound config error := by
  unfold loadContent
  dsimp only
  split
  · exact nofun
  · split
    · exact nofun
    · exact finishLoad_found

/-- A missing file leaves the defaults. -/
theorem configLoadFile_notFound {files : Files} {path : CString} {io : LoadIo} {error : String}
    (h : configLoadFile files path io = .notFound config error) : Valid config := by
  unfold configLoadFile at h
  split at h
  · split at h
    · obtain ⟨rfl, -⟩ := LoadResult.notFound.inj h
      exact valid_defaults
    · cases h
  · obtain ⟨rfl, -⟩ := LoadResult.notFound.inj h
    exact valid_defaults
  · exact absurd h loadContent_found

theorem configLoadFile_valid {files : Files} {path : CString} {io : LoadIo}
    (h : configLoadFile files path io = .ok config) : Valid config := by
  unfold configLoadFile at h
  split at h
  · split at h
    · cases h
    · cases h
  · cases h
  · exact loadContent_valid h

end LocalSend.Config
