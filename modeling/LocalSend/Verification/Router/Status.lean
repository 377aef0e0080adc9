import LocalSend.Library.JsonValue
import LocalSend.Model.Router.Status
import LocalSend.Verification.Config.Accepted
import LocalSend.Verification.Decimal
import LocalSend.Verification.FileName
import Mathlib.Data.List.Forall2

/-! # The status answer is JSON

The text of the answer is a printed value, so reading it gives the name, the paths and the labels
back. A configuration that was loaded keeps every buffer large enough.
-/

namespace LocalSend.Routing

open Config SafePath Json
open Upload (CONFIG_DESTINATION_CAPACITY Snapshot UPLOAD_CHUNK_BYTES UPLOAD_CHUNK_PARALLELISM)

variable {input output text : CString} {size : ℕ} {config : AppConfig} {snapshot : Snapshot}
  {target : StorageTarget} {targets : List StorageTarget} {number : ℕ}

/-! ## Escaping -/

theorem escapeFilenameLoop_eq (h : output.length + (escape input).length < size) :
    escapeFilenameLoop size output input = some (output ++ escape input) := by
  induction input generalizing output with
  | nil => simp [escapeFilenameLoop, escape]
  | cons character input ih =>
      rw [escape_cons] at h ⊢
      rw [escapeFilenameLoop]
      by_cases hmark : character = 34 ∨ character = 92
      · simp only [if_pos hmark, List.length_append, List.length_cons, List.length_nil] at h ⊢
        rw [if_neg (by omega), Option.bind_some, if_neg (by simp; omega), ih (by simp; omega)]
        simp
      · simp only [if_neg hmark, List.length_append, List.length_cons, List.length_nil] at h ⊢
        rw [Option.bind_some, if_neg (by omega), ih (by simp; omega)]
        simp

theorem jsonEscapeFilename_eq (h : (escape input).length < size) :
    jsonEscapeFilename input size = some (escape input) := by
  rw [jsonEscapeFilename, if_neg (by omega), escapeFilenameLoop_eq (by simpa using h)]
  rfl

theorem escapeStringLoop_eq (htext : IsText input)
    (h : output.length + (escape input).length < size) :
    escapeStringLoop size output input = some (output ++ escape input) := by
  induction input generalizing output with
  | nil => simp [escapeStringLoop, escape]
  | cons cursor input ih =>
      have hcontrol : ¬cursor < 0x20 := UInt8.not_lt.mpr (htext cursor (List.mem_cons_self ..))
      have hrest : IsText input := fun byte hmem => htext byte (List.mem_cons_of_mem _ hmem)
      rw [escape_cons] at h ⊢
      rw [escapeStringLoop]
      by_cases hmark : cursor = 34 ∨ cursor = 92
      · simp only [if_pos hmark, List.length_append, List.length_cons, List.length_nil] at h ⊢
        rw [if_neg (by omega), ih hrest (by simp; omega)]
        simp
      · simp only [if_neg hmark, List.length_append, List.length_cons, List.length_nil] at h ⊢
        rw [if_neg hcontrol, if_neg (by omega), ih hrest (by simp; omega)]
        simp

theorem jsonEscapeString_eq (htext : IsText input) (h : (escape input).length < size) :
    jsonEscapeString input size = some (escape input) := by
  rw [jsonEscapeString, if_neg (by omega), escapeStringLoop_eq htext (by simpa using h)]
  rfl

/-! ## Lengths -/

/-- No piece is longer than its bound. -/
def Within (pieces : List CString) (bounds : List ℕ) : Prop :=
  List.Forall₂ (fun piece bound => piece.length ≤ bound) pieces bounds

theorem length_flatten_le {pieces : List CString} {bounds : List ℕ} (h : Within pieces bounds) :
    pieces.flatten.length ≤ bounds.foldr (· + ·) 0 := by
  induction h with
  | nil => exact le_rfl
  | cons hpiece _ ih =>
      rw [List.flatten_cons, List.length_append, List.foldr_cons]
      exact Nat.add_le_add hpiece ih

/-! ## The targets -/

def targetValue (target : StorageTarget) : Value :=
  .object [(ascii "id", .string target.id), (ascii "label", .string target.label),
    (ascii "path", .string target.path)]

/-- A target whose texts can be pasted into the answer. -/
structure PlainTarget (target : StorageTarget) : Prop where
  id : Plain target.id
  label : Plain target.label
  path : Plain target.path
  length : target.id.length + target.label.length + target.path.length ≤ 1149

theorem isAlnum_plain {byte : UInt8} (h : isAlnum byte = true ∨ byte = 95 ∨ byte = 45) :
    0x20 ≤ byte ∧ byte ≠ 34 ∧ byte ≠ 92 := by
  simp only [isAlnum, Upload.isDigit, decide_eq_true_eq, UInt8.le_iff_toNat_le, Ne,
    ← UInt8.toNat_inj, UInt8.reduceToNat] at h ⊢
  omega

theorem SoundTarget.plain (h : SoundTarget target) : PlainTarget target := by
  have hid := h.id
  have hlabel := h.label
  have hpath := h.path.clean
  simp only [storageIdIsSafe, storageLabelIsSafe, decide_eq_true_eq, List.all_eq_true] at hid hlabel
  refine ⟨?_, ?_, ?_, ?_⟩
  · intro byte hmem
    exact isAlnum_plain (hid.2.2 byte hmem)
  · intro byte hmem
    have hboth := hlabel.2.2 byte hmem
    have hvisible := visible_iff.mp (by simpa using hboth.1)
    exact ⟨hvisible.1, hvisible.2.2.1, hvisible.2.2.2⟩
  · intro byte hmem
    have hvisible := hpath.visible byte hmem
    exact ⟨hvisible.1, hvisible.2.2.1, hvisible.2.2.2⟩
  · have hshort := hpath.length_lt
    have hidLength := hid.2.1
    have hlabelLength := hlabel.2.1
    simp only [CONFIG_STORAGE_ID_CAPACITY, CONFIG_STORAGE_LABEL_CAPACITY] at hidLength hlabelLength
    omega

theorem storageTargetText_print (h : PlainTarget target) (tail : CString) :
    storageTargetText true target ++ tail = (targetValue target).print tail := by
  have hprint : (targetValue target).print tail =
      ascii "\x7b\"id\":\"" ++ (escape target.id ++ (ascii "\",\"label\":\"" ++
        (escape target.label ++ (ascii "\",\"path\":\"" ++ (escape target.path ++
          (ascii "\"\x7d" ++ tail)))))) := rfl
  rw [hprint, h.id.escape_eq, h.label.escape_eq, h.path.escape_eq, storageTargetText]
  simp

theorem storageTargetText_false (target : StorageTarget) :
    storageTargetText false target = 44 :: storageTargetText true target := rfl

theorem length_storageTargetText (h : PlainTarget target) (first : Bool) :
    (storageTargetText first target).length ≤ 1180 := by
  have hlength := h.length
  have hopen : (ascii "\x7b\"id\":\"").length = 7 := rfl
  have hlabel : (ascii "\",\"label\":\"").length = 11 := rfl
  have hpath : (ascii "\",\"path\":\"").length = 10 := rfl
  have hclose : (ascii "\"\x7d").length = 2 := rfl
  have hcomma : (if first then [] else [44] : CString).length ≤ 1 := by cases first <;> simp
  simp only [storageTargetText, List.flatten_cons, List.flatten_nil, List.length_append, hopen,
    hlabel, hpath, hclose, List.length_nil]
  omega

/-- The loop pastes the targets behind each other, as they are printed. -/
theorem storageTargetsLoop_more (h : ∀ target ∈ targets, PlainTarget target)
    (hroom : text.length + 1180 * targets.length < STORAGE_TARGETS_BYTES) :
    ∃ pieces, storageTargetsLoop false text targets = some (text ++ pieces) ∧
      pieces.length ≤ 1180 * targets.length ∧
      ∀ tail, pieces ++ 93 :: tail = printMoreItems (targets.map targetValue) tail := by
  induction targets generalizing text with
  | nil => exact ⟨[], by simp [storageTargetsLoop], by simp, fun _ => rfl⟩
  | cons target targets ih =>
      have htarget := h target (List.mem_cons_self ..)
      have hlength := length_storageTargetText htarget false
      rw [List.length_cons] at hroom
      have hrest : (text ++ storageTargetText false target).length + 1180 * targets.length <
          STORAGE_TARGETS_BYTES := by
        rw [List.length_append]
        omega
      obtain ⟨pieces, hloop, hpieces, hprint⟩ :=
        ih (fun other hmem => h other (List.mem_cons_of_mem _ hmem)) hrest
      refine ⟨storageTargetText false target ++ pieces, ?_, ?_, fun tail => ?_⟩
      · rw [storageTargetsLoop, if_neg (by omega), hloop, List.append_assoc]
      · rw [List.length_append, List.length_cons]
        omega
      · rw [List.append_assoc, hprint, storageTargetText_false, List.cons_append,
          storageTargetText_print htarget]
        rfl

/-- `storage_targets` is printed JSON, and its buffer is large enough. -/
theorem storageTargetsText_print (h : ∀ target ∈ config.storageTargets, PlainTarget target)
    (hcount : config.storageTargets.length ≤ 8) :
    ∃ text, storageTargetsText config = some text ∧ text.length < STORAGE_TARGETS_BYTES ∧
      ∀ tail, text ++ tail =
        (Value.array (config.storageTargets.map targetValue)).print tail := by
  cases htargets : config.storageTargets with
  | nil =>
      refine ⟨[91, 93], ?_, by decide, fun _ => rfl⟩
      rw [storageTargetsText, htargets]
      rfl
  | cons target targets =>
      rw [htargets, List.length_cons] at hcount
      rw [htargets] at h
      have htarget := h target (List.mem_cons_self ..)
      have hlength := length_storageTargetText htarget true
      have hroom : ([91] ++ storageTargetText true target).length + 1180 * targets.length <
          STORAGE_TARGETS_BYTES := by
        simp only [STORAGE_TARGETS_BYTES, List.length_append, List.length_cons, List.length_nil]
        omega
      obtain ⟨pieces, hloop, hpieces, hprint⟩ :=
        storageTargetsLoop_more (fun other hmem => h other (List.mem_cons_of_mem _ hmem)) hroom
      refine ⟨[91] ++ storageTargetText true target ++ pieces ++ [93], ?_, ?_, fun tail => ?_⟩
      · have hfits : ¬STORAGE_TARGETS_BYTES - [(91 : UInt8)].length ≤
            (storageTargetText true target).length := by
          simp only [STORAGE_TARGETS_BYTES, List.length_cons, List.length_nil]
          omega
        rw [storageTargetsText, htargets, storageTargetsLoop, if_neg hfits, hloop,
          Option.bind_some, if_neg]
        simp only [STORAGE_TARGETS_BYTES, List.length_append, List.length_cons, List.length_nil]
        omega
      · simp only [STORAGE_TARGETS_BYTES, List.length_append, List.length_cons, List.length_nil]
        omega
      · rw [List.map_cons, Value.print, printItems, ← hprint, ← storageTargetText_print htarget]
        simp

/-! ## The answer -/

def numberValue (number : ℕ) : Value := .number (decimal number)

theorem isNumeral_decimal (number : ℕ) : IsNumeral (decimal number) := by
  have hnumeral := numeral_decimal number
  exact ⟨hnumeral.ne_nil, hnumeral.digits, hnumeral.leading⟩

theorem length_decimal_le (h : number < 2 ^ 64) : (decimal number).length ≤ 20 := by
  rw [decimal, List.length_map]
  exact (Nat.length_toDigits_le_iff (by decide) (by decide)).mpr (by omega)

/-- The numbers fit their 64 bits. -/
structure Numbers (snapshot : Snapshot) : Prop where
  received : snapshot.received < 2 ^ 64
  expected : snapshot.expected < 2 ^ 64
  lastCompletedSize : snapshot.lastCompletedSize < 2 ^ 64
  preparationMs : snapshot.lastMetrics.preparationMs < 2 ^ 64
  transferMs : snapshot.lastMetrics.transferMs < 2 ^ 64
  writeMs : snapshot.lastMetrics.writeMs < 2 ^ 64

def lastUploadValue (snapshot : Snapshot) : Value :=
  if snapshot.hasLastMetrics then
    .object [(ascii "bytes", numberValue snapshot.lastCompletedSize),
      (ascii "timing", .object [
        (ascii "preparationMs", numberValue snapshot.lastMetrics.preparationMs),
        (ascii "transferMs", numberValue snapshot.lastMetrics.transferMs),
        (ascii "writeMs", numberValue snapshot.lastMetrics.writeMs),
        (ascii "directIO", .bool snapshot.lastMetrics.directIo)])]
  else .null

theorem boolText_print (value : Bool) (tail : CString) :
    (Value.bool value).print tail = boolText value ++ tail := by
  cases value <;> rfl

theorem length_boolText (value : Bool) : (boolText value).length ≤ 5 := by
  cases value <;> decide

/-- `last_upload` is printed JSON, and its buffer is large enough. -/
theorem lastUploadText_print (h : Numbers snapshot) :
    ∃ text, lastUploadText snapshot = some text ∧ text.length < LAST_UPLOAD_BYTES ∧
      ∀ tail, text ++ tail = (lastUploadValue snapshot).print tail := by
  by_cases hmetrics : snapshot.hasLastMetrics = true
  · rw [lastUploadText, if_pos hmetrics, lastUploadValue, if_pos hmetrics]
    dsimp only
    generalize htext : [ascii "\x7b\"bytes\":", decimal snapshot.lastCompletedSize,
      ascii ",\"timing\":\x7b\"preparationMs\":", decimal snapshot.lastMetrics.preparationMs,
      ascii ",\"transferMs\":", decimal snapshot.lastMetrics.transferMs,
      ascii ",\"writeMs\":", decimal snapshot.lastMetrics.writeMs,
      ascii ",\"directIO\":", boolText snapshot.lastMetrics.directIo,
      ascii "\x7d\x7d"].flatten = text
    have hlength : text.length < LAST_UPLOAD_BYTES := by
      rw [← htext]
      refine (length_flatten_le
        (?_ : Within _ [9, 20, 27, 20, 14, 20, 11, 20, 12, 5, 2])).trans_lt (by decide)
      exact .cons (by decide) <| .cons (length_decimal_le h.lastCompletedSize) <|
        .cons (by decide) <| .cons (length_decimal_le h.preparationMs) <|
        .cons (by decide) <| .cons (length_decimal_le h.transferMs) <|
        .cons (by decide) <| .cons (length_decimal_le h.writeMs) <|
        .cons (by decide) <| .cons (length_boolText _) <| .cons (by decide) .nil
    refine ⟨text, if_neg (Nat.not_le_of_lt hlength), hlength, fun tail => ?_⟩
    have hprint : (Value.object [(ascii "bytes", numberValue snapshot.lastCompletedSize),
        (ascii "timing", .object [
          (ascii "preparationMs", numberValue snapshot.lastMetrics.preparationMs),
          (ascii "transferMs", numberValue snapshot.lastMetrics.transferMs),
          (ascii "writeMs", numberValue snapshot.lastMetrics.writeMs),
          (ascii "directIO", .bool snapshot.lastMetrics.directIo)])]).print tail =
        ascii "\x7b\"bytes\":" ++ (decimal snapshot.lastCompletedSize ++
          (ascii ",\"timing\":\x7b\"preparationMs\":" ++
            (decimal snapshot.lastMetrics.preparationMs ++ (ascii ",\"transferMs\":" ++
              (decimal snapshot.lastMetrics.transferMs ++ (ascii ",\"writeMs\":" ++
                (decimal snapshot.lastMetrics.writeMs ++ (ascii ",\"directIO\":" ++
                  (Value.bool snapshot.lastMetrics.directIo).print
                    (ascii "\x7d\x7d" ++ tail))))))))) := rfl
    rw [hprint, boolText_print, ← htext]
    simp
  · refine ⟨ascii "null", ?_, by decide, fun tail => ?_⟩
    · rw [lastUploadText, if_neg hmetrics]
    · rw [lastUploadValue, if_neg hmetrics]
      rfl

def limitsValue (config : AppConfig) : Value :=
  .object [(ascii "maxFileBytes", numberValue config.maxFileBytes),
    (ascii "maxFilesPerSession", numberValue config.maxFilesPerSession)]

def transferValue (snapshot : Snapshot) : Value :=
  .object [(ascii "state", .string (transferState snapshot)),
    (ascii "active", .bool snapshot.active), (ascii "name", .string snapshot.name),
    (ascii "receivedBytes", numberValue snapshot.received),
    (ascii "expectedBytes", numberValue snapshot.expected)]

def capabilitiesValue (fastUploadPort : ℕ) : Value :=
  .object [(ascii "chunkUpload", .bool true), (ascii "chunkSize", numberValue UPLOAD_CHUNK_BYTES),
    (ascii "chunkParallelism", numberValue UPLOAD_CHUNK_PARALLELISM),
    (ascii "fastUploadPort", numberValue fastUploadPort),
    (ascii "fastUploadMode", .string (ascii "direct"))]

def storageValue (config : AppConfig) : Value :=
  .object [(ascii "target", .string (storageTargetForPath config config.destination)),
    (ascii "path", .string config.destination),
    (ascii "targets", .array (config.storageTargets.map targetValue))]

def statusMembers (config : AppConfig) (fastUploadPort : ℕ) (snapshot : Snapshot) :
    List (List UInt8 × Value) :=
  [(ascii "version", .string (ascii PS5LOCALSEND_VERSION)),
    (ascii "authMode", .string (configAuthModeName config.authMode)),
    (ascii "language", .string (configLanguageName config.language)),
    (ascii "ready", .bool true), (ascii "limits", limitsValue config),
    (ascii "transfer", transferValue snapshot),
    (ascii "capabilities", capabilitiesValue fastUploadPort),
    (ascii "storage", storageValue config), (ascii "lastUpload", lastUploadValue snapshot)]

def statusValue (config : AppConfig) (fastUploadPort : ℕ) (snapshot : Snapshot) : Value :=
  .object (statusMembers config fastUploadPort snapshot)

/-! Each part as it is printed, with its variable pieces in their places. -/

theorem limitsValue_print (config : AppConfig) (tail : CString) :
    (limitsValue config).print tail =
      ascii "\x7b\"maxFileBytes\":" ++ (decimal config.maxFileBytes ++
        (ascii ",\"maxFilesPerSession\":" ++ (decimal config.maxFilesPerSession ++
          (ascii "\x7d" ++ tail)))) := rfl

set_option maxRecDepth 4096 in
theorem transferValue_print (snapshot : Snapshot) (tail : CString) :
    (transferValue snapshot).print tail =
      ascii "\x7b\"state\":\"" ++ (escape (transferState snapshot) ++
        (ascii "\",\"active\":" ++ (Value.bool snapshot.active).print
          (ascii ",\"name\":\"" ++ (escape snapshot.name ++
            (ascii "\",\"receivedBytes\":" ++ (decimal snapshot.received ++
              (ascii ",\"expectedBytes\":" ++ (decimal snapshot.expected ++
                (ascii "\x7d" ++ tail))))))))) := rfl

set_option maxRecDepth 4096 in
theorem capabilitiesValue_print (fastUploadPort : ℕ) (tail : CString) :
    (capabilitiesValue fastUploadPort).print tail =
      ascii "\x7b\"chunkUpload\":true,\"chunkSize\":" ++ (decimal UPLOAD_CHUNK_BYTES ++
        (ascii ",\"chunkParallelism\":" ++ (decimal UPLOAD_CHUNK_PARALLELISM ++
          (ascii ",\"fastUploadPort\":" ++ (decimal fastUploadPort ++
            (ascii ",\"fastUploadMode\":\"direct\"\x7d" ++ tail)))))) := rfl

set_option maxRecDepth 4096 in
theorem storageValue_print (config : AppConfig) (tail : CString) :
    (storageValue config).print tail =
      ascii "\x7b\"target\":\"" ++ (escape (storageTargetForPath config config.destination) ++
        (ascii "\",\"path\":\"" ++ (escape config.destination ++
          (ascii "\",\"targets\":" ++
            (Value.array (config.storageTargets.map targetValue)).print
              (ascii "\x7d" ++ tail))))) := rfl

set_option maxRecDepth 4096 in
theorem statusValue_print (config : AppConfig) (fastUploadPort : ℕ) (snapshot : Snapshot) :
    (statusValue config fastUploadPort snapshot).print [10] =
      ascii "\x7b\"version\":\"" ++ (escape (ascii PS5LOCALSEND_VERSION) ++
        (ascii "\",\"authMode\":\"" ++ (escape (configAuthModeName config.authMode) ++
          (ascii "\",\"language\":\"" ++ (escape (configLanguageName config.language) ++
            (ascii "\",\"ready\":true,\"limits\":" ++ (limitsValue config).print
              (ascii ",\"transfer\":" ++ (transferValue snapshot).print
                (ascii ",\"capabilities\":" ++ (capabilitiesValue fastUploadPort).print
                  (ascii ",\"storage\":" ++ (storageValue config).print
                    (ascii ",\"lastUpload\":" ++ (lastUploadValue snapshot).print
                      (ascii "\x7d\n"))))))))))) := rfl

theorem plain_authMode (mode : AuthMode) : Plain (configAuthModeName mode) := by
  cases mode <;> decide

theorem plain_language (language : Language) : Plain (configLanguageName language) := by
  cases language <;> decide

theorem plain_transferState (snapshot : Snapshot) : Plain (transferState snapshot) := by
  rw [transferState]
  split
  · decide
  split
  · decide
  · decide

/-- The answer is the printed status. -/
theorem statusText_print (hdestination : Plain config.destination)
    (htarget : Plain (storageTargetForPath config config.destination)) (fastUploadPort : ℕ)
    {storageTargets lastUpload : CString}
    (htargets : ∀ tail, storageTargets ++ tail =
      (Value.array (config.storageTargets.map targetValue)).print tail)
    (hlast : ∀ tail, lastUpload ++ tail = (lastUploadValue snapshot).print tail) :
    statusText config fastUploadPort snapshot (escape snapshot.name) storageTargets lastUpload =
      (statusValue config fastUploadPort snapshot).print [10] := by
  have hversion : Plain (ascii PS5LOCALSEND_VERSION) := by decide
  have hlimits : ascii "\",\"ready\":true,\"limits\":\x7b\"maxFileBytes\":" =
      ascii "\",\"ready\":true,\"limits\":" ++ ascii "\x7b\"maxFileBytes\":" := by decide
  have htransfer : ascii "\x7d,\"transfer\":\x7b\"state\":\"" =
      ascii "\x7d" ++ (ascii ",\"transfer\":" ++ ascii "\x7b\"state\":\"") := by decide
  have hcapabilities : ascii "\x7d,\"capabilities\":\x7b\"chunkUpload\":true,\"chunkSize\":" =
      ascii "\x7d" ++ (ascii ",\"capabilities\":" ++
        ascii "\x7b\"chunkUpload\":true,\"chunkSize\":") := by decide
  have hstorage : ascii ",\"fastUploadMode\":\"direct\"\x7d,\"storage\":\x7b\"target\":\"" =
      ascii ",\"fastUploadMode\":\"direct\"\x7d" ++ (ascii ",\"storage\":" ++
        ascii "\x7b\"target\":\"") := by decide
  have hupload : ascii "\x7d,\"lastUpload\":" = ascii "\x7d" ++ ascii ",\"lastUpload\":" := by
    decide
  rw [statusValue_print, hversion.escape_eq, (plain_authMode _).escape_eq,
    (plain_language _).escape_eq, limitsValue_print, transferValue_print,
    (plain_transferState _).escape_eq, boolText_print, capabilitiesValue_print,
    storageValue_print, htarget.escape_eq, hdestination.escape_eq, ← htargets, ← hlast,
    statusText, hlimits, htransfer, hcapabilities, hstorage, hupload]
  simp only [List.flatten_cons, List.flatten_nil, List.append_assoc, List.append_nil]

/-! ## A loaded configuration -/

theorem storageTargetForPath_mem (h : config.storageTargets ≠ []) (path : CString) :
    ∃ target ∈ config.storageTargets, storageTargetForPath config path = target.id := by
  rw [storageTargetForPath]
  cases hfind : configStorageByPath config path with
  | some target => exact ⟨target, List.mem_of_find?_eq_some hfind, rfl⟩
  | none =>
      obtain ⟨target, targets, htargets⟩ := List.exists_cons_of_ne_nil h
      rw [htargets]
      exact ⟨target, List.mem_cons_self .., rfl⟩

theorem Valid.plainTargets (h : Valid config) :
    ∀ target ∈ config.storageTargets, PlainTarget target := fun target hmem =>
  SoundTarget.plain (h.targets.sound target hmem)

theorem Valid.targetForPath (h : Valid config) (path : CString) :
    Plain (storageTargetForPath config path) ∧ (storageTargetForPath config path).length ≤ 31 := by
  obtain ⟨target, hmem, -⟩ := h.destination
  obtain ⟨found, hfound, hid⟩ :=
    storageTargetForPath_mem (List.ne_nil_of_mem hmem) path
  rw [hid]
  exact ⟨(Valid.plainTargets h found hfound).id, (h.accepted.ids found hfound).2.1⟩

theorem Valid.plainDestination (h : Valid config) :
    Plain config.destination ∧ config.destination.length ≤ 1023 := by
  obtain ⟨hclean, -⟩ := h.accepted.destination
  refine ⟨fun byte hmem => ?_, Nat.le_of_lt_succ hclean.length_lt⟩
  have hvisible := hclean.visible byte hmem
  exact ⟨hvisible.1, hvisible.2.2.1, hvisible.2.2.2⟩

theorem length_authMode (mode : AuthMode) : (configAuthModeName mode).length ≤ 4 := by
  cases mode <;> decide

theorem length_language (language : Language) : (configLanguageName language).length ≤ 2 := by
  cases language <;> decide

theorem length_transferState (snapshot : Snapshot) : (transferState snapshot).length ≤ 9 := by
  rw [transferState]
  split
  · decide
  split
  · decide
  · decide

theorem length_statusText (hvalid : Valid config) {fastUploadPort : ℕ}
    (hport : fastUploadPort < 2 ^ 64) (hnumbers : Numbers snapshot)
    {escapedName storageTargets lastUpload : CString} (hname : escapedName.length ≤ 510)
    (htargets : storageTargets.length < STORAGE_TARGETS_BYTES)
    (hlast : lastUpload.length < LAST_UPLOAD_BYTES) :
    (statusText config fastUploadPort snapshot escapedName storageTargets lastUpload).length <
      RESPONSE_STORAGE_BYTES := by
  have hbytes : config.maxFileBytes < 2 ^ 64 :=
    hvalid.range.maxFileBytes.2.trans_lt (by decide)
  have hfiles : config.maxFilesPerSession < 2 ^ 64 :=
    hvalid.range.maxFiles.2.trans_lt (by decide)
  refine (length_flatten_le (?_ : Within _
    [12, 3, 14, 4, 14, 2, 42, 20, 22, 20, 24, 9, 11, 5, 9, 510, 18, 20, 17, 20, 51, 20, 20, 20, 18,
      20, 51, 31, 10, 1023, 12, 12287, 15, 255, 2])).trans_lt (by decide)
  exact .cons (by decide) <| .cons (by decide) <|
    .cons (by decide) <| .cons (length_authMode _) <|
    .cons (by decide) <| .cons (length_language _) <|
    .cons (by decide) <| .cons (length_decimal_le hbytes) <|
    .cons (by decide) <| .cons (length_decimal_le hfiles) <|
    .cons (by decide) <| .cons (length_transferState _) <|
    .cons (by decide) <| .cons (length_boolText _) <|
    .cons (by decide) <| .cons hname <|
    .cons (by decide) <| .cons (length_decimal_le hnumbers.received) <|
    .cons (by decide) <| .cons (length_decimal_le hnumbers.expected) <|
    .cons (by decide) <| .cons (length_decimal_le (by decide)) <|
    .cons (by decide) <| .cons (length_decimal_le (by decide)) <|
    .cons (by decide) <| .cons (length_decimal_le hport) <|
    .cons (by decide) <| .cons (Valid.targetForPath hvalid _).2 <|
    .cons (by decide) <| .cons (Valid.plainDestination hvalid).2 <|
    .cons (by decide) <| .cons (Nat.le_of_lt_succ htargets) <|
    .cons (by decide) <| .cons (Nat.le_of_lt_succ hlast) <| .cons (by decide) .nil

/-- Every buffer is large enough, and the answer is the printed status. -/
theorem statusAnswer_print (hvalid : Valid config) {fastUploadPort : ℕ}
    (hport : fastUploadPort < 2 ^ 64) (hnumbers : Numbers snapshot)
    (hname : snapshot.name.length ≤ SAFE_PATH_NAME_BYTES) :
    (statusAnswer config fastUploadPort snapshot).status = 200 ∧
      (statusAnswer config fastUploadPort snapshot).body =
        (statusValue config fastUploadPort snapshot).print [10] := by
  have hescape := length_escape_le snapshot.name
  simp only [SAFE_PATH_NAME_BYTES] at hname
  obtain ⟨storageTargets, hstorage, hstorageLength, hstoragePrint⟩ :=
    storageTargetsText_print (Valid.plainTargets hvalid) hvalid.targets.count
  obtain ⟨lastUpload, hlast, hlastLength, hlastPrint⟩ := lastUploadText_print hnumbers
  have hescaped : jsonEscapeFilename snapshot.name (SAFE_PATH_NAME_BYTES * 2 + 1) =
      some (escape snapshot.name) := by
    apply jsonEscapeFilename_eq
    simp only [SAFE_PATH_NAME_BYTES]
    omega
  have hshort : (escape snapshot.name).length ≤ 510 := by omega
  have hlength := length_statusText hvalid hport hnumbers hshort hstorageLength hlastLength
  rw [statusAnswer, hstorage, hescaped, hlast]
  dsimp only
  rw [if_neg (Nat.not_le_of_lt hlength)]
  exact ⟨rfl, statusText_print (Valid.plainDestination hvalid).1 (Valid.targetForPath hvalid _).1
    fastUploadPort hstoragePrint hlastPrint⟩

theorem numberValue_proper (number : ℕ) : (numberValue number).Proper :=
  .number (isNumeral_decimal number)

theorem targetValue_proper (h : PlainTarget target) : (targetValue target).Proper :=
  .cons (by decide) (.string h.id.isText) <| .cons (by decide) (.string h.label.isText) <|
    .cons (by decide) (.string h.path.isText) .nil

theorem lastUploadValue_proper (snapshot : Snapshot) : (lastUploadValue snapshot).Proper := by
  rw [lastUploadValue]
  split
  · refine .cons (by decide) (numberValue_proper _) <| .cons (by decide) ?_ .nil
    exact .cons (by decide) (numberValue_proper _) <| .cons (by decide) (numberValue_proper _) <|
      .cons (by decide) (numberValue_proper _) <| .cons (by decide) .bool .nil
  · exact .null

theorem statusValue_proper (hvalid : Valid config) (hname : IsText snapshot.name)
    (fastUploadPort : ℕ) : (statusValue config fastUploadPort snapshot).Proper := by
  have hlimits : (limitsValue config).Proper :=
    .cons (by decide) (numberValue_proper _) <| .cons (by decide) (numberValue_proper _) .nil
  have htransfer : (transferValue snapshot).Proper :=
    .cons (by decide) (.string (plain_transferState _).isText) <| .cons (by decide) .bool <|
      .cons (by decide) (.string hname) <| .cons (by decide) (numberValue_proper _) <|
      .cons (by decide) (numberValue_proper _) .nil
  have hcapabilities : (capabilitiesValue fastUploadPort).Proper :=
    .cons (by decide) .bool <| .cons (by decide) (numberValue_proper _) <|
      .cons (by decide) (numberValue_proper _) <| .cons (by decide) (numberValue_proper _) <|
      .cons (by decide) (.string (by decide)) .nil
  have htargets : (Value.array (config.storageTargets.map targetValue)).Proper := by
    refine .array fun item hmem => ?_
    obtain ⟨target, htarget, rfl⟩ := List.mem_map.mp hmem
    exact targetValue_proper (Valid.plainTargets hvalid target htarget)
  have hstorage : (storageValue config).Proper :=
    .cons (by decide) (.string (Valid.targetForPath hvalid _).1.isText) <|
      .cons (by decide) (.string (Valid.plainDestination hvalid).1.isText) <|
      .cons (by decide) htargets .nil
  exact .cons (by decide) (.string (by decide)) <|
    .cons (by decide) (.string (plain_authMode _).isText) <|
    .cons (by decide) (.string (plain_language _).isText) <| .cons (by decide) .bool <|
    .cons (by decide) hlimits <| .cons (by decide) htransfer <| .cons (by decide) hcapabilities <|
    .cons (by decide) hstorage <| .cons (by decide) (lastUploadValue_proper _) .nil

/-- A name that is empty or accepted. -/
theorem name_text (hname : snapshot.name = [] ∨ safePathValidateFilename snapshot.name = true) :
    IsText snapshot.name ∧ snapshot.name.length ≤ SAFE_PATH_NAME_BYTES := by
  rcases hname with hempty | hvalid
  · rw [hempty]
    exact ⟨by decide, Nat.zero_le _⟩
  · have hproper := proper_of_validateFilename hvalid
    exact ⟨fun byte hmem => (hproper.bytes byte hmem).1, hproper.length.2⟩

/-- The members of the status that show what the user has chosen. -/
structure Shows (config : AppConfig) (snapshot : Snapshot) (value : Value) : Prop where
  name : (value.field (ascii "transfer")).bind (Value.field (ascii "name")) =
    some (.string snapshot.name)
  path : (value.field (ascii "storage")).bind (Value.field (ascii "path")) =
    some (.string config.destination)
  targets : (value.field (ascii "storage")).bind (Value.field (ascii "targets")) =
    some (.array (config.storageTargets.map targetValue))

/-- With a loaded configuration `GET /api/v1/status` is answered with one JSON object, which shows
the name, the destination and the targets as they are; and the name also survives the escaping in
the answer to a prepare request. -/
theorem routerDispatch_status {handlers : Request → Response}
    {assetsFind : CString → Option Asset} {router : Router} {request : Request} {files : Files}
    {path : CString} {io : LoadIo} (hload : configLoadFile files path io = .ok router.config)
    (hport : router.fastUploadPort < 2 ^ 16)
    (hname : snapshot.name = [] ∨ safePathValidateFilename snapshot.name = true)
    (hnumbers : Numbers snapshot) (hasset : assetsFind statusPath = none)
    (hmethod : request.method = ascii "GET") (hpath : request.path = statusPath)
    (hbody : request.body.getD [] = []) :
    (routerDispatch handlers assetsFind router request snapshot).status = 200 ∧
    (∃ members, decode (routerDispatch handlers assetsFind router request snapshot).body =
        some (.object members) ∧ Shows router.config snapshot (.object members)) ∧
    ∃ escaped, jsonEscapeString snapshot.name RESPONSE_STORAGE_BYTES = some escaped ∧
      readString (escaped ++ [34]) = some (snapshot.name, []) := by
  obtain ⟨htext, hlength⟩ := name_text hname
  have hvalid := configLoadFile_valid hload
  have hstatus : routerDispatch handlers assetsFind router request snapshot =
      statusAnswer router.config router.fastUploadPort snapshot := by
    have hsizes : ¬(ROUTER_MAX_METHOD_BYTES < (ascii "GET").length ∨
        ROUTER_MAX_PATH_BYTES < statusPath.length) := by decide
    have hown : ¬hasHandler statusPath = true := by decide
    rw [routerDispatch, hmethod, hpath, hbody, hasset, if_neg hsizes, if_neg hown,
      if_neg (by simp), if_neg (by simp), if_neg (by simp)]
  obtain ⟨hcode, hprint⟩ :=
    statusAnswer_print hvalid (hport.trans (by decide)) hnumbers hlength
  have hescape := length_escape_le snapshot.name
  have hroom : (escape snapshot.name).length < RESPONSE_STORAGE_BYTES := by
    simp only [SAFE_PATH_NAME_BYTES, RESPONSE_STORAGE_BYTES] at hlength ⊢
    omega
  rw [hstatus]
  refine ⟨hcode, ⟨statusMembers router.config router.fastUploadPort snapshot, ?_, ?_⟩,
    escape snapshot.name, jsonEscapeString_eq htext hroom, readString_escape htext []⟩
  · rw [hprint]
    exact decode_print (statusValue_proper hvalid htext _) (List.forall_mem_singleton.mpr rfl)
  · exact ⟨rfl, rfl, rfl⟩

namespace Sample

/-- The page asks for the status. -/
def getStatus : Request :=
  ⟨ascii "GET", statusPath, none, ascii "192.168.1.20", none, none, none, none, none⟩

/-- A file with quotes in its name comes in. -/
def quotedName : Snapshot :=
  ⟨true, true, ascii "\"a\".txt", 10, 20, true, 5, ⟨1, 2, 3, false⟩⟩

def portRouter (auth : Auth.Manager) : Router :=
  ⟨{ configSetDefaults with port := 8080 }, .pin, 8081, [], auth⟩

end Sample

open Sample in
/-- The quotes come through. -/
theorem routerDispatch_quotedName :
    ∃ auth members,
      let response := routerDispatch (fun _ => setJsonError 404 "not_found" "Resource not found")
        (fun _ => none) (portRouter auth) getStatus quotedName
      response.status = 200 ∧ decode response.body = some (.object members) ∧
        ((Value.object members).field (ascii "transfer")).bind (Value.field (ascii "name")) =
          some (.string (ascii "\"a\".txt")) := by
  obtain ⟨auth, hauth⟩ : ∃ auth, Auth.authManagerCreate 120 3600 = some auth :=
    Option.isSome_iff_exists.mp (by decide +kernel)
  have hload : configLoadFile portFiles (ascii "/data/config.ini") ⟨none, none⟩ =
      .ok { configSetDefaults with port := 8080 } := by decide +kernel
  have hport : 8081 < 2 ^ 16 := by decide
  have hnumbers : Numbers quotedName := by constructor <;> decide
  obtain ⟨hcode, ⟨members, hdecode, hshows⟩, -⟩ :=
    @routerDispatch_status quotedName (fun _ => setJsonError 404 "not_found" "Resource not found")
      (fun _ => none) (portRouter auth) getStatus _ _ _ hload hport (.inr (by decide +kernel))
      hnumbers rfl rfl rfl rfl
  exact ⟨auth, members, hcode, hdecode, hshows.name⟩

end LocalSend.Routing
