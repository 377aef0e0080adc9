import LocalSend.Library.Text
import LocalSend.Model.Upload.State

/-! # The configuration file

`config.c`: the defaults, the reader with its checks, and the writer. A configuration that a
failed load leaves behind is not modelled; nobody reads it.
-/

namespace LocalSend.Config

open SafePath Text
open Upload (CONFIG_DESTINATION_CAPACITY Errno isDigit)

def CONFIG_LINE_CAPACITY : ℕ := 2048
def CONFIG_STORAGE_TARGETS_MAX : ℕ := 8
def CONFIG_STORAGE_ID_CAPACITY : ℕ := 32
def CONFIG_STORAGE_LABEL_CAPACITY : ℕ := 96

/-- The bytes of a string literal. -/
def ascii (text : String) : CString := text.toList.map fun character => .ofNat character.toNat

inductive AuthMode where
  | pin
  | none
  deriving DecidableEq, Repr

inductive Language where
  | en
  | ru
  deriving DecidableEq, Repr

structure StorageTarget where
  id : CString
  label : CString
  path : CString
  deriving DecidableEq

/-- `app_config_t`. -/
structure AppConfig where
  port : ℕ
  authMode : AuthMode
  language : Language
  pinTtlSeconds : ℕ
  sessionTtlSeconds : ℕ
  destination : CString
  internalDestination : CString
  usbDestination : CString
  storageTargets : List StorageTarget
  maxFileBytes : ℕ
  maxFilesPerSession : ℕ
  deriving DecidableEq

/-! ## Characters and numbers -/

def isSpace (byte : UInt8) : Bool := byte = 32 ∨ (9 ≤ byte ∧ byte ≤ 13)

def isAlnum (byte : UInt8) : Bool :=
  isDigit byte ∨ (65 ≤ byte ∧ byte ≤ 90) ∨ (97 ≤ byte ∧ byte ≤ 122)

/-- The value of a string of digits. -/
def digitsValue (digits : CString) : ℕ :=
  digits.foldl (fun number byte => 10 * number + (byte.toNat - 48)) 0

/-- `strtoull` in base 10, and what it leaves of the text; `none` is no number, or `ERANGE`. -/
def strtoull (text : CString) : Option (ℕ × CString) :=
  let text := text.dropWhile isSpace
  let negative := peek text = 45
  let text := if peek text = 45 ∨ peek text = 43 then text.tail else text
  let digits := text.takeWhile isDigit
  let number := digitsValue digits
  if digits = [] ∨ 2 ^ 64 ≤ number then none
  else some (if negative then (2 ^ 64 - number) % 2 ^ 64 else number, text.drop digits.length)

def parseU64 (text : CString) (minimum maximum : ℕ) : Option ℕ :=
  if text = [] ∨ peek text = 45 ∨ peek text = 43 then none
  else match strtoull text with
  | some (parsed, []) => if parsed < minimum ∨ maximum < parsed then none else some parsed
  | _ => none

/-! ## Paths, identifiers and labels -/

def blockedRoots : List CString := [ascii "/dev", ascii "/proc", ascii "/sys"]

/-- The path is this root or lies below it. -/
def below (root path : CString) : Bool :=
  path.take root.length = root ∧
    (path.drop root.length = [] ∨ peek (path.drop root.length) = 47)

/-- A control byte, DEL, `\` or `"`. -/
def unquotable (byte : UInt8) : Bool := byte < 0x20 ∨ byte = 0x7f ∨ byte = 92 ∨ byte = 34

/-- Neither empty nor `.` nor `..`. -/
def segmentSafe (segment : CString) : Bool := segment ≠ [] ∧ segment ≠ [46] ∧ segment ≠ [46, 46]

def destinationSyntaxIsSafe (path : CString) : Bool :=
  peek path = 47 ∧ path.tail ≠ [] ∧ blockedRoots.all (fun root => ¬below root path) ∧
    path.all (fun byte => ¬unquotable byte) ∧ (path.tail.splitOn 47).all segmentSafe

def destinationIsSafeForRoot (path root : CString) : Bool :=
  destinationSyntaxIsSafe path ∧ path.take root.length = root ∧
    peek (path.drop root.length) = 47 ∧ (path.drop root.length).tail ≠ []

def destinationIsSafe (path : CString) : Bool := destinationSyntaxIsSafe path

def configAuthModeName : AuthMode → CString
  | .none => ascii "none"
  | .pin => ascii "pin"

def configLanguageName : Language → CString
  | .ru => ascii "ru"
  | .en => ascii "en"

def configStorageById (config : AppConfig) (id : CString) : Option StorageTarget :=
  config.storageTargets.find? (·.id = id)

def configStorageByPath (config : AppConfig) (path : CString) : Option StorageTarget :=
  config.storageTargets.find? (·.path = path)

def storageIdIsSafe (id : CString) : Bool :=
  id.length ≠ 0 ∧ id.length < CONFIG_STORAGE_ID_CAPACITY ∧
    id.all fun byte => isAlnum byte ∨ byte = 95 ∨ byte = 45

def storageLabelIsSafe (label : CString) : Bool :=
  label.length ≠ 0 ∧ label.length < CONFIG_STORAGE_LABEL_CAPACITY ∧
    label.all fun byte => ¬unquotable byte ∧ byte ≠ 124

/-- The parts of `id|label|path`, trimmed. -/
def storageParts (value : CString) : Option StorageTarget :=
  match cut 124 (trim isSpace value) with
  | none => none
  | some (id, rest) =>
      match cut 124 (trim isSpace rest) with
      | none => none
      | some (label, rest) => some ⟨trim isSpace id, trim isSpace label, trim isSpace rest⟩

def addStorageTarget (config : AppConfig) (value : CString) : Except String AppConfig :=
  if CONFIG_LINE_CAPACITY ≤ value.length then .error "storage_path is too long"
  else match storageParts value with
  | none => .error "storage_path must be id|label|path"
  | some target =>
      if 124 ∈ target.path ∨ ¬storageIdIsSafe target.id ∨ ¬storageLabelIsSafe target.label ∨
          CONFIG_DESTINATION_CAPACITY ≤ target.path.length ∨ ¬destinationIsSafe target.path then
        .error "invalid storage_path entry"
      else if CONFIG_STORAGE_TARGETS_MAX ≤ config.storageTargets.length then
        .error "too many storage_path entries"
      else if (configStorageById config target.id).isSome then .error "duplicate storage_path id"
      else .ok { config with storageTargets := config.storageTargets ++ [target] }

def configSetDefaults : AppConfig :=
  { port := 53317
    authMode := .pin
    language := .en
    pinTtlSeconds := 120
    sessionTtlSeconds := 900
    destination := ascii "/data/ps5localsend/inbox"
    internalDestination := ascii "/data/ps5localsend/inbox"
    usbDestination := ascii "/mnt/usb0/ps5localsend/inbox"
    storageTargets :=
      [⟨ascii "internal", ascii "Internal storage", ascii "/data/ps5localsend/inbox"⟩,
        ⟨ascii "usb", ascii "USB drive", ascii "/mnt/usb0/ps5localsend/inbox"⟩]
    maxFileBytes := 21474836480
    maxFilesPerSession := 100 }

/-! ## The keys -/

/-- The keys, in the order of their indices. -/
inductive Key where
  | port
  | authMode
  | pinTtlSeconds
  | sessionTtlSeconds
  | destination
  | internalDestination
  | usbDestination
  | storagePath
  | maxFileBytes
  | maxFilesPerSession
  | language
  deriving DecidableEq, Repr

def Key.name : Key → CString
  | .port => ascii "port"
  | .authMode => ascii "auth_mode"
  | .pinTtlSeconds => ascii "pin_ttl_seconds"
  | .sessionTtlSeconds => ascii "session_ttl_seconds"
  | .destination => ascii "destination"
  | .internalDestination => ascii "internal_destination"
  | .usbDestination => ascii "usb_destination"
  | .storagePath => ascii "storage_path"
  | .maxFileBytes => ascii "max_file_bytes"
  | .maxFilesPerSession => ascii "max_files_per_session"
  | .language => ascii "language"

def keys : List Key :=
  [.port, .authMode, .pinTtlSeconds, .sessionTtlSeconds, .destination, .internalDestination,
    .usbDestination, .storagePath, .maxFileBytes, .maxFilesPerSession, .language]

/-- The configuration read so far and the keys it was read from. -/
structure Progress where
  config : AppConfig
  seen : List Key
  deriving DecidableEq

/-- A number in its range, or the text of the error. -/
def numberValue (value : CString) (minimum maximum : ℕ) (error : String) : Except String ℕ :=
  match parseU64 value minimum maximum with
  | none => .error error
  | some number => .ok number

/-- The value of one key, checked and stored. -/
def storeValue (config : AppConfig) (key : Key) (value : CString) : Except String AppConfig :=
  match key with
  | .port =>
      (numberValue value 1024 65535 "port must be between 1024 and 65535").map fun number =>
        { config with port := number }
  | .authMode =>
      if value = ascii "pin" then .ok { config with authMode := .pin }
      else if value = ascii "none" then .ok { config with authMode := .none }
      else .error "auth_mode must be pin or none"
  | .pinTtlSeconds =>
      (numberValue value 30 600 "pin_ttl_seconds must be between 30 and 600").map fun number =>
        { config with pinTtlSeconds := number }
  | .sessionTtlSeconds =>
      (numberValue value 60 86400 "session_ttl_seconds must be between 60 and 86400").map
        fun number => { config with sessionTtlSeconds := number }
  | .destination =>
      if CONFIG_DESTINATION_CAPACITY ≤ value.length ∨ ¬destinationIsSafe value then
        .error "destination must be a safe absolute directory"
      else .ok { config with destination := value }
  | .internalDestination =>
      if CONFIG_DESTINATION_CAPACITY ≤ value.length ∨
          ¬destinationIsSafeForRoot value (ascii "/data") then
        .error "internal_destination must be a safe child of /data"
      else .ok { config with internalDestination := value }
  | .usbDestination =>
      if CONFIG_DESTINATION_CAPACITY ≤ value.length ∨
          ¬destinationIsSafeForRoot value (ascii "/mnt/usb0") then
        .error "usb_destination must be a safe child of /mnt/usb0"
      else .ok { config with usbDestination := value }
  | .storagePath => addStorageTarget config value
  | .maxFileBytes =>
      (numberValue value 1 1099511627776 "max_file_bytes must be between 1 and 1099511627776").map
        fun number => { config with maxFileBytes := number }
  | .maxFilesPerSession =>
      (numberValue value 1 1000 "max_files_per_session must be between 1 and 1000").map
        fun number => { config with maxFilesPerSession := number }
  | .language =>
      if value = ascii "en" then .ok { config with language := .en }
      else if value = ascii "ru" then .ok { config with language := .ru }
      else .error "language must be en or ru"

/-- `apply_value`; the first `storage_path` replaces the default targets. -/
def applyValue (progress : Progress) (key value : CString) : Except String Progress :=
  match keys.find? (·.name = key) with
  | none => .error "unknown configuration key"
  | some key =>
      if key ≠ .storagePath ∧ key ∈ progress.seen then .error "duplicate configuration key"
      else
        let config :=
          if key = .storagePath ∧ key ∉ progress.seen then
            { progress.config with storageTargets := [] }
          else progress.config
        (storeValue config key value).map fun config => ⟨config, key :: progress.seen⟩

/-! ## `config_load_file` -/

/-- What a load comes to. After some failures the text of the error is not set. -/
inductive LoadResult where
  | ok (config : AppConfig)
  | notFound (config : AppConfig) (error : String)
  | invalid (error : Option String)
  | ioError (error : String)
  deriving DecidableEq

/-- The first line without a UTF-8 byte order mark. -/
def skipMark (line : CString) : CString :=
  if 3 ≤ line.length ∧ line.take 3 = [0xef, 0xbb, 0xbf] then line.drop 3 else line

/-- One turn of the loop behind the byte order marks. -/
def loadEntry (progress : Progress) (ended : Bool) (line : CString) :
    Except (Option String) Progress :=
  if 10 ∉ line ∧ ¬ended then .error (some "configuration line is too long")
  else
    let key := trim isSpace line
    if peek key = 0 ∨ peek key = 35 ∨ peek key = 59 then .ok progress
    else match cut 61 key with
    | none => .error (some "configuration line must contain '='")
    | some (key, value) =>
        let value := trim isSpace value
        let key := trim isSpace key
        if key = [] ∨ value = [] then .error none
        else (applyValue progress key value).mapError some

/-- One turn of the loop: the C string in the line buffer, in a line that reached the end of
the file or not. -/
def loadLine (progress : Progress) (first ended : Bool) (line : CString) :
    Except (Option String) Progress :=
  if first then
    if line.take 2 = [0xff, 0xfe] ∨ line.take 2 = [0xfe, 0xff] then
      .error (some "UTF-16 config is unsupported; save config.ini as UTF-8")
    else loadEntry progress ended (skipMark line)
  else loadEntry progress ended line

/-- The loop over the lines. A line buffer with a zero byte in it is a shorter C string. -/
def loadLines (progress : Progress) : Bool → List (Line UInt8) → Except (Option String) Progress
  | _, [] => .ok progress
  | first, line :: lines =>
      match loadLine progress first line.ended (line.text.takeWhile (· ≠ 0)) with
      | .error error => .error error
      | .ok progress => loadLines progress false lines

/-- The legacy keys: a `destination` of its own becomes the default target of its root. -/
def foldDestination (progress : Progress) : AppConfig :=
  let config := progress.config
  if .storagePath ∉ progress.seen ∧ .destination ∈ progress.seen then
    if (destinationIsSafeForRoot config.destination (ascii "/mnt/usb0") ∨
        config.destination = ascii "/mnt/usb0") ∧ .usbDestination ∉ progress.seen then
      { config with usbDestination := config.destination }
    else if destinationIsSafeForRoot config.destination (ascii "/data") ∧
        .internalDestination ∉ progress.seen then
      { config with internalDestination := config.destination }
    else config
  else config

/-- The paths of the first two targets, which are the default ones. -/
def setDefaultPaths (config : AppConfig) : AppConfig :=
  match config.storageTargets with
  | internal :: usb :: rest =>
      { config with
        storageTargets := { internal with path := config.internalDestination } ::
          { usb with path := config.usbDestination } :: rest }
  | _ => config

/-- `config_load_file` behind its loop. -/
def finishLoad (progress : Progress) : LoadResult :=
  let config := foldDestination progress
  let config := if .storagePath ∉ progress.seen then setDefaultPaths config else config
  match config.storageTargets with
  | [] => .invalid (some "at least one storage_path is required")
  | target :: _ =>
      if (configStorageByPath config config.destination).isNone then
        .ok { config with destination := target.path }
      else .ok config

/-- What the file reports: the error of `fopen`, and after how many lines reading fails. -/
structure LoadIo where
  openError : Option Errno
  failsAfter : Option ℕ

/-- The configuration files, by path. -/
abbrev Files := CString → Option Bytes

/-- `config_load_file` on the bytes of the file. -/
def loadContent (content : Bytes) (failsAfter : Option ℕ) : LoadResult :=
  let lines := lines 10 (CONFIG_LINE_CAPACITY - 1) content
  let delivered := failsAfter.elim lines lines.take
  match loadLines ⟨configSetDefaults, []⟩ true delivered with
  | .error error => .invalid error
  | .ok progress =>
      if failsAfter.isSome then .ioError "error while reading configuration file"
      else finishLoad progress

def configLoadFile (files : Files) (path : CString) (io : LoadIo) : LoadResult :=
  match io.openError, files path with
  | some error, _ =>
      if error = .enoent then
        .notFound configSetDefaults "configuration file not found; using defaults"
      else .ioError "unable to open configuration file"
  | none, none => .notFound configSetDefaults "configuration file not found; using defaults"
  | none, some content => loadContent content io.failsAfter

/-! ## `config_save_file` -/

/-- `key=value` and a newline. -/
def keyLine (key : Key) (value : CString) : Bytes := key.name ++ 61 :: value ++ [10]

/-- `id|label|path`. -/
def StorageTarget.text (target : StorageTarget) : CString :=
  target.id ++ 124 :: target.label ++ 124 :: target.path

/-- What the `fprintf` calls print. -/
def configText (config : AppConfig) : Bytes :=
  ascii "# PS5 LocalSend configuration\n" ++
    keyLine .port (decimal config.port) ++
    keyLine .authMode (configAuthModeName config.authMode) ++
    keyLine .language (configLanguageName config.language) ++
    keyLine .pinTtlSeconds (decimal config.pinTtlSeconds) ++
    keyLine .sessionTtlSeconds (decimal config.sessionTtlSeconds) ++
    keyLine .destination config.destination ++
    config.storageTargets.flatMap (fun target => keyLine .storagePath target.text) ++
    keyLine .maxFileBytes (decimal config.maxFileBytes) ++
    keyLine .maxFilesPerSession (decimal config.maxFilesPerSession)

/-- What the calls of a save report; a failed print leaves a number of bytes in the file. -/
structure SaveIo where
  openError : Option Errno
  printError : Option (Errno × ℕ)
  renameError : Option Errno
  unlinkFails : Bool

/-- The number the console's system has for it. -/
def ENAMETOOLONG : Errno := .other 63

/-- `config_save_file`, with the error it fails with. -/
def configSaveFile (files : Files) (path : CString) (config : AppConfig) (io : SaveIo) :
    Files × Option Errno :=
  let (temporary, fits) := printInto (CONFIG_DESTINATION_CAPACITY + 8) (path ++ ascii ".tmp")
  let removed (files : Files) : Files :=
    if io.unlinkFails then files else Function.update files temporary none
  if ¬fits then (files, some ENAMETOOLONG)
  else match io.openError, io.printError, io.renameError with
  | some error, _, _ => (files, some error)
  | none, some (error, printed), _ =>
      (removed (Function.update files temporary (some ((configText config).take printed))),
        some error)
  | none, none, some error =>
      (removed (Function.update files temporary (some (configText config))), some error)
  | none, none, none =>
      (Function.update (Function.update files temporary none) path (some (configText config)),
        none)

end LocalSend.Config
