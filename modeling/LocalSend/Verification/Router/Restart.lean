import LocalSend.Verification.Router.Steps

/-! # Starting again from a saved configuration

A successful storage request saves the router's configuration, port included. The loader
takes it back exactly when it would take the port the server is bound to.
-/

namespace LocalSend.Routing

open Config SafePath Transition
open Upload (Tree)

variable {config started base : AppConfig}

/-- A configuration file the receiver starts with, wherever it is. -/
def Accepted (saved : Option Bytes) : Prop :=
  ∃ reloaded, ∀ (files : Files) (path : CString), files path = saved →
    configLoadFile files path .calm = .ok reloaded

theorem accepted_some (content : Bytes) :
    Accepted (some content) ↔ ∃ reloaded, loadContent content none = .ok reloaded := by
  have hload : ∀ (files : Files) (path : CString), files path = some content →
      configLoadFile files path .calm = loadContent content none := by
    intro files path hfile
    simp only [configLoadFile, LoadIo.calm, hfile]
  constructor
  · rintro ⟨reloaded, haccepted⟩
    exact ⟨reloaded, hload (fun _ => some content) [] rfl ▸ haccepted _ [] rfl⟩
  · rintro ⟨reloaded, hreloaded⟩
    exact ⟨reloaded, fun files path hfile => (hload files path hfile).trans hreloaded⟩

theorem kept_serverStart {configPath : CString} {chosenPort fastUploadPort : ℕ} {files : Files}
    {tree : Tree} {fs : Upload.Fs} {server : Server}
    (h : serverStart config configPath chosenPort fastUploadPort files tree fs = some server) :
    Kept { config with port := boundPort config.port chosenPort } configPath server := by
  obtain ⟨auth, -, rfl⟩ := Option.map_eq_some_iff.mp h
  exact ⟨rfl, rfl, nofun, nofun⟩

theorem parsePort_le {argument : CString} {port : ℕ} (h : parsePort argument = some port) :
    port ≤ 65535 := by
  unfold parsePort at h
  split at h
  · split at h
    · cases h
    · rename_i hle
      cases h
      exact not_lt.mp hle
  · cases h

/-- The arguments change nothing but the port. -/
theorem startConfig_spec {portArgument : Option CString} (hvalid : Valid config)
    (h : startConfig config portArgument = some started) :
    started = { config with port := started.port } ∧ started.port ≤ 65535 := by
  cases portArgument with
  | none =>
      cases h
      exact ⟨rfl, hvalid.range.port.2⟩
  | some argument =>
      obtain ⟨port, hport, rfl⟩ := Option.map_eq_some_iff.mp h
      exact ⟨rfl, parsePort_le hport⟩

theorem boundPort_le {port chosen : ℕ} (hport : port ≤ 65535) (hchosen : chosen ≤ 65535) :
    boundPort port chosen ≤ 65535 := by
  unfold boundPort
  split
  · exact hchosen
  · exact hport

/-- A valid configuration with another port and the path of a target is loaded from what is
saved of it exactly when the loader would take the port. -/
theorem accepted_iff_port (hvalid : Valid config)
    (hpath : ∀ target ∈ config.storageTargets, 124 ∉ target.path) {port : ℕ}
    (hport : port ≤ 65535) {entry : StorageTarget} (hmem : entry ∈ config.storageTargets) :
    Accepted (some (configText { config with port, destination := entry.path })) ↔
      1024 ≤ port := by
  obtain ⟨-, hpin, hsession, hbytes, hfiles⟩ := hvalid.range.below
  have hbelow : port < 2 ^ 64 := by omega
  have hsavable : Savable { config with port, destination := entry.path } :=
    ⟨⟨hbelow, hpin, hsession, hbytes, hfiles⟩, hvalid.targets,
      (hvalid.targets.sound entry hmem).path⟩
  rw [accepted_some]
  constructor
  · rintro ⟨reloaded, hload⟩
    by_contra hlow
    obtain ⟨error, herror⟩ := loadContent_refused_of_port hsavable (not_le.mp hlow)
    rw [herror] at hload
    cases hload
  · intro hhigh
    obtain ⟨-, hpinTtl, hsessionTtl, hmaxBytes, hmaxFiles⟩ := hvalid.range
    have hnext : Valid { config with port, destination := entry.path } :=
      ⟨⟨⟨hhigh, hport⟩, hpinTtl, hsessionTtl, hmaxBytes, hmaxFiles⟩, hvalid.targets,
        entry, hmem, rfl⟩
    exact ⟨_, loadContent_saved hnext hpath⟩

/-- In every run from a loaded configuration without a `|` in a path, what a successful
storage request has saved is loaded again exactly when the port the server is bound to is
not below 1024. -/
theorem saved_accepted_iff_port {loaded files : Files} {source configPath : CString}
    {io : LoadIo} {portArgument : Option CString} {chosenPort fastUploadPort : ℕ} {tree : Tree}
    {fs : Upload.Fs} {actions : List Action} {first server : Server} {answer : Answer}
    (hload : configLoadFile loaded source io = .ok config)
    (hpath : ∀ target ∈ config.storageTargets, 124 ∉ target.path)
    (hargument : startConfig config portArgument = some started) (hchosen : chosenPort ≤ 65535)
    (hstart : serverStart started configPath chosenPort fastUploadPort files tree fs = some first)
    (hrun : Run step anyStep first actions server) (hanswer : answer ∈ server.answers)
    (hsuccess : answer.response.status = 200) :
    Accepted answer.saved ↔ 1024 ≤ boundPort started.port chosenPort := by
  have hvalid := configLoadFile_valid hload
  obtain ⟨hstarted, hport⟩ := startConfig_spec hvalid hargument
  have hkept := hrun.invariant (fun _ _ _ h _ hstep => kept_step h hstep)
    (kept_serverStart hstart)
  obtain ⟨entry, hmem, -, hsaved⟩ := hkept.answers answer hanswer hsuccess
  rw [hstarted] at hmem hsaved
  rw [hsaved]
  exact accepted_iff_port hvalid hpath (boundPort_le hport hchosen) hmem

namespace Sample

/-- `"/data/config.ini"`. -/
def iniPath : CString := ascii "/data/config.ini"

/-- A configuration without a PIN. -/
def openFile : Bytes := ascii "auth_mode=none\n"

/-- What it is loaded as. -/
def openConfig : AppConfig := { configSetDefaults with authMode := .none }

/-- The configuration file alone. -/
def openFiles : Files := Function.update (fun _ => none) iniPath (some openFile)

/-- Directories wherever one is looked for. -/
def mounted : Tree := fun _ => some .directory

/-- An empty file system. -/
def noFiles : Upload.Fs := ⟨fun _ => none, fun _ => ⟨[], 0⟩, 0⟩

/-- The receiver on its console, on this port. -/
def receiver (port : ℕ) : Option Server :=
  serverStart { openConfig with port } iniPath 0 0 openFiles mounted noFiles

/-- The request of the page for the USB drive. -/
def selectUsb : Request :=
  { method := ascii "POST"
    path := ascii "/api/v1/storage"
    body := some (ascii "\x7b\"target\":\"usb\"\x7d")
    clientAddress := ascii "192.168.1.2"
    host := some (ascii "192.168.1.9")
    origin := some (ascii "http://192.168.1.9")
    contentType := some (ascii "application/json")
    authorization := none
    contentRange := none }

/-- Every call of a save succeeds. -/
def saves : SaveIo := ⟨none, none, none, false⟩

/-- The request is answered and its change saved. -/
def moveToUsb : List Action := [.storage 0 selectUsb 5 .calm (.calm 5 []), .save saves]

end Sample

open Sample

theorem openFile_loads : configLoadFile openFiles iniPath .calm = .ok openConfig := by
  decide +kernel

/-- Without `--port` the saved change of the destination is loaded again. -/
theorem moveToUsb_accepted : ∃ server, (receiver 53317).bind (exec step · moveToUsb) = some server ∧
    ∃ answer ∈ server.answers, answer.response.status = 200 ∧ Accepted answer.saved := by
  have hstart : receiver 53317 = some ((receiver 53317).get (by decide +kernel)) :=
    (Option.some_get _).symm
  have hmoved : ∃ server, exec step ((receiver 53317).get (by decide +kernel)) moveToUsb =
      some server ∧ ∃ answer ∈ server.answers, answer.response.status = 200 :=
    exists_of_exec (by decide +kernel)
  obtain ⟨server, hexec, answer, hanswer, hsuccess⟩ := hmoved
  refine ⟨server, by rw [hstart]; exact hexec, answer, hanswer, hsuccess, ?_⟩
  have haccepted : Accepted answer.saved ↔ 1024 ≤ boundPort openConfig.port 0 :=
    saved_accepted_iff_port openFile_loads (by decide +kernel)
      (rfl : startConfig openConfig none = some openConfig) (by decide) hstart
      (.of_exec (fun _ _ _ => trivial) hexec) hanswer hsuccess
  exact haccepted.mpr (by decide)

/-- Started with `--port 80`, the receiver saves a configuration it refuses to start with. -/
theorem lowPort_refused :
    configLoadFile openFiles iniPath .calm = .ok openConfig ∧
      (∀ target ∈ openConfig.storageTargets, 124 ∉ target.path) ∧
      startConfig openConfig (some (ascii "80")) = some { openConfig with port := 80 } ∧
      ∃ server, (receiver 80).bind (exec step · moveToUsb) = some server ∧
        (∃ answer ∈ server.answers, answer.response.status = 200) ∧
        configLoadFile server.files iniPath .calm =
          .invalid (some "port must be between 1024 and 65535") := by
  refine ⟨openFile_loads, by decide +kernel, by decide +kernel, ?_⟩
  have hstart : receiver 80 = some ((receiver 80).get (by decide +kernel)) :=
    (Option.some_get _).symm
  rw [hstart]
  exact exists_of_exec (by decide +kernel)

end LocalSend.Routing
