import LocalSend.Verification.FileName
import LocalSend.Verification.Upload.Destination
import LocalSend.Verification.Upload.Frame
import LocalSend.Verification.Upload.Invariant

/-! # Where uploads are written

The final name of an upload is one component of a path, and no part file's name. So all that
an upload creates lies directly in a directory that has been chosen as the destination, and no
published file is taken for a part file.
-/

namespace LocalSend.Upload

open SafePath Transition

/-- The path of a proper name in a directory. -/
structure Component (directory name path : CString) : Prop where
  proper : ProperName name
  path_eq : path = directory ++ 47 :: name

/-- The path of a file that could be published in a directory. -/
structure FinalPath (directory name path : CString) : Prop
    extends Component directory name path where
  unmanaged : managedPartName name = false

/-- The path of a part file in a directory. -/
structure PartPath (directory name path : CString) : Prop
    extends Component directory name path where
  managed : managedPartName name = true

/-- Directly in one of the chosen directories. -/
def Inside (chosen : CString → Prop) (path : CString) : Prop :=
  ∃ directory name, chosen directory ∧ Component directory name path

/-- A path of a file to publish in one of these directories. -/
def FinalIn (chosen : CString → Prop) (path : CString) : Prop :=
  ∃ directory name, chosen directory ∧ FinalPath directory name path

/-- A path of a part file in one of these directories. -/
def PartIn (chosen : CString → Prop) (path : CString) : Prop :=
  ∃ directory name, chosen directory ∧ PartPath directory name path

variable {chosen : CString → Prop} {directory name path : CString}

theorem Fs.unlink_entries (fs : Fs) {path other : CString} (h : path ≠ other)
    (error : Option Errno) : (fs.unlink other error).2.entries path = fs.entries path := by
  unfold Fs.unlink
  split
  · rfl
  · rfl
  · exact Function.update_of_ne h ..

theorem FinalIn.inside (h : FinalIn chosen path) : Inside chosen path := by
  obtain ⟨directory, name, hchosen, hpath⟩ := h
  exact ⟨directory, name, hchosen, hpath.toComponent⟩

theorem PartIn.inside (h : PartIn chosen path) : Inside chosen path := by
  obtain ⟨directory, name, hchosen, hpath⟩ := h
  exact ⟨directory, name, hchosen, hpath.toComponent⟩

/-- A path has one last component. -/
theorem Component.unique {directory' name' : CString} (h : Component directory name path)
    (h' : Component directory' name' path) : name = name' := by
  have hpath := congrArg List.reverse (h.path_eq.symm.trans h'.path_eq)
  simp only [List.reverse_append, List.reverse_cons, List.append_assoc,
    List.singleton_append] at hpath
  have hslash : ∀ byte ∈ name.reverse, decide (byte ≠ 47) = true := by
    intro byte hbyte
    simpa using h.proper.ne_slash (List.mem_reverse.mp hbyte)
  have hslash' : ∀ byte ∈ name'.reverse, decide (byte ≠ 47) = true := by
    intro byte hbyte
    simpa using h'.proper.ne_slash (List.mem_reverse.mp hbyte)
  have hnames := congrArg (List.takeWhile (fun byte => decide (byte ≠ 47))) hpath
  rw [List.takeWhile_append_of_pos hslash, List.takeWhile_append_of_pos hslash'] at hnames
  simpa using hnames

/-- A file to publish never has the path of a part file. -/
theorem FinalIn.ne_part {chosen' : CString → Prop} {path' : CString} (h : FinalIn chosen path)
    (h' : PartIn chosen' path') : path ≠ path' := by
  rintro rfl
  obtain ⟨directory, name, -, hfinal⟩ := h
  obtain ⟨directory', name', -, hpart⟩ := h'
  obtain rfl := hfinal.toComponent.unique hpart.toComponent
  have hmanaged := hpart.managed
  rw [hfinal.unmanaged] at hmanaged
  cases hmanaged

theorem properName_managed (h : managedPartName name = true) : ProperName name := by
  have hchecks := h
  simp only [managedPartName, decide_eq_true_eq] at hchecks
  obtain ⟨hlength, hmarker, hhex, hsuffix⟩ := hchecks
  have hsplit : name = name.take partMarker.length ++
      ((name.drop partMarker.length).take UPLOAD_ID_HEX_BYTES ++
        name.drop (partMarker.length + UPLOAD_ID_HEX_BYTES)) := by
    rw [← List.drop_drop, List.take_append_drop, List.take_append_drop]
  have hbytes : ∀ byte ∈ name, byte < 0x7f ∧ 0x20 ≤ byte ∧ byte ≠ 47 ∧ byte ≠ 92 ∧ byte ≠ 37 := by
    intro byte hbyte
    rw [hsplit, hmarker, hsuffix, List.mem_append, List.mem_append] at hbyte
    obtain hbyte | hbyte | hbyte := hbyte
    · revert byte
      decide +kernel
    · have hlower := List.all_eq_true.mp hhex byte hbyte
      simp only [isLowerHex, isDigit, decide_eq_true_eq] at hlower
      grind
    · revert byte
      decide +kernel
  have hlong : name.length = 51 := hlength
  refine ⟨utf8_ascii fun byte hbyte => ?_, by omega, fun byte hbyte => ?_, ?_, ?_⟩
  · have hhigh := (hbytes byte hbyte).1
    grind
  · obtain ⟨hhigh, hlow, hslash, hback, hpercent⟩ := hbytes byte hbyte
    refine ⟨hlow, ?_, hslash, hback, hpercent⟩
    grind
  · rintro rfl
    cases hlong
  · rintro rfl
    cases hlong

/-- `cleanup_stale_parts` leaves a published file alone, whatever it finds. -/
theorem cleanupStaleParts_entries (h : FinalIn chosen path) (fs : Fs) (directory : CString)
    (names : List CString) :
    (cleanupStaleParts fs directory names).entries path = fs.entries path := by
  unfold cleanupStaleParts
  induction names generalizing fs with
  | nil => rfl
  | cons name names ih =>
      rw [List.foldl_cons, ih]
      dsimp only
      split
      · rename_i hmanaged
        have hpath := safePathJoin_eq (Prod.ext rfl hmanaged.2)
        have hpart : PartIn (fun _ => True) (directory ++ 47 :: name) :=
          ⟨directory, name, trivial, ⟨properName_managed hmanaged.1, rfl⟩, hmanaged.1⟩
        have hkept := Fs.unlink_entries fs (h.ne_part hpart) none
        rw [← hpath] at hkept
        exact hkept
      · rfl

/-! ## Names that appear -/

/-- All names that were not there before lie in the chosen directories. -/
structure Adds (chosen : CString → Prop) (fs fs' : Fs) : Prop where
  inside : ∀ path file, fs'.entries path = some file →
    fs.entries path = some file ∨ Inside chosen path

/-- A part file in a chosen directory is opened. -/
def Opens (chosen : CString → Prop) (fs : Fs) (file : ℕ) : Prop :=
  ∃ path middle exclusive opened, PartIn chosen path ∧ Adds chosen fs middle ∧
    middle.create path exclusive none = .ok (file, opened)

variable {fs middleFs fs' : Fs}

theorem Adds.of_entries (h : ∀ path file, fs'.entries path = some file →
    fs.entries path = some file) : Adds chosen fs fs' :=
  ⟨fun path file hentry => .inl (h path file hentry)⟩

theorem Adds.refl (chosen : CString → Prop) (fs : Fs) : Adds chosen fs fs :=
  .of_entries fun _ _ h => h

theorem Adds.trans (hfirst : Adds chosen fs middleFs) (hsecond : Adds chosen middleFs fs') :
    Adds chosen fs fs' := by
  refine ⟨fun path file hentry => ?_⟩
  obtain hmiddle | hinside := hsecond.inside path file hentry
  · exact hfirst.inside path file hmiddle
  · exact .inr hinside

theorem Opens.after {file : ℕ} (h : Opens chosen middleFs file)
    (hadds : Adds chosen fs middleFs) : Opens chosen fs file := by
  obtain ⟨path, later, exclusive, opened, hpart, hlater, hcreate⟩ := h
  exact ⟨path, later, exclusive, opened, hpart, hadds.trans hlater, hcreate⟩

theorem adds_unlink (fs : Fs) (path : CString) (error : Option Errno) :
    Adds chosen fs (fs.unlink path error).2 := by
  refine .of_entries fun other file hentry => ?_
  unfold Fs.unlink at hentry
  split at hentry
  · exact hentry
  · exact hentry
  · simp only [Function.update_apply] at hentry
    split at hentry
    · cases hentry
    · exact hentry

theorem unlink_files (fs : Fs) (path : CString) (error : Option Errno) :
    (fs.unlink path error).2.files = fs.files := by
  unfold Fs.unlink
  split <;> rfl

theorem adds_cleanup (fs : Fs) (directory : CString) (names : List CString) :
    Adds chosen fs (cleanupStaleParts fs directory names) ∧
      (cleanupStaleParts fs directory names).files = fs.files := by
  unfold cleanupStaleParts
  induction names generalizing fs with
  | nil => exact ⟨.refl .., rfl⟩
  | cons name names ih =>
      rw [List.foldl_cons]
      dsimp only
      split
      · obtain ⟨hadds, hfiles⟩ := ih (fs.unlink _ none).2
        exact ⟨(adds_unlink ..).trans hadds, hfiles.trans (unlink_files ..)⟩
      · exact ih fs

theorem adds_create {exclusive : Bool} {error : Option Errno} {file : ℕ}
    (hpath : PartIn chosen path) (h : fs.create path exclusive error = .ok (file, fs')) :
    Adds chosen fs fs' ∧ Opens chosen fs file ∧
      ∀ other, (fs'.files other).written = (fs.files other).written ∨ other = file := by
  have hnone : error = none := by
    cases error with
    | none => rfl
    | some error => cases h
  subst hnone
  refine ⟨?_, ⟨path, fs, exclusive, fs', hpath, .refl .., h⟩, ?_⟩
  · refine ⟨fun other found hentry => ?_⟩
    by_cases hother : other = path
    · exact .inr (hother ▸ hpath.inside)
    · unfold Fs.create at h
      split at h
      · cases h
      · cases h
        exact .inl (by simpa [hother] using hentry)
      · split at h
        · cases h
        · cases h
          exact .inl hentry
  · intro other
    by_cases hother : other = file
    · exact .inr hother
    · unfold Fs.create at h
      split at h
      · cases h
      · cases h
        exact .inl (by simp [hother])
      · split at h
        · cases h
        · cases h
          exact .inl (by simp [hother])

theorem adds_openPartFile {world : World} {env : Env} {file : ℕ} (hpath : PartIn chosen path)
    (h : openPartFile world path env = .ok (file, fs')) :
    Adds chosen world.fs fs' ∧ Opens chosen world.fs file ∧
      ∀ other, (fs'.files other).written = (world.fs.files other).written ∨ other = file := by
  unfold openPartFile at h
  split at h
  · rename_i hcreate
    cases h
    exact adds_create hpath hcreate
  · split at h
    · exact adds_create hpath h
    · cases h

theorem adds_renamePart {partPath finalPath : CString} {env : Env} {linked : Bool}
    (hpath : Inside chosen finalPath)
    (h : renamePart fs partPath finalPath env = .ok (linked, fs')) :
    Adds chosen fs fs' ∧ fs'.files = fs.files := by
  unfold renamePart at h
  split at h
  · cases h
  · split at h
    · rename_i renamed hrename
      cases h
      unfold Fs.rename at hrename
      split at hrename
      · cases hrename
      · cases hrename
      · cases hrename
        refine ⟨⟨fun other file hentry => ?_⟩, rfl⟩
        by_cases hfinal : other = finalPath
        · exact .inr (hfinal ▸ hpath)
        · by_cases hpart : other = partPath
          · subst hpart
            simp [hfinal] at hentry
          · exact .inl (by simpa [hfinal, hpart] using hentry)
    · cases h
  · cases h

theorem adds_publishPart {host : Bool} {partPath finalPath : CString} {env : Env} {linked : Bool}
    (hpath : Inside chosen finalPath)
    (h : publishPart host fs partPath finalPath env = .ok (linked, fs')) :
    Adds chosen fs fs' ∧ fs'.files = fs.files := by
  unfold publishPart at h
  split at h
  · split at h
    · rename_i linkedFs hlink
      cases h
      unfold Fs.link at hlink
      split at hlink
      · cases hlink
      · cases hlink
      · cases hlink
      · cases hlink
        refine ⟨⟨fun other file hentry => ?_⟩, rfl⟩
        by_cases hfinal : other = finalPath
        · exact .inr (hfinal ▸ hpath)
        · exact .inl (by simpa [hfinal] using hentry)
    · split at h
      · cases h
      · exact adds_renamePart hpath h
  · exact adds_renamePart hpath h

/-! ## Stretches -/

/-- The calls that choose a destination choose one of these. -/
def Call.Chooses (chosen : CString → Prop) (call : Call) : Prop :=
  ∀ destination, call = .setDestination destination → chosen destination

/-- The code prepares no part file's name, chooses a destination of these, and has a random
source that fills its buffer. -/
structure Grounded (chosen : CString → Prop) (code : Code) : Prop where
  unmanaged : ∀ metadata, code.metadata = some metadata → managedPartName metadata.name = false
  chooses : ∀ call, code.call = some call → call.Chooses chosen
  fills : code.env.Fills

theorem grounded_admission (chosen : CString → Prop) :
    Admission (Call.Chooses chosen) Env.Fills (Grounded chosen) := by
  refine ⟨?_, ?_, fun _ h _ => ⟨nofun, nofun, h⟩, fun _ h _ => ⟨nofun, nofun, h⟩,
    fun _ h _ => ⟨nofun, nofun, h⟩⟩
  · intro call now env hcall henv
    refine ⟨fun metadata hmetadata => ?_, ?_, henv⟩
    · cases call with
      | prepare client authorization json => exact parseMetadata_unmanaged hmetadata
      | _ => cases hmetadata
    · rintro _ ⟨⟩
      exact hcall
  · intro code world pc hcode hparks env henv
    cases hparks with
    | reaping hentry =>
        subst hentry
        exact ⟨hcode.unmanaged, hcode.chooses, henv⟩
    | waitingWrites hentry =>
        subst hentry
        exact ⟨hcode.unmanaged, hcode.chooses, henv⟩
    | superseding client authorization hsetup hmetadata =>
        refine ⟨?_, nofun, henv⟩
        rintro _ ⟨⟩
        exact hcode.unmanaged _ hmetadata
    | _ => exact ⟨nofun, nofun, henv⟩

/-- The upload in the slot has the names of its destination, and its descriptor is the part
file. -/
structure Seated (world : World) : Prop where
  final : FinalPath world.mgr.settings.destination world.mgr.slot.finalName
    world.mgr.slot.finalPath
  part : ∃ name, PartPath world.mgr.settings.destination name world.mgr.slot.partPath
  opened : ∀ file, world.mgr.slot.fd = some file →
    world.fs.entries world.mgr.slot.partPath = some file

/-- All that has been and could be published lies in the chosen directories. -/
structure Placed (chosen : CString → Prop) (world : World) : Prop where
  destination : chosen world.mgr.settings.destination
  override : ∀ path, world.override = some path → chosen path
  descriptor : world.mgr.slot.fd ≠ none → FinalIn chosen world.mgr.slot.finalPath
  slot : world.mgr.slot.occupied = true → Seated world
  published : ∀ requested path content digest,
    .published requested path content digest ∈ world.trace → FinalIn chosen path

/-- Nothing outside the chosen directories has been created, opened or written. -/
structure Confines (chosen : CString → Prop) (before after : World) : Prop where
  adds : Adds chosen before.fs after.fs
  descriptor : ∀ file, after.mgr.slot.fd = some file →
    before.mgr.slot.fd = some file ∨ Opens chosen before.fs file
  written : ∀ file, (after.fs.files file).written = (before.fs.files file).written ∨
    before.mgr.slot.fd = some file ∨ Opens chosen before.fs file

theorem Confines.refl (chosen : CString → Prop) (world : World) : Confines chosen world world :=
  ⟨.refl .., fun _ h => .inl h, fun _ => .inl rfl⟩

variable {code : Code} {before world next : World}

theorem Confines.step (h : Confines chosen before world) (hadds : Adds chosen world.fs next.fs)
    (hdescriptor : ∀ file, next.mgr.slot.fd = some file →
      world.mgr.slot.fd = some file ∨ Opens chosen world.fs file)
    (hwritten : ∀ file, (next.fs.files file).written = (world.fs.files file).written ∨
      Opens chosen world.fs file) : Confines chosen before next := by
  refine ⟨h.adds.trans hadds, fun file hfd => ?_, fun file => ?_⟩
  · obtain hsame | hopens := hdescriptor file hfd
    · exact h.descriptor file hsame
    · exact .inr (hopens.after h.adds)
  · obtain hsame | hopens := hwritten file
    · rw [hsame]
      exact h.written file
    · exact .inr (.inr (hopens.after h.adds))

/-- The files themselves are left alone, and no descriptor is opened. -/
theorem Confines.of_adds (h : Confines chosen before world)
    (hadds : Adds chosen world.fs next.fs) (hfiles : next.fs.files = world.fs.files)
    (hfd : next.mgr.slot.fd = none ∨ next.mgr.slot.fd = world.mgr.slot.fd) :
    Confines chosen before next := by
  refine h.step hadds (fun file hopen => ?_) fun file => .inl (by rw [hfiles])
  obtain hnone | hsame := hfd
  · rw [hnone] at hopen
    cases hopen
  · exact .inl (hsame ▸ hopen)

theorem Placed.of_same (h : Placed chosen world)
    (hsettings : next.mgr.settings.destination = world.mgr.settings.destination)
    (hoverride : next.override = world.override)
    (hslot : next.mgr.slot.occupied = world.mgr.slot.occupied ∧
      next.mgr.slot.finalName = world.mgr.slot.finalName ∧
      next.mgr.slot.finalPath = world.mgr.slot.finalPath ∧
      next.mgr.slot.partPath = world.mgr.slot.partPath ∧
      next.mgr.slot.fd = world.mgr.slot.fd)
    (hentries : next.fs.entries = world.fs.entries)
    (htrace : ∀ requested path content digest,
      .published requested path content digest ∈ next.trace →
        .published requested path content digest ∈ world.trace) : Placed chosen next := by
  obtain ⟨hoccupied, hname, hfinal, hpart, hfd⟩ := hslot
  refine ⟨hsettings ▸ h.destination, hoverride ▸ h.override, ?_, ?_, ?_⟩
  · rw [hfd, hfinal]
    exact h.descriptor
  · rw [hoccupied]
    intro htaken
    obtain ⟨hseated, hplaced, hopened⟩ := h.slot htaken
    refine ⟨?_, ?_, ?_⟩
    · rw [hsettings, hname, hfinal]
      exact hseated
    · rw [hsettings, hpart]
      exact hplaced
    · rw [hfd, hpart, hentries]
      exact hopened
  · intro requested path content digest hmem
    exact h.published requested path content digest (htrace requested path content digest hmem)

/-- Both, over a stretch that starts at `before`. -/
structure Held (chosen : CString → Prop) (before world : World) : Prop where
  placed : Placed chosen world
  confines : Confines chosen before world

theorem Held.of_same (h : Held chosen before world) (hfs : next.fs = world.fs)
    (hsettings : next.mgr.settings.destination = world.mgr.settings.destination)
    (hoverride : next.override = world.override)
    (hslot : next.mgr.slot.occupied = world.mgr.slot.occupied ∧
      next.mgr.slot.finalName = world.mgr.slot.finalName ∧
      next.mgr.slot.finalPath = world.mgr.slot.finalPath ∧
      next.mgr.slot.partPath = world.mgr.slot.partPath ∧
      next.mgr.slot.fd = world.mgr.slot.fd)
    (htrace : ∀ requested path content digest,
      .published requested path content digest ∈ next.trace →
        .published requested path content digest ∈ world.trace) : Held chosen before next := by
  refine ⟨h.placed.of_same hsettings hoverride hslot (by rw [hfs]) htrace, ?_⟩
  refine h.confines.of_adds ?_ (by rw [hfs]) (.inr hslot.2.2.2.2)
  rw [hfs]
  exact .refl ..

theorem held_clearRest (h : Held chosen before world) (origin : Origin) (target : CString)
    (io : ClearIo) : Held chosen before (clearRest world origin target io).1 := by
  refine ⟨⟨h.placed.destination, h.placed.override, fun hfd => absurd rfl hfd, nofun, ?_⟩, ?_⟩
  · intro requested path content digest hmem
    obtain heq | hmem := List.mem_cons.mp hmem
    · cases heq
    · exact h.placed.published requested path content digest hmem
  · simp only [clearRest]
    split
    · exact h.confines.of_adds (adds_unlink ..) (unlink_files ..) (.inl rfl)
    · exact h.confines.of_adds (.refl ..) rfl (.inl rfl)

theorem chosen_effective (h : Placed chosen world) {destination : CString}
    (hdestination : chosen destination) : chosen (effectiveDestination world destination) := by
  unfold effectiveDestination
  split
  · rename_i path _ hoverride
    split
    · exact h.override path hoverride
    · exact hdestination
  · exact hdestination

theorem held_changeDestination (h : Held chosen before world)
    (hfree : world.mgr.slot.occupied = false) {destination : CString}
    (hdestination : chosen destination) (env : Env) :
    Held chosen before
      (changeDestination world (effectiveDestination world destination) env) := by
  obtain ⟨hadds, hfiles⟩ := @adds_cleanup chosen world.fs
    (effectiveDestination world destination) env.staleNames
  refine ⟨⟨chosen_effective h.placed hdestination, h.placed.override, h.placed.descriptor, ?_,
    h.placed.published⟩, h.confines.of_adds hadds hfiles (.inr rfl)⟩
  intro htaken
  have htaken : world.mgr.slot.occupied = true := htaken
  rw [hfree] at htaken
  cases htaken

theorem held_prepareNames (h : Held chosen before world)
    (hfree : world.mgr.slot.occupied = false) {metadata : Metadata}
    (hmetadata : managedPartName metadata.name = false) (authorization : CString) (env : Env) :
    Held chosen before (prepareNames world authorization metadata env).1 := by
  have hpath := prepareNames_finalPath world authorization metadata env
  obtain ⟨finalName, finalPath, uploadId, partPath, hnames⟩ :=
    prepareNames_eq world authorization metadata env
  dsimp only at hpath
  rw [hnames] at hpath ⊢
  have hdestination := world.mgr.settings.forAuthorization_destination authorization
  refine ⟨⟨hdestination ▸ h.placed.destination, h.placed.override, fun hfd => ?_, ?_,
    h.placed.published⟩, h.confines.of_adds (.refl ..) rfl (.inr rfl)⟩
  · obtain hsame | ⟨name, hvalid, hunmanaged, hnew⟩ := hpath
    · exact hsame ▸ h.placed.descriptor hfd
    · exact ⟨_, name, hdestination ▸ h.placed.destination,
        ⟨proper_of_validateFilename hvalid, hnew⟩, hunmanaged hmetadata⟩
  · intro htaken
    have htaken : world.mgr.slot.occupied = true := htaken
    rw [hfree] at htaken
    cases htaken

/-- The paths of the names chosen. -/
theorem located_paths {slot : Slot} {metadata : Metadata} {env : Env}
    (h : slot.Located directory metadata) (hmetadata : managedPartName metadata.name = false)
    (hfills : env.Fills) (hid : randomId env.random = some slot.uploadId) :
    FinalPath directory slot.finalName slot.finalPath ∧
      PartPath directory (partMarker ++ slot.uploadId ++ partSuffix) slot.partPath := by
  have hmanaged := managedPartName_part (randomId_length hfills hid) (randomId_lowerHex hid)
  exact ⟨⟨⟨proper_of_validateFilename h.named.valid, h.named.finalPath_eq⟩,
    h.named.unmanaged hmetadata⟩, ⟨properName_managed hmanaged, h.partPath_eq⟩, hmanaged⟩

theorem held_prepareOpen (h : Held chosen before world)
    (hfree : world.mgr.slot.occupied = false) {metadata : Metadata} {env : Env}
    (hmetadata : managedPartName metadata.name = false) (hfills : env.Fills)
    (hid : randomId env.random = some world.mgr.slot.uploadId)
    (hpaths : world.mgr.slot.Located world.mgr.settings.destination metadata)
    (client authorization : CString) :
    Held chosen before (prepareOpen world client authorization metadata env).1 := by
  obtain ⟨hfinal, hpart⟩ := located_paths hpaths hmetadata hfills hid
  have hfinalIn : FinalIn chosen world.mgr.slot.finalPath :=
    ⟨_, _, h.placed.destination, hfinal⟩
  have hpartIn : PartIn chosen world.mgr.slot.partPath := ⟨_, _, h.placed.destination, hpart⟩
  have hnone : ∀ next : World, next.mgr.slot.occupied = world.mgr.slot.occupied →
      next.mgr.slot.occupied = true → Seated next := by
    intro next hsame htaken
    rw [hsame, hfree] at htaken
    cases htaken
  have hspec := prepareOpen_spec world client authorization metadata env
  generalize prepareOpen world client authorization metadata env = opened at hspec
  cases hspec with
  | refused hresult =>
      exact ⟨⟨h.placed.destination, h.placed.override, fun hfd => absurd rfl hfd, hnone _ rfl,
        h.placed.published⟩, h.confines.of_adds (.refl ..) rfl (.inl rfl)⟩
  | @failed result file fs fs' hresult hopen hentries hsame =>
      obtain ⟨hadds, hopens, hwritten⟩ := adds_openPartFile hpartIn hopen
      refine ⟨⟨h.placed.destination, h.placed.override, fun _ => hfinalIn, hnone _ rfl, ?_⟩, ?_⟩
      · intro requested path content digest hmem
        obtain heq | hmem := List.mem_cons.mp hmem
        · cases heq
        · exact h.placed.published requested path content digest hmem
      · refine h.confines.step (hadds.trans (.of_entries fun path file hentry => ?_)) ?_
          fun other => ?_
        · rwa [← hentries]
        · rintro _ ⟨⟩
          exact .inr hopens
        · obtain hkept | rfl := hwritten other
          · exact .inl ((hsame other).trans hkept)
          · exact .inr hopens
  | @occupied file fs fs' hopen hreserve =>
      obtain ⟨hadds, hopens, hwritten⟩ := adds_openPartFile hpartIn hopen
      have hentries : fs'.entries = fs.entries := reserveUploadSpace_entries hreserve
      refine ⟨⟨h.placed.destination, h.placed.override, fun _ => hfinalIn, fun _ => ?_, ?_⟩, ?_⟩
      · refine ⟨hfinal, ⟨_, hpart⟩, ?_⟩
        rintro _ ⟨⟩
        have hentry := (openPartFile_spec hopen).1
        rw [← hentries] at hentry
        exact hentry
      · intro requested path content digest hmem
        obtain heq | hmem := List.mem_cons.mp hmem
        · cases heq
        · exact h.placed.published requested path content digest hmem
      · refine h.confines.step (hadds.trans (.of_entries fun path file hentry => ?_)) ?_
          fun other => ?_
        · rwa [← hentries]
        · rintro _ ⟨⟩
          exact .inr hopens
        · obtain hkept | rfl := hwritten other
          · exact .inl ((reserveUploadSpace_written hreserve other).trans hkept)
          · exact .inr hopens

/-- An event other than a publication. -/
theorem Held.note (h : Held chosen before world) {event : Event}
    (hevent : ∀ requested path content digest,
      event ≠ .published requested path content digest) :
    Held chosen before (world.note event) := by
  refine h.of_same rfl rfl rfl ⟨rfl, rfl, rfl, rfl, rfl⟩ ?_
  intro requested path content digest hmem
  obtain heq | hmem := List.mem_cons.mp hmem
  · exact absurd heq.symm (hevent requested path content digest)
  · exact hmem

theorem held_closeFd (h : Held chosen before world) : Held chosen before (closeFd world) := by
  refine ⟨⟨h.placed.destination, h.placed.override, fun hfd => absurd rfl hfd, ?_,
    h.placed.published⟩, h.confines.of_adds (.refl ..) rfl (.inl rfl)⟩
  intro htaken
  obtain ⟨hfinal, hpart, -⟩ := h.placed.slot htaken
  exact ⟨hfinal, hpart, nofun⟩

theorem held_publishSlot (h : Held chosen before world) (id digest : CString) (elapsed : ℕ)
    (env : Env) : Held chosen before (publishSlot world id digest elapsed env).1 := by
  have hspec := publishSlot_spec world id digest elapsed env
  generalize publishSlot world id digest elapsed env = published at hspec
  cases hspec with
  | refused => exact h
  | unclosed => exact held_closeFd h
  | failed => exact (held_closeFd h).note nofun
  | @published file linked fs hfd hhash hpublish =>
      have hfinal : FinalIn chosen world.mgr.slot.finalPath :=
        h.placed.descriptor (by rw [hfd]; nofun)
      have hreached : Held chosen before (publishReached world id digest) :=
        (held_closeFd h).note nofun
      obtain ⟨hadds, hfiles⟩ := adds_publishPart hfinal.inside hpublish
      refine ⟨⟨hreached.placed.destination, hreached.placed.override,
        fun hfd => absurd rfl hfd, ?_, ?_⟩, ?_⟩
      · intro htaken
        obtain ⟨hseated, hpart, -⟩ := hreached.placed.slot htaken
        exact ⟨hseated, hpart, nofun⟩
      · intro requested path content digest hmem
        obtain heq | hmem := List.mem_cons.mp hmem
        · cases heq
          exact hfinal
        · exact hreached.placed.published requested path content digest hmem
      · simp only [recordPublished]
        split
        · exact hreached.confines.of_adds (hadds.trans (adds_unlink ..))
            ((unlink_files ..).trans hfiles) (.inl rfl)
        · exact hreached.confines.of_adds hadds hfiles (.inl rfl)

theorem held_update (h : Held chosen before world) (hcode : Grounded chosen code)
    (hupdate : Update code world next) : Held chosen before next := by
  cases hupdate with
  | reap => exact held_clearRest h ..
  | clear => exact held_clearRest h ..
  | destination env hcall hfree =>
      exact held_changeDestination h hfree (hcode.chooses _ hcall _ rfl) env
  | names authorization _ hmetadata hfree =>
      exact held_prepareNames h hfree (hcode.unmanaged _ hmetadata) ..
  | open_ client authorization _ hmetadata hfree hid hpaths =>
      exact held_prepareOpen h hfree (hcode.unmanaged _ hmetadata) hcode.fills hid hpaths ..
  | copy =>
      refine h.of_same rfl rfl rfl ⟨rfl, rfl, rfl, rfl, rfl⟩ ?_
      intro requested path content digest hmem
      obtain heq | hmem := List.mem_cons.mp hmem
      · cases heq
      · exact hmem
  | @endDirect data done error env =>
      cases error <;> exact h.of_same rfl rfl rfl ⟨rfl, rfl, rfl, rfl, rfl⟩ fun _ _ _ _ h => h
  | publish => exact held_publishSlot h ..
  | discard | begin | enqueue | enable | startDirect | accept | store | drop | abort | ready
  | finalize | unfinalize | digest =>
      exact h.of_same rfl rfl rfl ⟨rfl, rfl, rfl, rfl, rfl⟩ fun _ _ _ _ h => h

theorem held_kept (chosen : CString → Prop) (before : World) :
    KeptByCalls (Grounded chosen) (Held chosen before) :=
  ⟨fun hcode h hupdate => held_update h hcode hupdate, fun _ _ _ _ h => held_clearRest h ..,
    fun _ _ h => h.note nofun⟩

/-! ## Steps -/

/-- A `write` reaches the file behind the descriptor only. -/
theorem confines_write {rest : Bytes} {result : IoResult} {fs : Fs} {count : ℕ}
    {error : Option Errno} (hplaced : Placed chosen world)
    (hio : writeOnce world.fs world.mgr.slot.fd rest result = some (fs, count, error)) :
    Held chosen world { world with fs } := by
  obtain ⟨file, hfd, rfl, -⟩ | ⟨rfl, -⟩ := writeOnce_cases hio
  · refine ⟨hplaced.of_same rfl rfl ⟨rfl, rfl, rfl, rfl, rfl⟩ rfl fun _ _ _ _ h => h,
      .of_entries fun _ _ h => h, fun _ h => .inl h, fun other => ?_⟩
    by_cases hother : other = file
    · exact .inr (.inl (hother ▸ hfd))
    · exact .inl (by simp [Fs.append, hother])
  · exact ⟨hplaced, .refl ..⟩

theorem held_completeJob (hplaced : Placed chosen world) (job : Job) (error : Option Errno)
    (elapsedNs : ℕ) : Held chosen world (completeJob world job error elapsedNs) := by
  have h : Held chosen world world := ⟨hplaced, .refl ..⟩
  cases job with
  | queue index size => exact h.of_same rfl rfl rfl ⟨rfl, rfl, rfl, rfl, rfl⟩ fun _ _ _ _ h => h
  | chunk index address size =>
      cases error with
      | some error =>
          exact h.of_same rfl rfl rfl ⟨rfl, rfl, rfl, rfl, rfl⟩ fun _ _ _ _ h => h
      | none =>
          refine h.of_same rfl rfl rfl ⟨rfl, rfl, rfl, rfl, rfl⟩ ?_
          intro requested path content digest hmem
          obtain heq | hmem := List.mem_cons.mp hmem
          · cases heq
          · exact hmem

theorem held_step {sys next : Sys} {action : Action} (hplaced : Placed chosen sys.world)
    (hsys : sys.Admitted Env.Fills (Grounded chosen))
    (hallowed : action.Allowed (Call.Chooses chosen) Env.Fills)
    (hstep : step sys action = some next) : Held chosen sys.world next.world := by
  have h : Held chosen sys.world sys.world := ⟨hplaced, .refl ..⟩
  have hkept := held_kept chosen sys.world
  cases step_stepped hstep with
  | @call tid call env hfree =>
      rw [settle_eq]
      exact hkept.call (grounded_admission chosen) (hallowed.call tid call env rfl)
        (hallowed.env env rfl) h
  | @resume tid env thread stretch hthread hresume =>
      rw [settle_eq]
      exact hkept.settled
        (hkept.resume (hsys tid thread hthread env (hallowed.env env rfl)) h hresume) _
  | directIo hthread hio => exact confines_write hplaced hio
  | hashFinish => exact h
  | hashChunks => exact h
  | pick => exact h.of_same rfl rfl rfl ⟨rfl, rfl, rfl, rfl, rfl⟩ fun _ _ _ _ h => h
  | @writerIo result job done bytes fs count error hwriting hbytes hio =>
      have hwritten := confines_write hplaced hio
      cases error with
      | none => exact hwritten
      | some error => exact hwritten.note nofun
  | complete => exact held_completeJob hplaced ..

/-! ## What a prepare returns -/

/-- Where a prepare sleeps: in the `clear_slot` of an older upload, or in its own with a
failure to report. -/
def Pc.Preparing : Pc → Prop
  | .reaping call _ => call.setup = .slot
  | .superseding _ _ _ _ => True
  | .clearing (.prepareFailed result) _ => result ≠ .ok
  | _ => False

/-- The ends of a stretch of a prepare. -/
inductive PrepareEnds : World × Outcome → Prop
  | parked (world : World) {pc : Pc} (hpc : pc.Preparing) : PrepareEnds (world, .park pc)
  | failed (world : World) {reply : Reply} (hresult : reply.result ≠ .ok) :
      PrepareEnds (world, .done reply)
  | prepared {world : World} (size : ℕ) (hoccupied : world.mgr.slot.occupied = true) :
      PrepareEnds (world, .done { Reply.of .ok with
        prepared := some ⟨world.mgr.slot.uploadId, world.mgr.slot.finalName, size⟩ })

theorem awaitClosing_prepareEnds (world : World) {result : UploadResult} (hresult : result ≠ .ok)
    (target : CString) (io : ClearIo) :
    PrepareEnds (awaitClosing world (.prepareFailed result) target io) := by
  unfold awaitClosing
  split
  · exact .parked _ hresult
  · exact .failed _ hresult

theorem prepareFailed_prepareEnds (world : World) {result : UploadResult}
    (hresult : result ≠ .ok) (env : Env) : PrepareEnds (prepareFailed world result env) := by
  unfold prepareFailed
  split
  · exact awaitClosing_prepareEnds _ hresult ..
  · exact .failed _ hresult

theorem prepareSlot_prepareEnds (world : World) (client authorization : CString)
    (metadata : Metadata) (env : Env) :
    PrepareEnds (prepareSlot world client authorization metadata env) := by
  unfold prepareSlot
  split
  · exact prepareFailed_prepareEnds _ (by simp) _
  split
  · rename_i named _
    have hspec := prepareOpen_spec named client authorization metadata env
    split
    · rename_i opened heq
      rw [heq] at hspec
      cases hspec with
      | refused hresult => exact absurd rfl hresult
      | failed hresult => exact absurd rfl hresult
      | occupied => exact .prepared _ rfl
    · rename_i opened result hresult heq
      exact prepareFailed_prepareEnds _ hresult _
  · rename_i named result hresult heq
    exact prepareFailed_prepareEnds _ hresult _

theorem afterReap_prepareEnds (world : World) {call : Call} (hcall : call.setup = .slot)
    (env : Env) : PrepareEnds (afterReap world call env) := by
  cases call with
  | prepare client authorization json =>
      simp only [afterReap]
      split
      · exact .failed _ (by simp [Reply.of])
      · simp only [uploadPrepare]
        split
        · split
          · exact .parked _ trivial
          · exact prepareSlot_prepareEnds ..
        · exact prepareSlot_prepareEnds ..
  | _ => cases hcall

theorem enterCall_prepareEnds (world : World) {call : Call} (hcall : call.setup = .slot)
    (env : Env) : PrepareEnds (enterCall world call env) := by
  unfold enterCall
  split
  · rename_i result hrefused
    refine .failed _ ?_
    cases call with
    | prepare client authorization json =>
        simp only [Call.refused] at hrefused
        repeat' split at hrefused
        all_goals cases hrefused
        all_goals simp [Reply.of]
    | _ => cases hcall
  · cases call with
    | prepare client authorization json =>
        simp only [reapLocked]
        split
        · split
          · exact .parked _ rfl
          · exact afterReap_prepareEnds _ rfl env
        · exact afterReap_prepareEnds _ rfl env
    | _ => cases hcall

theorem resume_prepareEnds {pc : Pc} {env : Env} {stretch : World × Outcome}
    (hpc : pc.Preparing) (hresume : resume world pc env = some stretch) :
    PrepareEnds stretch := by
  cases pc with
  | reaping call target =>
      simp only [resume] at hresume
      split at hresume
      · cases hresume
        exact .parked _ hpc
      · cases hresume
        exact afterReap_prepareEnds _ hpc env
  | superseding client authorization metadata target =>
      simp only [resume] at hresume
      split at hresume
      · cases hresume
        exact .parked _ hpc
      · cases hresume
        exact prepareSlot_prepareEnds ..
  | clearing closing target =>
      cases closing with
      | prepareFailed result =>
          cases hresume
          exact awaitClosing_prepareEnds _ hpc ..
      | _ => cases hpc
  | _ => cases hpc

/-- The threads that prepare sleep where a prepare does. -/
def Sys.Prepares (sys : Sys) : Prop :=
  ∀ tid thread, sys.threads tid = some thread → thread.call.setup = .slot → thread.pc.Preparing

theorem PrepareEnds.preparing {outcome : Outcome} {call : Call} {thread : Thread}
    (h : PrepareEnds (world, outcome)) (hthread : outcome.thread call = some thread) :
    thread.pc.Preparing := by
  cases h with
  | parked _ hpc =>
      cases hthread
      exact hpc
  | failed => cases hthread
  | prepared => cases hthread

/-- The call of the thread that acts has returned with this reply. -/
def Returned (action : Action) (next : Sys) (call : Call) (reply : Reply) : Prop :=
  ∃ tid, action.tid = some tid ∧ next.threads tid = none ∧
    next.world.trace.head? = some (.returned call reply)

/-- The reply names the file of the upload that is now in the slot. -/
structure Prepares (world : World) (reply : Reply) : Prop where
  occupied : world.mgr.slot.occupied = true
  prepared : ∃ size, reply.prepared =
    some ⟨world.mgr.slot.uploadId, world.mgr.slot.finalName, size⟩

theorem PrepareEnds.returned {stretch : World × Outcome} {call : Call} {reply : Reply}
    {tid : ℕ} {sys : Sys} (h : PrepareEnds stretch)
    (hfree : (sys.settle tid call stretch).threads tid = none)
    (hhead : (sys.settle tid call stretch).world.trace.head? = some (.returned call reply))
    (hok : reply.result = .ok) : Prepares (sys.settle tid call stretch).world reply := by
  cases h with
  | parked world hpc =>
      rw [settle_eq] at hfree
      simp [Outcome.thread] at hfree
  | failed world hresult =>
      cases hhead
      exact absurd hok hresult
  | prepared size hoccupied =>
      cases hhead
      exact ⟨hoccupied, size, rfl⟩

/-- A step keeps the preparing threads where they are, and a prepare that succeeds in it has
filled the slot. -/
structure PreparesStep (action : Action) (next : Sys) : Prop where
  kept : next.Prepares
  replies : ∀ call reply, call.setup = .slot → Returned action next call reply →
    reply.result = .ok → Prepares next.world reply

variable {sys next : Sys} {action : Action}

theorem prepares_settle {tid : ℕ} {call : Call} {stretch : World × Outcome}
    (hsys : sys.Prepares) (htid : action.tid = some tid)
    (hends : call.setup = .slot → PrepareEnds stretch) :
    PreparesStep action (sys.settle tid call stretch) := by
  refine ⟨?_, ?_⟩
  · intro other thread hother hcall
    rw [settle_eq] at hother
    simp only [Function.update_apply] at hother
    split at hother
    · obtain ⟨hsame, -⟩ := thread_parked hother
      exact (hends (hsame ▸ hcall)).preparing hother
    · exact hsys other thread hother hcall
  · rintro call' reply hcall ⟨other, hother, hfree, hhead⟩ hok
    obtain rfl : tid = other := Option.some.inj (htid.symm.trans hother)
    obtain ⟨world, outcome⟩ := stretch
    cases outcome with
    | park pc => simp [Sys.settle, Sys.setPc] at hfree
    | done reply' =>
        cases hhead
        exact (hends hcall).returned hfree rfl hok

theorem prepares_setPc {tid : ℕ} {call : Call} {pc : Pc} (hsys : sys.Prepares)
    (htid : action.tid = some tid)
    (hthreads : next.threads = Function.update sys.threads tid (some ⟨call, pc⟩))
    (hpc : call.setup = .slot → pc.Preparing) : PreparesStep action next := by
  refine ⟨?_, ?_⟩
  · intro other thread hother hcall
    rw [hthreads, Function.update_apply] at hother
    split at hother
    · cases hother
      exact hpc hcall
    · exact hsys other thread hother hcall
  · rintro call' reply hcall ⟨other, hother, hfree, -⟩
    obtain rfl : tid = other := Option.some.inj (htid.symm.trans hother)
    rw [hthreads, Function.update_self] at hfree
    cases hfree

theorem prepares_writer (hsys : sys.Prepares) (htid : action.tid = none)
    (hthreads : next.threads = sys.threads) : PreparesStep action next := by
  refine ⟨?_, ?_⟩
  · intro other thread hother hcall
    rw [hthreads] at hother
    exact hsys other thread hother hcall
  · rintro call' reply hcall ⟨other, hother, -⟩
    rw [htid] at hother
    cases hother

theorem prepares_step (hsys : sys.Prepares) (hstep : step sys action = some next) :
    PreparesStep action next := by
  cases step_stepped hstep with
  | @call tid call env hfree =>
      exact prepares_settle hsys rfl fun hcall => enterCall_prepareEnds _ hcall env
  | @resume tid env thread stretch hthread hresume =>
      exact prepares_settle hsys rfl fun hcall =>
        resume_prepareEnds (hsys tid thread hthread hcall) hresume
  | directIo hthread hio =>
      exact prepares_setPc hsys rfl rfl fun hcall => (hsys _ _ hthread hcall).elim
  | hashFinish hthread hhash =>
      exact prepares_setPc hsys rfl rfl fun hcall => (hsys _ _ hthread hcall).elim
  | hashChunks hthread hhash =>
      exact prepares_setPc hsys rfl rfl fun hcall => (hsys _ _ hthread hcall).elim
  | pick => exact prepares_writer hsys rfl rfl
  | writerIo => exact prepares_writer hsys rfl rfl
  | complete => exact prepares_writer hsys rfl rfl

/-! ## Every run -/

/-- The state of a manager that writes inside the chosen directories only. A published file is
left alone by every later `cleanup_stale_parts` and never has the path of a part file. -/
structure Contained (chosen : CString → Prop) (sys : Sys) : Prop where
  slot : sys.world.mgr.slot.occupied = true → Seated sys.world
  published : ∀ requested path content digest,
    .published requested path content digest ∈ sys.world.trace → FinalIn chosen path ∧
      (∀ fs directory names,
        (cleanupStaleParts fs directory names).entries path = fs.entries path) ∧
      ∀ directory name part, PartPath directory name part → path ≠ part

/-- A step that writes inside the chosen directories only; a prepare that succeeds in it has
found a proper name there. -/
structure ContainedStep (chosen : CString → Prop) (sys : Sys) (action : Action) (next : Sys) :
    Prop where
  confines : Confines chosen sys.world next.world
  prepared : ∀ client authorization json reply,
    Returned action next (.prepare client authorization json) reply → reply.result = .ok →
    ∃ prepared, reply.prepared = some prepared ∧
      FinalPath next.world.mgr.settings.destination prepared.finalName
        next.world.mgr.slot.finalPath

/-- Whatever is prepared, in whatever directories: the names found are proper components and no
part file's, and all that happens stays within the destinations chosen. -/
theorem contained_run {chosen : CString → Prop} {host : Bool} {destination : CString}
    {maxFileBytes maxFiles leaseSeconds : ℕ} {override : Option CString} {fs : Fs}
    {actions : List Action} {sys : Sys} (hdestination : chosen destination)
    (hoverride : ∀ path, override = some path → chosen path)
    (hrun : Run step (fun _ action => action.Allowed (Call.Chooses chosen) Env.Fills)
      (.initial host destination maxFileBytes maxFiles leaseSeconds override fs) actions sys) :
    Contained chosen sys ∧ ∀ action next, action.Allowed (Call.Chooses chosen) Env.Fills →
      step sys action = some next → ContainedStep chosen sys action next := by
  have hall := hrun.invariant
    (I := fun sys => Placed chosen sys.world ∧ sys.Admitted Env.Fills (Grounded chosen) ∧
      sys.Prepares)
    (fun sys action next ⟨hplaced, hsys, hprepares⟩ hallowed hstep =>
      ⟨(held_step hplaced hsys hallowed hstep).placed,
        (grounded_admission chosen).step hsys hallowed hstep,
        (prepares_step hprepares hstep).kept⟩)
    ⟨⟨hdestination, hoverride, fun hfd => absurd rfl hfd, nofun, nofun⟩,
      by rintro _ _ ⟨⟩, by rintro _ _ ⟨⟩⟩
  obtain ⟨hplaced, hsys, hprepares⟩ := hall
  refine ⟨⟨hplaced.slot, ?_⟩, ?_⟩
  · intro requested path content digest hmem
    have hfinal := hplaced.published requested path content digest hmem
    refine ⟨hfinal, cleanupStaleParts_entries hfinal, fun directory name part hpart => ?_⟩
    have hpartIn : PartIn (fun _ => True) part := ⟨directory, name, trivial, hpart⟩
    exact hfinal.ne_part hpartIn
  · intro action next hallowed hstep
    have hheld := held_step hplaced hsys hallowed hstep
    refine ⟨hheld.confines, ?_⟩
    intro client authorization json reply hreturned hok
    obtain ⟨hoccupied, size, hprepared⟩ := (prepares_step hprepares hstep).replies _ reply rfl
      hreturned hok
    exact ⟨_, hprepared, (hheld.placed.slot hoccupied).final⟩

open Sample in
/-- A file prepared in the destination `/d`. -/
theorem contained_prepare :
    ∃ sys, Contained (· = [47, 100]) sys ∧
      sys.world.mgr.slot.finalPath = [47, 100, 47, 102] := by
  have hexec : ∃ sys, exec step (start 60) [prepare 0 1 5] = some sys ∧
      sys.world.mgr.slot.finalPath = [47, 100, 47, 102] :=
    exists_of_exec (by decide +kernel)
  obtain ⟨sys, hsys, hpath⟩ := hexec
  have hallowed : (prepare 0 1 5).Allowed (Call.Chooses (· = [47, 100])) Env.Fills := by
    refine ⟨?_, ?_⟩
    · rintro _ _ _ ⟨⟩ _ ⟨⟩
    · rintro _ ⟨⟩ bytes ⟨⟩
      decide
  have hrun : Run step (fun _ action =>
      action.Allowed (Call.Chooses (· = [47, 100])) Env.Fills) (start 60) [prepare 0 1 5] sys :=
    Run.of_exec (fun action hmem _ => List.mem_singleton.mp hmem ▸ hallowed) hsys
  have hoverride : ∀ path : CString, none = some path → path = [47, 100] := by
    rintro path ⟨⟩
  exact ⟨sys, (@contained_run (· = [47, 100]) _ _ _ _ _ _ _ _ _ rfl hoverride hrun).1, hpath⟩

end LocalSend.Upload
