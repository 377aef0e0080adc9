import LocalSend.Model.Upload.FileTree
import LocalSend.Verification.Config.Accepted
import Mathlib.Data.List.Infix

/-! # Making sure of a directory

A run of `ensure_destination_directory` creates directories along the path only, and only below
an anchor that was there. Each prefix is known to be a real directory before the next one is
looked at, so no link is ever followed to a new place.
-/

namespace LocalSend.Upload

open SafePath Config

/-! ## Paths and names -/

/-- A name between two slashes that stands for itself. -/
structure PlainName (name : CString) : Prop where
  ne_nil : name ≠ []
  ne_dot : name ≠ [46]
  ne_dots : name ≠ [46, 46]
  no_slash : 47 ∉ name

/-- The path with these names. -/
def slashed (names : Place) : CString := names.flatMap (47 :: ·)

variable {name : CString} {names place init rest : Place}

theorem slashed_cons (name : CString) (names : Place) :
    slashed (name :: names) = 47 :: (name ++ slashed names) := rfl

theorem splitOn_slashed (hslash : 47 ∉ name) (h : ∀ other ∈ names, PlainName other) :
    (name ++ slashed names).splitOn 47 = name :: names := by
  induction names generalizing name with
  | nil => rw [slashed, List.flatMap_nil, List.append_nil, List.splitOn_eq_singleton hslash]
  | cons first names ih =>
      rw [slashed_cons, List.splitOn_append_cons_self_of_not_mem hslash,
        ih (h first (List.mem_cons_self ..)).no_slash fun other hmem =>
          h other (List.mem_cons_of_mem _ hmem)]

theorem pathNames_slashed (h : ∀ name ∈ names, PlainName name) :
    pathNames (slashed names) = names := by
  have hfilter : names.filter (· ≠ []) = names :=
    List.filter_eq_self.mpr fun name hmem => by simpa using (h name hmem).ne_nil
  have hsplit : (slashed names).splitOn 47 = [] :: names := by
    have hempty : ([] ++ slashed names).splitOn 47 = [] :: names := splitOn_slashed (by simp) h
    rwa [List.nil_append] at hempty
  rw [pathNames, hsplit, List.filter_cons_of_neg (by simp), hfilter]

/-- The places where a text is cut, with what stands in front of it. -/
def cutsFrom (done : CString) : CString → List CString
  | [] => [done]
  | byte :: text =>
      if byte = 47 then done :: cutsFrom (done ++ [byte]) text else cutsFrom (done ++ [byte]) text

theorem cutsFrom_eq (done text : CString) :
    ((List.range' done.length (text.length + 1)).filter fun position =>
      position = (done ++ text).length ∨ (done ++ text).getD position 0 = 47).map
        (done ++ text).take = cutsFrom done text := by
  induction text generalizing done with
  | nil => simp [cutsFrom]
  | cons byte text ih =>
      have hrest := ih (done ++ [byte])
      have hdone : (done ++ [byte]).length = done.length + 1 := by simp
      rw [List.append_assoc, List.singleton_append, hdone] at hrest
      have hbyte : (done ++ byte :: text).getD done.length 0 = byte := by
        simp
      have hlength : ¬done.length = (done ++ byte :: text).length := by
        simp
      rw [List.length_cons, List.range'_succ, List.filter_cons, cutsFrom]
      simp only [hbyte, hlength, false_or]
      by_cases hslash : byte = 47
      · rw [if_pos hslash, if_pos (by simpa using hslash), List.map_cons, hrest, List.take_left]
      · rw [if_neg hslash, if_neg (by simpa using hslash), hrest]

theorem cutsFrom_append (done : CString) {text : CString} (h : 47 ∉ name) :
    cutsFrom done (name ++ text) = cutsFrom (done ++ name) text := by
  induction name generalizing done with
  | nil => simp
  | cons byte name ih =>
      have hbyte : byte ≠ 47 := fun heq => h (heq ▸ List.mem_cons_self ..)
      rw [List.cons_append, cutsFrom, if_neg hbyte,
        ih _ fun hmem => h (List.mem_cons_of_mem _ hmem)]
      simp

theorem cutsFrom_slashed (done : CString) (h : ∀ name ∈ names, PlainName name) :
    cutsFrom done (slashed names) = names.inits.map fun init => done ++ slashed init := by
  induction names generalizing done with
  | nil => simp [slashed, cutsFrom]
  | cons name names ih =>
      have hname := (h name (List.mem_cons_self ..)).no_slash
      rw [slashed_cons, cutsFrom, if_pos rfl, cutsFrom_append _ hname,
        ih _ fun other hmem => h other (List.mem_cons_of_mem _ hmem), List.inits_cons,
        List.map_cons, List.map_map]
      simp [slashed]

/-- The prefixes the code goes through are the paths of the first names. -/
theorem prefixes_slashed (hname : PlainName name) (h : ∀ other ∈ names, PlainName other) :
    prefixes (slashed (name :: names)) =
      names.inits.map fun init => slashed (name :: init) := by
  have hcuts := cutsFrom_eq [47] (name ++ slashed names)
  rw [cutsFrom_append _ hname.no_slash, cutsFrom_slashed _ h] at hcuts
  simp only [prefixes, slashed_cons, peek, if_true]
  simpa using hcuts

/-! ## The anchor -/

/-- How many names of a path make up its anchor. -/
def anchorCount : Place → ℕ
  | [] => 0
  | [_] => 1
  | name :: _ :: _ => if name = [109, 110, 116] then 2 else 1

theorem takeWhile_slashed {rest : CString} (hname : 47 ∉ name)
    (hrest : ∀ byte ∈ rest.head?, byte = 47) :
    (name ++ rest).takeWhile (· ≠ 47) = name := by
  have hall : ∀ byte ∈ name, decide (byte ≠ 47) = true := by
    intro byte hbyte
    simp only [decide_eq_true_eq]
    rintro rfl
    exact hname hbyte
  rw [List.takeWhile_append_of_pos hall]
  cases rest with
  | nil => simp
  | cons byte rest => simp [hrest byte rfl]

theorem head_slashed (names : Place) : ∀ byte ∈ (slashed names).head?, byte = 47 := by
  cases names with
  | nil => simp [slashed]
  | cons name names => simp [slashed_cons]

/-- A path starts with `/mnt/` if it has a name behind `mnt`. -/
theorem take_mountPrefix (hname : PlainName name) (h : ∀ other ∈ names, PlainName other) :
    (slashed (name :: names)).take mountPrefix.length = mountPrefix ↔
      name = [109, 110, 116] ∧ names ≠ [] := by
  constructor
  · intro htake
    obtain ⟨rest, hrest⟩ : mountPrefix <+: slashed (name :: names) :=
      List.prefix_iff_eq_take.mpr htake.symm
    have hsplit := splitOn_slashed hname.no_slash h
    have htail : name ++ slashed names = [109, 110, 116] ++ 47 :: rest := by
      simpa [mountPrefix, slashed_cons] using hrest.symm
    rw [htail, List.splitOn_append_cons_self_of_not_mem (by decide)] at hsplit
    obtain ⟨hfirst, hothers⟩ := List.cons.inj hsplit
    exact ⟨hfirst.symm, fun hnil => List.splitOn_ne_nil 47 rest (hothers.trans hnil)⟩
  · rintro ⟨rfl, hne⟩
    obtain ⟨second, others, rfl⟩ := List.exists_cons_of_ne_nil hne
    simp [slashed_cons, mountPrefix]

/-- The anchor is the path of the first names. -/
theorem take_anchorSize (hname : PlainName name) (h : ∀ other ∈ names, PlainName other) :
    (slashed (name :: names)).take (anchorSize (slashed (name :: names))) =
      slashed ((name :: names).take (anchorCount (name :: names))) ∧
    anchorSize (slashed (name :: names)) =
      (slashed ((name :: names).take (anchorCount (name :: names)))).length := by
  by_cases hmount : name = [109, 110, 116] ∧ names ≠ []
  · obtain ⟨rfl, hne⟩ := hmount
    obtain ⟨second, others, rfl⟩ := List.exists_cons_of_ne_nil hne
    have htake := (take_mountPrefix hname h).mpr ⟨rfl, hne⟩
    have hsecond := (h second (List.mem_cons_self ..)).no_slash
    have hsize : anchorSize (slashed ([109, 110, 116] :: second :: others)) =
        5 + second.length := by
      rw [anchorSize, if_pos htake]
      simp only [slashed_cons, mountPrefix, List.length_cons, List.length_nil, Nat.zero_add,
        Nat.reduceAdd, List.drop_succ_cons, List.cons_append, List.nil_append, List.drop_zero]
      rw [takeWhile_slashed hsecond (head_slashed others)]
    rw [hsize]
    have hlength : 5 + second.length =
        (47 :: ([109, 110, 116] ++ 47 :: second) : CString).length := by
      simp
      omega
    constructor
    · rw [hlength, slashed_cons, slashed_cons]
      simp [anchorCount, slashed]
    · rw [hlength]
      simp [anchorCount, slashed]
  · have hcount : anchorCount (name :: names) = 1 := by
      cases names with
      | nil => rfl
      | cons second others => exact if_neg fun heq => hmount ⟨heq, by simp⟩
    have htake : ¬(slashed (name :: names)).take mountPrefix.length = mountPrefix :=
      fun heq => hmount ((take_mountPrefix hname h).mp heq)
    have hsize : anchorSize (slashed (name :: names)) = 1 + name.length := by
      rw [anchorSize, if_neg htake, slashed_cons, List.tail_cons,
        takeWhile_slashed hname.no_slash (head_slashed names)]
    rw [hsize, hcount]
    constructor
    · rw [slashed_cons, Nat.add_comm, List.take_succ_cons, List.take_left]
      simp [slashed]
    · simp [slashed]
      omega

/-! ## Resolving a path of real directories -/

variable {tree next : FileTree} {links count : ℕ} {error : Option Errno} {io : DirectoryIo}
  {done : Place}

/-- Everything on the way to a place is a real directory. -/
def RealBelow (tree : FileTree) (place : Place) : Prop :=
  ∀ init, init <+: place → init ≠ place → tree.entries init = some .directory

theorem walk_real (hplain : ∀ name ∈ names, PlainName name)
    (hreal : ∀ init, init <+: names → init ≠ names →
      tree.entries (place ++ init) = some .directory) :
    tree.walk place names = .arrived (place ++ names) := by
  induction names generalizing place with
  | nil => simp [FileTree.walk]
  | cons name names ih =>
      have hname := hplain name (List.mem_cons_self ..)
      rw [FileTree.walk, if_neg hname.ne_dot, if_neg hname.ne_dots]
      by_cases hlast : names = []
      · rw [if_pos hlast, hlast]
      · have hdirectory : tree.entries (place ++ [name]) = some .directory :=
          hreal [name] ⟨names, rfl⟩ (by simpa [eq_comm] using hlast)
        rw [if_neg hlast, hdirectory]
        dsimp only
        rw [ih (fun other hmem => hplain other (List.mem_cons_of_mem _ hmem))]
        · simp
        · intro init hinit hne
          rw [List.append_assoc]
          exact hreal (name :: init) (List.cons_prefix_cons.mpr ⟨rfl, hinit⟩)
            fun heq => hne (List.cons.inj heq).2

/-- Nothing is found behind a missing name. -/
theorem walk_missing (hplain : ∀ name ∈ names, PlainName name) (hinit : init <+: names)
    (hne : init ≠ []) (hproper : init ≠ names)
    (hreal : ∀ front, front <+: init → front ≠ [] → front ≠ init →
      tree.entries (place ++ front) = some .directory)
    (hnone : tree.entries (place ++ init) = none) : tree.walk place names = .failed .enoent := by
  induction names generalizing place init with
  | nil => exact absurd (List.prefix_nil.mp hinit) hne
  | cons name names ih =>
      have hname := hplain name (List.mem_cons_self ..)
      obtain ⟨first, rest, rfl⟩ := List.exists_cons_of_ne_nil hne
      obtain ⟨rfl, hrest⟩ := List.cons_prefix_cons.mp hinit
      have hmore : names ≠ [] := by
        rintro rfl
        exact hproper (by rw [List.prefix_nil.mp hrest])
      rw [FileTree.walk, if_neg hname.ne_dot, if_neg hname.ne_dots, if_neg hmore]
      by_cases hlast : rest = []
      · rw [hlast] at hnone
        rw [hnone]
      · have hdirectory : tree.entries (place ++ [first]) = some .directory :=
          hreal [first] ⟨rest, rfl⟩ (by simp) (by simpa [eq_comm] using hlast)
        rw [hdirectory]
        dsimp only
        refine ih (fun other hmem => hplain other (List.mem_cons_of_mem _ hmem)) hrest hlast
          (fun heq => hproper (by rw [heq])) ?_ ?_
        · intro front hfront _ hinside
          rw [List.append_assoc]
          exact hreal (first :: front) (List.cons_prefix_cons.mpr ⟨rfl, hfront⟩) (by simp)
            fun heq => hinside (List.cons.inj heq).2
        · rwa [List.append_assoc]

theorem start_slashed (hne : names ≠ []) :
    FileTree.start tree.workingDirectory (slashed names) = [] := by
  cases names with
  | nil => exact absurd rfl hne
  | cons name names => rfl

/-- A path of real directories leads to its own names. -/
theorem resolve_slashed (hne : names ≠ []) (hplain : ∀ name ∈ names, PlainName name)
    (hreal : RealBelow tree names) : tree.resolve links (slashed names) = .ok names := by
  have hwalk : tree.walk [] names = .arrived names :=
    walk_real hplain fun init hinit hinside => hreal init hinit hinside
  rw [FileTree.resolve, pathNames_slashed hplain, start_slashed hne, FileTree.follow.eq_def]
  simp only [hwalk]

theorem lstat_slashed (hne : names ≠ []) (hplain : ∀ name ∈ names, PlainName name)
    (hreal : RealBelow tree names)
    (h : tree.lstat links (slashed names) error = .ok .directory) :
    tree.entries names = some .directory := by
  simp only [FileTree.lstat, resolve_slashed hne hplain hreal] at h
  split at h
  · cases h
  · cases h
  · rename_i place hplace
    cases hplace
    split at h
    · cases h
    · rename_i entry hentry
      rw [hentry]
      cases entry with
      | directory => rfl
      | file => cases h
      | symlink target => cases h

/-- Where a path leads to a directory, every name on the way is there. -/
theorem lstat_anchored (hne : names ≠ []) (hplain : ∀ name ∈ names, PlainName name)
    (h : tree.lstat links (slashed names) error = .ok .directory) (hinit : init <+: names)
    (hfirst : init ≠ []) (hreal : RealBelow tree init) : tree.entries init ≠ none := by
  by_cases hwhole : init = names
  · subst hwhole
    rw [lstat_slashed hne hplain hreal h]
    simp
  intro hnone
  have hwalk : tree.walk [] names = .failed .enoent :=
    walk_missing hplain hinit hfirst hwhole
      (fun front hfront _ hinside => hreal front hfront hinside) hnone
  have hresolve : tree.resolve links (slashed names) = .error .enoent := by
    rw [FileTree.resolve, pathNames_slashed hplain, start_slashed hne, FileTree.follow.eq_def]
    simp only [hwalk]
  cases error with
  | none =>
      simp only [FileTree.lstat, hresolve] at h
      cases h
  | some error => cases h

/-- Only new directories at allowed places. -/
structure Extends (allowed : Place → Prop) (tree next : FileTree) : Prop where
  entries : ∀ place, next.entries place = tree.entries place ∨
    tree.entries place = none ∧ next.entries place = some .directory ∧ allowed place

theorem Extends.refl (allowed : Place → Prop) (tree : FileTree) : Extends allowed tree tree :=
  ⟨fun _ => .inl rfl⟩

theorem Extends.trans {allowed : Place → Prop} {middle : FileTree}
    (hfirst : Extends allowed tree middle) (hsecond : Extends allowed middle next) :
    Extends allowed tree next := by
  refine ⟨fun place => ?_⟩
  rcases hsecond.entries place with hsame | ⟨hnone, hnew, hallowed⟩
  · rw [hsame]
    exact hfirst.entries place
  · rcases hfirst.entries place with hsame | ⟨_, hother, _⟩
    · exact .inr ⟨hsame ▸ hnone, hnew, hallowed⟩
    · rw [hother] at hnone
      cases hnone

theorem Extends.kept {allowed : Place → Prop} (h : Extends allowed tree next)
    (hentry : tree.entries place = some .directory) : next.entries place = some .directory := by
  rcases h.entries place with hsame | ⟨hnone, -, -⟩
  · rwa [hsame]
  · rw [hentry] at hnone
    cases hnone

theorem Extends.mono {allowed wider : Place → Prop} (h : Extends allowed tree next)
    (hwider : ∀ place, allowed place → wider place) : Extends wider tree next :=
  ⟨fun place => (h.entries place).imp_right fun hnew => ⟨hnew.1, hnew.2.1, hwider _ hnew.2.2⟩⟩

/-- `mkdir` on such a path makes a directory at its own place if nothing stands there. -/
theorem mkdir_slashed (hne : names ≠ []) (hplain : ∀ name ∈ names, PlainName name)
    (hreal : RealBelow tree names) :
    Extends (fun place => place = names ∧ tree.entries names = none) tree
      (tree.mkdir links (slashed names) error).2 := by
  rw [FileTree.mkdir, resolve_slashed hne hplain hreal]
  dsimp only
  split
  · exact .refl ..
  rename_i hfree
  rw [not_not] at hfree
  split
  · exact .refl ..
  split
  · refine ⟨fun place => ?_⟩
    have hplace : names.dropLast ++ [names.getLastD []] = names := by
      rw [List.getLastD_eq_getLast?, List.getLast?_eq_some_getLast hne]
      exact List.dropLast_append_getLast hne
    simp only [FileTree.addDirectory, hplace]
    by_cases hsame : place = names
    · subst hsame
      rw [Function.update_self]
      exact .inr ⟨hfree, rfl, rfl, hfree⟩
    · rw [Function.update_of_ne hsame]
      exact .inl rfl
  · exact .refl ..

/-! ## The run along the path -/

/-- The first `count` places along a path exist, as far as they can be reached. -/
def Anchored (tree : FileTree) (done rest : Place) (count : ℕ) : Prop :=
  ∀ init, init <+: rest → (done ++ init).length ≤ count → RealBelow tree (done ++ init) →
    tree.entries (done ++ init) ≠ none

/-- A place along the path, below the anchor. -/
def Below (path : Place) (count : ℕ) (place : Place) : Prop :=
  place <+: path ∧ count < place.length

/-- What one round does: an error ends the run, or the place is a real directory. -/
theorem ensurePrefixes_first (hne : done ≠ []) (hplain : ∀ name ∈ done, PlainName name)
    (hreal : RealBelow tree done) (paths : List CString) :
    ∃ middle, Extends (fun place => place = done ∧ tree.entries done = none) tree middle ∧
      ((∃ error, ensurePrefixes (io.fileCalls links) tree (slashed done :: paths) =
          (middle, some error)) ∨
        middle.entries done = some .directory ∧
          ensurePrefixes (io.fileCalls links) tree (slashed done :: paths) =
            ensurePrefixes (io.fileCalls links) middle paths) := by
  have hmade : Extends (fun place => place = done ∧ tree.entries done = none) tree
      (tree.mkdir links (slashed done) (io.mkdirError (slashed done))).2 :=
    mkdir_slashed hne hplain hreal
  have hmkdir : (io.fileCalls links).mkdir tree (slashed done) =
      tree.mkdir links (slashed done) (io.mkdirError (slashed done)) := rfl
  rw [ensurePrefixes, hmkdir]
  cases hresult : tree.mkdir links (slashed done) (io.mkdirError (slashed done)) with
  | mk mkdirError middle =>
      rw [hresult] at hmade
      refine ⟨middle, hmade, ?_⟩
      dsimp only
      by_cases herror : mkdirError ≠ none ∧ mkdirError ≠ some .eexist
      · rw [if_pos herror]
        obtain ⟨error, rfl⟩ := Option.ne_none_iff_exists'.mp herror.1
        exact .inl ⟨error, rfl⟩
      rw [if_neg herror]
      have hbelow : RealBelow middle done := fun init hinit hinside =>
        hmade.kept (hreal init hinit hinside)
      have hlstat : (io.fileCalls links).lstat middle (slashed done) =
          middle.lstat links (slashed done) (io.lstatError (slashed done)) := rfl
      rw [hlstat]
      cases hnode : middle.lstat links (slashed done) (io.lstatError (slashed done)) with
      | error error => exact .inl ⟨error, rfl⟩
      | ok node =>
          cases node with
          | directory => exact .inr ⟨lstat_slashed hne hplain hbelow hnode, rfl⟩
          | file => exact .inl ⟨_, rfl⟩
          | symlink => exact .inl ⟨_, rfl⟩

/-- The place a round may create at lies along the path and below the anchor. -/
theorem Anchored.fresh (hreal : RealBelow tree done) (hanchored : Anchored tree done rest count)
    (hnone : tree.entries done = none) : Below (done ++ rest) count done := by
  refine ⟨List.prefix_append _ _, Nat.lt_of_not_le fun hshort => ?_⟩
  have hexists := hanchored [] List.nil_prefix
  rw [List.append_nil] at hexists
  exact hexists hshort hreal hnone

/-- A round keeps the anchor in place. -/
theorem Anchored.step {middle : FileTree} (hreal : RealBelow tree done)
    (hanchored : Anchored tree done (name :: rest) count)
    (hmiddle : Extends (fun place => place = done ∧ tree.entries done = none) tree middle) :
    Anchored middle (done ++ [name]) rest count := by
  intro init hinit hshort hinitReal
  have happend : done ++ [name] ++ init = done ++ name :: init := by
    rw [List.append_assoc, List.singleton_append]
  rw [happend] at hshort hinitReal ⊢
  have hold : ∀ place, middle.entries place = tree.entries place := by
    intro place
    rcases hmiddle.entries place with hsame | ⟨-, -, -, hnone⟩
    · exact hsame
    · have hdeep := (hanchored.fresh hreal hnone).2
      rw [List.length_append] at hshort
      omega
  rw [hold]
  refine hanchored (name :: init) (List.cons_prefix_cons.mpr ⟨rfl, hinit⟩) hshort ?_
  intro place hplace hinside
  rw [← hold]
  exact hinitReal place hplace hinside

/-- With real directories down to the last name of `done`, the run goes on from there. -/
theorem ensurePrefixes_spec (hne : done ≠ []) (hplain : ∀ name ∈ done ++ rest, PlainName name)
    (hreal : RealBelow tree done) (hanchored : Anchored tree done rest count)
    {result : FileTree × Option Errno}
    (hresult : ensurePrefixes (io.fileCalls links) tree
      (rest.inits.map fun init => slashed (done ++ init)) = result) :
    Extends (Below (done ++ rest) count) tree result.1 ∧
      (result.2 = none → ∀ init, init <+: rest →
        result.1.entries (done ++ init) = some .directory) := by
  induction rest generalizing done tree with
  | nil =>
      have hplainDone : ∀ name ∈ done, PlainName name := fun name hmem =>
        hplain name (List.mem_append_left _ hmem)
      obtain ⟨middle, hmiddle, hround⟩ := @ensurePrefixes_first tree links io done hne hplainDone
        hreal []
      have hwide : Extends (Below (done ++ []) count) tree middle := by
        refine hmiddle.mono ?_
        rintro place ⟨rfl, hnone⟩
        exact hanchored.fresh hreal hnone
      simp only [List.inits, List.map_cons, List.map_nil, List.append_nil] at hresult
      rcases hround with ⟨error, herror⟩ | ⟨hdirectory, hgo⟩
      · rw [herror] at hresult
        subst hresult
        exact ⟨hwide, fun hnone => by cases hnone⟩
      · rw [hgo, ensurePrefixes] at hresult
        subst hresult
        refine ⟨hwide, fun _ init hinit => ?_⟩
        rw [List.prefix_nil.mp hinit, List.append_nil]
        exact hdirectory
  | cons name rest ih =>
      have hplainDone : ∀ name ∈ done, PlainName name := fun name hmem =>
        hplain name (List.mem_append_left _ hmem)
      have hlist : ((name :: rest).inits.map fun init => slashed (done ++ init)) =
          slashed done :: rest.inits.map fun init => slashed (done ++ [name] ++ init) := by
        rw [List.inits_cons, List.map_cons, List.map_map, List.append_nil]
        simp
      obtain ⟨middle, hmiddle, hround⟩ := @ensurePrefixes_first tree links io done hne hplainDone
        hreal (rest.inits.map fun init => slashed (done ++ [name] ++ init))
      have hwide : Extends (Below (done ++ name :: rest) count) tree middle := by
        refine hmiddle.mono ?_
        rintro place ⟨rfl, hnone⟩
        exact hanchored.fresh hreal hnone
      have hpath : done ++ [name] ++ rest = done ++ name :: rest := by simp
      rw [hlist] at hresult
      rcases hround with ⟨error, herror⟩ | ⟨hdirectory, hgo⟩
      · rw [herror] at hresult
        subst hresult
        exact ⟨hwide, fun hnone => by cases hnone⟩
      rw [hgo] at hresult
      have hbelow : RealBelow middle (done ++ [name]) := by
        intro init hinit hinside
        rcases List.prefix_concat_iff.mp hinit with rfl | hinit
        · exact absurd rfl hinside
        by_cases hdone : init = done
        · rw [hdone]
          exact hdirectory
        · exact hmiddle.kept (hreal init hinit hdone)
      obtain ⟨hextends, hall⟩ := ih (by simp) (by rwa [hpath]) hbelow
        (hanchored.step hreal hmiddle) hresult
      rw [hpath] at hextends
      refine ⟨hwide.trans hextends, fun hnone init hinit => ?_⟩
      cases init with
      | nil =>
          rw [List.append_nil]
          exact hextends.kept hdirectory
      | cons first init =>
          obtain ⟨rfl, hbehind⟩ := List.cons_prefix_cons.mp hinit
          have hplace := hall hnone init hbehind
          rwa [List.append_assoc, List.singleton_append] at hplace

/-! ## The destination directory -/

theorem anchorCount_pos (name : CString) (names : Place) :
    1 ≤ anchorCount (name :: names) := by
  cases names with
  | nil => rfl
  | cons second names =>
      rw [anchorCount]
      split
      · exact Nat.le_succ 1
      · exact le_rfl

theorem length_take_anchorCount (name : CString) (names : Place) :
    ((name :: names).take (anchorCount (name :: names))).length = anchorCount (name :: names) := by
  rw [List.length_take, Nat.min_eq_left]
  cases names with
  | nil => exact le_rfl
  | cons second names =>
      rw [anchorCount]
      split <;> simp

/-- A cut of the path at a slash or at its end is the path of its first names. -/
theorem exists_cut {front : CString} (hname : PlainName name)
    (hothers : ∀ other ∈ names, PlainName other) (hfront : front <+: slashed (name :: names))
    (hne : front ≠ [])
    (hcut : front = slashed (name :: names) ∨ (slashed (name :: names))[front.length]? = some 47) :
    ∃ init, init <+: names ∧ front = slashed (name :: init) := by
  have hmem : front ∈ prefixes (slashed (name :: names)) := by
    have htake := List.prefix_iff_eq_take.mp hfront
    have hpos := List.length_pos_iff.mpr hne
    have hle := hfront.length_le
    rw [prefixes, if_pos (by simp [slashed_cons, peek]), List.mem_map]
    refine ⟨front.length, List.mem_filter.mpr ⟨?_, ?_⟩, htake.symm⟩
    · rw [List.mem_range'_1]
      omega
    · rw [decide_eq_true_eq]
      rcases hcut with hwhole | hslash
      · exact .inl (congrArg List.length hwhole)
      · exact .inr (by rw [List.getD_eq_getElem?_getD, hslash, Option.getD_some])
  rw [prefixes_slashed hname hothers, List.mem_map] at hmem
  obtain ⟨init, hinit, heq⟩ := hmem
  exact ⟨init, (List.mem_inits _ _).mp hinit, heq.symm⟩

/-- A path as the configuration has it, by its names. -/
theorem exists_names {path : CString} (hlength : path.length < CONFIG_DESTINATION_CAPACITY)
    (hsafe : destinationIsSafe path = true) :
    ∃ name names, path = slashed (name :: names) ∧ ∀ other ∈ name :: names, PlainName other := by
  obtain ⟨segments, hne, hpath, hsegments⟩ := (cleanPath_of_safe hlength hsafe).segments
  obtain ⟨name, names, rfl⟩ := List.exists_cons_of_ne_nil hne
  refine ⟨name, names, hpath, fun other hmem => ?_⟩
  obtain ⟨hempty, hdot, hdots, hslash⟩ := hsegments other hmem
  exact ⟨hempty, hdot, hdots, hslash⟩

/-- `ensure_destination_directory` on a path of names fails at the anchor, or goes through the
prefixes. -/
theorem ensureDirectoryWith_slashed {σ : Type} (calls : DirectoryCalls σ) (state : σ)
    (hplain : ∀ other ∈ name :: names, PlainName other)
    (hlength : (slashed (name :: names)).length < CONFIG_DESTINATION_CAPACITY) :
    (calls.lstat state (slashed ((name :: names).take (anchorCount (name :: names)))) =
        .ok .directory →
      ensureDirectoryWith calls state (slashed (name :: names)) CONFIG_DESTINATION_CAPACITY =
        ensurePrefixes calls state (names.inits.map fun init => slashed (name :: init))) ∧
    (calls.lstat state (slashed ((name :: names).take (anchorCount (name :: names)))) ≠
        .ok .directory →
      ensureDirectoryWith calls state (slashed (name :: names)) CONFIG_DESTINATION_CAPACITY =
        (state, some .enoent)) := by
  have hname := hplain name (List.mem_cons_self ..)
  have hothers : ∀ other ∈ names, PlainName other := fun other hmem =>
    hplain other (List.mem_cons_of_mem _ hmem)
  obtain ⟨hanchor, hsize⟩ := take_anchorSize hname hothers
  have hsmall : ¬(anchorSize (slashed (name :: names)) < 2 ∨
      CONFIG_DESTINATION_CAPACITY ≤ anchorSize (slashed (name :: names))) := by
    have hwithin : anchorSize (slashed (name :: names)) ≤ (slashed (name :: names)).length := by
      have htake := congrArg List.length hanchor
      rw [List.length_take, ← hsize] at htake
      omega
    have hleast : 2 ≤ anchorSize (slashed (name :: names)) := by
      have hpos := List.length_pos_iff.mpr hname.ne_nil
      obtain ⟨rest, hrest⟩ := Nat.exists_eq_add_of_le' (anchorCount_pos name names)
      rw [hsize, hrest, List.take_succ_cons, slashed_cons, List.length_cons, List.length_append]
      omega
    omega
  have hpath : ¬((slashed (name :: names)).length = 0 ∨
      SAFE_PATH_FULL_BYTES ≤ (slashed (name :: names)).length) := by
    rw [slashed_cons] at hlength ⊢
    simp only [CONFIG_DESTINATION_CAPACITY, SAFE_PATH_FULL_BYTES, List.length_cons] at hlength ⊢
    omega
  have hslash : ¬peek (slashed (name :: names)) ≠ 47 := by simp [slashed_cons, peek]
  simp only [ensureDirectoryWith, if_neg hslash, if_neg hsmall, hanchor,
    safePathEnsureDirectory, if_neg hpath, prefixes_slashed hname hothers]
  constructor
  · intro hdirectory
    simp only [hdirectory]
  · intro hother
    split
    · exact absurd ‹_› hother
    · rfl

/-- For every path the configuration accepts: success leaves real directories all along the path;
whatever is new is a directory at one of its prefixes below the anchor; and where the anchor is
no directory, nothing changes and the call fails. -/
theorem ensureDirectoryWith_tree {path : CString}
    (hlength : path.length < CONFIG_DESTINATION_CAPACITY) (hsafe : destinationIsSafe path = true)
    {result : FileTree × Option Errno}
    (hresult : ensureDirectoryWith (io.fileCalls links) tree path CONFIG_DESTINATION_CAPACITY =
      result) :
    (result.2 = none → ∀ front, front <+: path → front ≠ [] →
      (front = path ∨ path[front.length]? = some 47) →
        result.1.entries (pathNames front) = some .directory) ∧
    Extends (Below (pathNames path) (pathNames (path.take (anchorSize path))).length) tree
      result.1 ∧
    (tree.lstat links (path.take (anchorSize path)) (io.lstatError (path.take (anchorSize path))) ≠
      .ok .directory → result.1 = tree ∧ result.2 ≠ none) := by
  obtain ⟨name, names, rfl, hplain⟩ := exists_names hlength hsafe
  have hname := hplain name (List.mem_cons_self ..)
  have hothers : ∀ other ∈ names, PlainName other := fun other hmem =>
    hplain other (List.mem_cons_of_mem _ hmem)
  have hanchorPlain : ∀ other ∈ (name :: names).take (anchorCount (name :: names)),
      PlainName other := fun other hmem => hplain other (List.mem_of_mem_take hmem)
  obtain ⟨hanchorReal, hanchorElse⟩ :=
    ensureDirectoryWith_slashed (io.fileCalls links) tree hplain hlength
  rw [(take_anchorSize hname hothers).1, pathNames_slashed hplain, pathNames_slashed hanchorPlain,
    length_take_anchorCount]
  have hlstat : (io.fileCalls links).lstat tree
      (slashed ((name :: names).take (anchorCount (name :: names)))) =
      tree.lstat links (slashed ((name :: names).take (anchorCount (name :: names))))
        (io.lstatError (slashed ((name :: names).take (anchorCount (name :: names))))) := rfl
  rw [hlstat] at hanchorReal hanchorElse
  by_cases hdirectory : tree.lstat links
      (slashed ((name :: names).take (anchorCount (name :: names))))
      (io.lstatError (slashed ((name :: names).take (anchorCount (name :: names))))) =
      .ok .directory
  · rw [hanchorReal hdirectory] at hresult
    have hanchorNe : (name :: names).take (anchorCount (name :: names)) ≠ [] := by
      rw [← List.length_pos_iff, length_take_anchorCount]
      exact anchorCount_pos name names
    have hreal : RealBelow tree [name] := by
      intro init hinit hinside
      rcases List.prefix_cons_iff.mp hinit with rfl | ⟨rest, rfl, hrest⟩
      · exact tree.root
      · rw [List.prefix_nil.mp hrest] at hinside
        exact absurd rfl hinside
    have hanchored : Anchored tree [name] names (anchorCount (name :: names)) := by
      intro init hinit hshort hinitReal
      refine lstat_anchored hanchorNe hanchorPlain hdirectory ?_ (by simp) hinitReal
      have hwhole : [name] ++ init <+: name :: names := List.cons_prefix_cons.mpr ⟨rfl, hinit⟩
      exact List.prefix_take_iff.mpr ⟨hwhole, hshort⟩
    obtain ⟨hextends, hall⟩ := ensurePrefixes_spec (by simp) hplain hreal hanchored hresult
    refine ⟨fun hnone front hfront hne hcut => ?_, hextends, fun hother => absurd hdirectory hother⟩
    obtain ⟨init, hinit, rfl⟩ := exists_cut hname hothers hfront hne hcut
    have hinitPlain : ∀ other ∈ name :: init, PlainName other := fun other hmem =>
      hplain other ((List.cons_prefix_cons.mpr ⟨rfl, hinit⟩).subset hmem)
    rw [pathNames_slashed hinitPlain]
    exact hall hnone init hinit
  · have hfailed : result = (tree, some .enoent) := hresult.symm.trans (hanchorElse hdirectory)
    rw [hfailed]
    exact ⟨fun hnone => (by cases hnone), .refl .., fun _ => ⟨rfl, by simp⟩⟩

namespace Sample

/-- A drive mounted at `/mnt/usb0`, and nothing else. -/
def drive : FileTree where
  entries place :=
    if place <+: [ascii "mnt", ascii "usb0"] then some .directory else none
  workingDirectory := []
  root := if_pos List.nil_prefix
  parents place name h := by
    refine if_pos ?_
    by_cases hthere : place ++ [name] <+: [ascii "mnt", ascii "usb0"]
    · exact (List.prefix_append place [name]).trans hthere
    · exact absurd (if_neg hthere) h

/-- A folder on that drive. -/
def folderOnDrive : CString := ascii "/mnt/usb0/PS5/files"

/-- A folder on a drive that is not mounted. -/
def folderElsewhere : CString := ascii "/mnt/usb1/PS5/files"

end Sample

open Sample in
theorem ensureDirectoryWith_drive :
    (ensureDirectoryWith (DirectoryIo.calm.fileCalls 8) drive folderOnDrive
      CONFIG_DESTINATION_CAPACITY).1.entries
        [ascii "mnt", ascii "usb0", ascii "PS5"] = some .directory ∧
    (ensureDirectoryWith (DirectoryIo.calm.fileCalls 8) drive folderElsewhere
      CONFIG_DESTINATION_CAPACITY).1 = drive :=
  ⟨(ensureDirectoryWith_tree (by decide +kernel) (by decide +kernel) rfl).1 (by decide +kernel)
      (ascii "/mnt/usb0/PS5") (by decide +kernel) (by decide +kernel) (by decide +kernel),
    ((ensureDirectoryWith_tree (by decide +kernel) (by decide +kernel) rfl).2.2
      (by decide +kernel)).1⟩

end LocalSend.Upload
