import LocalSend.Model.Upload.Directory

/-! # The tree of files

Directories, regular files and symbolic links by their place below the root, and how a path
finds its way through them: links on the way are followed, one in the last place is not.
-/

namespace LocalSend.Upload

open SafePath

/-- The names from the root on. -/
abbrev Place := List CString

inductive FileEntry where
  | directory
  | file
  | symlink (target : CString)
  deriving DecidableEq

def FileEntry.node : FileEntry → Node
  | .directory => .directory
  | .file => .file
  | .symlink _ => .symlink

/-- What stands at each place; whatever exists stands in a directory. -/
structure FileTree where
  entries : Place → Option FileEntry
  workingDirectory : Place
  root : entries [] = some .directory
  parents : ∀ place name, entries (place ++ [name]) ≠ none → entries place = some .directory

/-- The names in a path, between its slashes. -/
def pathNames (path : CString) : List CString := (path.splitOn 47).filter (· ≠ [])

/-- How far a path leads without following a link: to the place of its last name, to a link in
front of other names, or nowhere. -/
inductive Walk where
  | arrived (place : Place)
  | link (place : Place) (target : CString) (names : List CString)
  | failed (error : Errno)
  deriving DecidableEq

def ENOTDIR : Errno := .other 20
def ELOOP : Errno := .other 62

namespace FileTree

def walk (tree : FileTree) : Place → List CString → Walk
  | place, [] => .arrived place
  | place, name :: names =>
      if name = [46] then tree.walk place names
      else if name = [46, 46] then tree.walk place.dropLast names
      else if names = [] then .arrived (place ++ [name])
      else match tree.entries (place ++ [name]) with
      | none => .failed .enoent
      | some .file => .failed ENOTDIR
      | some .directory => tree.walk (place ++ [name]) names
      | some (.symlink target) => .link place target names

/-- Where a walk from a place starts that goes along `path`. -/
def start (place : Place) (path : CString) : Place := if peek path = 47 then [] else place

/-- The place a path leads to, following at most `links` links. -/
def follow (tree : FileTree) : ℕ → Place → List CString → Except Errno Place
  | links, place, names =>
      match tree.walk place names with
      | .arrived place => .ok place
      | .failed error => .error error
      | .link place target names =>
          match links with
          | 0 => .error ELOOP
          | links + 1 => tree.follow links (start place target) (pathNames target ++ names)

def resolve (tree : FileTree) (links : ℕ) (path : CString) : Except Errno Place :=
  tree.follow links (start tree.workingDirectory path) (pathNames path)

/-- A new directory at a free place in a directory. -/
def addDirectory (tree : FileTree) (place : Place) (name : CString)
    (hplace : tree.entries place = some .directory) : FileTree where
  entries := Function.update tree.entries (place ++ [name]) (some .directory)
  workingDirectory := tree.workingDirectory
  root := by
    rw [Function.update_of_ne (by simp)]
    exact tree.root
  parents := by
    intro other child hchild
    by_cases hother : other = place ++ [name]
    · rw [hother, Function.update_self]
    rw [Function.update_of_ne hother]
    by_cases hnew : other ++ [child] = place ++ [name]
    · obtain ⟨rfl, -⟩ := List.append_inj' hnew rfl
      exact hplace
    · rw [Function.update_of_ne hnew] at hchild
      exact tree.parents other child hchild

/-- `mkdir`: a name there is stays, and an error of the caller's choice may come in the way of
a new one. -/
def mkdir (tree : FileTree) (links : ℕ) (path : CString) (error : Option Errno) :
    Option Errno × FileTree :=
  match tree.resolve links path with
  | .error error => (some error, tree)
  | .ok place =>
      if tree.entries place ≠ none then (some .eexist, tree)
      else match error with
      | some error => (some error, tree)
      | none =>
          if h : tree.entries place.dropLast = some .directory then
            (none, tree.addDirectory place.dropLast (place.getLastD []) h)
          else (some .enoent, tree)

/-- `lstat`, which may fail for another reason too. -/
def lstat (tree : FileTree) (links : ℕ) (path : CString) (error : Option Errno) :
    Except Errno Node :=
  match error, tree.resolve links path with
  | some error, _ => .error error
  | none, .error error => .error error
  | none, .ok place =>
      match tree.entries place with
      | none => .error .enoent
      | some entry => .ok entry.node

end FileTree

/-- The calls on a file tree. -/
def DirectoryIo.fileCalls (io : DirectoryIo) (links : ℕ) : DirectoryCalls FileTree where
  mkdir tree path := tree.mkdir links path (io.mkdirError path)
  lstat tree path := tree.lstat links path (io.lstatError path)

end LocalSend.Upload
