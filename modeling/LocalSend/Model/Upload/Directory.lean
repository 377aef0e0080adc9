import LocalSend.Model.Upload.FileSystem
import LocalSend.Model.SafePath

/-! # Making sure of the destination directory

`safe_path_ensure_directory` and `ensure_destination_directory` over a tree of directories,
files and symbolic links. `mkdir` reports `EEXIST` on every name there is; it and `lstat` can
be made to fail with an error of the caller's choice.
-/

namespace LocalSend.Upload

open SafePath

inductive Node where
  | directory
  | file
  | symlink
  deriving DecidableEq, Repr

/-- What each path leads to. -/
abbrev Tree := CString → Option Node

/-- What the calls on a path report. -/
structure DirectoryIo where
  mkdirError : CString → Option Errno
  lstatError : CString → Option Errno

/-- Every call succeeds that can. -/
def DirectoryIo.calm : DirectoryIo := ⟨fun _ => none, fun _ => none⟩

def Tree.mkdir (tree : Tree) (path : CString) (error : Option Errno) : Option Errno × Tree :=
  match tree path, error with
  | some _, _ => (some .eexist, tree)
  | none, some error => (some error, tree)
  | none, none => (none, Function.update tree path (some .directory))

def Tree.lstat (tree : Tree) (path : CString) (error : Option Errno) : Except Errno Node :=
  match error, tree path with
  | some error, _ => .error error
  | none, none => .error .enoent
  | none, some node => .ok node

/-- The prefixes of a path that end before a `/` or at its end; a leading `/` is skipped. -/
def prefixes (path : CString) : List CString :=
  let start := if peek path = 47 then 1 else 0
  ((List.range' start (path.length + 1 - start)).filter fun position =>
    position = path.length ∨ path.getD position 0 = 47).map path.take

/-- `mkdir` and `lstat` as a file system of states `σ` answers them. -/
structure DirectoryCalls (σ : Type) where
  mkdir : σ → CString → Option Errno × σ
  lstat : σ → CString → Except Errno Node

/-- The calls on a tree. -/
def DirectoryIo.calls (io : DirectoryIo) : DirectoryCalls Tree where
  mkdir tree path := tree.mkdir path (io.mkdirError path)
  lstat tree path := tree.lstat path (io.lstatError path)

variable {σ : Type}

/-- The loop of `safe_path_ensure_directory` over these prefixes. -/
def ensurePrefixes (calls : DirectoryCalls σ) (state : σ) : List CString → σ × Option Errno
  | [] => (state, none)
  | path :: paths =>
      let (mkdirError, state) := calls.mkdir state path
      if mkdirError ≠ none ∧ mkdirError ≠ some .eexist then (state, mkdirError)
      else match calls.lstat state path with
      | .error error => (state, some error)
      | .ok .directory => ensurePrefixes calls state paths
      -- `errno` is still the one of `mkdir`
      | .ok _ => (state, some .eexist)

def safePathEnsureDirectory (calls : DirectoryCalls σ) (state : σ) (directory : CString) :
    σ × Option Errno :=
  if directory.length = 0 ∨ SAFE_PATH_FULL_BYTES ≤ directory.length then (state, some .einval)
  else ensurePrefixes calls state (prefixes directory)

/-- `"/mnt/"`. -/
def mountPrefix : CString := [47, 109, 110, 116, 47]

/-- The length of the anchor: the first component, or a mount point below `/mnt`. -/
def anchorSize (path : CString) : ℕ :=
  if path.take mountPrefix.length = mountPrefix then
    mountPrefix.length + ((path.drop mountPrefix.length).takeWhile (· ≠ 47)).length
  else 1 + (path.tail.takeWhile (· ≠ 47)).length

/-- `ensure_destination_directory`, where the capacity is that of its buffer. -/
def ensureDirectoryWith (calls : DirectoryCalls σ) (state : σ) (path : CString) (capacity : ℕ) :
    σ × Option Errno :=
  if peek path ≠ 47 then safePathEnsureDirectory calls state path
  else
    let size := anchorSize path
    if size < 2 ∨ capacity ≤ size then (state, some .einval)
    else match calls.lstat state (path.take size) with
    | .ok .directory => safePathEnsureDirectory calls state path
    | _ => (state, some .enoent)

/-- `ensure_destination_directory` on a tree. -/
def ensureDestinationDirectory (tree : Tree) (path : CString) (capacity : ℕ) (io : DirectoryIo) :
    Tree × Option Errno :=
  ensureDirectoryWith io.calls tree path capacity

end LocalSend.Upload
