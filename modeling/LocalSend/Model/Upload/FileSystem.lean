import LocalSend.Model.Basic
import Mathlib.Logic.Function.Basic

/-! # The file system under the destination

Names lead to files, descriptors refer to the file itself. A file holds the bytes written
to it and, where space was reserved, zeros up to the reservation. Each call can be made to
fail with an error of the caller's choice; without one it does what POSIX says.
-/

namespace LocalSend.Upload

/-- The values of `errno` the code tells apart. -/
inductive Errno where
  | enospc
  | eexist
  | enoent
  | eperm
  | exdev
  | enosys
  | eopnotsupp
  | einval
  | eintr
  | eio
  | ecanceled
  | enomem
  | efbig
  | ebadf
  | other (code : ℕ)
  deriving DecidableEq, Repr

structure File where
  written : Bytes
  reserved : ℕ
  deriving DecidableEq

/-- What a reader sees. -/
def File.bytes (file : File) : Bytes :=
  file.written ++ .replicate (file.reserved - file.written.length) 0

/-- `fresh` and everything above it has not been used for a file yet. -/
structure Fs where
  entries : CString → Option ℕ
  files : ℕ → File
  fresh : ℕ

namespace Fs

/-- Creates a file: with `exclusive` an existing name is refused, without it truncated. -/
def create (fs : Fs) (path : CString) (exclusive : Bool) (error : Option Errno) :
    Except Errno (ℕ × Fs) :=
  match error, fs.entries path with
  | some error, _ => .error error
  | none, none =>
      .ok (fs.fresh, { entries := Function.update fs.entries path (some fs.fresh)
                       files := Function.update fs.files fs.fresh ⟨[], 0⟩
                       fresh := fs.fresh + 1 })
  | none, some file =>
      if exclusive then .error .eexist
      else .ok (file, { fs with files := Function.update fs.files file ⟨[], 0⟩ })

def reserve (fs : Fs) (file size : ℕ) : Fs :=
  { fs with files := Function.update fs.files file { fs.files file with
      reserved := max (fs.files file).reserved size } }

def append (fs : Fs) (file : ℕ) (data : Bytes) : Fs :=
  { fs with files := Function.update fs.files file { fs.files file with
      written := (fs.files file).written ++ data } }

/-- `unlink`; the file itself lives on for those who have it open. -/
def unlink (fs : Fs) (path : CString) (error : Option Errno) : Option Errno × Fs :=
  match error, fs.entries path with
  | some error, _ => (some error, fs)
  | none, none => (some .enoent, fs)
  | none, some _ => (none, { fs with entries := Function.update fs.entries path none })

/-- `link`, which never replaces a name. -/
def link (fs : Fs) (source target : CString) (error : Option Errno) : Option Errno × Fs :=
  match error, fs.entries source, fs.entries target with
  | some error, _, _ => (some error, fs)
  | none, none, _ => (some .enoent, fs)
  | none, some _, some _ => (some .eexist, fs)
  | none, some file, none =>
      (none, { fs with entries := Function.update fs.entries target (some file) })

/-- `rename`, which replaces the target. -/
def rename (fs : Fs) (source target : CString) (error : Option Errno) : Option Errno × Fs :=
  match error, fs.entries source with
  | some error, _ => (some error, fs)
  | none, none => (some .enoent, fs)
  | none, some file =>
      (none, { fs with
        entries := Function.update (Function.update fs.entries source none) target (some file) })

/-- The error of `access` or `lstat` on a path. -/
def lookup (fs : Fs) (path : CString) (error : Option Errno) : Option Errno :=
  match error, fs.entries path with
  | some error, _ => some error
  | none, none => some .enoent
  | none, some _ => none

/-- The bytes a reader of the path gets. -/
def contents (fs : Fs) (path : CString) : Option Bytes :=
  (fs.entries path).map fun file => (fs.files file).bytes

end Fs

end LocalSend.Upload
