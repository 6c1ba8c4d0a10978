import Mathlib.Data.List.Infix
import BananaWrt.Lib.Lines

/-!
# The patch manager

`patch-manager.sh` copies the files of two patch trees into the sources. `apply_patches` goes
through the lines that `find` prints for a tree, counts those whose directory cannot be made or
whose file cannot be copied, and returns the count; `main` adds up what is returned for the two
trees.

The directory of the patches has no characters that are special in a pattern, so that
`${file#$patch_dir/}` takes off the directory itself.
-/

namespace BananaWrt

namespace Patch

abbrev Path := List Char

/-- `cp` into a directory that has the name of the file succeeds, and the file lies elsewhere. -/
inductive Cp where
  | failed
  | copied
  | inDirectory
  deriving DecidableEq, Repr

/-- What an iteration meets: whether the directory of the destination exists, whether it can be made
otherwise, and what `cp` does. -/
structure Attempt where
  hasParent : Bool
  mkdir : Bool
  cp : Cp
  deriving DecidableEq, Repr

/-- `files` are the paths of the files in `patch_dir`, which may not exist; `attempt n` is what the
iteration for line number `n` meets. -/
structure Tree where
  patchDir : Path
  destDir : Path
  files : Option (List Path)
  destExists : Bool
  attempt : ℕ → Attempt
  nodup : ∀ fs ∈ files, fs.Nodup

namespace Tree

variable (t : Tree)

def path (rel : Path) : Path := t.patchDir ++ '/' :: rel

/-- `find "$patch_dir" -type f`. -/
def find (fs : List Path) : List Char := fs.flatMap fun rel => t.path rel ++ ['\n']

/-- What `read` takes from it. -/
def lines (fs : List Path) : List Path := ((t.find fs).splitOn '\n').dropLast

/-- `${file#$patch_dir/}`. -/
def relPath (file : Path) : Path :=
  if t.patchDir ++ ['/'] <+: file then file.drop (t.patchDir.length + 1) else file

def destFile (file : Path) : Path := t.destDir ++ '/' :: t.relPath file

end Tree

/-- `copied` has the files that are at their destination. -/
structure Progress where
  appliedCount : ℕ
  failedCount : ℕ
  copied : List (Path × Path)

/-- An iteration of the loop of `apply_patches`. -/
def iteration (t : Tree) (a : Attempt) (p : Progress) (file : Path) : Progress :=
  if ¬ a.hasParent ∧ ¬ a.mkdir then { p with failedCount := p.failedCount + 1 }
  else
    match a.cp with
    | .failed => { p with failedCount := p.failedCount + 1 }
    | .copied =>
      { p with
        appliedCount := p.appliedCount + 1
        copied := p.copied ++ [(file, t.destFile file)] }
    | .inDirectory => { p with appliedCount := p.appliedCount + 1 }

/-- The loop, from line number `n` on. -/
def applyLoop (t : Tree) : ℕ → List Path → Progress → Progress
  | _, [], p => p
  | n, file :: rest, p => applyLoop t (n + 1) rest (iteration t (t.attempt n) p file)

/-- What `apply_patches` returns, and what it has copied. The status of a function is its value
modulo 256. -/
def applyPatches (t : Tree) : ℕ × List (Path × Path) :=
  match t.files with
  | none => (0, [])
  | some fs =>
    let fileCount := (t.find fs).count '\n'
    if fileCount = 0 then (0, [])
    else if ¬ t.destExists then (1, [])
    else
      let p := applyLoop t 0 (t.lines fs) ⟨0, 0, []⟩
      (p.failedCount % 256, p.copied)

/-- The tests of `validate_environment`. -/
structure Environment where
  releaseType : Bool
  immortalwrtDir : Bool
  patchBaseDir : Bool
  deriving DecidableEq, Repr

def validateEnvironment (env : Environment) : Bool :=
  env.releaseType && env.immortalwrtDir && env.patchBaseDir

/-- The status that the script ends with, and what it has copied of each tree. -/
def main (env : Environment) (dts files : Tree) : ℕ × List (Path × Path) × List (Path × Path) :=
  if ¬ validateEnvironment env then (1, [], [])
  else
    let (ret, copied) := applyPatches dts
    let (ret', copied') := applyPatches files
    let totalFailed := ret + ret'
    (if totalFailed = 0 then 0 else 1, copied, copied')

end Patch

end BananaWrt
