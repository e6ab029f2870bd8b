import Mathlib.Data.Finmap

-- The files of a worktree under version control, without the directories.
namespace Posix

variable {κ β : Type*} [DecidableEq κ]

abbrev FileMap (κ β : Type*) := Finmap fun _ : κ => β

-- A worktree as it was checked out, with files beside those that the index tracks.
structure Checkout (κ β : Type*) [DecidableEq κ] where
  index : FileMap κ β
  untracked : FileMap κ β
  apart : index.Disjoint untracked

namespace Checkout

def files (checkout : Checkout κ β) : FileMap κ β :=
  checkout.index ∪ checkout.untracked

-- Every tracked file is as in the index again, and every other file stays.
def revert (checkout : Checkout κ β) (files : FileMap κ β) : FileMap κ β :=
  checkout.index ∪ files

-- What is added to the index when everything is: the tracked files and those not ignored.
def stage (checkout : Checkout κ β) (ignored : κ → Bool) (files : FileMap κ β) (path : κ) :
    Option β :=
  if path ∈ checkout.index ∨ ignored path = false then files.lookup path else none

-- Outside the index the files are those of the checkout.
def UntrackedKept (checkout : Checkout κ β) (files : FileMap κ β) : Prop :=
  ∀ path ∉ checkout.index, files.lookup path = checkout.files.lookup path

variable {checkout : Checkout κ β} {files : FileMap κ β} {path : κ}

theorem lookup_revert (hpath : path ∉ checkout.index) :
    (checkout.revert files).lookup path = files.lookup path :=
  Finmap.lookup_union_right hpath

theorem lookup_revert_tracked (hpath : path ∈ checkout.index) :
    (checkout.revert files).lookup path = checkout.files.lookup path :=
  (Finmap.lookup_union_left hpath).trans (Finmap.lookup_union_left hpath).symm

-- A revert gives the checkout back exactly when no file outside the index was touched.
theorem revert_eq_iff : checkout.revert files = checkout.files ↔ checkout.UntrackedKept files := by
  constructor
  · intro h path hpath
    rw [← lookup_revert hpath, h]
  · intro h
    refine Finmap.ext_lookup fun path => ?_
    by_cases hpath : path ∈ checkout.index
    · exact lookup_revert_tracked hpath
    · rw [lookup_revert hpath, h path hpath]

theorem revert_files (checkout : Checkout κ β) : checkout.revert checkout.files = checkout.files :=
  revert_eq_iff.mpr fun _ _ => rfl

end Checkout

end Posix
