import Mathlib.Data.List.AList

-- Files that keep their identity while they are moved from place to place.
namespace Posix

variable {κ β : Type*}

structure File (β : Type*) where
  id : Nat
  content : β
deriving DecidableEq

-- A place holds one file at most.
abbrev Disk (κ β : Type*) := AList fun _ : κ => File β

namespace Disk

variable [DecidableEq κ] {disk : Disk κ β} {place other source dest : κ} {file found : File β}
  {id limit : Nat}

def Holds (disk : Disk κ β) (place : κ) (file : File β) : Prop :=
  disk.lookup place = some file

instance [DecidableEq β] (disk : Disk κ β) (place : κ) (file : File β) :
    Decidable (disk.Holds place file) :=
  inferInstanceAs (Decidable (_ = _))

def Free (disk : Disk κ β) (place : κ) : Prop :=
  disk.lookup place = none

instance (disk : Disk κ β) (place : κ) : Decidable (disk.Free place) :=
  inferInstanceAs (Decidable (_ = none))

-- What stood at the destination is gone afterwards.
def rename (disk : Disk κ β) (source dest : κ) : Disk κ β :=
  match disk.lookup source with
  | none => disk
  | some file => (AList.erase source disk).insert dest file

-- No file stands at two places.
def Distinct (disk : Disk κ β) : Prop :=
  ∀ place other file found, disk.Holds place file → disk.Holds other found →
    file.id = found.id → place = other

def Below (disk : Disk κ β) (limit : Nat) : Prop :=
  ∀ place file, disk.Holds place file → file.id < limit

def Absent (disk : Disk κ β) (id : Nat) : Prop :=
  ∀ place file, disk.Holds place file → file.id ≠ id

section Lookup

theorem Holds.eq (h : disk.Holds place file) (hfound : disk.Holds place found) : file = found :=
  Option.some.inj (h.symm.trans hfound)

theorem Holds.not_free (h : disk.Holds place file) : ¬ disk.Free place := fun hfree =>
  Option.some_ne_none file (h.symm.trans hfree)

@[simp] theorem not_holds_empty : ¬ Holds (∅ : Disk κ β) place file := by
  simp [Holds]

@[simp] theorem holds_erase :
    Holds (AList.erase source disk) place file ↔ place ≠ source ∧ disk.Holds place file := by
  by_cases h : place = source
  · subst h
    simp [Holds]
  · simp [Holds, AList.lookup_erase_ne h, h]

@[simp] theorem holds_insert :
    Holds (AList.insert dest found disk) place file ↔
      (place = dest ∧ found = file) ∨ (place ≠ dest ∧ disk.Holds place file) := by
  by_cases h : place = dest
  · subst h
    simp [Holds]
  · simp [Holds, AList.lookup_insert_ne h, h]

theorem free_erase : Free (AList.erase source disk) source :=
  AList.lookup_erase source disk

theorem rename_of_free (h : disk.Free source) : disk.rename source dest = disk := by
  unfold rename
  rw [h]

theorem rename_of_holds (h : disk.Holds source file) :
    disk.rename source dest = (AList.erase source disk).insert dest file := by
  unfold rename
  rw [h]

theorem free_or_holds (disk : Disk κ β) (place : κ) :
    disk.Free place ∨ ∃ file, disk.Holds place file := by
  cases h : disk.lookup place with
  | none => exact .inl h
  | some file => exact .inr ⟨file, h⟩

-- A file that is there after a move was there before.
theorem Holds.of_rename (h : (disk.rename source dest).Holds place file) :
    place ≠ source ∧ disk.Holds place file ∨ place = dest ∧ disk.Holds source file := by
  rcases disk.free_or_holds source with hsource | ⟨found, hsource⟩
  · rw [rename_of_free hsource] at h
    refine .inl ⟨?_, h⟩
    rintro rfl
    exact h.not_free hsource
  · rw [rename_of_holds hsource, holds_insert, holds_erase] at h
    rcases h with ⟨hplace, rfl⟩ | ⟨-, hne, h⟩
    · exact .inr ⟨hplace, hsource⟩
    · exact .inl ⟨hne, h⟩

theorem holds_rename (hsource : disk.Holds source file) :
    (disk.rename source dest).Holds dest file := by
  rw [rename_of_holds hsource, holds_insert]
  exact .inl ⟨rfl, rfl⟩

theorem free_rename (h : source ≠ dest) : (disk.rename source dest).Free source := by
  rcases (disk.rename source dest).free_or_holds source with hfree | ⟨file, hfile⟩
  · exact hfree
  · rcases hfile.of_rename with ⟨hne, -⟩ | ⟨heq, -⟩
    · exact absurd rfl hne
    · exact absurd heq h

-- Every other place keeps what it holds.
theorem holds_rename_of_ne (hsource : place ≠ source) (hdest : place ≠ dest) :
    (disk.rename source dest).Holds place file ↔ disk.Holds place file := by
  rcases disk.free_or_holds source with h | ⟨found, h⟩
  · rw [rename_of_free h]
  · rw [rename_of_holds h, holds_insert, holds_erase]
    simp [hsource, hdest]

end Lookup

section Identity

theorem Below.mono {more : Nat} (h : disk.Below limit) (hle : limit ≤ more) : disk.Below more :=
  fun place file hholds => Nat.lt_of_lt_of_le (h place file hholds) hle

theorem Below.absent (h : disk.Below limit) (hid : limit ≤ id) : disk.Absent id :=
  fun place file hholds => Nat.ne_of_lt (Nat.lt_of_lt_of_le (h place file hholds) hid)

theorem Below.insert (h : disk.Below limit) (hfile : file.id < limit) :
    Below (AList.insert dest file disk) limit := by
  intro place found hholds
  rw [holds_insert] at hholds
  rcases hholds with ⟨-, rfl⟩ | ⟨-, hholds⟩
  · exact hfile
  · exact h place found hholds

theorem Absent.insert (h : disk.Absent id) (hfile : file.id ≠ id) :
    Absent (AList.insert dest file disk) id := by
  intro place found hholds
  rw [holds_insert] at hholds
  rcases hholds with ⟨-, rfl⟩ | ⟨-, hholds⟩
  · exact hfile
  · exact h place found hholds

theorem Distinct.insert (h : disk.Distinct) (hfile : disk.Absent file.id) :
    Distinct (AList.insert dest file disk) := by
  intro place other first second hfirst hsecond hid
  rw [holds_insert] at hfirst hsecond
  rcases hfirst with ⟨rfl, rfl⟩ | ⟨-, hfirst⟩
  · rcases hsecond with ⟨rfl, -⟩ | ⟨-, hsecond⟩
    · rfl
    · exact absurd hid.symm (hfile other second hsecond)
  · rcases hsecond with ⟨rfl, rfl⟩ | ⟨-, hsecond⟩
    · exact absurd hid (hfile place first hfirst)
    · exact h place other first second hfirst hsecond hid

-- Every file of `after` is a file of `disk`.
def Within (after disk : Disk κ β) : Prop :=
  ∀ place file, after.Holds place file → ∃ before, disk.Holds before file

theorem within_erase : Within (AList.erase source disk) disk := fun _ _ h =>
  ⟨_, (holds_erase.mp h).2⟩

theorem within_rename : Within (disk.rename source dest) disk := fun _ _ h =>
  h.of_rename.elim (fun h => ⟨_, h.2⟩) (fun h => ⟨_, h.2⟩)

variable {after : Disk κ β}

theorem Within.below (hwithin : Within after disk) (h : disk.Below limit) : after.Below limit :=
  fun place file hholds =>
    (hwithin place file hholds).elim fun before hbefore => h before file hbefore

theorem Within.absent (hwithin : Within after disk) (h : disk.Absent id) : after.Absent id :=
  fun place file hholds =>
    (hwithin place file hholds).elim fun before hbefore => h before file hbefore

theorem Distinct.erase (h : disk.Distinct) : Distinct (AList.erase source disk) :=
  fun place other first second hfirst hsecond =>
    h place other first second (holds_erase.mp hfirst).2 (holds_erase.mp hsecond).2

theorem Distinct.rename (h : disk.Distinct) : Distinct (disk.rename source dest) := by
  intro place other first second hfirst hsecond hid
  rcases hfirst.of_rename with ⟨hne, hone⟩ | ⟨hdest, hone⟩
  · rcases hsecond.of_rename with ⟨-, htwo⟩ | ⟨-, htwo⟩
    · exact h _ _ _ _ hone htwo hid
    · exact absurd (h _ _ _ _ hone htwo hid) hne
  · rcases hsecond.of_rename with ⟨hne, htwo⟩ | ⟨hother, -⟩
    · exact absurd (h _ _ _ _ htwo hone hid.symm) hne
    · exact hdest.trans hother.symm

-- A file that stands nowhere else is gone when its place is emptied.
theorem absent_erase (honly : ∀ place file, disk.Holds place file → file.id = id → place = source) :
    Absent (AList.erase source disk) id := by
  intro place file hholds hid
  obtain ⟨hne, hholds⟩ := holds_erase.mp hholds
  exact hne (honly place file hholds hid)

end Identity

end Disk

end Posix
