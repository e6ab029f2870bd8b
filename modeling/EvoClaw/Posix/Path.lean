import Mathlib.Data.List.Infix

namespace Posix

abbrev Name := List Char

-- A path that starts with exactly two slashes has a root of its own.
inductive Root where
  | slash
  | doubleSlash
deriving DecidableEq

structure Path where
  root : Option Root := none
  parts : List Name
deriving DecidableEq

structure AbsPath where
  root : Root
  parts : List Name
deriving DecidableEq

def dotdot : Name := ['.', '.']

def rootOf : List Char → Option Root
  | '/' :: '/' :: '/' :: _ => some .slash
  | '/' :: '/' :: _ => some .doubleSlash
  | '/' :: _ => some .slash
  | _ => none

-- Empty names and "." vanish when a path is read, ".." stays.
def isPart (name : Name) : Bool :=
  name ≠ [] ∧ name ≠ ['.']

namespace Path

def parse (text : List Char) : Path :=
  { root := rootOf text, parts := (text.splitOn '/').filter isPart }

-- An absolute right operand replaces the left one.
def join (base path : Path) : Path :=
  match path.root with
  | some _ => path
  | none => { base with parts := base.parts ++ path.parts }

def child (base : Path) (name : Name) : Path :=
  base.join (parse name)

-- The directories that a text names before its last slash.
def folders (text : List Char) : List Name :=
  (text.splitOn '/').dropLast.filter isPart

def name (path : Path) : Name :=
  path.parts.getLastD []

def toText (path : Path) : List Char :=
  let body := List.intercalate ['/'] path.parts
  match path.root with
  | some .slash => '/' :: body
  | some .doubleSlash => '/' :: '/' :: body
  | none => if path.parts = [] then ['.'] else body

def withName (path : Path) (name : Name) : Path :=
  { path with parts := path.parts.dropLast ++ [name] }

end Path

-- The name without its suffix, and the suffix with its dot. A dot that begins or ends
-- the name starts no suffix.
def splitSuffix (name : Name) : Name × Name :=
  let rear := name.reverse.takeWhile (· ≠ '.')
  let stem := name.take (name.length - rear.length - 1)
  if rear = [] ∨ stem = [] then (name, [])
  else (stem, '.' :: rear.reverse)

def suffix (name : Name) : Name :=
  (splitSuffix name).2

-- A path without a name has no suffix to replace, and with_suffix raises.
def Path.withSuffix (path : Path) (suffix : Name) : Option Path :=
  if path.parts = [] then none
  else some (path.withName ((splitSuffix path.name).1 ++ suffix))

theorem Path.withSuffix_join (base : Path) (root : Option Root) (dirs : List Name)
    (name suffix : Name) :
    (base.join ⟨root, dirs ++ [name]⟩).withSuffix suffix =
      some (base.join ⟨root, dirs ++ [(splitSuffix name).1 ++ suffix]⟩) := by
  cases root with
  | some root => simp [join, withSuffix, withName, Path.name]
  | none => simp [join, withSuffix, withName, Path.name, List.dropLast_append_of_ne_nil]

-- Lexical reduction below a root, where ".." of the root is the root.
def walk (stack : List Name) (name : Name) : List Name :=
  if name = dotdot then stack.dropLast else stack ++ [name]

def reduce (parts : List Name) : List Name :=
  parts.foldl walk []

-- How far the parts climb above the place they start from, and the names they add there.
def climbStep (reached : Nat × List Name) (name : Name) : Nat × List Name :=
  if name = dotdot then
    if reached.2 = [] then (reached.1 + 1, []) else (reached.1, reached.2.dropLast)
  else (reached.1, reached.2 ++ [name])

def climb (parts : List Name) : Nat × List Name :=
  parts.foldl climbStep (0, [])

namespace AbsPath

def join (cwd : AbsPath) (path : Path) : AbsPath :=
  match path.root with
  | some root => ⟨root, path.parts⟩
  | none => ⟨cwd.root, cwd.parts ++ path.parts⟩

def toPath (path : AbsPath) : Path :=
  ⟨some path.root, path.parts⟩

def normalise (path : AbsPath) : AbsPath :=
  ⟨path.root, reduce path.parts⟩

def isRelativeTo (path dir : AbsPath) : Bool :=
  path.root = dir.root ∧ dir.parts <+: path.parts

def name (path : AbsPath) : Name :=
  path.parts.getLastD []

end AbsPath

def IsAncestor (dir path : AbsPath) : Prop :=
  dir.root = path.root ∧ ∃ rest, rest ≠ [] ∧ path.parts = dir.parts ++ rest

section Parsing

variable {text tail : List Char}

theorem splitOn_of_notMem {c : Char} (h : c ∉ text) : text.splitOn c = [text] :=
  List.splitOnP_eq_singleton fun x hx => by simpa using fun heq : x = c => h (heq ▸ hx)

theorem rootOf_of_notMem (h : '/' ∉ text) : rootOf text = none := by
  cases text with
  | nil => rfl
  | cons c rest =>
      have hc : c ≠ '/' := fun heq => h (heq ▸ List.mem_cons_self)
      simp [rootOf, hc]

-- Text without a slash only extends the last name.
theorem splitOn_append {c : Char} (text : List Char) (htail : c ∉ tail) :
    ∃ front last, text.splitOn c = front ++ [last] ∧
      (text ++ tail).splitOn c = front ++ [last ++ tail] := by
  induction text with
  | nil =>
      exact ⟨[], [], rfl, by simpa using splitOn_of_notMem htail⟩
  | cons x rest ih =>
      obtain ⟨front, last, hrest, happend⟩ := ih
      simp only [List.cons_append, List.splitOn, List.splitOnP_cons_eq_if_modifyHead] at *
      by_cases hx : x == c
      · exact ⟨[] :: front, last, by rw [if_pos hx, hrest]; rfl, by rw [if_pos hx, happend]; rfl⟩
      · rw [if_neg hx, if_neg hx, happend, hrest]
        cases front with
        | nil => exact ⟨[], x :: last, rfl, rfl⟩
        | cons first names => exact ⟨(x :: first) :: names, last, rfl, rfl⟩

theorem rootOf_append (text : List Char) {c : Char} {rest : List Char} (hc : c ≠ '/') :
    rootOf (text ++ c :: rest) = rootOf text := by
  rcases text with _ | ⟨x, _ | ⟨y, _ | ⟨z, more⟩⟩⟩
  · simp [rootOf, hc]
  · by_cases hx : x = '/' <;> simp [rootOf, hx, hc]
  · by_cases hx : x = '/' <;> by_cases hy : y = '/' <;> simp [rootOf, hx, hy, hc]
  · by_cases hx : x = '/' <;> by_cases hy : y = '/' <;> by_cases hz : z = '/' <;>
      simp [rootOf, hx, hy, hz]

-- The directories of a path do not depend on what its last name is extended with.
theorem parse_append {c : Char} {rest : List Char} (text : List Char) (hslash : '/' ∉ c :: rest)
    (hrest : rest ≠ []) :
    ∃ last, Path.parse (text ++ c :: rest) =
      ⟨rootOf text, Path.folders text ++ [last ++ c :: rest]⟩ := by
  obtain ⟨front, last, htext, happend⟩ := splitOn_append text hslash
  have hc : c ≠ '/' := fun h => hslash (h ▸ List.mem_cons_self)
  have hpart : isPart (last ++ c :: rest) = true := by
    have hlength : (last ++ c :: rest).length ≠ 1 := by
      have hpos := List.length_pos_iff.mpr hrest
      simp only [List.length_append, List.length_cons]
      omega
    have hdot : last ++ c :: rest ≠ ['.'] := fun h => hlength (by rw [h]; rfl)
    simp [isPart, hdot]
  refine ⟨last, ?_⟩
  simp only [Path.parse, Path.folders, rootOf_append text hc, happend, htext, List.filter_append,
    List.dropLast_concat, List.filter_cons, hpart, if_true, List.filter_nil]

end Parsing

section Reduction

variable {stack base dirs parts : List Name} {last : Name}

theorem climb_append_singleton (parts : List Name) (name : Name) :
    climb (parts ++ [name]) = climbStep (climb parts) name := by
  simp [climb]

-- A walk keeps the part of the stack that it does not climb out of.
theorem foldl_walk (stack parts : List Name) :
    parts.foldl walk stack =
      stack.take (stack.length - (climb parts).1) ++ (climb parts).2 := by
  induction parts using List.reverseRecOn with
  | nil => simp [climb]
  | append_singleton parts name ih =>
      rw [List.foldl_append, ih, climb_append_singleton]
      simp only [List.foldl_cons, List.foldl_nil, walk, climbStep]
      by_cases hup : name = dotdot
      · rw [if_pos hup, if_pos hup]
        by_cases hnames : (climb parts).2 = []
        · rw [if_pos hnames, hnames, List.append_nil, List.append_nil, List.dropLast_eq_take,
            List.take_take, List.length_take]
          congr 1
          omega
        · rw [if_neg hnames, List.dropLast_append_of_ne_nil hnames]
      · rw [if_neg hup, if_neg hup, List.append_assoc]

theorem reduce_append (base parts : List Name) :
    reduce (base ++ parts) = parts.foldl walk (reduce base) := by
  simp [reduce]

theorem reduce_eq_climb (parts : List Name) : reduce parts = (climb parts).2 := by
  rw [reduce, foldl_walk, List.take_nil, List.nil_append]

theorem reduce_append_singleton (hlast : last ≠ dotdot) :
    reduce (parts ++ [last]) = reduce parts ++ [last] := by
  rw [reduce_append]
  simp [walk, hlast]

theorem AbsPath.isRelativeTo_iff {path dir : AbsPath} :
    path.isRelativeTo dir = true ↔ path.root = dir.root ∧ dir.parts <+: path.parts := by
  simp [AbsPath.isRelativeTo]

theorem isAncestor_iff {dir path : AbsPath} (hparts : path.parts = dirs ++ [last]) :
    IsAncestor dir path ↔ dir.root = path.root ∧ dir.parts <+: dirs := by
  simp only [IsAncestor, hparts]
  refine and_congr_right fun _ => ⟨fun ⟨rest, hrest, heq⟩ => ?_, fun ⟨rest, heq⟩ => ?_⟩
  · refine ⟨rest.dropLast, ?_⟩
    have h := congrArg List.dropLast heq
    rw [List.dropLast_concat, List.dropLast_append_of_ne_nil hrest] at h
    exact h.symm
  · exact ⟨rest ++ [last], by simp, by rw [← heq, List.append_assoc]⟩

-- What a walk climbs out of, its names have to enter again.
theorem isPrefix_reduce_append_iff (base dirs : List Name) :
    reduce base <+: reduce (base ++ dirs) ↔
      (reduce base).drop ((reduce base).length - (climb dirs).1) <+: (climb dirs).2 := by
  rw [reduce_append, foldl_walk]
  conv_lhs =>
    lhs
    rw [← List.take_append_drop ((reduce base).length - (climb dirs).1) (reduce base)]
  exact List.prefix_append_right_inj _

theorem dotdot_notMem_walk {name : Name} (h : dotdot ∉ stack) : dotdot ∉ walk stack name := by
  unfold walk
  split_ifs with hup
  · exact fun hmem => h (List.dropLast_subset _ hmem)
  · rw [List.mem_append, not_or, List.mem_singleton]
    exact ⟨h, fun heq => hup heq.symm⟩

theorem dotdot_notMem_foldl_walk (parts : List Name) (h : dotdot ∉ stack) :
    dotdot ∉ parts.foldl walk stack := by
  induction parts generalizing stack with
  | nil => exact h
  | cons name rest ih => exact ih (dotdot_notMem_walk h)

theorem dotdot_notMem_reduce (parts : List Name) : dotdot ∉ reduce parts :=
  dotdot_notMem_foldl_walk parts List.not_mem_nil

theorem foldl_walk_of_notMem (hparts : dotdot ∉ parts) :
    parts.foldl walk stack = stack ++ parts := by
  induction parts generalizing stack with
  | nil => simp
  | cons name rest ih =>
      have hname : name ≠ dotdot := fun h => hparts (h ▸ List.mem_cons_self)
      have hrest : dotdot ∉ rest := fun h => hparts (List.mem_cons_of_mem _ h)
      rw [List.foldl_cons, ih hrest, walk, if_neg hname, List.append_assoc, List.singleton_append]

theorem reduce_of_notMem (hparts : dotdot ∉ parts) : reduce parts = parts :=
  (foldl_walk_of_notMem hparts).trans (List.nil_append parts)

end Reduction

section Containment

variable {base : AbsPath} {root : Option Root} {dirs : List Name} {name : Name}

-- Where directories lead from a base: an absolute path has to spell the base out, a relative
-- one has to enter again whatever it climbs out of.
def StaysBelow (base : AbsPath) (root : Option Root) (dirs : List Name) : Prop :=
  match root with
  | none => base.parts.drop (base.parts.length - (climb dirs).1) <+: (climb dirs).2
  | some start => base.root = start ∧ base.parts <+: (climb dirs).2

instance decidableStaysBelow (base : AbsPath) (root : Option Root) (dirs : List Name) :
    Decidable (StaysBelow base root dirs) :=
  match root with
  | none => inferInstanceAs (Decidable
      (base.parts.drop (base.parts.length - (climb dirs).1) <+: (climb dirs).2))
  | some start => inferInstanceAs (Decidable (base.root = start ∧ base.parts <+: (climb dirs).2))

-- A name without a slash stays where it is put.
theorem staysBelow_nil (base : AbsPath) : StaysBelow base none [] := by
  simp [StaysBelow, climb]

theorem AbsPath.join_join (cwd : AbsPath) (base path : Path) :
    cwd.join (base.join path) = (cwd.join base).join path := by
  obtain ⟨root, parts⟩ := path
  cases root with
  | some root => rfl
  | none =>
      obtain ⟨baseRoot, baseParts⟩ := base
      cases baseRoot with
      | some baseRoot => rfl
      | none => simp [AbsPath.join, Path.join]

theorem isAncestor_join_iff (hname : name ≠ dotdot) :
    IsAncestor base.normalise (base.join ⟨root, dirs ++ [name]⟩).normalise ↔
      StaysBelow base.normalise root dirs := by
  cases root with
  | none =>
      have hparts : (base.join ⟨none, dirs ++ [name]⟩).normalise.parts =
          reduce (base.parts ++ dirs) ++ [name] := by
        rw [AbsPath.join, AbsPath.normalise, ← List.append_assoc, reduce_append_singleton hname]
      rw [isAncestor_iff hparts]
      exact (and_iff_right rfl).trans (isPrefix_reduce_append_iff base.parts dirs)
  | some start =>
      have hparts : (base.join ⟨some start, dirs ++ [name]⟩).normalise.parts =
          (climb dirs).2 ++ [name] := by
        rw [AbsPath.join, AbsPath.normalise, reduce_append_singleton hname, reduce_eq_climb]
      rw [isAncestor_iff hparts]
      rfl

end Containment

section Overlap

variable {base : Path} {name : Name}

-- One of the two places is the other or lies below it.
def Overlaps (place other : AbsPath) : Prop :=
  place.root = other.root ∧ (place.parts <+: other.parts ∨ other.parts <+: place.parts)

theorem Overlaps.symm {place other : AbsPath} (h : Overlaps place other) : Overlaps other place :=
  ⟨h.1.symm, h.2.symm⟩

-- What lies below two places overlaps only when these do.
theorem Overlaps.of_below {dir other place below : AbsPath} (h : Overlaps place below)
    (hplace : place.isRelativeTo dir = true) (hbelow : below.isRelativeTo other = true) :
    Overlaps dir other := by
  obtain ⟨hroot, hdir⟩ := AbsPath.isRelativeTo_iff.mp hplace
  obtain ⟨hroot', hother⟩ := AbsPath.isRelativeTo_iff.mp hbelow
  refine ⟨(hroot.symm.trans h.1).trans hroot', ?_⟩
  rcases h.2 with hle | hle
  · exact List.prefix_or_prefix_of_prefix (hdir.trans hle) hother
  · exact List.prefix_or_prefix_of_prefix hdir (hother.trans hle)

def AbsPath.below (dir : AbsPath) (rest : List Name) : AbsPath :=
  ⟨dir.root, dir.parts ++ rest⟩

theorem AbsPath.below_isRelativeTo (dir : AbsPath) (rest : List Name) :
    (dir.below rest).isRelativeTo dir = true :=
  AbsPath.isRelativeTo_iff.mpr ⟨rfl, List.prefix_append dir.parts rest⟩

theorem overlaps_below_iff {dir : AbsPath} {rest behind : List Name} :
    Overlaps (dir.below rest) (dir.below behind) ↔ rest <+: behind ∨ behind <+: rest := by
  simp [Overlaps, AbsPath.below, List.prefix_append_right_inj]

theorem Path.child_of_part (hslash : '/' ∉ name) (hpart : isPart name = true) :
    base.child name = ⟨base.root, base.parts ++ [name]⟩ := by
  have hparse : Path.parse name = ⟨none, [name]⟩ := by
    simp [Path.parse, rootOf_of_notMem hslash, splitOn_of_notMem hslash, hpart]
  simp [Path.child, hparse, Path.join]

-- Names below a directory stay below it.
theorem normalise_join_append (cwd : AbsPath) {parts : List Name} (hparts : dotdot ∉ parts) :
    (cwd.join ⟨base.root, base.parts ++ parts⟩).normalise =
      (cwd.join base).normalise.below parts := by
  obtain ⟨root, dirs⟩ := base
  cases root with
  | some root =>
      simp [AbsPath.join, AbsPath.normalise, AbsPath.below, reduce_append,
        foldl_walk_of_notMem hparts]
  | none =>
      simp only [AbsPath.join, AbsPath.normalise, AbsPath.below]
      rw [← List.append_assoc, reduce_append, foldl_walk_of_notMem hparts]

end Overlap

end Posix
