import Mathlib.Logic.Function.Basic
import TFTP.Library.Octets

/-!
# The server's view of the file system

Paths are byte strings resolved component by component, relative to the directory the
server runs in; there are no symbolic links. Where that directory stands is not known: a
path that climbs out of it and comes back in by the directory's own name, or climbs past
the root, is taken to lead somewhere else. Nor is anything looked up on the way, so a path
through a directory that is not there has a place like any other, and whether it opens is
up to the environment. A regular file is an inode: removing a name leaves the inode to those
who hold it open, and opening a name for writing empties the inode it has.
-/

namespace TFTP.FileSystem

open Octets

abbrev Name := List UInt8

/-- A place in the tree: so many levels up, then down, innermost name first. -/
structure Location where
  up : Nat
  names : List Name
  deriving DecidableEq, Repr

def slash : UInt8 := 47

def dot : Name := [46]

def dotdot : Name := [46, 46]

def enter (l : Location) (c : Name) : Location :=
  if c = [] ∨ c = dot then l
  else if c = dotdot then
    match l.names with
    | [] => ⟨l.up + 1, []⟩
    | _ :: outer => ⟨l.up, outer⟩
  else ⟨l.up, c :: l.names⟩

def components (path : List UInt8) : List Name := path.splitOn slash

def resolve (path : List UInt8) : Location := (components path).foldl enter ⟨0, []⟩

inductive Node where
  | file (inode : Nat)
  | directory
  deriving DecidableEq, Repr

structure Disk where
  entries : Location → Option Node
  contents : Nat → List UInt8
  fresh : Nat

namespace Disk

/-- What a fresh `ifstream` on the path can read; a directory reads as nothing. -/
def read (disk : Disk) (l : Location) : Option (List UInt8) :=
  match disk.entries l with
  | some (.file inode) => some (disk.contents inode)
  | _ => none

/-- The disk with a new empty inode behind a name. -/
def create (disk : Disk) (l : Location) : Disk :=
  ⟨Function.update disk.entries l (some (.file disk.fresh)),
    Function.update disk.contents disk.fresh [], disk.fresh + 1⟩

/-- `std::ofstream file(path, std::ios::binary)`: the disk and the inode held open. -/
def openWrite (disk : Disk) (l : Location) : Option (Disk × Nat) :=
  match disk.entries l with
  | some .directory => none
  | some (.file inode) =>
    some ({ disk with contents := Function.update disk.contents inode [] }, inode)
  | none => some (disk.create l, disk.fresh)

/-- Bytes laid over a content at an offset; a gap reads as zeros. Writing nothing leaves
no gap. -/
def overlay (content : List UInt8) (offset : Nat) (bytes : List UInt8) : List UInt8 :=
  if bytes = [] then content
  else
    content.take offset ++ List.replicate (offset - content.length) 0 ++ bytes ++
      content.drop (offset + bytes.length)

/-- `file.write` through a stream that has written `offset` bytes so far. -/
def writeAt (disk : Disk) (inode offset : Nat) (bytes : List UInt8) : Disk :=
  { disk with
    contents := Function.update disk.contents inode
      (overlay (disk.contents inode) offset bytes) }

def remove (disk : Disk) (l : Location) : Disk :=
  { disk with entries := Function.update disk.entries l none }

/-- No inode has two names, and none is numbered above the next one. -/
structure WellFormed (disk : Disk) : Prop where
  single : ∀ k l inode, disk.entries k = some (.file inode) →
    disk.entries l = some (.file inode) → k = l
  below : ∀ l inode, disk.entries l = some (.file inode) → inode < disk.fresh

@[simp] theorem overlay_nil (content : List UInt8) (offset : Nat) :
    overlay content offset [] = content := rfl

theorem overlay_end (content bytes : List UInt8) :
    overlay content content.length bytes = content ++ bytes := by
  by_cases none : bytes = []
  · rw [none, overlay_nil, List.append_nil]
  · simp [overlay, none, List.drop_of_length_le]

@[simp] theorem writeAt_nil (disk : Disk) (inode offset : Nat) :
    disk.writeAt inode offset [] = disk := by
  rw [writeAt, overlay_nil, Function.update_eq_self]

theorem read_eq_some {disk : Disk} {l : Location} {content : List UInt8} :
    disk.read l = some content ↔
      ∃ inode, disk.entries l = some (.file inode) ∧ disk.contents inode = content := by
  unfold read
  constructor
  · intro h
    split at h
    · exact ⟨_, by assumption, Option.some.inj h⟩
    · cases h
  · rintro ⟨inode, entry, content⟩
    rw [entry]
    exact congrArg some content

theorem create_entry {disk : Disk} {k l : Location} {inode : Nat}
    (entry : (disk.create l).entries k = some (.file inode)) :
    (k = l ∧ inode = disk.fresh) ∨ disk.entries k = some (.file inode) := by
  by_cases hk : k = l
  · have new : some (Node.file disk.fresh) = some (.file inode) := by
      simpa [create, hk] using entry
    exact Or.inl ⟨hk, by simpa using new.symm⟩
  · exact Or.inr (by simpa [create, hk] using entry)

/-- Contents have no part in it. -/
theorem wellFormed_congr {disk disk' : Disk} (wf : disk.WellFormed)
    (entries : disk'.entries = disk.entries) (fresh : disk'.fresh = disk.fresh) :
    disk'.WellFormed := by
  constructor
  · rw [entries]
    exact wf.single
  · rw [entries, fresh]
    exact wf.below

theorem writeAt_wellFormed {disk : Disk} (wf : disk.WellFormed) (inode offset : Nat)
    (bytes : List UInt8) : (disk.writeAt inode offset bytes).WellFormed :=
  wellFormed_congr wf rfl rfl

/-- A stream that has written all there is goes on behind it. -/
theorem contents_writeAt_end {disk : Disk} {inode : Nat} {content : List UInt8}
    (held : disk.contents inode = content) (bytes : List UInt8) :
    (disk.writeAt inode content.length bytes).contents inode = content ++ bytes := by
  refine (Function.update_self ..).trans ?_
  rw [held, overlay_end]

theorem create_wellFormed {disk : Disk} (wf : disk.WellFormed) (l : Location) :
    (disk.create l).WellFormed := by
  constructor
  · intro a b i ha hb
    rcases create_entry ha with ⟨hal, hi⟩ | ha <;> rcases create_entry hb with ⟨hbl, hj⟩ | hb
    · rw [hal, hbl]
    · exact absurd (wf.below b i hb) (by omega)
    · exact absurd (wf.below a i ha) (by omega)
    · exact wf.single a b i ha hb
  · intro k i hk
    rcases create_entry hk with ⟨_, hi⟩ | hk
    · rw [hi]
      exact Nat.lt_succ_self _
    · exact Nat.lt_succ_of_lt (wf.below k i hk)

theorem read_writeAt_of_ne {disk : Disk} (wf : disk.WellFormed) {k l : Location} {inode : Nat}
    (held : disk.entries l = some (.file inode)) (other : k ≠ l) (offset : Nat)
    (bytes : List UInt8) : (disk.writeAt inode offset bytes).read k = disk.read k := by
  cases entry : disk.entries k with
  | none => simp [read, writeAt, entry]
  | some node =>
    cases node with
    | directory => simp [read, writeAt, entry]
    | file i =>
      have ne : i ≠ inode := fun same => other (wf.single k l i entry (same ▸ held))
      simp [read, writeAt, entry, ne]

theorem openWrite_empties {disk disk' : Disk} {l : Location} {inode : Nat}
    (opened : disk.openWrite l = some (disk', inode)) :
    disk'.entries l = some (.file inode) ∧ disk'.contents inode = [] := by
  unfold openWrite at opened
  split at opened
  · cases opened
  · rename_i i entry
    obtain ⟨rfl, rfl⟩ := Prod.mk.inj (Option.some.inj opened)
    exact ⟨entry, Function.update_self ..⟩
  · obtain ⟨rfl, rfl⟩ := Prod.mk.inj (Option.some.inj opened)
    exact ⟨Function.update_self .., Function.update_self ..⟩

/-- Opening for writing yields an empty inode behind the name and touches no other
name and no other inode that had one. -/
theorem openWrite_spec {disk disk' : Disk} {l : Location} {inode : Nat} (wf : disk.WellFormed)
    (opened : disk.openWrite l = some (disk', inode)) :
    disk'.WellFormed ∧ disk.entries l ≠ some .directory ∧
      disk'.entries l = some (.file inode) ∧ disk'.contents inode = [] ∧
      ∀ k, k ≠ l → disk'.entries k = disk.entries k ∧
        ∀ i, disk.entries k = some (.file i) → disk'.contents i = disk.contents i := by
  unfold openWrite at opened
  split at opened
  · cases opened
  · rename_i i entry
    obtain ⟨rfl, rfl⟩ := Prod.mk.inj (Option.some.inj opened)
    refine ⟨wellFormed_congr wf rfl rfl, by rw [entry]; simp, entry, by simp, fun k hk => ⟨rfl, ?_⟩⟩
    intro j hj
    have other : j ≠ i := fun same => hk (wf.single k l i (same ▸ hj) entry)
    exact Function.update_of_ne other _ _
  · rename_i entry
    obtain ⟨rfl, rfl⟩ := Prod.mk.inj (Option.some.inj opened)
    refine ⟨create_wellFormed wf l, by rw [entry]; simp, Function.update_self .., ?_,
      fun k hk => ⟨Function.update_of_ne hk .., fun i hi => Function.update_of_ne ?_ ..⟩⟩
    · exact Function.update_self ..
    · exact Nat.ne_of_lt (wf.below k i hi)

@[simp] theorem remove_entries_self (disk : Disk) (l : Location) :
    (disk.remove l).entries l = none := Function.update_self ..

theorem remove_entries_of_ne (disk : Disk) {k l : Location} (other : k ≠ l) :
    (disk.remove l).entries k = disk.entries k := Function.update_of_ne other _ _

theorem remove_wellFormed {disk : Disk} (wf : disk.WellFormed) (l : Location) :
    (disk.remove l).WellFormed := by
  have kept : ∀ k node, (disk.remove l).entries k = some node → disk.entries k = some node := by
    intro k node hk
    by_cases hkl : k = l
    · rw [hkl, remove_entries_self] at hk
      cases hk
    · rw [remove_entries_of_ne disk hkl] at hk
      exact hk
  exact ⟨fun a b i ha hb => wf.single a b i (kept a _ ha) (kept b _ hb),
    fun k i hk => wf.below k i (kept k _ hk)⟩

end Disk

def databaseName : Name := text "serverDatabase"

def directory : List UInt8 := text "serverDatabase/"

/-- `directory + filename`. -/
def filePath (filename : Name) : List UInt8 := directory ++ filename

/-- The place directly below the database directory. -/
def childOf (filename : Name) : Location := ⟨0, [filename, databaseName]⟩

/-- A filename with no slash. -/
def Plain (filename : Name) : Prop := slash ∉ filename

/-- A plain filename that names something of its own. -/
def Proper (filename : Name) : Prop :=
  Plain filename ∧ filename ≠ [] ∧ filename ≠ dot ∧ filename ≠ dotdot

instance (filename : Name) : Decidable (Proper filename) := by
  unfold Proper Plain
  infer_instance

theorem resolve_plain {filename : Name} (plain : Plain filename) :
    resolve (filePath filename) = enter ⟨0, [databaseName]⟩ filename := by
  have front : slash ∉ databaseName := by decide
  have path : filePath filename = databaseName ++ slash :: filename := rfl
  have split : components (filePath filename) = [databaseName, filename] := by
    rw [path, components, List.splitOn, List.splitOnP_append_cons _ _ (by simp),
      List.splitOnP_eq_singleton, List.splitOnP_eq_singleton]
    · rfl
    · intro c hc
      exact beq_eq_false_iff_ne.mpr (fun same => plain (same ▸ hc))
    · intro c hc
      exact beq_eq_false_iff_ne.mpr (fun same => front (same ▸ hc))
  rw [resolve, split, List.foldl_cons, List.foldl_cons, List.foldl_nil]
  rfl

theorem resolve_proper {filename : Name} (proper : Proper filename) :
    resolve (filePath filename) = childOf filename := by
  obtain ⟨plain, nonempty, notDot, notDotdot⟩ := proper
  rw [resolve_plain plain, enter, if_neg (by tauto), if_neg notDotdot]
  rfl

/-- The plain filenames that are not proper resolve to directories above all files. -/
theorem resolve_improper {filename : Name} (plain : Plain filename) (improper : ¬ Proper filename) :
    resolve (filePath filename) = ⟨0, [databaseName]⟩ ∨ resolve (filePath filename) = ⟨0, []⟩ := by
  rw [resolve_plain plain]
  by_cases here : filename = [] ∨ filename = dot
  · exact Or.inl (if_pos here)
  · by_cases above : filename = dotdot
    · refine Or.inr ?_
      rw [enter, if_neg here, if_pos above]
    · exact absurd ⟨plain, by tauto, by tauto, above⟩ improper

theorem childOf_injective {f g : Name} (same : childOf f = childOf g) : f = g := by
  simpa [childOf] using same

end TFTP.FileSystem
