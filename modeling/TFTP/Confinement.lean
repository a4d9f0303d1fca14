import TFTP.ServerRequests

/-!
# The paths the server touches

The filename of a request is appended to the directory as it came. Nothing looks for
slashes or dots, so confinement to the directory depends on the names that are read and
written; a DELETE is kept to registered keys by its own test.
-/

namespace TFTP.Confinement

open Octets Packet Sockets FileSystem Runs Server

/-- The path names an entry of the database directory itself. -/
def Confined (path : List UInt8) : Prop := ∃ filename, resolve path = childOf filename

/-- A DELETE may ask for anything: only a registered key gets it past its test. -/
def ProperRequest : Request → Prop
  | .read filename => Proper filename
  | .write filename => Proper filename
  | .delete _ | .list => True

def ProperAction : Action → Prop
  | .request r _ _ _ => ProperRequest r
  | .turn _ _ _ => True

def ProperHandler : Handler → Prop
  | .reading filename _ _ => Proper filename
  | .writing filename _ _ _ => Proper filename
  | _ => True

/-- Only proper filenames have been asked for to be read or written. -/
def properMachine : Machine State Action := machine.restrict fun _ a => ProperAction a

structure Inv (s : State) : Prop where
  handlers : ∀ h ∈ s.handlers, ProperHandler h
  keys : ∀ filename ∈ s.shared.files, Proper filename

theorem filePath_confined {filename : Name} (proper : Proper filename) :
    Confined (filePath filename) := ⟨filename, resolve_proper proper⟩

theorem lsPath_confined : Confined lsPath :=
  filePath_confined (show Proper (text "ls.txt") by decide)

/-- A turn stays in the directory and keeps to proper names. -/
structure Keeps (shared : Shared) (turn : Turn) : Prop where
  accesses : ∀ access ∈ turn.accesses, Confined access.path
  handler : ProperHandler turn.handler
  keys : ∀ filename ∈ turn.shared.files, filename ∈ shared.files ∨ Proper filename

theorem afterRead_keeps {shared shared' : Shared} {filename : Name} (proper : Proper filename)
    (client : Addr) (turn : SendLoop × List Effect)
    (keys : ∀ f ∈ shared'.files, f ∈ shared.files ∨ Proper f) :
    Keeps shared (afterRead shared' filename client turn) := by
  unfold afterRead
  split
  · refine ⟨?_, proper, keys⟩
    intro access mem
    rw [List.mem_singleton.mp mem]
    exact filePath_confined proper
  · refine ⟨?_, trivial, fun f mem => ?_⟩
    · intro access mem
      rw [List.mem_singleton.mp mem]
      exact filePath_confined proper
    · rcases (mem_addReaders _ _ _ _).mp mem with rfl | mem
      · exact Or.inr proper
      · exact keys f mem

theorem afterList_keeps (shared : Shared) {shared' : Shared} (client : Addr)
    {accesses : List Access} (turn : SendLoop × List Effect)
    (confined : ∀ access ∈ accesses, Confined access.path)
    (keys : shared'.files = shared.files) :
    Keeps shared (afterList shared' client accesses turn) := by
  refine ⟨?_, ?_, fun f mem => Or.inl (keys ▸ mem)⟩
  · intro access mem
    rcases List.mem_append.mp mem with mem | mem
    · exact confined access mem
    · rw [List.mem_singleton.mp mem]
      exact lsPath_confined
  · simp only [afterList]
    split <;> trivial

theorem begin_keeps (shared : Shared) (client : Addr) (ackBuffer : Buffer 4) (env : Environment)
    {r : Request} (proper : ProperRequest r) (registered : ∀ f ∈ shared.files, Proper f) :
    Keeps shared (begin shared client ackBuffer env r) := by
  cases r with
  | read filename =>
    simp only [begin, handleReadRequest]
    split
    · refine afterRead_keeps proper client _ fun f mem => ?_
      rcases (mem_addReaders _ _ _ _).mp mem with rfl | mem
      · exact Or.inr proper
      · exact Or.inl mem
    · refine ⟨fun access mem => ?_, trivial, fun f => Or.inl⟩
      rw [List.mem_singleton.mp mem]
      exact filePath_confined proper
  | write filename =>
    have opens : ∀ access ∈ [Access.truncates (filePath filename)], Confined access.path := by
      intro access mem
      rw [List.mem_singleton.mp mem]
      exact filePath_confined proper
    simp only [begin, handleWriteRequest]
    split
    · exact ⟨by simp, trivial, fun f => Or.inl⟩
    · split
      · exact ⟨opens, trivial, fun f => Or.inl⟩
      · exact ⟨opens, proper, fun f => Or.inl⟩
  | delete filename =>
    have refused : ∀ effect, Keeps shared (refuse shared [] effect) := fun effect =>
      ⟨by simp [refuse], trivial, fun f => Or.inl⟩
    simp only [begin, handleDeleteRequest]
    split
    · exact refused _
    · rename_i there
      have key : filename ∈ shared.files := fileExists_iff.mp (not_not.mp there)
      have removes : ∀ access ∈ [Access.removes (filePath filename)], Confined access.path := by
        intro access mem
        rw [List.mem_singleton.mp mem]
        exact filePath_confined (registered filename key)
      split
      · exact refused _
      · split
        · exact refused _
        · split
          · exact refused _
          · split
            · exact ⟨removes, trivial, fun f => Or.inl⟩
            · exact ⟨removes, trivial, fun f mem => Or.inl (Std.TreeMap.mem_erase.mp mem).2⟩
  | list =>
    have opens : ∀ access ∈ [Access.truncates lsPath], Confined access.path := by
      intro access mem
      rw [List.mem_singleton.mp mem]
      exact lsPath_confined
    simp only [begin, handleLSRequest]
    split
    · exact ⟨opens, trivial, fun f => Or.inl⟩
    · exact afterList_keeps shared client _ opens rfl

theorem advance_keeps (shared : Shared) (e : Recv) (env : Environment) {h : Handler}
    (proper : ProperHandler h) : Keeps shared (advance shared e env h) := by
  cases h with
  | reading filename client loop => exact afterRead_keeps proper client _ (fun f => Or.inl)
  | writing filename client inode loop =>
    simp only [advance, writeTurn]
    refine ⟨by simp, ?_, fun f mem => ?_⟩
    · split
      · exact proper
      · trivial
      · trivial
    · simp only at mem
      split at mem
      · rcases (mem_insertIfNew _ _ _).mp mem with rfl | mem
        · exact Or.inr proper
        · exact Or.inl mem
      · exact Or.inl mem
  | listing client loop => exact afterList_keeps shared client _ (by simp) rfl
  | done => exact ⟨by simp [advance], trivial, fun f => Or.inl⟩
  | undefined => exact ⟨by simp [advance], trivial, fun f => Or.inl⟩

theorem turnOf_keeps {s : State} {a : Action} (inv : Inv s) (proper : ProperAction a) :
    Keeps s.shared (turnOf s a) := by
  cases a with
  | request r client ackBuffer env =>
    exact begin_keeps s.shared client ackBuffer env proper inv.keys
  | turn i e env =>
    refine advance_keeps s.shared e env ?_
    by_cases bound : i < s.handlers.length
    · rw [List.getD_eq_getElem _ _ bound]
      exact inv.handlers _ (List.getElem_mem bound)
    · rw [List.getD_eq_default _ _ (Nat.le_of_not_lt bound)]
      trivial

theorem initial_inv {s : State} (initial : Initial s) : Inv s := by
  obtain ⟨regularFiles, map, exactly⟩ := initial.listed
  constructor
  · rw [initial.idle]
    simp
  · intro f mem
    rw [map, Std.TreeMap.mem_iff_isSome_getElem?, getElem?_initializeFileMap] at mem
    split at mem
    · rename_i listed
      exact ((exactly f).mp listed).1
    · cases mem

theorem step_inv (s : State) (a : Action) (enabled : properMachine.enabled s a) (inv : Inv s) :
    Inv (properMachine.step s a) := by
  have keeps := turnOf_keeps inv enabled.2
  constructor
  · intro h mem
    cases a with
    | request r client ackBuffer env =>
      rcases List.mem_append.mp mem with mem | mem
      · exact inv.handlers h mem
      · rw [List.mem_singleton.mp mem]
        exact keeps.handler
    | turn i e env =>
      rcases List.mem_or_eq_of_mem_set mem with mem | rfl
      · exact inv.handlers h mem
      · exact keeps.handler
  · intro f mem
    rcases keeps.keys f mem with old | proper
    · exact inv.keys f old
    · exact proper

/-- As long as only proper filenames are asked for to be read or written, every path the
server opens or removes is an entry of the database directory, and different keys are
different files. -/
theorem proper_names_confined {s₀ s : State} {acts : List Action} (initial : Initial s₀)
    (run : Run properMachine s₀ acts s) :
    (∀ a, ProperAction a → ∀ access ∈ (turnOf s a).accesses, Confined access.path) ∧
    (∀ f g, f ∈ s.shared.files → g ∈ s.shared.files → f ≠ g →
      resolve (filePath f) ≠ resolve (filePath g)) := by
  have inv : Inv s := run.invariant step_inv (initial_inv initial)
  refine ⟨fun a proper => (turnOf_keeps inv proper).accesses, fun f g hf hg other same => ?_⟩
  rw [resolve_proper (inv.keys f hf), resolve_proper (inv.keys g hg)] at same
  exact other (childOf_injective same)

def someClient : Addr := ⟨0x7F000001, 40000⟩

theorem proper_names_confined_upload :
    Confined (filePath (text "g")) := by
  have run : Run properMachine (startedWith (text "f") [7]) [] (startedWith (text "f") [7]) :=
    .refl _
  have confined := (proper_names_confined (startedWith_initial (by decide) [7]) run).1
    (.request (.write (text "g")) someClient (Buffer.zero 4) .ok)
    (show Proper (text "g") by decide)
  exact confined (.truncates (filePath (text "g"))) (by decide)

/-- A server that holds `f`, asked to store `./f`, of one block. -/
def aliased : State :=
  step (step (startedWith (text "f") [7])
      (.request (.write (text "./f")) someClient (Buffer.zero 4) .ok))
    (.turn 0 (.datagram someClient [0, 3, 0, 1, 8]) .ok)

/-- A write request reaches outside the directory, and two keys name one file. -/
theorem names_escape_and_alias :
    (∃ access ∈ (turnOf (startedWith (text "f") [7])
        (.request (.write (text "../x")) someClient (Buffer.zero 4) .ok)).accesses,
      ¬ Confined access.path) ∧
    (∃ acts, Run machine (startedWith (text "f") [7]) acts aliased) ∧
    text "f" ∈ aliased.shared.files ∧ text "./f" ∈ aliased.shared.files ∧
    text "f" ≠ text "./f" ∧ resolve (filePath (text "f")) = resolve (filePath (text "./f")) := by
  refine ⟨⟨.truncates (filePath (text "../x")), by decide, ?_⟩, ?_, by decide, by decide,
    by decide, by decide⟩
  · rintro ⟨filename, outside⟩
    have place : resolve (filePath (text "../x")) = ⟨0, [text "x"]⟩ := by decide
    rw [Access.path, place] at outside
    simp [childOf] at outside
  · refine ⟨_, .snoc (.snoc (.refl _) ⟨by decide, trivial⟩) ⟨by decide, _, rfl, rfl⟩⟩

end TFTP.Confinement
