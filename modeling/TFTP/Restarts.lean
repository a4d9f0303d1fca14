import TFTP.Leftovers
import TFTP.WrittenThenRead

/-!
# Restarts

The server can end between any two of its steps: by its signal, or by a `bind` that fails.
What it knows is in the map, and the next one builds its map from the names it finds in the
database directory. A completed upload has closed its stream; of one under way the last
bytes may not have reached the disk. In every life names are plain, nothing is listed, and
uploads of one name do not overlap.
-/

namespace TFTP.Restarts

open Octets Packet Sockets FileSystem Runs Server Immutability StoreRefinement
open Leftovers (Regular)
open WrittenThenRead (Spares record_spared brought)

/-- What is left on the disk by a server that ends. -/
structure Survives (s : State) (disk : Disk) : Prop where
  entries : disk.entries = s.shared.disk.entries
  fresh : disk.fresh = s.shared.disk.fresh
  cut : ∀ inode, disk.contents inode <+: s.shared.disk.contents inode
  closed : ∀ inode, (∀ f client loop, .writing f client inode loop ∉ s.handlers) →
    disk.contents inode = s.shared.disk.contents inode

/-- A server that has just read the directory. -/
def restarted (regularFiles : List Name) (disk : Disk) : State where
  shared := { files := initializeFileMap regularFiles, disk }
  handlers := []

inductive Action where
  | server (a : Server.Action)
  | restart (regularFiles : List Name) (disk : Disk)

def Enabled (t : Traced) : Action → Prop
  | .server a => exclusive.enabled t a
  | .restart regularFiles disk => .undefined ∉ t.state.handlers ∧ Survives t.state disk ∧
      ∀ f, f ∈ regularFiles ↔ Regular disk f

def step (t : Traced) : Action → Traced
  | .server a => traced.step t a
  | .restart regularFiles disk => start (restarted regularFiles disk)

/-- A server that is ended and started again any number of times. -/
def machine : Machine Traced Action := ⟨Enabled, step⟩

section

variable {t : Traced} {disk : Disk} {regularFiles : List Name}

theorem Survives.initial (survives : Survives t.state disk) (inv : Immutability.Inv t)
    (lists : ∀ f, f ∈ regularFiles ↔ Regular disk f) :
    Initial (restarted regularFiles disk) where
  idle := rfl
  wellFormed := by
    constructor
    · intro k l inode
      change disk.entries k = _ → disk.entries l = _ → _
      rw [survives.entries]
      exact inv.wf.single k l inode
    · intro l inode
      change disk.entries l = _ → inode < disk.fresh
      rw [survives.entries, survives.fresh]
      exact inv.wf.below l inode
  root := by
    change disk.entries _ = _
    rw [survives.entries]
    exact inv.root
  database := by
    change disk.entries _ = _
    rw [survives.entries]
    exact inv.database
  listed := ⟨regularFiles, rfl, lists⟩

theorem mem_restarted (lists : ∀ f, f ∈ regularFiles ↔ Regular disk f) (f : Name) :
    f ∈ (restarted regularFiles disk).shared.files ↔ Regular disk f := by
  have key : f ∈ initializeFileMap regularFiles ↔ f ∈ regularFiles := by
    rw [Std.TreeMap.mem_iff_isSome_getElem?, getElem?_initializeFileMap]
    split <;> simp_all
  exact key.trans (lists f)

/-- The name of a file in the directory is registered with what the file holds. -/
theorem restarted_registered (lists : ∀ f, f ∈ regularFiles ↔ Regular disk f) {f : Name}
    (proper : Proper f) :
    (start (restarted regularFiles disk)).registered f = disk.read (childOf f) := by
  rw [← resolve_proper proper]
  by_cases listed : f ∈ (restarted regularFiles disk).shared.files
  · exact if_pos listed
  · have unread : disk.read (resolve (filePath f)) = none := by
      by_contra found
      obtain ⟨content, read⟩ := Option.ne_none_iff_exists'.mp found
      rw [resolve_proper proper] at read
      obtain ⟨inode, entry, _⟩ := Disk.read_eq_some.mp read
      exact listed ((mem_restarted lists f).mpr ⟨proper, inode, entry⟩)
    rw [unread]
    exact if_neg listed

/-- Nobody writes to the file of a registered name. -/
theorem closed_of_registered (inv : Immutability.Inv t) {f : Name} {content : List UInt8}
    (known : t.registered f = some content) {inode : Nat}
    (entry : t.state.shared.disk.entries (childOf f) = some (.file inode)) (g : Name)
    (client : Addr) (loop : WriteLoop) : .writing g client inode loop ∉ t.state.handlers := by
  intro mem
  obtain ⟨_, unlisted, _, held, _⟩ := inv.holds _ _ _ _ mem
  obtain rfl : g = f := childOf_injective (inv.wf.single _ _ _ held entry)
  exact unlisted (by simp [inv.listed, known])

/-- What the next server registers of a name, by what the last one knew of it. -/
structure Offers (t t' : Traced) (f : Name) : Prop where
  registered : ∀ content, t.registered f = some content → t'.registered f = some content
  interrupted : ∀ client inode loop, .writing f client inode loop ∈ t.state.handlers →
    ∃ content, t'.registered f = some content ∧ content <+: loop.content
  other : (∀ client inode loop, .writing f client inode loop ∉ t.state.handlers) → Proper f →
    t'.registered f = t.state.shared.disk.read (childOf f)
  improper : ¬ Proper f → t'.registered f = none

theorem offers (inv : Immutability.Inv t) (survives : Survives t.state disk)
    (lists : ∀ f, f ∈ regularFiles ↔ Regular disk f) (f : Name) :
    Offers t (start (restarted regularFiles disk)) f := by
  have entry : disk.entries (childOf f) = t.state.shared.disk.entries (childOf f) :=
    congrFun survives.entries _
  constructor
  · intro content known
    obtain ⟨proper, read⟩ := inv.kept f content known
    obtain ⟨inode, file, bytes⟩ := Disk.read_eq_some.mp read
    have closed := survives.closed inode fun g client loop =>
      closed_of_registered inv known file g client loop
    rw [restarted_registered lists proper]
    exact Disk.read_eq_some.mpr ⟨inode, entry.trans file, closed.trans bytes⟩
  · intro client inode loop mem
    obtain ⟨proper, _, _, file, bytes⟩ := inv.holds _ _ _ _ mem
    refine ⟨disk.contents inode, ?_, bytes ▸ survives.cut inode⟩
    rw [restarted_registered lists proper]
    exact Disk.read_eq_some.mpr ⟨inode, entry.trans file, rfl⟩
  · intro unwritten proper
    rw [restarted_registered lists proper]
    cases file : t.state.shared.disk.entries (childOf f) with
    | none => simp only [Disk.read, entry, file]
    | some node =>
      cases node with
      | directory => simp only [Disk.read, entry, file]
      | file inode =>
        have closed := survives.closed inode fun g client loop mem => by
          obtain ⟨_, _, _, held, _⟩ := inv.holds _ _ _ _ mem
          obtain rfl : g = f := childOf_injective (inv.wf.single _ _ _ held file)
          exact unwritten client inode loop mem
        simp only [Disk.read, entry, file, closed]
  · intro improper
    exact if_neg fun listed => improper ((mem_restarted lists f).mp listed).1

end

theorem step_inv (t : Traced) (a : Action) (enabled : Enabled t a) (inv : Immutability.Inv t) :
    Immutability.Inv (step t a) := by
  cases a with
  | server a => exact Immutability.step_inv t a enabled inv
  | restart regularFiles disk =>
    obtain ⟨_, survives, lists⟩ := enabled
    exact start_inv (survives.initial inv lists)

theorem run_inv {s : State} (initial : Initial s) {acts : List Action} {t : Traced}
    (run : Run machine (start s) acts t) : Immutability.Inv t :=
  run.invariant step_inv (start_inv initial)

/-- Nobody asks for the deletion of the name. -/
def SparesName (f : Name) : Action → Prop
  | .server a => Spares f a
  | .restart .. => True

theorem step_registered {t : Traced} {a : Action} (enabled : Enabled t a)
    (inv : Immutability.Inv t) {f : Name} {content : List UInt8}
    (known : t.registered f = some content) (spares : SparesName f a) :
    (step t a).registered f = some content := by
  cases a with
  | server a => exact record_spared inv known spares
  | restart regularFiles disk =>
    obtain ⟨_, survives, lists⟩ := enabled
    exact (offers inv survives lists f).registered content known

/-- A server with the file `f` that has just begun to take `g`. -/
def begun : Traced :=
  step (start (startedWith (text "f") [7]))
    (.server (.request (.write (text "g")) writer (Buffer.zero 4) .ok))

theorem begun_run : Run machine (start (startedWith (text "f") [7]))
    ([] ++ [.server (.request (.write (text "g")) writer (Buffer.zero 4) .ok)]) begun := by
  have plain : Plain (text "g") := by
    show slash ∉ text "g"
    decide
  refine .snoc (.refl _) ⟨⟨by decide, trivial⟩, plain, ?_⟩
  intro _ _ h mem
  cases mem

theorem begun_regular (name : Name) :
    name ∈ [text "f", text "g"] ↔ Regular begun.state.shared.disk name := by
  have entries : begun.state.shared.disk.entries =
      Function.update (startedWith (text "f") [7]).shared.disk.entries (childOf (text "g"))
        (some (.file 1)) := rfl
  constructor
  · intro mem
    simp only [List.mem_cons, List.not_mem_nil, or_false] at mem
    rcases mem with rfl | rfl
    · exact ⟨by decide, 0, by decide⟩
    · exact ⟨by decide, 1, by decide⟩
  · rintro ⟨_, inode, entry⟩
    by_cases here : name = text "g"
    · simp [here]
    · have other : childOf name ≠ childOf (text "g") := fun same => here (childOf_injective same)
      rw [entries, Function.update_of_ne other] at entry
      simp only [startedWith] at entry
      split_ifs at entry with there
      · simp [childOf_injective there]
      · cases entry

theorem begun_restarts :
    Enabled begun (.restart [text "f", text "g"] begun.state.shared.disk) :=
  ⟨by decide, ⟨rfl, rfl, fun _ => List.prefix_refl _, fun _ _ => rfl⟩, begun_regular⟩

/-- A registered name outlives every restart: as long as nobody asks for its deletion it is
offered with the bytes it was registered with, and whoever completes a download has them. -/
theorem registered_survives {s : State} (initial : Initial s) {before acts : List Action}
    {t₀ t : Traced} (run₀ : Run machine (start s) before t₀) {f : Name} {content : List UInt8}
    (known : t₀.registered f = some content) (run : Run machine t₀ acts t)
    (spared : ∀ a ∈ acts, SparesName f a) :
    f ∈ t.state.shared.files ∧
      t.state.shared.disk.read (resolve (filePath f)) = some content ∧
      ∀ (D : BusyDownload.Session) ackBuffer env acts' t', D.filename = f →
        D.thread = t.state.handlers.length →
        exclusive.enabled t (.request (.read f) D.client ackBuffer env) →
        Run (BusyDownload.machine D) (BusyDownload.begin D t ackBuffer env) acts' t' →
        t'.client.status = .completed → t'.client.content = content := by
  have kept : Immutability.Inv t ∧ t.registered f = some content := by
    induction run with
    | refl => exact ⟨run_inv initial run₀, known⟩
    | snoc earlier enabled ih =>
      obtain ⟨inv, known'⟩ := ih fun a mem => spared a (List.mem_append_left _ mem)
      have last := spared _ (List.mem_append_right _ (List.mem_singleton.mpr rfl))
      exact ⟨step_inv _ _ enabled inv, step_registered enabled inv known' last⟩
  obtain ⟨inv, known'⟩ := kept
  refine ⟨(inv.listed f).mpr ?_, inv.immutable f content known', ?_⟩
  · rw [known']
    exact Option.some_ne_none content
  · rintro D ackBuffer env acts' t' rfl there asked download done
    exact (brought inv known' there asked download done).1

theorem registered_survives_interrupted_upload :
    let t := step begun (.restart [text "f", text "g"] begun.state.shared.disk)
    text "f" ∈ t.state.shared.files ∧
      t.state.shared.disk.read (resolve (filePath (text "f"))) = some [7] := by
  intro t
  have run : Run machine begun
      ([] ++ [.restart [text "f", text "g"] begun.state.shared.disk]) t :=
    .snoc (.refl _) begun_restarts
  have spared : ∀ a ∈ [] ++ [.restart [text "f", text "g"] begun.state.shared.disk],
      SparesName (text "f") a := by
    intro a mem
    rw [List.mem_singleton.mp mem]
    trivial
  have known : begun.registered (text "f") = some [7] := by decide
  obtain ⟨listed, read, _⟩ := registered_survives (startedWith_initial (by decide) [7]) begun_run
    known run spared
  exact ⟨listed, read⟩

/-- What a restart makes of the names, whenever it comes: those registered stay as they were,
an upload under way is offered as far as it has come to the disk, and of the other names
exactly those with a file are offered, with what earlier uploads have left there. -/
theorem restart_offers {s : State} (initial : Initial s) {acts : List Action} {t : Traced}
    (run : Run machine (start s) acts t) {regularFiles : List Name} {disk : Disk}
    (enabled : Enabled t (.restart regularFiles disk)) (f : Name) :
    Offers t (step t (.restart regularFiles disk)) f :=
  offers (run_inv initial run) enabled.2.1 enabled.2.2 f

/-- An upload that has got no block is offered as an empty file. -/
theorem restart_offers_interrupted_upload :
    let t := step begun (.restart [text "f", text "g"] begun.state.shared.disk)
    text "g" ∉ begun.state.shared.files ∧ t.registered (text "g") = some [] := by
  intro t
  have offered := restart_offers (startedWith_initial (by decide) [7]) begun_run begun_restarts
    (text "g")
  obtain ⟨content, registered, cut⟩ := offered.interrupted writer 1 .start
    (List.mem_singleton.mpr rfl)
  refine ⟨by decide, registered.trans ?_⟩
  rw [List.prefix_nil.mp cut]

end TFTP.Restarts
