import TFTP.Immutability
import TFTP.Library.Simulation
import TFTP.Store

/-!
# The server refines the store

With plain names, no listings and no overlapping uploads of one name, the threads over
the shared map and the disk answer every client as the store does, packet for packet, in
every interleaving.
-/

namespace TFTP.StoreRefinement

open Octets Packet Sockets FileSystem Runs Server Immutability Store

/-- A reader of a registered name serves what the name was registered with. -/
def sessionOf (registered : Name → Option (List UInt8)) : Handler → Session
  | .reading filename client loop =>
    .serving filename ((registered filename).getD []) client loop
  | .writing filename client _ loop => .collecting filename client loop
  | .listing _ _ => .closed
  | .done => .closed
  | .undefined => .undefined

def view (t : Traced) : Store.State where
  objects := t.registered
  sessions := t.state.handlers.map (sessionOf t.registered)

def isDirectory (disk : Disk) (l : Location) : Bool :=
  match disk.entries l with
  | some .directory => true
  | _ => false

/-- A name that leads to a directory cannot become an object. -/
def reservedIn (s : Server.State) (filename : Name) : Bool :=
  isDirectory s.shared.disk (resolve (filePath filename))

def packets (t : Traced) (a : Action) : List Effect := (turnOf t.state a).effects

theorem isDirectory_eq_true {disk : Disk} {l : Location} :
    isDirectory disk l = true ↔ disk.entries l = some .directory := by
  unfold isDirectory
  split <;> simp_all

theorem isDirectory_eq_false {disk : Disk} {l : Location} :
    isDirectory disk l = false ↔ disk.entries l ≠ some .directory := by
  rw [Ne, ← isDirectory_eq_true, Bool.not_eq_true]

theorem isDirectory_congr {disk disk' : Disk} {l : Location}
    (same : disk'.entries l = disk.entries l) : isDirectory disk' l = isDirectory disk l := by
  unfold isDirectory
  rw [same]

/-- Opening for writing fails if the system says so and at a directory. -/
theorem openWrite_eq_none {shared : Shared} {env : Environment} {path : List UInt8} :
    openWrite shared env path = none ↔
      (env.openFails || isDirectory shared.disk (resolve path)) = true := by
  cases fails : env.openFails with
  | true => simp [openWrite, fails]
  | false =>
    rw [openWrite, fails, if_neg Bool.false_ne_true, Bool.false_or, isDirectory_eq_true]
    unfold Disk.openWrite
    split <;> simp_all

theorem write_directories {t : Traced} (inv : Inv t) {filename : Name} (plain : Plain filename)
    (client : Addr) (env : Environment) (l : Location) :
    isDirectory (handleWriteRequest t.state.shared filename client env).shared.disk l =
      isDirectory t.state.shared.disk l := by
  rcases handleWriteRequest_cases t.state.shared filename client env with
    ⟨_, same⟩ | ⟨disk, inode, _, opened, _, shared⟩
  · rw [same]
  · rw [shared]
    obtain ⟨_, _, place⟩ := openWrite_proper inv.wf inv.root inv.database plain opened
    obtain ⟨_, notDirectory, node, _, rest⟩ := Disk.openWrite_spec inv.wf place
    by_cases here : l = childOf filename
    · rw [here, isDirectory_eq_false.mpr notDirectory, isDirectory_eq_false]
      simp [node]
    · exact isDirectory_congr (rest l here).1

theorem delete_directories {t : Traced} (inv : Inv t) (filename : Name) (client : Addr)
    (env : Environment) (l : Location) :
    isDirectory (handleDeleteRequest t.state.shared filename client env).shared.disk l =
      isDirectory t.state.shared.disk l := by
  rcases ReaderCounts.delete_cases inv.exact_ filename client env with ⟨_, deleted⟩ | ⟨_, same⟩
  · obtain ⟨content, registered⟩ :=
      Option.ne_none_iff_exists'.mp ((inv.listed filename).mp deleted.listed)
    obtain ⟨proper, read⟩ := inv.kept filename content registered
    obtain ⟨inode, node, _⟩ := Disk.read_eq_some.mp read
    rw [deleted.shared proper]
    by_cases here : l = childOf filename
    · rw [here, isDirectory_eq_false.mpr (by simp), isDirectory_eq_false.mpr (by simp [node])]
    · exact isDirectory_congr (Disk.remove_entries_of_ne _ here)
  · rw [same]

/-- No step makes or removes a directory. -/
theorem step_directories {t : Traced} (inv : Inv t) {a : Action} (domain : InDomain a)
    (l : Location) : isDirectory (traced.step t a).state.shared.disk l =
      isDirectory t.state.shared.disk l := by
  cases a with
  | request r client ackBuffer env =>
    cases r with
    | read filename =>
      refine isDirectory_congr ?_
      simp only [traced, Server.step, turnOf, Server.begin, handleReadRequest, afterRead]
      split_ifs <;> rfl
    | write filename => exact write_directories inv domain client env l
    | delete filename => exact delete_directories inv filename client env l
    | list => exact False.elim domain
  | turn i e env =>
    refine isDirectory_congr ?_
    simp only [traced, Server.step, turnOf]
    cases t.state.handlers.getD i .done with
    | reading filename client loop =>
      simp only [Server.advance, readTurn, afterRead]
      split_ifs <;> rfl
    | _ => rfl

theorem registered_of_reader {t : Traced} (inv : Inv t) {filename : Name} {client : Addr}
    {loop : SendLoop} (mem : .reading filename client loop ∈ t.state.handlers) :
    filename ∈ t.state.shared.files ∧ ∃ content, t.registered filename = some content ∧
      t.state.shared.disk.read (resolve (filePath filename)) = some content := by
  have active : 0 < ReaderCounts.readers filename t.state.handlers :=
    List.countP_pos_iff.mpr ⟨_, mem, by simp [ReaderCounts.reads]⟩
  have listed := (inv.exact_ filename).2 (Int.ofNat_lt.mpr active)
  obtain ⟨content, registered⟩ := Option.ne_none_iff_exists'.mp ((inv.listed filename).mp listed)
  exact ⟨listed, content, registered, inv.immutable filename content registered⟩

/-- No step registers or deletes a name that is being read. -/
theorem record_of_reader {t : Traced} (inv : Inv t) {filename : Name} {client : Addr}
    {loop : SendLoop} (mem : .reading filename client loop ∈ t.state.handlers) (a : Action) :
    record t.registered t.state a filename = t.registered filename := by
  obtain ⟨listed, _⟩ := registered_of_reader inv mem
  cases a with
  | request r client' ackBuffer env =>
    cases r with
    | delete f =>
      simp only [record]
      split
      · rename_i ack
        rcases ReaderCounts.delete_cases inv.exact_ f client' env with
          ⟨_, deleted⟩ | ⟨refused, _⟩
        · have other : filename ≠ f := by
            rintro rfl
            have unread := List.countP_eq_zero.mp deleted.unread _ mem
            simp [ReaderCounts.reads] at unread
          exact Function.update_of_ne other ..
        · exact absurd ack refused
      · rfl
    | _ => rfl
  | turn i e env =>
    simp only [record]
    cases t.state.handlers.getD i .done with
    | writing f client' inode loop' =>
      simp only
      split
      · rename_i ended
        have other : filename ≠ f := by
          rintro rfl
          exact ended.2 listed
        exact Function.update_of_ne other ..
      · rfl
    | _ => rfl

theorem sessions_kept {t : Traced} (inv : Inv t) (a : Action) {h : Handler}
    (mem : h ∈ t.state.handlers) :
    sessionOf (record t.registered t.state a) h = sessionOf t.registered h := by
  cases h with
  | reading filename client loop => simp only [sessionOf, record_of_reader inv mem a]
  | _ => rfl

/-- The store answers an action as the server does. -/
def Agrees (reserved : Name → Bool) (t : Traced) (a : Action) : Prop :=
  outcome reserved (view t) a =
    { session := sessionOf (record t.registered t.state a) (turnOf t.state a).handler
      objects := record t.registered t.state a
      effects := (turnOf t.state a).effects }

/-- The turns of a reader are those of a session over the registered content. -/
theorem serve_afterRead (shared : Shared) {registered : Name → Option (List UInt8)}
    {filename : Name} {content : List UInt8} (known : registered filename = some content)
    (client : Addr) (turn : SendLoop × List Effect) :
    serve registered filename content client turn =
      { session := sessionOf registered (afterRead shared filename client turn).handler
        objects := registered
        effects := (afterRead shared filename client turn).effects } := by
  unfold serve afterRead
  split <;> simp [sessionOf, known]

theorem contentAt_visible {shared : Shared} {path content : List UInt8}
    (read : shared.disk.read (resolve path) = some content) (env : Environment) :
    contentAt shared env path = visible env content := by
  rw [contentAt, visible, read]

theorem read_agrees {t : Traced} (inv : Inv t) (reserved : Name → Bool) (filename : Name)
    (client : Addr) (ackBuffer : Buffer 4) (env : Environment) :
    Agrees reserved t (.request (.read filename) client ackBuffer env) := by
  unfold Agrees
  simp only [outcome, Store.begin, view, turnOf, Server.begin, record]
  cases known : t.registered filename with
  | none =>
    have unlisted : filename ∉ t.state.shared.files := by simp [inv.listed, known]
    rw [handleReadRequest_unknown unlisted]
    rfl
  | some content =>
    have listed : filename ∈ t.state.shared.files := by simp [inv.listed, known]
    have read := inv.immutable filename content known
    rw [handleReadRequest_known listed, contentAt_visible read env]
    exact serve_afterRead _ known client _

theorem write_agrees {t : Traced} (inv : Inv t) (filename : Name) (client : Addr)
    (ackBuffer : Buffer 4) (env : Environment) {reserved : Name → Bool}
    (directories : reserved filename =
      isDirectory t.state.shared.disk (resolve (filePath filename))) :
    Agrees reserved t (.request (.write filename) client ackBuffer env) := by
  unfold Agrees
  simp only [outcome, Store.begin, turnOf, Server.begin, record]
  have known : ((view t).objects filename).isSome ↔ filename ∈ t.state.shared.files := by
    rw [Option.isSome_iff_ne_none]
    exact (inv.listed filename).symm
  by_cases listed : filename ∈ t.state.shared.files
  · rw [handleWriteRequest_known listed, if_pos (known.mpr listed)]
    rfl
  · have fails := @openWrite_eq_none t.state.shared env (filePath filename)
    rw [if_neg (mt known.mp listed), directories]
    cases opened : openWrite t.state.shared env (filePath filename) with
    | none =>
      rw [handleWriteRequest_unopened listed client opened, if_pos (fails.mp opened)]
      rfl
    | some held =>
      have opens : openWrite t.state.shared env (filePath filename) ≠ none := by
        rw [opened]
        exact Option.some_ne_none held
      rw [handleWriteRequest_opened listed client opened, if_neg (mt fails.mpr opens)]
      rfl

theorem serves_sessionOf (registered : Name → Option (List UInt8)) (filename : Name) (h : Handler) :
    (sessionOf registered h).serves filename = ReaderCounts.reads filename h := by
  cases h <;> rfl

/-- The count of readers is 0 if and only if no session serves the name. -/
theorem canDelete_iff_unserved {t : Traced} (inv : Inv t) {filename : Name}
    (listed : filename ∈ t.state.shared.files) :
    canDelete filename t.state.shared.files = true ↔
      (view t).sessions.any (Session.serves filename) = false := by
  have entry : t.state.shared.files[filename]? =
      some (ReaderCounts.readers filename t.state.handlers : Int) := by
    obtain ⟨n, entry⟩ := Option.isSome_iff_exists.mp
      (Std.TreeMap.mem_iff_isSome_getElem?.mp listed)
    have count := (inv.exact_ filename).1
    rw [Std.TreeMap.getD_eq_getD_getElem?, entry, Option.getD_some] at count
    rw [entry, count]
  have unserved : (view t).sessions.any (Session.serves filename) = false ↔
      ReaderCounts.readers filename t.state.handlers = 0 := by
    simp only [view, List.any_eq_false, List.mem_map, ReaderCounts.readers, List.countP_eq_zero,
      forall_exists_index, and_imp, forall_apply_eq_imp_iff₂, serves_sessionOf]
  rw [ReaderCounts.canDelete_iff, entry, unserved, Option.some.injEq, Int.natCast_eq_zero]

theorem delete_effects {t : Traced} (inv : Inv t) (filename : Name) (client : Addr)
    (env : Environment) :
    (Store.delete (view t) filename client env).effects =
      (handleDeleteRequest t.state.shared filename client env).effects := by
  have known : ((view t).objects filename).isNone ↔ filename ∉ t.state.shared.files := by
    rw [Option.isNone_iff_eq_none, inv.listed filename, not_not]
    rfl
  unfold Store.delete handleDeleteRequest
  by_cases listed : filename ∈ t.state.shared.files
  · obtain ⟨content, registered⟩ := Option.ne_none_iff_exists'.mp ((inv.listed filename).mp listed)
    obtain ⟨inode, node, _⟩ := Disk.read_eq_some.mp (inv.immutable filename content registered)
    have there : ¬ (t.state.shared.disk.entries (resolve (filePath filename))).isNone := by
      simp [node]
    have unserved := canDelete_iff_unserved inv listed
    simp only [if_neg (mt known.mp (not_not.mpr listed)),
      if_neg (not_not.mpr (fileExists_iff.mpr listed)), if_neg there]
    cases served : (view t).sessions.any (Session.serves filename) with
    | true =>
      have busy : ¬ canDelete filename t.state.shared.files = true := by
        rw [unserved, served]
        exact Bool.true_eq_false_eq_False
      simp only [if_true, if_pos busy, Store.refuse, Server.refuse]
    | false =>
      simp only [Bool.false_eq_true, if_false, if_neg (not_not.mpr (unserved.mpr served))]
      cases env.existsThrows <;> cases env.removeThrows <;> rfl
  · simp only [if_pos (known.mpr listed), if_pos (mt fileExists_iff.mp listed), Store.refuse,
      Server.refuse]

theorem delete_agrees {t : Traced} (inv : Inv t) (reserved : Name → Bool) (filename : Name)
    (client : Addr) (ackBuffer : Buffer 4) (env : Environment) :
    Agrees reserved t (.request (.delete filename) client ackBuffer env) := by
  have handler : (turnOf t.state (.request (.delete filename) client ackBuffer env)).handler =
      .done := handleDeleteRequest_done t.state.shared filename client env
  have effects : (Store.delete (view t) filename client env).effects =
      (turnOf t.state (.request (.delete filename) client ackBuffer env)).effects :=
    delete_effects inv filename client env
  have recorded :
      record t.registered t.state (.request (.delete filename) client ackBuffer env) =
        if sendACK client ackOk ∈ (Store.delete (view t) filename client env).effects then
          Function.update t.registered filename none
        else t.registered := by
    simp only [effects]
    rfl
  unfold Agrees
  rw [handler, recorded, ← effects]
  exact delete_eq (view t) filename client env

theorem readTurn_agrees {t : Traced} (inv : Inv t) (reserved : Name → Bool) {i : Nat}
    {filename : Name} {client : Addr} {loop : SendLoop}
    (entry : t.state.handlers[i]? = some (.reading filename client loop)) (e : Recv)
    (env : Environment) : Agrees reserved t (.turn i e env) := by
  obtain ⟨_, content, known, read⟩ := registered_of_reader inv (List.mem_of_getElem? entry)
  have session : (view t).sessions.getD i .closed = .serving filename content client loop := by
    simp [view, entry, sessionOf, known]
  unfold Agrees
  simp only [outcome, session, Store.advance, turnOf_turn entry, record, current_handler entry]
  rw [Server.advance, readTurn, contentAt_visible read env]
  exact serve_afterRead _ known client _

theorem writeTurn_agrees {t : Traced} (inv : Inv t) (reserved : Name → Bool) {i : Nat}
    {filename : Name} {client : Addr} {inode : Nat} {loop : WriteLoop}
    (entry : t.state.handlers[i]? = some (.writing filename client inode loop)) (e : Recv)
    (env : Environment) : Agrees reserved t (.turn i e env) := by
  obtain ⟨_, unlisted, _⟩ := inv.holds filename client inode loop (List.mem_of_getElem? entry)
  have session : (view t).sessions.getD i .closed = .collecting filename client loop := by
    simp [view, entry, sessionOf]
  unfold Agrees
  simp only [outcome, session, Store.advance, turnOf_turn entry, record, current_handler entry,
    Server.advance, writeTurn, unlisted, not_false_eq_true, and_true]
  cases (writeStep client loop e env.io).1.status <;> rfl

theorem step_agrees {t : Traced} (inv : Inv t) {a : Action} (enabled : Server.Enabled t.state a)
    (domain : InDomain a) {reserved : Name → Bool}
    (directories : ∀ filename, reserved filename =
      isDirectory t.state.shared.disk (resolve (filePath filename))) :
    Agrees reserved t a := by
  cases a with
  | request r client ackBuffer env =>
    cases r with
    | read filename => exact read_agrees inv reserved filename client ackBuffer env
    | write filename => exact write_agrees inv filename client ackBuffer env (directories filename)
    | delete filename => exact delete_agrees inv reserved filename client ackBuffer env
    | list => exact False.elim domain
  | turn i e env =>
    obtain ⟨h, entry, active⟩ := enabled.2
    cases h with
    | reading filename client loop => exact readTurn_agrees inv reserved entry e env
    | writing filename client inode loop => exact writeTurn_agrees inv reserved entry e env
    | listing client loop =>
      exact absurd (List.mem_of_getElem? entry) (inv.noListing client loop)
    | done => cases active
    | undefined => cases active

theorem view_step {t : Traced} (inv : Inv t) {a : Action} {reserved : Name → Bool}
    (agrees : Agrees reserved t a) : view (traced.step t a) = Store.step reserved (view t) a := by
  have kept : t.state.handlers.map (sessionOf (record t.registered t.state a)) =
      t.state.handlers.map (sessionOf t.registered) :=
    List.map_congr_left fun h mem => sessions_kept inv a mem
  unfold Agrees at agrees
  simp only [Store.step, agrees]
  cases a with
  | request r client ackBuffer env =>
    simp only [view, traced, Server.step, List.map_append, List.map_cons, List.map_nil, kept]
  | turn i e env => simp only [view, traced, Server.step, List.map_set, kept]

theorem view_enabled {t : Traced} (inv : Inv t) {a : Action} (enabled : Server.Enabled t.state a)
    (domain : InDomain a) : Store.Enabled (view t) a := by
  constructor
  · intro mem
    obtain ⟨h, member, same⟩ := List.mem_map.mp mem
    cases h with
    | undefined => exact enabled.1 member
    | _ => cases same
  · cases a with
    | request r client ackBuffer env =>
      rintro rfl
      exact domain
    | turn i e env =>
      obtain ⟨h, entry, active⟩ := enabled.2
      refine ⟨sessionOf t.registered h, by simp [view, entry], ?_⟩
      cases h with
      | listing client loop =>
        exact absurd (List.mem_of_getElem? entry) (inv.noListing client loop)
      | done => cases active
      | undefined => cases active
      | _ => rfl

/-- The server as long as uploads of one name do not overlap. -/
def exclusive : Machine Traced Action :=
  traced.restrict fun t a => InDomain a ∧ Exclusive t.state a

structure Related (s : Server.State) (t : Traced) (store : Store.State) : Prop where
  inv : Inv t
  behind : store = view t
  directories : ∀ l, isDirectory t.state.shared.disk l = isDirectory s.shared.disk l

theorem Related.agrees {s : Server.State} {t : Traced} {store : Store.State}
    (related : Related s t store) {a : Action} (enabled : exclusive.enabled t a) :
    Agrees (reservedIn s) t a :=
  step_agrees related.inv enabled.1 enabled.2.1 fun filename =>
    (related.directories (resolve (filePath filename))).symm

def refinement (s : Server.State) :
    Simulation exclusive (Store.machine (reservedIn s)) packets (Store.answers (reservedIn s)) where
  rel := Related s
  act := fun _ a => a
  enabled := by
    rintro t _ a ⟨inv, rfl, _⟩ enabled
    exact view_enabled inv enabled.1 enabled.2.1
  step := by
    intro t store a related enabled
    have agrees := related.agrees enabled
    obtain ⟨inv, rfl, directories⟩ := related
    refine ⟨step_inv t a enabled inv, (view_step inv agrees).symm, fun l => ?_⟩
    exact (step_directories inv enabled.2.1 l).trans (directories l)
  output := by
    intro t store a related enabled
    have agrees := related.agrees enabled
    obtain ⟨_, rfl, _⟩ := related
    unfold Agrees at agrees
    rw [Store.answers, agrees, packets]

theorem start_related {s : Server.State} (initial : Initial s) :
    Related s (start s) (view (start s)) :=
  ⟨start_inv initial, rfl, fun _ => rfl⟩

/-- Every interleaving of the server's threads answers as the store does under the same
actions, and the objects of the store are the registered files with what is on disk. -/
theorem server_refines_store {s : Server.State} {acts : List Action} {t : Traced}
    (initial : Initial s) (run : Run exclusive (start s) acts t) :
    Run (Store.machine (reservedIn s)) (view (start s)) acts (view t) ∧
      exclusive.trace packets (start s) acts =
        (Store.machine (reservedIn s)).trace (Store.answers (reservedIn s)) (view (start s)) acts ∧
      ∀ filename content, (view t).objects filename = some content ↔
        filename ∈ t.state.shared.files ∧
          t.state.shared.disk.read (resolve (filePath filename)) = some content := by
  obtain ⟨store, run', ⟨inv, rfl, _⟩, same⟩ := (refinement s).run (start_related initial) run
  have acts_same : exclusive.trace (refinement s).act (start s) acts = acts :=
    exclusive.trace_same (start s) acts
  rw [acts_same] at run' same
  refine ⟨run', same, fun filename content => ?_⟩
  constructor
  · intro known
    have known : t.registered filename = some content := known
    refine ⟨(inv.listed filename).mpr ?_, inv.immutable filename content known⟩
    rw [known]
    exact Option.some_ne_none content
  · rintro ⟨listed, read⟩
    obtain ⟨content', known⟩ := Option.ne_none_iff_exists'.mp ((inv.listed filename).mp listed)
    have same := (inv.immutable filename content' known).symm.trans read
    rw [← Option.some.inj same]
    exact known

/-- The upload of `g` while `f` lies in the store. -/
theorem server_refines_store_one_upload :
    (view oneUpload).objects (text "g") = some [8, 9] ∧
      text "g" ∈ oneUpload.state.shared.files ∧
      oneUpload.state.shared.disk.read (resolve (filePath (text "g"))) = some [8, 9] := by
  have known : (view oneUpload).objects (text "g") = some [8, 9] := by decide
  have run : Run exclusive (start (startedWith (text "f") [7]))
      ([] ++ [.request (.write (text "g")) writer (Buffer.zero 4) .ok] ++
        [.turn 0 (.datagram writer [0, 3, 0, 1, 8, 9]) .ok]) oneUpload := by
    refine .snoc (.snoc (.refl _) ⟨⟨by decide, trivial⟩, ?_, ?_⟩)
      ⟨⟨by decide, _, rfl, rfl⟩, trivial, trivial⟩
    · show slash ∉ text "g"
      decide
    · intro _ _ h mem
      cases mem
  obtain ⟨_, _, onDisk⟩ :=
    server_refines_store (startedWith_initial (by decide) [7]) run
  exact ⟨known, (onDisk _ _).mp known⟩

end TFTP.StoreRefinement
