import TFTP.ListingSnapshot

/-!
# What a listing does to the files it lists

The listing is written into the directory that holds the users' files, under a name that
an upload may have used and that the next start-up registers. Everything else is left
alone, from the request to the last acknowledgement.
-/

namespace TFTP.ListingEffects

open Octets Packet Sockets FileSystem Runs Server ListingSnapshot

/-- The map, and the content on disk of every registered file, are as before. -/
structure Untouched (s s' : State) : Prop where
  files : s'.shared.files = s.shared.files
  contents : ∀ f ∈ s.shared.files, s'.shared.disk.read (resolve (filePath f)) =
    s.shared.disk.read (resolve (filePath f))

/-- The state when a new thread has rendered the listing and sent its first block. -/
def listed (s : State) (client : Addr) (ackBuffer : Buffer 4) (env : Environment) : State :=
  Server.step s (.request .list client ackBuffer env)

/-- No step of the thread that serves an LS touches the files, whatever the client replies
and whatever other threads do between two of its turns. -/
def ReadOnly (s : State) (client : Addr) (ackBuffer : Buffer 4) (env : Environment) : Prop :=
  Untouched s (listed s client ackBuffer env) ∧
    ∀ acts t e env', Run machine (listed s client ackBuffer env) acts t →
      Enabled t (.turn s.handlers.length e env') →
      Untouched t (Server.step t (.turn s.handlers.length e env'))

/-- The file of the listing does not open, or belongs to no registered name, or holds what
is written into it already. -/
def Harmless (s : State) (env : Environment) : Prop :=
  openWrite s.shared env lsPath = none ∨
    (∀ f ∈ s.shared.files, resolve (filePath f) ≠ resolve lsPath) ∨
    s.shared.disk.read (resolve lsPath) =
      some (if env.io.writeFails then [] else listingOf s.shared.files)

theorem initial_held {s : State} (initial : Initial s) : Held s where
  wf := initial.wellFormed
  behind := fun h mem => by
    rw [initial.idle] at mem
    cases mem

theorem run_held {s₀ s : State} {acts : List Action} (initial : Initial s₀)
    (run : Run machine s₀ acts s) : Held s :=
  Run.invariant (P := Held) (fun _ a _ held => step_held held a) run (initial_held initial)

section Request

variable {s : State} (client : Addr) (ackBuffer : Buffer 4) {env : Environment}

theorem listed_files : (listed s client ackBuffer env).shared.files = s.shared.files := by
  simp only [listed, Server.step, turnOf, begin, handleLSRequest]
  split <;> rfl

theorem listed_unopened (unopened : openWrite s.shared env lsPath = none) :
    (listed s client ackBuffer env).shared = s.shared := by
  simp only [listed, Server.step, turnOf, begin, handleLSRequest, unopened]

variable {disk : Disk} {inode : Nat}

theorem read_listed_of_ne (held : Held s)
    (opened : openWrite s.shared env lsPath = some (disk, inode)) {k : Location}
    (other : k ≠ resolve lsPath) :
    (listed s client ackBuffer env).shared.disk.read k = s.shared.disk.read k := by
  have place := (Option.ite_none_left_eq_some.mp opened).2
  obtain ⟨wf, _, node, _⟩ := Disk.openWrite_spec held.wf place
  rw [← read_openWrite_of_ne held.wf place other]
  simp only [listed, Server.step, turnOf, begin, handleLSRequest, opened, afterList]
  exact Disk.read_writeAt_of_ne wf node other 0 _

theorem listed_untouched_iff (held : Held s) :
    Untouched s (listed s client ackBuffer env) ↔ Harmless s env := by
  cases opened : openWrite s.shared env lsPath with
  | none =>
    have same := listed_unopened client ackBuffer opened
    constructor
    · exact fun _ => Or.inl opened
    · exact fun _ => ⟨by rw [same], fun f _ => by rw [same]⟩
  | some opening =>
    obtain ⟨disk, inode⟩ := opening
    have opens : openWrite s.shared env lsPath ≠ none := by
      rw [opened]
      exact Option.some_ne_none _
    have place : (listed s client ackBuffer env).shared.disk.read (resolve lsPath) =
        some (if env.io.writeFails then [] else listingOf s.shared.files) :=
      read_list client ackBuffer opens
    constructor
    · intro untouched
      right
      by_cases named : ∃ f ∈ s.shared.files, resolve (filePath f) = resolve lsPath
      · obtain ⟨f, mem, same⟩ := named
        have content := untouched.contents f mem
        rw [same, place] at content
        exact Or.inr content.symm
      · exact Or.inl fun f mem same => named ⟨f, mem, same⟩
    · intro harmless
      refine ⟨listed_files client ackBuffer, fun f mem => ?_⟩
      by_cases same : resolve (filePath f) = resolve lsPath
      · rcases harmless with unopened | unnamed | already
        · rw [unopened] at opened
          cases opened
        · exact absurd same (unnamed f mem)
        · rw [same, place, already]
      · exact read_listed_of_ne client ackBuffer held opened same

end Request

/-- The thread at index `i` lists, or is at its end. -/
def Lists (i : Nat) (s : State) : Prop :=
  ∃ h, s.handlers[i]? = some h ∧ (h = .done ∨ ∃ client loop, h = .listing client loop)

theorem afterList_lists (shared : Shared) (client : Addr) (accesses : List Access)
    (turn : SendLoop × List Effect) : (afterList shared client accesses turn).handler = .done ∨
      ∃ client' loop, (afterList shared client accesses turn).handler = .listing client' loop := by
  simp only [afterList]
  split_ifs
  · exact Or.inr ⟨client, turn.1, rfl⟩
  · exact Or.inl rfl

theorem listed_lists (s : State) (client : Addr) (ackBuffer : Buffer 4) (env : Environment) :
    Lists s.handlers.length (listed s client ackBuffer env) := by
  refine ⟨(handleLSRequest s.shared client ackBuffer env).handler, ?_, ?_⟩
  · exact List.getElem?_concat_length
  · unfold handleLSRequest
    split
    · exact Or.inl rfl
    · exact afterList_lists _ _ _ _

theorem turn_lists {i : Nat} {s : State} (lists : Lists i s) (e : Recv) (env : Environment) :
    (Server.step s (.turn i e env)).shared = s.shared ∧
      Lists i (Server.step s (.turn i e env)) := by
  obtain ⟨h, here, which⟩ := lists
  obtain ⟨inside, _⟩ := List.getElem?_eq_some_iff.mp here
  have turn := turnOf_turn here e env
  have kept : (advance s.shared e env h).shared = s.shared ∧
      ((advance s.shared e env h).handler = .done ∨
        ∃ client loop, (advance s.shared e env h).handler = .listing client loop) := by
    rcases which with rfl | ⟨client, loop, rfl⟩
    · exact ⟨rfl, Or.inl rfl⟩
    · exact ⟨rfl, afterList_lists _ _ _ _⟩
  refine ⟨?_, (advance s.shared e env h).handler, ?_, kept.2⟩
  · simp only [Server.step, turn]
    exact kept.1
  · simp only [Server.step, turn]
    exact List.getElem?_set_self inside

theorem step_lists {i : Nat} {s : State} (lists : Lists i s) (a : Action) :
    Lists i (Server.step s a) := by
  cases a with
  | request r client ackBuffer env =>
    obtain ⟨h, here, which⟩ := lists
    obtain ⟨inside, _⟩ := List.getElem?_eq_some_iff.mp here
    refine ⟨h, ?_, which⟩
    simp only [Server.step]
    rw [List.getElem?_append_left inside]
    exact here
  | turn j e env =>
    by_cases own : j = i
    · subst own
      exact (turn_lists lists e env).2
    · obtain ⟨h, here, which⟩ := lists
      refine ⟨h, ?_, which⟩
      simp only [Server.step]
      rw [List.getElem?_set_ne own]
      exact here

theorem turns_untouched {s t : State} {client : Addr} {ackBuffer : Buffer 4} {env : Environment}
    {acts : List Action} (run : Run machine (listed s client ackBuffer env) acts t) (e : Recv)
    (env' : Environment) : Untouched t (Server.step t (.turn s.handlers.length e env')) := by
  have lists : Lists s.handlers.length t :=
    Run.invariant (P := Lists s.handlers.length) (fun _ a _ lists => step_lists lists a) run
      (listed_lists s client ackBuffer env)
  have same := (turn_lists lists e env').1
  exact ⟨by rw [same], fun f _ => by rw [same]⟩

/-- In every reachable state a listing is read-only if and only if its file is nobody's. -/
theorem listing_read_only_iff {s₀ s : State} {acts : List Action} (initial : Initial s₀)
    (run : Run machine s₀ acts s) (client : Addr) (ackBuffer : Buffer 4) (env : Environment) :
    ReadOnly s client ackBuffer env ↔ Harmless s env := by
  rw [← listed_untouched_iff client ackBuffer (run_held initial run)]
  constructor
  · exact fun readOnly => readOnly.1
  · exact fun untouched => ⟨untouched, fun _ _ e env' run' _ => turns_untouched run' e env'⟩

/-- A server that has been started over one file. -/
def serving (filename : Name) : State := startedWith filename [7]

/-- The same server when a client has uploaded another file, in one block. -/
def uploaded : State :=
  step (step (serving [97]) (.request (.write [98]) ⟨1, 2⟩ (Buffer.zero 4) .ok))
    (.turn 0 (.datagram ⟨1, 2⟩ [0, 3, 0, 1, 8]) .ok)

theorem listing_read_only_iff_uploaded : ReadOnly uploaded ⟨1, 2⟩ (Buffer.zero 4) .ok ↔
    Harmless uploaded .ok := by
  have asks : Run machine (serving [97])
      ([] ++ [.request (.write [98]) ⟨1, 2⟩ (Buffer.zero 4) .ok])
      (step (serving [97]) (.request (.write [98]) ⟨1, 2⟩ (Buffer.zero 4) .ok)) :=
    .snoc (.refl _) ⟨by decide, trivial⟩
  have stores : Run machine (serving [97]) ([] ++ [.request (.write [98]) ⟨1, 2⟩ (Buffer.zero 4)
      .ok] ++ [.turn 0 (.datagram ⟨1, 2⟩ [0, 3, 0, 1, 8]) .ok]) uploaded :=
    .snoc asks ⟨by decide, _, rfl, rfl⟩
  exact listing_read_only_iff (startedWith_initial (by decide) [7]) stores ⟨1, 2⟩
    (Buffer.zero 4) .ok

/-- The content of a registered `ls.txt` is replaced by the listing. -/
theorem listing_overwrites : Initial (serving (text "ls.txt")) ∧
    ¬ ReadOnly (serving (text "ls.txt")) ⟨1, 2⟩ (Buffer.zero 4) .ok := by
  refine ⟨startedWith_initial (by decide) [7], fun readOnly => ?_⟩
  have kept := readOnly.1.contents (text "ls.txt") (by decide +kernel)
  revert kept
  decide +kernel

end TFTP.ListingEffects
