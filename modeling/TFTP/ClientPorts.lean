import Mathlib.Data.List.Perm.Basic
import TFTP.RequestGrammar

/-!
# The ports of the transfer threads

Every numbered request gets a thread, and every thread a socket of its own whose port is
the thread's number cut to sixteen bits. The numbers only grow: a request with a wrong mode
uses one up, and none is ever given back. A `bind` that fails takes the whole process down.
A thread comes to its `bind` some time after its creation, and lets go of the port at its
end. The host is shared: at every `bind` other processes, the clients of this machine among
them, hold ports of their own. Setting the timeout of a socket is taken to succeed, the
process may bind every port that nobody holds, and neither its descriptors nor the ports the
system picks from run out.
-/

namespace TFTP.ClientPorts

open Octets Packet Sockets Runs FileSystem Server Requests RequestGrammar

/-- `htons(clientId)`. -/
def portOf (clientId : Nat) : UInt16 := UInt16.ofNat clientId

def listeningPort : UInt16 := 69

/-- Nothing is promised once an `int` has overflowed. -/
inductive Life where
  | up
  | exited
  | undefined
  deriving DecidableEq

/-- A thread between its creation and its `bind`. -/
structure Starting where
  clientId : Nat
  request : Request
  client : Addr

/-- The socket of a thread and the port it was given. -/
structure Socket where
  clientId : Nat
  port : UInt16

/-- A call of `bind`, with the sockets of the handlers that run at that time and the ports
that other processes hold. -/
structure Binding where
  clientId : Nat
  running : List Socket
  held : List UInt16

/-- `sockets` goes along with the server's handlers; `bindings` tells the calls of `bind`. -/
structure System where
  server : State
  nextClientId : Nat
  starting : List Starting
  sockets : List Socket
  bindings : List Binding
  life : Life

/-- `free` is what the system picks for a thread that asks for port 0, and `held` are the
ports of other processes. -/
inductive Action where
  | listen (src : Addr) (d : List UInt8)
  | bind (k : Nat) (free : UInt16) (held : List UInt16) (ackBuffer : Buffer 4)
      (env : Environment)
  | turn (i : Nat) (e : Recv) (env : Environment)

def start (s : State) : System := ⟨s, 1, [], [], [], .up⟩

def running (t : System) : List Socket :=
  ((t.server.handlers.zip t.sockets).filter (·.1.active)).map (·.2)

def ports (sockets : List Socket) : List UInt16 := sockets.map (·.port)

def Enabled (t : System) (a : Action) : Prop :=
  t.life = .up ∧ .undefined ∉ t.server.handlers ∧
    match a with
    | .listen .. => True
    | .bind k free held _ _ => k < t.starting.length ∧ 0 ∉ held ∧ free ≠ 0 ∧
        free ≠ listeningPort ∧ free ∉ ports (running t) ∧ free ∉ held
    | .turn i e env => Server.Enabled t.server (.turn i e env)

/-- The port cannot be bound: it is the listening one, a running handler's, or that of
another process. -/
def Taken (t : System) (held : List UInt16) (clientId : Nat) : Prop :=
  portOf clientId = listeningPort ∨ portOf clientId ∈ ports (running t) ∨ portOf clientId ∈ held

instance (t : System) (held : List UInt16) (clientId : Nat) :
    Decidable (Taken t held clientId) := inferInstanceAs (Decidable (_ ∨ _ ∨ _))

/-- `9800 + nextClientId++`. -/
def takeNumber (t : System) : System :=
  { t with
    nextClientId := t.nextClientId + 1
    life := if 9800 + t.nextClientId < 2 ^ 31 then t.life else .undefined }

def step (t : System) : Action → System
  | .listen src d =>
    match heard d with
    | .starts r =>
      { takeNumber t with starting := t.starting ++ [⟨9800 + t.nextClientId, r, src⟩] }
    | .wrongMode => takeNumber t
    | .refused => t
    | .overread => { t with life := .undefined }
  | .bind k free held ackBuffer env =>
    match t.starting[k]? with
    | none => t
    | some thread =>
      let port := portOf thread.clientId
      let starting := t.starting.eraseIdx k
      let bindings := t.bindings ++ [⟨thread.clientId, running t, held⟩]
      if Taken t held thread.clientId then
        { t with starting, bindings, life := .exited }
      else
        { t with
          server := Server.step t.server (.request thread.request thread.client ackBuffer env)
          starting
          sockets := t.sockets ++ [⟨thread.clientId, if port = 0 then free else port⟩]
          bindings }
  | .turn i e env => { t with server := Server.step t.server (.turn i e env) }

def machine : Machine System Action := ⟨Enabled, step⟩

/-- The port asked for is none of the reserved ones and nobody's. -/
structure Binding.Usable (b : Binding) : Prop where
  asked : portOf b.clientId ≠ 0
  apart : portOf b.clientId ≠ listeningPort
  unused : portOf b.clientId ∉ ports b.running
  vacant : portOf b.clientId ∉ b.held

/-- Every port asked for so far was usable, and the server is up. -/
def PortsUsable (t : System) : Prop := t.life = .up ∧ ∀ b ∈ t.bindings, b.Usable

/-- The number is not one of two in 65536, no handler that runs is a multiple of 65536
requests older or younger, and no other process holds the port it comes to. -/
structure Binding.Spaced (b : Binding) : Prop where
  asked : b.clientId % 65536 ≠ 0
  apart : b.clientId % 65536 ≠ 69
  unused : ∀ s ∈ b.running, s.clientId % 65536 ≠ b.clientId % 65536
  vacant : ∀ p ∈ b.held, p.toNat ≠ b.clientId % 65536

/-- Numbers are spaced and stay in the range of `int`. -/
def Spaced (t : System) : Action → Prop
  | .listen _ d => heard d ≠ .refused → 9800 + t.nextClientId < 2 ^ 31
  | .bind k _ held .. => ∀ thread, t.starting[k]? = some thread →
      Binding.Spaced ⟨thread.clientId, running t, held⟩
  | .turn .. => True

theorem portOf_toNat (n : Nat) : (portOf n).toNat = n % 65536 := UInt16.toNat_ofNat'

theorem portOf_eq_iff (n m : Nat) : portOf n = portOf m ↔ n % 65536 = m % 65536 := by
  rw [← UInt16.toNat_inj, portOf_toNat, portOf_toNat]

theorem portOf_of_toNat {p : UInt16} {n : Nat} (same : p.toNat = n % 65536) : p = portOf n :=
  UInt16.toNat_inj.mp (same.trans (portOf_toNat n).symm)

/-- Every socket has the port of its number. -/
def Named (sockets : List Socket) : Prop := ∀ s ∈ sockets, s.port = portOf s.clientId

theorem usable_iff_spaced {b : Binding} (named : Named b.running) : b.Usable ↔ b.Spaced := by
  have asked := portOf_eq_iff b.clientId 0
  have apart := portOf_eq_iff b.clientId 69
  have vacant : portOf b.clientId ∈ b.held ↔ ∃ p ∈ b.held, p.toNat = b.clientId % 65536 :=
    ⟨fun mem => ⟨_, mem, portOf_toNat _⟩, fun ⟨p, mem, same⟩ => portOf_of_toNat same ▸ mem⟩
  have unused : portOf b.clientId ∈ ports b.running ↔
      ∃ s ∈ b.running, s.clientId % 65536 = b.clientId % 65536 := by
    rw [ports, List.mem_map]
    constructor
    · rintro ⟨s, mem, port⟩
      exact ⟨s, mem, (portOf_eq_iff _ _).mp ((named s mem).symm.trans port)⟩
    · rintro ⟨s, mem, same⟩
      exact ⟨s, mem, (named s mem).trans ((portOf_eq_iff _ _).mpr same)⟩
  constructor
  · intro usable
    exact ⟨fun zero => usable.asked (asked.mpr zero),
      fun reserved => usable.apart (apart.mpr reserved),
      fun s mem same => usable.unused (unused.mpr ⟨s, mem, same⟩),
      fun p mem same => usable.vacant (vacant.mpr ⟨p, mem, same⟩)⟩
  · intro spaced
    refine ⟨fun zero => spaced.asked (asked.mp zero), fun reserved =>
      spaced.apart (apart.mp reserved), fun mem => ?_, fun mem => ?_⟩
    · obtain ⟨s, mem, same⟩ := unused.mp mem
      exact spaced.unused s mem same
    · obtain ⟨p, mem, same⟩ := vacant.mp mem
      exact spaced.vacant p mem same

theorem mem_running {t : System} {s : Socket} (mem : s ∈ running t) : s ∈ t.sockets := by
  obtain ⟨⟨handler, socket⟩, found, rfl⟩ := List.mem_map.mp mem
  exact (List.of_mem_zip (List.mem_filter.mp found).1).2

theorem running_named {t : System} (named : Named t.sockets) : Named (running t) :=
  fun s mem => named s (mem_running mem)

/-- A datagram moves the counter at most. -/
theorem listen_frame (t : System) (src : Addr) (d : List UInt8) :
    (step t (.listen src d)).sockets = t.sockets ∧
      (step t (.listen src d)).bindings = t.bindings ∧ (t.life = .up →
        ((step t (.listen src d)).life = .up ↔
          (heard d ≠ .refused → 9800 + t.nextClientId < 2 ^ 31))) := by
  have number : t.life = .up →
      ((takeNumber t).life = .up ↔ 9800 + t.nextClientId < 2 ^ 31) := by
    intro live
    simp only [takeNumber]
    split_ifs with small
    · exact iff_of_true live small
    · exact iff_of_false nofun small
  simp only [step]
  cases outcome : heard d with
  | starts r => exact ⟨rfl, rfl, fun live => (number live).trans (by simp)⟩
  | wrongMode => exact ⟨rfl, rfl, fun live => (number live).trans (by simp)⟩
  | refused => exact ⟨rfl, rfl, fun live => by simp [live]⟩
  | overread => exact absurd outcome (heard_inside d)

/-- What a `bind` does: it fails and ends the server, or hands out a port. -/
theorem bind_cases {t : System} {k : Nat} {thread : Starting}
    (found : t.starting[k]? = some thread) (free : UInt16) (held : List UInt16)
    (ackBuffer : Buffer 4) (env : Environment) :
    (step t (.bind k free held ackBuffer env)).bindings =
        t.bindings ++ [⟨thread.clientId, running t, held⟩] ∧
      ((Taken t held thread.clientId ∧
          (step t (.bind k free held ackBuffer env)).life = .exited) ∨
        ((step t (.bind k free held ackBuffer env)).life = t.life ∧
          (step t (.bind k free held ackBuffer env)).sockets = t.sockets ++
            [⟨thread.clientId, if portOf thread.clientId = 0 then free
              else portOf thread.clientId⟩])) := by
  simp only [step, found]
  by_cases taken : Taken t held thread.clientId
  · rw [if_pos taken]
    exact ⟨rfl, Or.inl ⟨taken, rfl⟩⟩
  · rw [if_neg taken]
    exact ⟨rfl, Or.inr ⟨rfl, rfl⟩⟩

theorem enabled_thread {t : System} {k : Nat} {free : UInt16} {held : List UInt16}
    {ackBuffer : Buffer 4} {env : Environment}
    (enabled : Enabled t (.bind k free held ackBuffer env)) :
    ∃ thread, t.starting[k]? = some thread :=
  ⟨_, List.getElem?_eq_getElem enabled.2.2.1⟩

/-- While all ports were usable, every thread got the port it asked for. -/
theorem step_named {t : System} {a : Action} (enabled : Enabled t a)
    (usable : PortsUsable (step t a)) (named : Named t.sockets) : Named (step t a).sockets := by
  cases a with
  | listen src d =>
    rw [(listen_frame t src d).1]
    exact named
  | turn i e env => exact named
  | bind k free held ackBuffer env =>
    obtain ⟨thread, found⟩ := enabled_thread enabled
    obtain ⟨bindings, ⟨_, exited⟩ | ⟨_, sockets⟩⟩ := bind_cases found free held ackBuffer env
    · rw [PortsUsable, exited] at usable
      cases usable.1
    · have last := usable.2 ⟨thread.clientId, running t, held⟩ (by simp [bindings])
      rw [sockets, if_neg last.asked]
      intro s mem
      rcases List.mem_append.mp mem with mem | mem
      · exact named s mem
      · rw [List.mem_singleton.mp mem]

theorem step_usable {t : System} {a : Action} (enabled : Enabled t a) (spaced : Spaced t a)
    (usable : PortsUsable t) (named : Named t.sockets) : PortsUsable (step t a) := by
  cases a with
  | listen src d =>
    obtain ⟨_, bindings, life⟩ := listen_frame t src d
    rw [PortsUsable, bindings]
    exact ⟨(life usable.1).mpr spaced, usable.2⟩
  | turn i e env => exact usable
  | bind k free held ackBuffer env =>
    obtain ⟨thread, found⟩ := enabled_thread enabled
    have last := (usable_iff_spaced (running_named named)).mpr (spaced thread found)
    obtain ⟨bindings, ⟨taken, _⟩ | ⟨life, _⟩⟩ := bind_cases found free held ackBuffer env
    · exact absurd taken (not_or.mpr ⟨last.apart, not_or.mpr ⟨last.unused, last.vacant⟩⟩)
    · refine ⟨life.trans usable.1, fun b mem => ?_⟩
      rw [bindings] at mem
      rcases List.mem_append.mp mem with mem | mem
      · exact usable.2 b mem
      · rw [List.mem_singleton.mp mem]
        exact last

/-- A usable port tells that the step before was one the numbers allowed. -/
theorem step_spaced {t : System} {a : Action} (enabled : Enabled t a)
    (named : PortsUsable t → Named t.sockets) (usable : PortsUsable (step t a)) :
    Spaced t a ∧ PortsUsable t := by
  cases a with
  | listen src d =>
    obtain ⟨_, bindings, life⟩ := listen_frame t src d
    rw [PortsUsable, bindings] at usable
    exact ⟨(life enabled.1).mp usable.1, enabled.1, usable.2⟩
  | turn i e env => exact ⟨trivial, usable⟩
  | bind k free held ackBuffer env =>
    obtain ⟨thread, found⟩ := enabled_thread enabled
    obtain ⟨bindings, _⟩ := bind_cases found free held ackBuffer env
    have before : PortsUsable t :=
      ⟨enabled.1, fun b mem => usable.2 b (by rw [bindings]; exact List.mem_append_left _ mem)⟩
    refine ⟨fun thread' found' => ?_, before⟩
    obtain rfl := Option.some.inj (found.symm.trans found')
    have last := usable.2 ⟨thread.clientId, running t, held⟩ (by simp [bindings])
    exact (usable_iff_spaced (running_named (named before))).mp last

/-- The numbers in use, of threads before and behind their `bind`. -/
def numbers (t : System) : List Nat := t.starting.map (·.clientId) ++ t.sockets.map (·.clientId)

/-- Every number has been given out, and none twice. -/
structure Distinct (t : System) : Prop where
  given : ∀ n ∈ numbers t, 9800 < n ∧ n < 9800 + t.nextClientId
  once : (numbers t).Nodup
  counts : 0 < t.nextClientId

theorem Distinct.of_perm {t t' : System} (distinct : Distinct t)
    (perm : (numbers t').Perm (numbers t)) (counter : t'.nextClientId = t.nextClientId) :
    Distinct t' :=
  ⟨fun n mem => counter ▸ distinct.given n (perm.mem_iff.mp mem), perm.nodup_iff.mpr distinct.once,
    counter ▸ distinct.counts⟩

theorem takeNumber_distinct {t : System} (distinct : Distinct t) : Distinct (takeNumber t) := by
  refine ⟨fun n mem => ?_, distinct.once, Nat.succ_pos _⟩
  obtain ⟨above, below⟩ := distinct.given n mem
  exact ⟨above, Nat.lt_succ_of_lt below⟩

theorem step_distinct (t : System) (a : Action) (distinct : Distinct t) :
    Distinct (step t a) ∧ t.nextClientId ≤ (step t a).nextClientId := by
  cases a with
  | turn i e env => exact ⟨⟨distinct.given, distinct.once, distinct.counts⟩, Nat.le_refl _⟩
  | listen src d =>
    simp only [step]
    cases outcome : heard d with
    | starts r =>
      have counted := takeNumber_distinct distinct
      have counts := distinct.counts
      refine ⟨⟨fun n mem => ?_, ?_, Nat.succ_pos _⟩, Nat.le_succ _⟩
      · simp only [numbers, List.map_append, List.map_cons, List.map_nil, List.mem_append,
          List.mem_singleton] at mem
        rcases mem with (mem | rfl) | mem
        · exact counted.given n (List.mem_append_left _ mem)
        · change 9800 < 9800 + t.nextClientId ∧ _ < 9800 + (t.nextClientId + 1)
          omega
        · exact counted.given n (List.mem_append_right _ mem)
      · have new : 9800 + t.nextClientId ∉ numbers t :=
          fun mem => Nat.lt_irrefl _ (distinct.given _ mem).2
        have perm : ((9800 + t.nextClientId) :: numbers t).Perm (numbers
            { takeNumber t with starting := t.starting ++ [⟨9800 + t.nextClientId, r, src⟩] }) := by
          simp only [numbers, List.map_append, List.map_cons, List.map_nil, List.append_assoc,
            List.singleton_append]
          exact List.perm_middle.symm
        exact perm.nodup_iff.mp (List.nodup_cons.mpr ⟨new, distinct.once⟩)
    | wrongMode => exact ⟨takeNumber_distinct distinct, Nat.le_succ _⟩
    | refused => exact ⟨distinct, Nat.le_refl _⟩
    | overread =>
      exact ⟨⟨distinct.given, distinct.once, distinct.counts⟩, Nat.le_refl _⟩
  | bind k free held ackBuffer env =>
    simp only [step]
    cases found : t.starting[k]? with
    | none => exact ⟨distinct, Nat.le_refl _⟩
    | some thread =>
      obtain ⟨inside, rfl⟩ := List.getElem?_eq_some_iff.mp found
      have moved : ((t.starting.get ⟨k, inside⟩).clientId ::
          ((t.starting.eraseIdx k).map (·.clientId) ++ t.sockets.map (·.clientId))).Perm
            (numbers t) :=
        ((List.getElem_cons_eraseIdx_perm inside).map (·.clientId)).append_right _
      dsimp only
      split_ifs with taken
      · -- the thread's number goes with it
        have rest := List.nodup_cons.mp (moved.nodup_iff.mpr distinct.once)
        exact ⟨⟨fun n mem => distinct.given n (moved.mem_iff.mp (List.mem_cons_of_mem _ mem)),
          rest.2, distinct.counts⟩, Nat.le_refl _⟩
      all_goals
        refine ⟨distinct.of_perm (List.Perm.trans ?_ moved) rfl, Nat.le_refl _⟩
        simp only [numbers, List.map_append, List.map_cons, List.map_nil, ← List.append_assoc]
        exact List.perm_append_singleton _ _

/-- No other process holds the port that a thread asks for. -/
def Vacant (t : System) : Action → Prop
  | .bind k _ held .. => ∀ thread, t.starting[k]? = some thread → portOf thread.clientId ∉ held
  | .listen .. | .turn .. => True

/-- The first 55735 numbers are spaced whatever the order of arrivals and completions. -/
theorem Distinct.spaced {t : System} {a : Action} (distinct : Distinct t) (vacant : Vacant t a)
    (few : t.nextClientId ≤ 55736) : Spaced t a := by
  cases a with
  | listen src d => exact fun _ => by omega
  | turn i e env => trivial
  | bind k free held ackBuffer env =>
    intro thread found
    have mem : thread.clientId ∈ t.starting.map (·.clientId) :=
      List.mem_map_of_mem (List.mem_of_getElem? found)
    obtain ⟨above, below⟩ := distinct.given _ (List.mem_append_left _ mem)
    have self : thread.clientId % 65536 = thread.clientId := Nat.mod_eq_of_lt (by omega)
    refine ⟨?_, ?_, fun other runs same => ?_, fun p mem same => ?_⟩
    · dsimp only
      omega
    · dsimp only
      omega
    · have mem' : other.clientId ∈ t.sockets.map (·.clientId) :=
        List.mem_map_of_mem (mem_running runs)
      obtain ⟨_, below'⟩ := distinct.given _ (List.mem_append_right _ mem')
      have self' : other.clientId % 65536 = other.clientId := Nat.mod_eq_of_lt (by omega)
      dsimp only at same
      rw [self, self'] at same
      exact (List.nodup_append.mp distinct.once).2.2 _ mem _ mem' same.symm
    · exact vacant thread found (portOf_of_toNat same ▸ mem)

theorem run_named {s : State} {acts : List Action} {t : System}
    (run : Run machine (start s) acts t) : PortsUsable t → Named t.sockets := by
  have none : PortsUsable (start s) → Named (start s).sockets := fun _ s mem => nomatch mem
  refine run.invariant (P := fun t => PortsUsable t → Named t.sockets)
    (fun u a enabled named usable => ?_) none
  exact step_named enabled usable (named (step_spaced enabled named usable).2)

/-- In every run of the server all threads ask for usable ports, and the server stays up, if
and only if at every step the numbers of the requests were spaced and led to no port that
another process held. -/
theorem ports_usable_iff {s : State} {acts : List Action} {t : System}
    (run : Run machine (start s) acts t) :
    PortsUsable t ↔ Run (machine.restrict Spaced) (start s) acts t := by
  constructor
  · exact run.restrict fun acts u a before enabled usable =>
      step_spaced enabled (run_named before) usable
  · intro spaced
    have first : PortsUsable (start s) ∧ Named (start s).sockets :=
      ⟨⟨rfl, fun b mem => nomatch mem⟩, fun s mem => nomatch mem⟩
    have kept : PortsUsable t ∧ Named t.sockets := by
      refine spaced.invariant (P := fun t => PortsUsable t ∧ Named t.sockets)
        (fun u a enabled kept => ?_) first
      have usable := step_usable enabled.1 enabled.2 kept.1 kept.2
      exact ⟨usable, step_named enabled.1 usable kept.2⟩
    exact kept.1

/-- Up to 55735 numbered requests nothing can go wrong but a port that another process has. -/
theorem early_ports_usable {s : State} {acts : List Action} {t : System}
    (run : Run (machine.restrict Vacant) (start s) acts t) (few : t.nextClientId ≤ 55736) :
    PortsUsable t := by
  have first : Distinct (start s) :=
    ⟨fun n mem => absurd mem List.not_mem_nil, List.nodup_nil, Nat.one_pos⟩
  have named : Named (start s).sockets := fun s mem => nomatch mem
  have kept : Distinct t ∧ (t.nextClientId ≤ 55736 → PortsUsable t ∧ Named t.sockets) := by
    refine run.invariant
      (P := fun t => Distinct t ∧ (t.nextClientId ≤ 55736 → PortsUsable t ∧ Named t.sockets))
      (fun u a enabled kept => ?_) ⟨first, fun _ => ⟨⟨rfl, fun b mem => nomatch mem⟩, named⟩⟩
    obtain ⟨distinct, more⟩ := step_distinct u a kept.1
    refine ⟨distinct, fun few => ?_⟩
    have before := Nat.le_trans more few
    obtain ⟨usable, named⟩ := kept.2 before
    have usable' := step_usable enabled.1 (kept.1.spaced enabled.2 before) usable named
    exact ⟨usable', step_named enabled.1 usable' named⟩
  exact (kept.2 few).1

def missing : Name := text "x"

/-- A DELETE for a file that is not there, as it comes from the client. -/
def missingRequest : List UInt8 := requestDatagram (.delete missing)

theorem heard_missing : heard missingRequest = .starts (.delete missing) :=
  Named.delete.hears_grammar (Named.delete.datagram_fits (by decide) (by decide))
    (Named.delete.datagram_grammar (by decide))

/-- A server that has served so many requests and waits for the next one. -/
structure Waits (s : State) (k : Nat) (t : System) : Prop where
  counted : t.nextClientId = k + 1
  started : t.starting = []
  shared : t.server.shared = s.shared
  idle : ∀ h ∈ t.server.handlers, h = .done
  live : t.life = .up

theorem Waits.running_nil {s : State} {k : Nat} {t : System} (waits : Waits s k t) :
    running t = [] := by
  rw [running, List.map_eq_nil_iff, List.filter_eq_nil_iff]
  rintro ⟨h, socket⟩ mem
  rw [waits.idle h (List.of_mem_zip mem).1]
  exact Bool.false_ne_true

theorem Waits.defined {s : State} {k : Nat} {t : System} (waits : Waits s k t) :
    .undefined ∉ t.server.handlers :=
  fun mem => nomatch waits.idle _ mem

theorem Waits.enabled {s : State} {k : Nat} {t : System} (waits : Waits s k t) (src : Addr)
    (d : List UInt8) : Enabled t (.listen src d) :=
  ⟨waits.live, waits.defined, trivial⟩

/-- One more request for the missing file is heard, and its thread asks for a port. -/
theorem Waits.asks {s : State} {k : Nat} {t : System} (waits : Waits s k t)
    (few : 9800 + (k + 1) < 2 ^ 31) (src : Addr) {held : List UInt16} (zero : 0 ∉ held)
    (one : 1 ∉ held) (ackBuffer : Buffer 4) (env : Environment) :
    let u := step t (.listen src missingRequest)
    u = { t with
          nextClientId := k + 2
          starting := [⟨9800 + (k + 1), .delete missing, src⟩] } ∧
      Enabled u (.bind 0 1 held ackBuffer env) := by
  have heard : step t (.listen src missingRequest) =
      { t with
        nextClientId := k + 2
        starting := [⟨9800 + (k + 1), .delete missing, src⟩] } := by
    simp only [step, heard_missing, takeNumber, waits.counted, waits.started, if_pos few,
      List.nil_append]
  refine ⟨heard, ?_⟩
  rw [heard]
  have none : ports (running t) = [] := by
    rw [waits.running_nil]
    rfl
  refine ⟨waits.live, waits.defined, Nat.one_pos, zero, by decide, by decide, ?_, one⟩
  change 1 ∉ ports (running t)
  rw [none]
  exact List.not_mem_nil

theorem Waits.run_serves {s : State} {k : Nat} {t : System} {acts : List Action}
    (waits : Waits s k t) (run : Run machine (start s) acts t) {src : Addr} {a : Action}
    (enabled : Enabled (step t (.listen src missingRequest)) a) :
    Run machine (start s) (acts ++ [.listen src missingRequest] ++ [a])
      (step (step t (.listen src missingRequest)) a) := by
  have hears : Run machine (start s) (acts ++ [.listen src missingRequest])
      (step t (.listen src missingRequest)) := .snoc run (waits.enabled src missingRequest)
  exact .snoc hears enabled

theorem delete_missing {s : State} (unlisted : missing ∉ s.shared.files) (client : Addr)
    (ackBuffer : Buffer 4) (env : Environment) :
    (Server.step s (.request (.delete missing) client ackBuffer env)).shared = s.shared ∧
      (Server.step s (.request (.delete missing) client ackBuffer env)).handlers =
        s.handlers ++ [.done] := by
  have absent : fileExists missing s.shared.files = false :=
    Bool.eq_false_iff.mpr (fileExists_iff.not.mpr unlisted)
  have turn : handleDeleteRequest s.shared missing client env =
      refuse s.shared [] (sendError client errorFileNotFound "File not found") := by
    simp only [handleDeleteRequest, absent, Bool.false_eq_true, not_false_eq_true, if_true]
  simp only [Server.step, turnOf, begin, turn, refuse, and_self]

/-- With no handler at work a port is the listening one's, another process's, or free. -/
theorem Waits.taken_iff {s : State} {k : Nat} {t : System} (waits : Waits s k t)
    (nextClientId : Nat) (starting : List Starting) (held : List UInt16) (clientId : Nat) :
    Taken { t with nextClientId, starting } held clientId ↔
      portOf clientId = listeningPort ∨ portOf clientId ∈ held := by
  have none : portOf clientId ∉ ports (running t) := by
    rw [waits.running_nil]
    exact List.not_mem_nil
  exact or_congr_right (or_iff_right none)

/-- A thread whose port is free serves its request and ends. -/
theorem Waits.serves {s : State} {k : Nat} {t : System} (waits : Waits s k t)
    (unlisted : missing ∉ s.shared.files) (few : k + 1 < 55805) (src : Addr)
    {held : List UInt16} (zero : 0 ∉ held) (one : 1 ∉ held)
    (vacant : portOf (9800 + (k + 1)) ∉ held) (ackBuffer : Buffer 4) (env : Environment) :
    Waits s (k + 1)
      (step (step t (.listen src missingRequest)) (.bind 0 1 held ackBuffer env)) := by
  rw [(waits.asks (by omega) src zero one ackBuffer env).1]
  have other : portOf (9800 + (k + 1)) ≠ listeningPort := by
    intro same
    have value := (portOf_eq_iff _ 69).mp same
    omega
  have untaken := (waits.taken_iff (k + 2) [⟨9800 + (k + 1), .delete missing, src⟩] held
    (9800 + (k + 1))).not.mpr (not_or.mpr ⟨other, vacant⟩)
  obtain ⟨shared, handlers⟩ := delete_missing (s := t.server) (by rwa [waits.shared]) src
    ackBuffer env
  simp only [step, List.getElem?_cons_zero, if_neg untaken]
  refine ⟨rfl, rfl, shared.trans waits.shared, fun h mem => ?_, waits.live⟩
  rw [handlers] at mem
  exact (List.mem_append.mp mem).elim (waits.idle h) List.mem_singleton.mp

/-- A thread whose port is not free ends the server. -/
theorem Waits.exits {s : State} {k : Nat} {t : System} (waits : Waits s k t)
    (few : 9800 + (k + 1) < 2 ^ 31) (src : Addr) {held : List UInt16} (zero : 0 ∉ held)
    (one : 1 ∉ held)
    (taken : portOf (9800 + (k + 1)) = listeningPort ∨ portOf (9800 + (k + 1)) ∈ held)
    (ackBuffer : Buffer 4) (env : Environment) :
    (step (step t (.listen src missingRequest)) (.bind 0 1 held ackBuffer env)).life =
      .exited := by
  rw [(waits.asks few src zero one ackBuffer env).1]
  have meets := (waits.taken_iff (k + 2) [⟨9800 + (k + 1), .delete missing, src⟩] held
    (9800 + (k + 1))).mpr taken
  simp only [step, List.getElem?_cons_zero, if_pos meets]

theorem start_waits {s : State} (idle : s.handlers = []) : Waits s 0 (start s) := by
  refine ⟨rfl, rfl, rfl, fun h mem => ?_, rfl⟩
  rw [start, idle] at mem
  cases mem

/-- The ports are none that the first 55805 threads ask for. -/
def Aside (held : List UInt16) : Prop := ∀ p ∈ held, 69 < p.toNat ∧ p.toNat < 9801

theorem Aside.vacant {held : List UInt16} (aside : Aside held) {k : Nat} (few : k < 55805) :
    portOf (9800 + (k + 1)) ∉ held := by
  intro mem
  obtain ⟨above, below⟩ := aside _ mem
  rw [portOf_toNat] at above below
  omega

theorem Aside.unreserved {held : List UInt16} (aside : Aside held) : 0 ∉ held ∧ 1 ∉ held :=
  ⟨fun mem => absurd (aside 0 mem).1 (by decide), fun mem => absurd (aside 1 mem).1 (by decide)⟩

theorem serves {s : State} (idle : s.handlers = []) (unlisted : missing ∉ s.shared.files)
    (src : Addr) {held : List UInt16} (aside : Aside held) {k : Nat} (few : k < 55805) :
    ∃ acts t, Run machine (start s) acts t ∧ Waits s k t := by
  obtain ⟨zero, one⟩ := aside.unreserved
  induction k with
  | zero => exact ⟨[], _, .refl _, start_waits idle⟩
  | succ k ih =>
    obtain ⟨acts, t, run, waits⟩ := ih (Nat.lt_of_succ_lt few)
    have enabled := (waits.asks (by omega) src zero one (Buffer.zero 4) .ok).2
    exact ⟨_, _, waits.run_serves run enabled, waits.serves unlisted few src zero one
      (aside.vacant (Nat.lt_of_succ_lt few)) (Buffer.zero 4) .ok⟩

/-- A request whose number comes to the listening port, as the 55805th does, or to a port
that another process holds by then, ends the server. -/
theorem server_exits {s : State} (idle : s.handlers = []) (unlisted : missing ∉ s.shared.files)
    (src : Addr) {before : List UInt16} (aside : Aside before) {k : Nat} (few : k < 55805)
    {held : List UInt16} (zero : 0 ∉ held) (one : 1 ∉ held)
    (taken : portOf (9800 + (k + 1)) = listeningPort ∨ portOf (9800 + (k + 1)) ∈ held) :
    ∃ acts t, Run machine (start s) acts t ∧ t.life = .exited := by
  obtain ⟨acts, t, run, waits⟩ := serves idle unlisted src aside few
  have enabled := (waits.asks (by omega) src zero one (Buffer.zero 4) .ok).2
  exact ⟨_, _, waits.run_serves run enabled,
    waits.exits (by omega) src zero one taken (Buffer.zero 4) .ok⟩

/-- One request, served on port 9801 while its client holds port 40000. -/
theorem ports_usable_iff_one_request :
    let s := startedWith (text "f") []
    let acts : List Action := [.listen ⟨0x7F000001, 40000⟩ missingRequest,
      .bind 0 1 [40000] (Buffer.zero 4) .ok]
    let t := step (step (start s) (.listen ⟨0x7F000001, 40000⟩ missingRequest))
      (.bind 0 1 [40000] (Buffer.zero 4) .ok)
    PortsUsable t ↔ Run (machine.restrict Spaced) (start s) acts t := by
  have waits := start_waits (s := startedWith (text "f") []) rfl
  exact ports_usable_iff (waits.run_serves (.refl _)
    (waits.asks (by decide) ⟨0x7F000001, 40000⟩ (by decide) (by decide) (Buffer.zero 4) .ok).2)

/-- A DELETE for a missing file, 55805 times from the port of the client, takes the server
down. -/
theorem listening_port_asked : ¬ ∀ (s : State) (acts : List Action) (t : System), Initial s →
    Run machine (start s) acts t → PortsUsable t := by
  intro usable
  have initial : Initial (startedWith (text "f") []) := startedWith_initial (by decide) []
  have aside : Aside [9799] := by
    intro p mem
    rw [List.mem_singleton.mp mem]
    decide
  have reserved : portOf (9800 + (55804 + 1)) = listeningPort := (portOf_eq_iff _ 69).mpr rfl
  obtain ⟨acts, t, run, exited⟩ := server_exits initial.idle (by decide) ⟨0x7F000001, 9799⟩
    aside (by decide) aside.unreserved.1 aside.unreserved.2 (Or.inl reserved)
  have up := (usable _ acts t initial run).1
  rw [exited] at up
  cases up

end TFTP.ClientPorts
