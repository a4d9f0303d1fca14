import TFTP.ClientPorts
import TFTP.Library.Simulation

/-!
# Requests between the listening socket and the handlers

The listening socket turns datagrams into threads, a thread binds its port some time later
and only then does what its request asks for. Seen from the map and the disk, the server
handles requests in the order of the binds: those that the datagrams carried, each once.
-/

namespace TFTP.FrontDoor

open Octets Packet Sockets Runs FileSystem Server Requests RequestGrammar

/-- What a step of the server at its sockets does to the map, the disk and the handlers. -/
def handles (t : ClientPorts.System) : ClientPorts.Action → Option Server.Action
  | .listen _ _ => none
  | .bind k _ held ackBuffer env =>
    match t.starting[k]? with
    | none => none
    | some thread =>
      if ClientPorts.Taken t held thread.clientId then none
      else some (.request thread.request thread.client ackBuffer env)
  | .turn i e env => some (.turn i e env)

theorem listen_server (t : ClientPorts.System) (src : Addr) (d : List UInt8) :
    (ClientPorts.step t (.listen src d)).server = t.server := by
  simp only [ClientPorts.step]
  cases heard d <;> rfl

/-- A thread that gets its port serves its request. -/
theorem bind_serves {t : ClientPorts.System} {k : Nat} {thread : ClientPorts.Starting}
    (found : t.starting[k]? = some thread) (free : UInt16) (held : List UInt16)
    (ackBuffer : Buffer 4) (env : Environment)
    (unused : ¬ ClientPorts.Taken t held thread.clientId) :
    handles t (.bind k free held ackBuffer env) =
        some (.request thread.request thread.client ackBuffer env) ∧
      (ClientPorts.step t (.bind k free held ackBuffer env)).server =
        Server.step t.server (.request thread.request thread.client ackBuffer env) := by
  constructor
  · simp only [handles, found, if_neg unused]
  · simp only [ClientPorts.step, found, if_neg unused]

theorem bind_fails {t : ClientPorts.System} {k : Nat} {thread : ClientPorts.Starting}
    (found : t.starting[k]? = some thread) (free : UInt16) (held : List UInt16)
    (ackBuffer : Buffer 4) (env : Environment)
    (taken : ClientPorts.Taken t held thread.clientId) :
    handles t (.bind k free held ackBuffer env) = none ∧
      (ClientPorts.step t (.bind k free held ackBuffer env)).server = t.server ∧
      (ClientPorts.step t (.bind k free held ackBuffer env)).life = .exited := by
  refine ⟨by simp only [handles, found, if_pos taken], ?_⟩
  simp only [ClientPorts.step, found, if_pos taken, and_self]

def projection : Projection ClientPorts.machine Server.machine where
  view := ClientPorts.System.server
  act := handles
  enabled := by
    intro t a b enabled moves
    obtain ⟨_, sound, rest⟩ := enabled
    cases a with
    | listen src d => cases moves
    | bind k free held ackBuffer env =>
      obtain ⟨thread, found⟩ : ∃ thread, t.starting[k]? = some thread :=
        ⟨_, List.getElem?_eq_getElem rest.1⟩
      by_cases taken : ClientPorts.Taken t held thread.clientId
      · rw [(bind_fails found free held ackBuffer env taken).1] at moves
        cases moves
      · rw [(bind_serves found free held ackBuffer env taken).1] at moves
        obtain rfl := Option.some.inj moves
        exact ⟨sound, trivial⟩
    | turn i e env =>
      obtain rfl := Option.some.inj moves
      exact rest
  step := by
    intro t a b enabled moves
    cases a with
    | listen src d => cases moves
    | bind k free held ackBuffer env =>
      obtain ⟨thread, found⟩ : ∃ thread, t.starting[k]? = some thread :=
        ⟨_, List.getElem?_eq_getElem enabled.2.2.1⟩
      by_cases taken : ClientPorts.Taken t held thread.clientId
      · rw [(bind_fails found free held ackBuffer env taken).1] at moves
        cases moves
      · obtain ⟨acts, serves⟩ := bind_serves found free held ackBuffer env taken
        obtain rfl := Option.some.inj (acts.symm.trans moves)
        exact serves
    | turn i e env =>
      obtain rfl := Option.some.inj moves
      rfl
  still := by
    intro t a enabled moves
    cases a with
    | listen src d => exact listen_server t src d
    | bind k free held ackBuffer env =>
      obtain ⟨thread, found⟩ : ∃ thread, t.starting[k]? = some thread :=
        ⟨_, List.getElem?_eq_getElem enabled.2.2.1⟩
      by_cases taken : ClientPorts.Taken t held thread.clientId
      · exact (bind_fails found free held ackBuffer env taken).2.1
      · rw [(bind_serves found free held ackBuffer env taken).1] at moves
        cases moves
    | turn i e env => cases moves

/-- The requests that the datagrams at the listening socket carry, with who asks. -/
def asked (acts : List ClientPorts.Action) : List (Request × Addr) :=
  acts.filterMap fun
    | .listen src d =>
      match heard d with
      | .starts r => some (r, src)
      | _ => none
    | _ => none

/-- The requests that are handled. -/
def served (acts : List Server.Action) : List (Request × Addr) :=
  acts.filterMap fun
    | .request r client _ _ => some (r, client)
    | .turn .. => none

/-- The requests whose threads have no port yet. -/
def waiting (t : ClientPorts.System) : List (Request × Addr) :=
  t.starting.map fun thread => (thread.request, thread.client)

/-- The datagram is a request. -/
def Carries (d : List UInt8) (r : Request) : Prop :=
  r = .list ∧ [0, 7] <+: d ∨ ∃ op make f, Named op make ∧ r = make f ∧ Grammar op f d

theorem carries_of_heard {d : List UInt8} {r : Request} (starts : heard d = .starts r) :
    d.length ≤ 516 ∧ Carries d r := by
  have fits : d.length ≤ 516 := by
    by_contra long
    have oversized : received 1024 d > 516 := by
      rw [received]
      omega
    rw [heard, if_pos oversized] at starts
    cases starts
  refine ⟨fits, ?_⟩
  rcases every_request r with rfl | ⟨op, make, f, named, rfl⟩
  · exact Or.inl ⟨rfl, (heard_list_iff fits).mp starts⟩
  · exact Or.inr ⟨op, make, f, named, rfl, (named.heard_iff fits f).mp starts⟩

theorem asked_append (as bs : List ClientPorts.Action) :
    asked (as ++ bs) = asked as ++ asked bs := List.filterMap_append

theorem served_append (as bs : List Server.Action) :
    served (as ++ bs) = served as ++ served bs := List.filterMap_append

theorem mem_asked {acts : List ClientPorts.Action} {r : Request} {client : Addr}
    (mem : (r, client) ∈ asked acts) :
    ∃ d, .listen client d ∈ acts ∧ d.length ≤ 516 ∧ Carries d r := by
  obtain ⟨a, there, carried⟩ := List.mem_filterMap.mp mem
  cases a with
  | listen src d =>
    cases outcome : heard d with
    | starts r' =>
      simp only [outcome, Option.some.injEq, Prod.mk.injEq] at carried
      obtain ⟨rfl, rfl⟩ := carried
      exact ⟨d, there, carries_of_heard outcome⟩
    | _ => simp [outcome] at carried
  | bind k free held ackBuffer env => cases carried
  | turn i e env => cases carried

/-- What was asked for is handled, waits, or is lost to the `bind` that ends the server. -/
structure Balanced (t : ClientPorts.System) (before after lost : List (Request × Addr)) :
    Prop where
  perm : (after ++ waiting t ++ lost).Perm before
  last : lost.length ≤ 1
  fatal : t.life ≠ .exited → lost = []

theorem listen_balanced (t : ClientPorts.System) (src : Addr) (d : List UInt8) :
    Balanced (ClientPorts.step t (.listen src d)) (waiting t ++ asked [.listen src d])
      (served (handles t (.listen src d)).toList) [] := by
  have moved : waiting (ClientPorts.step t (.listen src d)) =
      waiting t ++ asked [.listen src d] := by
    simp only [waiting, asked, ClientPorts.step, List.filterMap_cons, List.filterMap_nil]
    cases heard d with
    | starts r => simp only [List.map_append, List.map_cons, List.map_nil]
    | wrongMode => exact (List.append_nil _).symm
    | refused => exact (List.append_nil _).symm
    | overread => exact (List.append_nil _).symm
  refine ⟨?_, Nat.zero_le 1, fun _ => rfl⟩
  rw [moved, List.append_nil]
  exact List.Perm.refl _

/-- A thread leaves the waiting ones, served or lost. -/
theorem waiting_eraseIdx {t : ClientPorts.System} {k : Nat} {thread : ClientPorts.Starting}
    (found : t.starting[k]? = some thread) :
    ((thread.request, thread.client) ::
      (t.starting.eraseIdx k).map fun thread => (thread.request, thread.client)).Perm
        (waiting t) := by
  obtain ⟨inside, rfl⟩ := List.getElem?_eq_some_iff.mp found
  exact (List.getElem_cons_eraseIdx_perm inside).map fun thread => (thread.request, thread.client)

theorem bind_balanced {t : ClientPorts.System} {k : Nat} {thread : ClientPorts.Starting}
    (found : t.starting[k]? = some thread) (free : UInt16) (held : List UInt16)
    (ackBuffer : Buffer 4) (env : Environment) :
    ∃ lost, Balanced (ClientPorts.step t (.bind k free held ackBuffer env)) (waiting t)
      (served (handles t (.bind k free held ackBuffer env)).toList) lost := by
  have leaves := waiting_eraseIdx found
  by_cases taken : ClientPorts.Taken t held thread.clientId
  · obtain ⟨nothing, _, exited⟩ := bind_fails found free held ackBuffer env taken
    have rest : (ClientPorts.step t (.bind k free held ackBuffer env)).starting =
        t.starting.eraseIdx k := by
          simp only [ClientPorts.step, found, if_pos taken]
    refine ⟨[(thread.request, thread.client)], ?_, Nat.le_refl 1, fun up => absurd exited up⟩
    rw [nothing, waiting, rest]
    exact (List.perm_append_singleton _ _).trans leaves
  · obtain ⟨serves, _⟩ := bind_serves found free held ackBuffer env taken
    have rest : (ClientPorts.step t (.bind k free held ackBuffer env)).starting =
        t.starting.eraseIdx k := by
          simp only [ClientPorts.step, found, if_neg taken]
    refine ⟨[], ?_, Nat.zero_le 1, fun _ => rfl⟩
    rw [serves, waiting, rest, List.append_nil]
    exact leaves

theorem step_balanced {t : ClientPorts.System} {a : ClientPorts.Action}
    (enabled : ClientPorts.Enabled t a) :
    ∃ lost, Balanced (ClientPorts.step t a) (waiting t ++ asked [a])
      (served (handles t a).toList) lost := by
  cases a with
  | listen src d => exact ⟨[], listen_balanced t src d⟩
  | bind k free held ackBuffer env =>
    obtain ⟨thread, found⟩ := ClientPorts.enabled_thread enabled
    obtain ⟨lost, balanced⟩ := bind_balanced found free held ackBuffer env
    refine ⟨lost, ?_⟩
    rw [show asked [.bind k free held ackBuffer env] = [] from rfl, List.append_nil]
    exact balanced
  | turn i e env =>
    refine ⟨[], ?_, Nat.zero_le 1, fun _ => rfl⟩
    rw [show asked [.turn i e env] = [] from rfl, List.append_nil, List.append_nil]
    exact List.Perm.refl _

theorem run_balanced {s : State} {acts : List ClientPorts.Action} {t : ClientPorts.System}
    (run : Run ClientPorts.machine (ClientPorts.start s) acts t) :
    ∃ lost, Balanced t (asked acts)
      (served (projection.acts (ClientPorts.start s) acts)) lost := by
  induction run with
  | refl => exact ⟨[], List.Perm.refl _, Nat.zero_le 1, fun _ => rfl⟩
  | @snoc t acts a before enabled ih =>
    obtain ⟨lost, balanced⟩ := ih
    have up : t.life ≠ .exited := by
      rw [enabled.1]
      decide
    obtain rfl := balanced.fatal up
    obtain ⟨lost, step⟩ := step_balanced enabled
    refine ⟨lost, ?_, step.last, step.fatal⟩
    rw [projection.acts_snoc before, served_append, asked_append]
    have before : (served (projection.acts (ClientPorts.start s) acts) ++ waiting t).Perm
        (asked acts) := by
      rw [← List.append_nil (_ ++ _)]
      exact balanced.perm
    have later := step.perm.append_left (served (projection.acts (ClientPorts.start s) acts))
    have earlier := before.append_right (asked [a])
    simp only [List.append_assoc] at later earlier ⊢
    exact later.trans earlier

/-- Whatever the order in which datagrams arrive, threads bind and handlers move, the map,
the disk and the handlers go through a run of the server that handles, each once and for the
client that sent it, requests that datagrams carried. The other requests are those of the
threads that have not come to their `bind`, and the one whose `bind` ended the server. -/
theorem requests_served_once {s : State} {acts : List ClientPorts.Action}
    {t : ClientPorts.System} (run : Run ClientPorts.machine (ClientPorts.start s) acts t) :
    ∃ inner lost, Run Server.machine s inner t.server ∧
      (served inner ++ waiting t ++ lost).Perm (asked acts) ∧ lost.length ≤ 1 ∧
      (t.life ≠ .exited → lost = []) ∧
      ∀ r client, (r, client) ∈ served inner →
        ∃ d, .listen client d ∈ acts ∧ d.length ≤ 516 ∧ Carries d r := by
  obtain ⟨lost, balanced⟩ := run_balanced run
  refine ⟨_, lost, projection.run run, balanced.perm, balanced.last, balanced.fatal, ?_⟩
  intro r client mem
  exact mem_asked (balanced.perm.mem_iff.mp
    (List.mem_append_left _ (List.mem_append_left _ mem)))

/-- A DELETE from one client, heard and served. -/
theorem requests_served_once_delete :
    let s := startedWith (text "f") []
    let src : Addr := ⟨0x7F000001, 40000⟩
    let acts : List ClientPorts.Action := [.listen src ClientPorts.missingRequest,
      .bind 0 1 [40000] (Buffer.zero 4) .ok]
    let t := ClientPorts.step
      (ClientPorts.step (ClientPorts.start s) (.listen src ClientPorts.missingRequest))
      (.bind 0 1 [40000] (Buffer.zero 4) .ok)
    ∃ inner lost, Run Server.machine s inner t.server ∧
      (served inner ++ waiting t ++ lost).Perm (asked acts) ∧ lost.length ≤ 1 ∧
      (t.life ≠ .exited → lost = []) ∧
      ∀ r client, (r, client) ∈ served inner →
        ∃ d, .listen client d ∈ acts ∧ d.length ≤ 516 ∧ Carries d r := by
  have waits := ClientPorts.start_waits (s := startedWith (text "f") []) rfl
  exact requests_served_once (waits.run_serves (.refl _)
    (waits.asks (by decide) ⟨0x7F000001, 40000⟩ (by decide) (by decide)
      (Buffer.zero 4) .ok).2)

end TFTP.FrontDoor
