import TFTP.StoreRefinement

/-!
# Reads are isolated

From its request to its end, a thread that serves a READ sends what it would send alone
over the content the name was registered with, given the datagrams and timeouts that
reach its own socket. Nothing the other threads do shows, as long as they keep to what the
store does too: plain names, no listings, no overlapping uploads of one name.
-/

namespace TFTP.ReadIsolation

open Octets Packet Sockets FileSystem Runs Server Immutability StoreRefinement

/-- A sender over a content that nobody else can reach; a read may fail at any time. -/
def loneReader (client : Addr) (content : List UInt8) :
    Reactor SendLoop (Recv × Environment) Effect where
  running := fun loop => decide (loop.status = .sending)
  react := fun loop e => readStep client (Store.visible e.2 content) loop e.1 e.2.io

/-- What reaches the socket of thread `i`. -/
def heardBy (i : Nat) : Action → Option (Recv × Environment)
  | .request .. => none
  | .turn j e env => if j = i then some (e, env) else none

/-- The thread at `i` serves `filename`, or has left its loop. -/
structure Serves (i : Nat) (filename : Name) (client : Addr) (content : List UInt8) (t : Traced)
    (loop : SendLoop) : Prop where
  inv : Inv t
  handler : t.state.handlers[i]? =
    some (if loop.status = .sending then .reading filename client loop else .done)
  known : loop.status = .sending → t.registered filename = some content

section

variable {i : Nat} {filename : Name} {client : Addr} {content : List UInt8} {t : Traced}
  {loop : SendLoop}

theorem Serves.reading (serves : Serves i filename client content t loop)
    (live : loop.status = .sending) :
    t.state.handlers[i]? = some (.reading filename client loop) := by
  rw [serves.handler, if_pos live]

theorem afterRead_handler (shared : Shared) (filename : Name) (client : Addr)
    (turn : SendLoop × List Effect) : (afterRead shared filename client turn).handler =
      if turn.1.status = .sending then .reading filename client turn.1 else .done := by
  unfold afterRead
  split <;> rfl

theorem afterRead_effects (shared : Shared) (filename : Name) (client : Addr)
    (turn : SendLoop × List Effect) : (afterRead shared filename client turn).effects = turn.2 := by
  unfold afterRead
  split <;> rfl

/-- A datagram or a timeout of the thread's own. -/
theorem Serves.hears (serves : Serves i filename client content t loop)
    {e : Recv} {env : Environment} (enabled : exclusive.enabled t (.turn i e env)) :
    loop.status = .sending ∧
      Serves i filename client content (traced.step t (.turn i e env))
        (readStep client (Store.visible env content) loop e env.io).1 ∧
      packets t (.turn i e env) =
        (readStep client (Store.visible env content) loop e env.io).2 := by
  have live : loop.status = .sending := by
    obtain ⟨h, entry, active⟩ := enabled.1.2
    by_contra stopped
    rw [serves.handler, if_neg stopped] at entry
    cases entry
    cases active
  have entry := serves.reading live
  have known := serves.known live
  have turn : turnOf t.state (.turn i e env) = afterRead t.state.shared filename client
      (readStep client (Store.visible env content) loop e env.io) := by
    rw [turnOf_turn entry, Server.advance, readTurn,
      contentAt_visible (serves.inv.immutable _ _ known) env]
  refine ⟨live, ⟨step_inv t _ enabled serves.inv, ?_, fun _ => ?_⟩, ?_⟩
  · obtain ⟨bound, _⟩ := List.getElem?_eq_some_iff.mp entry
    simp only [traced, Server.step, turn, afterRead_handler]
    exact List.getElem?_set_self bound
  · exact (record_of_reader serves.inv (List.mem_of_getElem? entry) (.turn i e env)).trans known
  · rw [packets, turn, afterRead_effects]

/-- What other threads do, and new requests. -/
theorem Serves.ignores (serves : Serves i filename client content t loop) {a : Action}
    (enabled : exclusive.enabled t a) (foreign : heardBy i a = none) :
    Serves i filename client content (traced.step t a) loop := by
  refine ⟨step_inv t a enabled serves.inv, ?_, fun live => ?_⟩
  · rw [← serves.handler]
    obtain ⟨bound, _⟩ := List.getElem?_eq_some_iff.mp serves.handler
    cases a with
    | request r client' ackBuffer env => exact List.getElem?_append_left bound
    | turn j e env =>
      have other : j ≠ i := fun same => by simp [heardBy, same] at foreign
      exact List.getElem?_set_ne other
  · exact (record_of_reader serves.inv (List.mem_of_getElem? (serves.reading live)) a).trans
      (serves.known live)

end

/-- The thread at `i`, as a part of the server. -/
def thread (i : Nat) (filename : Name) (client : Addr) (content : List UInt8) :
    Component exclusive (loneReader client content) packets where
  own := heardBy i
  shows := Serves i filename client content
  hears := by
    intro t loop a e serves enabled addressed
    cases a with
    | request => cases addressed
    | turn j e' env =>
      have here : j = i ∧ e = (e', env) := by
        simp only [heardBy] at addressed
        split at addressed
        · exact ⟨by assumption, (Option.some.inj addressed).symm⟩
        · cases addressed
      obtain ⟨rfl, rfl⟩ := here
      obtain ⟨live, next, sent⟩ := serves.hears enabled
      exact ⟨decide_eq_true live, next, sent⟩
  ignores := fun _ _ _ serves enabled foreign => serves.ignores enabled foreign

/-- The state in which the thread of a READ has sent its first block. -/
def requested (t : Traced) (filename : Name) (client : Addr) (ackBuffer : Buffer 4)
    (env : Environment) : Traced :=
  traced.step t (.request (.read filename) client ackBuffer env)

theorem requested_serves {t : Traced} (inv : Inv t) {filename : Name} {content : List UInt8}
    (known : t.registered filename = some content) (client : Addr) (ackBuffer : Buffer 4)
    (env : Environment)
    (enabled : exclusive.enabled t (.request (.read filename) client ackBuffer env)) :
    Serves t.state.handlers.length filename client content
        (requested t filename client ackBuffer env)
        (readTop client (Store.visible env content) env.io (.start ackBuffer)).1 ∧
      packets t (.request (.read filename) client ackBuffer env) =
        (readTop client (Store.visible env content) env.io (.start ackBuffer)).2 := by
  have listed : filename ∈ t.state.shared.files := by simp [inv.listed, known]
  have turn : turnOf t.state (.request (.read filename) client ackBuffer env) = _ :=
    handleReadRequest_known listed client ackBuffer env
  rw [contentAt_visible (inv.immutable _ _ known) env] at turn
  refine ⟨⟨step_inv t _ enabled inv, ?_, fun _ => known⟩, ?_⟩
  · simp only [requested, traced, Server.step, turn, afterRead_handler]
    exact List.getElem?_concat_length
  · rw [packets, turn, afterRead_effects]

/-- Whatever happens to other files and other clients while a READ is served, its thread
sends what a lone sender over the registered content sends. -/
theorem read_isolated {s : Server.State} {before acts : List Action} {t₀ t : Traced}
    (initial : Initial s) (run₀ : Run exclusive (start s) before t₀) {filename : Name}
    {content : List UInt8} (known : t₀.registered filename = some content) (client : Addr)
    (ackBuffer : Buffer 4) (env : Environment)
    (enabled : exclusive.enabled t₀ (.request (.read filename) client ackBuffer env))
    (run : Run exclusive (requested t₀ filename client ackBuffer env) acts t) :
    let i := t₀.state.handlers.length
    let first := readTop client (Store.visible env content) env.io (.start ackBuffer)
    let lone := (loneReader client content).feed first.1 (acts.filterMap (heardBy i))
    packets t₀ (.request (.read filename) client ackBuffer env) = first.2 ∧
      (exclusive.trace (thread i filename client content).emits
        (requested t₀ filename client ackBuffer env) acts).flatten = lone.2 ∧
      t.state.handlers[i]? =
        some (if lone.1.status = .sending then .reading filename client lone.1 else .done) := by
  have inv₀ : Inv t₀ := run₀.invariant step_inv (start_inv initial)
  obtain ⟨serves, sent⟩ := requested_serves inv₀ known client ackBuffer env enabled
  obtain ⟨shown, rest⟩ :=
    (thread t₀.state.handlers.length filename client content).alone run serves
  exact ⟨sent, rest, shown.handler⟩

/-- `f` is read while another client asks for its deletion. -/
theorem read_isolated_beside_delete :
    let t₀ := start (startedWith (text "f") [7])
    let delete : Action := .request (.delete (text "f")) rival (Buffer.zero 4) .ok
    packets t₀ (.request (.read (text "f")) writer (Buffer.zero 4) .ok) =
        [.send writer [0, 3, 0, 1, 7]] ∧
      (exclusive.trace (thread 0 (text "f") writer [7]).emits
        (requested t₀ (text "f") writer (Buffer.zero 4) .ok) [delete]).flatten = [] := by
  intro t₀ delete
  have plain : Plain (text "f") := by
    show slash ∉ text "f"
    decide
  have enabled : exclusive.enabled t₀ (.request (.read (text "f")) writer (Buffer.zero 4) .ok) :=
    ⟨⟨by decide, trivial⟩, plain, trivial⟩
  have run : Run exclusive (requested t₀ (text "f") writer (Buffer.zero 4) .ok) ([] ++ [delete])
      (traced.step (requested t₀ (text "f") writer (Buffer.zero 4) .ok) delete) :=
    .snoc (.refl _) ⟨⟨by decide, trivial⟩, plain, trivial⟩
  obtain ⟨first, rest, _⟩ := read_isolated (startedWith_initial (by decide) [7]) (.refl t₀)
    (by decide : t₀.registered (text "f") = some [7]) writer (Buffer.zero 4) .ok enabled run
  exact ⟨first, rest⟩

end TFTP.ReadIsolation
