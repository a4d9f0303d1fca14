import TFTP.ServerRequests

/-!
# What the server is for

A store of immutable objects. A read serves the content its object had when the request
came, an upload keeps what it has received to itself until the short block makes it an
object at once, and an object that is being read is not deleted. There is no disk, no
directory and no reader count in it; what the operating system may refuse stays.
-/

namespace TFTP.Store

open Octets Packet Sockets FileSystem Runs Server

inductive Session where
  | serving (filename : Name) (content : List UInt8) (client : Addr) (loop : SendLoop)
  | collecting (filename : Name) (client : Addr) (loop : WriteLoop)
  | closed
  | undefined

def Session.active : Session → Bool
  | .serving .. => true
  | .collecting .. => true
  | .closed => false
  | .undefined => false

def Session.serves (filename : Name) : Session → Bool
  | .serving f _ _ _ => f == filename
  | _ => false

structure State where
  objects : Name → Option (List UInt8)
  sessions : List Session

/-- What a step of one session comes to. -/
structure Outcome where
  session : Session
  objects : Name → Option (List UInt8)
  effects : List Effect

/-- A read may fail at any time. -/
def visible (env : Environment) (content : List UInt8) : Option (List UInt8) :=
  if env.readFails then none else some content

def serve (objects : Name → Option (List UInt8)) (filename : Name) (content : List UInt8)
    (client : Addr) (turn : SendLoop × List Effect) : Outcome where
  session := if turn.1.status = .sending then .serving filename content client turn.1 else .closed
  objects := objects
  effects := turn.2

def refuse (objects : Name → Option (List UInt8)) (effect : Effect) : Outcome :=
  ⟨.closed, objects, [effect]⟩

def delete (store : State) (filename : Name) (client : Addr) (env : Environment) : Outcome :=
  if (store.objects filename).isNone then
    refuse store.objects (sendError client errorFileNotFound "File not found")
  else if store.sessions.any (Session.serves filename) then
    refuse store.objects
      (sendError client errorNotDefined "File has active readers. Cannot delete file.")
  else if env.existsThrows || env.removeThrows then
    refuse store.objects (sendError client errorNotDefined "Exception Occured. cannot delete file")
  else ⟨.closed, Function.update store.objects filename none, [sendACK client ackOk]⟩

/-- An object goes if and only if its deletion is acknowledged. -/
theorem delete_eq (store : State) (filename : Name) (client : Addr) (env : Environment) :
    delete store filename client env =
      { session := .closed
        objects :=
          if sendACK client ackOk ∈ (delete store filename client env).effects then
            Function.update store.objects filename none
          else store.objects
        effects := (delete store filename client env).effects } := by
  have refused : ∀ (code : UInt16) (msg : String),
      sendACK client ackOk ∉ (refuse store.objects (sendError client code msg)).effects := by
    intro code msg ack
    exact sendError_ne_sendACK client client code ackOk msg (List.mem_singleton.mp ack).symm
  unfold delete
  split
  · rw [if_neg (refused _ _)]
    rfl
  · split
    · rw [if_neg (refused _ _)]
      rfl
    · split
      · rw [if_neg (refused _ _)]
        rfl
      · rw [if_pos (List.mem_singleton.mpr rfl)]

section Names

-- The names that cannot become objects.
variable (reserved : Name → Bool)

def begin (store : State) (client : Addr) (ackBuffer : Buffer 4) (env : Environment) :
    Request → Outcome
  | .read filename =>
    match store.objects filename with
    | none => refuse store.objects (sendError client errorFileNotFound "File not found")
    | some content =>
      serve store.objects filename content client
        (readTop client (visible env content) env.io (.start ackBuffer))
  | .write filename =>
    if (store.objects filename).isSome then
      refuse store.objects (sendError client errorFileAlreadyExists "File already exists.")
    else if env.openFails || reserved filename then
      refuse store.objects (sendError client errorDiskFull "Disk full or allocation exceeded.")
    else ⟨.collecting filename client .start, store.objects, [sendACK client 0]⟩
  | .delete filename => delete store filename client env
  | .list => ⟨.closed, store.objects, []⟩

/-- A session from one event to the next. The short block commits an upload. -/
def advance (store : State) (e : Recv) (env : Environment) : Session → Outcome
  | .serving filename content client loop =>
    serve store.objects filename content client
      (readStep client (visible env content) loop e env.io)
  | .collecting filename client loop =>
    let turn := writeStep client loop e env.io
    { session :=
        match turn.1.status with
        | .receiving => .collecting filename client turn.1
        | .undefined => .undefined
        | _ => .closed
      objects :=
        if turn.1.status = .received then
          Function.update store.objects filename (some turn.1.content)
        else store.objects
      effects := turn.2 }
  | session => ⟨session, store.objects, []⟩

def outcome (store : State) : Action → Outcome
  | .request r client ackBuffer env => begin reserved store client ackBuffer env r
  | .turn i e env => advance store e env (store.sessions.getD i .closed)

/-- The store offers no listing. -/
def Enabled (store : State) (a : Action) : Prop :=
  .undefined ∉ store.sessions ∧
    match a with
    | .request r _ _ _ => r ≠ .list
    | .turn i _ _ => ∃ session, store.sessions[i]? = some session ∧ session.active

def step (store : State) (a : Action) : State where
  objects := (outcome reserved store a).objects
  sessions :=
    match a with
    | .request .. => store.sessions ++ [(outcome reserved store a).session]
    | .turn i _ _ => store.sessions.set i (outcome reserved store a).session

def machine : Machine State Action := ⟨Enabled, step reserved⟩

def answers (store : State) (a : Action) : List Effect := (outcome reserved store a).effects

end Names

end TFTP.Store
