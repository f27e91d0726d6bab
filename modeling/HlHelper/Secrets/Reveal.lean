import HlHelper.Audit.SqlChain
import HlHelper.Secrets.Broker

/-! `SecretsBroker` with the calls of `reveal` and with a `SqlAuditChain`, to which the broker
passes no session. -/

namespace HlHelper.Secrets.Broker

open HlHelper.Audit

/-- The handle of a caller; only its id has to be one of the store's. -/
structure SecretHandle where
  id : Nat
  ref : SecretRef
  expiresAt : Int
  requesterId : Name
  deriving DecidableEq, Repr

/-- Where a call of `reveal` waits: for the answer of the MFA check, and for the audit entry with
the value that was found at a time. -/
inductive RevealPhase where
  | checking
  | auditing (value : Bytes) (found : Int)
  | returned (value : Bytes) (found now : Int)
  | failed
  deriving DecidableEq, Repr

/-- `recent` is what the MFA check has answered in this call. -/
structure RevealCall where
  handle : SecretHandle
  requester : Name
  phase : RevealPhase
  recent : Option Bool
  deriving DecidableEq, Repr

/-- An entry that the broker appends, by its actor, action and subject. -/
structure Operation where
  requester : Name
  action : String
  subject : Name
  deriving DecidableEq, Repr

structure Config where
  backends : Backends
  sha : Sha256
  /-- What `datetime.now` gives at a time of the clock. -/
  stamp : Int → Datetime
  mfaRecencyCheck : Bool

/-- `popped` are the handles that were taken out of the store, and `done` the operations whose
append has come back, with an error or without. -/
structure World where
  broker : State
  popped : List Nat
  reveals : List RevealCall
  chain : List AuditEntry
  done : List Operation

inductive Event where
  | broker (step : Step)
  | reveal (handle : SecretHandle) (requester : Name)
  | answer (index : Nat) (recent : Bool)
  | resume (index : Nat)
  | fail (index : Nat)
  deriving DecidableEq, Repr

/-- `SqlAuditChain.append` where no other session writes. -/
def append (sha : Sha256) (chain : List AuditEntry) (session : Option SessionId) (args : Args) :
    Except String (List AuditEntry) :=
  match session with
  -- the first statement is `session.execute`
  | none => .error "'NoneType' object has no attribute 'execute'"
  | some _ => .ok (chain ++ [nextEntry sha (latest chain) args])

/-- The entry that a call of `get`, `put` or `rotate` is about to append. -/
def Call.record (call : Call) : Option (Operation × Value) :=
  let ref := String.ofList call.ref.text
  let version : Value := (call.wroteAt.map fun n => .int n).getD .null
  match call.phase, call.kind with
  | .auditing, .get =>
    some (⟨call.requester, "secret.handle_issued", call.ref.text⟩,
      .obj [("ref", .str ref), ("cached", .bool call.seen.isNone)])
  | .auditing, _ =>
    some (⟨call.requester, "secret.put", call.ref.text⟩,
      .obj [("ref", .str ref), ("version", version)])
  | .auditingRotate, _ =>
    some (⟨call.requester, "secret.rotated", call.ref.text⟩,
      .obj [("ref", .str ref), ("version", version)])
  | _, _ => none

def RevealCall.record (call : RevealCall) : Option (Operation × Value) :=
  match call.phase with
  | .auditing _ _ =>
    some (⟨call.requester, "secret.revealed", call.handle.ref.text⟩,
      .obj [("ref", .str (String.ofList call.handle.ref.text))])
  | _ => none

inductive Result where
  | handle (handle : SecretHandle)
  /-- The number of the write stands for the backend's version. -/
  | version (number : Option Nat)
  | plaintext (value : Bytes)
  deriving DecidableEq, Repr

namespace World

/-- `audit_chain.append(session=None, ...)`, any error of which is logged and dropped. -/
def audit (c : Config) (w : World) (operation : Operation) (payload : Value) : World :=
  let args : Args :=
    { actor := String.ofList operation.requester
      action := operation.action
      subject := some (String.ofList operation.subject)
      payload := payload
      timestamp := c.stamp w.broker.now }
  { w with
    chain := (append c.sha w.chain none args).toOption.getD w.chain
    done := w.done ++ [operation] }

/-- The entry that is appended when a step of the broker resumes a call. -/
def brokerRecord (w : World) : Step → Option (Operation × Value)
  | .resume index => (w.broker.calls[index]?).bind Call.record
  | _ => none

def stepBroker (c : Config) (w : World) (step : Step) : Option World :=
  (w.broker.step c.backends step).map fun broker =>
    { (w.brokerRecord step).elim w fun (operation, payload) => w.audit c operation payload with
      broker := broker }

/-- `HandleStore.lookup`. -/
def lookup (w : World) (handle : SecretHandle) (requester : Name) : Option Bytes × World :=
  match w.broker.handles[handle.id]? with
  | none => (none, w)
  | some entry =>
    if handle.id ∈ w.popped then (none, w)
    else if entry.requester ≠ requester then (none, w)
    else if entry.expiresAt < w.broker.now then
      (none, { w with popped := handle.id :: w.popped })
    else (some entry.value, w)

def moved (w : World) (index : Nat) (call : RevealCall) : World :=
  { w with reveals := w.reveals.set index call }

def answered (w : World) (index : Nat) (call : RevealCall) (recent : Bool) : World :=
  if recent then
    match w.lookup call.handle call.requester with
    | (none, w) => w.moved index { call with phase := .failed, recent := some recent }
    | (some value, w) =>
      w.moved index { call with phase := .auditing value w.broker.now, recent := some recent }
  else w.moved index { call with phase := .failed, recent := some recent }

def resumed (c : Config) (w : World) (index : Nat) (call : RevealCall) : Option World :=
  match call.phase, call.record with
  | .auditing value found, some (operation, payload) =>
    some ((w.audit c operation payload).moved index
      { call with phase := .returned value found w.broker.now })
  | _, _ => none

def step (c : Config) (w : World) : Event → Option World
  | .broker step => w.stepBroker c step
  | .reveal handle requester =>
    let phase := if c.mfaRecencyCheck then .checking else .failed
    some { w with reveals := w.reveals ++ [⟨handle, requester, phase, none⟩] }
  | .answer index recent => (w.reveals[index]?).bind fun call =>
    if call.phase = .checking then some (w.answered index call recent) else none
  | .resume index => (w.reveals[index]?).bind (w.resumed c index)
  | .fail index => (w.reveals[index]?).bind fun call =>
    match call.phase with
    | .checking | .auditing _ _ => some (w.moved index { call with phase := .failed })
    | .returned _ _ _ | .failed => none

def initial (stored : Place → List Bytes) (now : Int) : World :=
  ⟨State.initial stored now, [], [], [], []⟩

end World

/-- What a call of `get`, `put` or `rotate` has returned, over the entries of the store. -/
def Call.result (handles : List HandleEntry) (call : Call) : Option Result :=
  match call.phase, call.kind with
  | .done, .get => call.handle.bind fun id => (handles[id]?).map fun entry =>
    .handle ⟨id, entry.ref, entry.expiresAt, entry.requester⟩
  | .done, _ => some (.version call.wroteAt)
  | _, _ => none

def RevealCall.result (call : RevealCall) : Option Result :=
  match call.phase with
  | .returned value _ _ => some (.plaintext value)
  | _ => none

end HlHelper.Secrets.Broker
