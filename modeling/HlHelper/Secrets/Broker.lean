import HlHelper.Envelope
import HlHelper.Library.Runs
import HlHelper.Secrets.Names

/-! `SecretsBroker` with its cache and handles: the calls of `get`, `put` and `rotate`, cut at
their awaits. A backend call takes effect at once, some time between its start and its
return. -/

namespace HlHelper.Secrets

structure SecretRef where
  backend : Name
  path : Name
  field : Option Name
  deriving DecidableEq, Repr

namespace SecretRef

def selector (ref : SecretRef) : Name :=
  match ref.field with
  | some (c :: rest) => '#' :: c :: rest
  | _ => []

def backendPath (ref : SecretRef) : Name := ref.path ++ ref.selector

def scheme : Name := ['s', 'e', 'c', 'r', 'e', 't', ':', '/', '/']

/-- `str(ref)`, the key of the cache. -/
def text (ref : SecretRef) : Name :=
  scheme ++ ref.backend ++ '/' :: ref.path ++ ref.selector

end SecretRef

structure Place where
  backend : Name
  mount : Name
  path : Name
  deriving DecidableEq, Repr

/-- The configured backends, each with the mount and path that a path stands for. -/
abbrev Backends := Name → Option (Name → Name × Name)

def dataMark : Name := ['/', 'd', 'a', 't', 'a', '/']

def partitionData : Name → Option (Name × Name)
  | [] => none
  | c :: rest =>
    if dataMark.isPrefixOf (c :: rest) then some ([], (c :: rest).drop dataMark.length)
    else (partitionData rest).map (fun parts => (c :: parts.1, parts.2))

def splitKvPath (path : Name) : Name × Name :=
  (partitionData path).getD (['s', 'e', 'c', 'r', 'e', 't'], path)

def placeOf (backends : Backends) (ref : SecretRef) : Option Place :=
  (backends ref.backend).map (fun locate =>
    ⟨ref.backend, (locate ref.backendPath).1, (locate ref.backendPath).2⟩)

namespace Broker

inductive Kind where
  | get
  | put (value : Bytes)
  | rotate
  deriving DecidableEq, Repr

/-- Where a call waits: for the backend's read or write, which has or has not taken effect,
or for the audit entries after it. -/
inductive Phase where
  | reading
  | read
  | writing
  | wrote
  | auditing
  | auditingRotate
  | done
  | failed
  deriving DecidableEq, Repr

/-- `value` is the local variable. Of the values written to a place in order, `seen` is the
number of the one that was read and `wroteAt` of the one that was written; `handle` is the
handle that a `get` was issued. -/
structure Call where
  kind : Kind
  ref : SecretRef
  requester : Name
  phase : Phase
  value : Bytes
  seen : Option Nat
  wroteAt : Option Nat
  handle : Option Nat
  deriving DecidableEq, Repr

/-- Entries of the handle store, whose random ids are stood for by their places. -/
structure HandleEntry where
  ref : SecretRef
  value : Bytes
  requester : Name
  expiresAt : Int
  deriving DecidableEq, Repr

/-- `stored` gives the values written to each place, oldest first. -/
structure State where
  stored : Place → List Bytes
  cache : Name → Option (Bytes × Int)
  now : Int
  degraded : Bool
  handles : List HandleEntry
  calls : List Call

inductive Step where
  | start (kind : Kind) (ref : SecretRef) (requester : Name)
  | effect (index : Nat)
  | resume (index : Nat)
  | fail (index : Nat)
  | clock (now : Int)
  | degrade (degraded : Bool)
  deriving DecidableEq, Repr

namespace State

/-- `BrokerCache.invalidate`, and the `pop` of an expired entry. -/
def invalidate (s : State) (ref : SecretRef) : State :=
  { s with cache := fun key => if key = ref.text then none else s.cache key }

def remember (s : State) (ref : SecretRef) (value : Bytes) : State :=
  { s with cache := fun key => if key = ref.text then some (value, s.now + 30) else s.cache key }

/-- `BrokerCache.get`. -/
def cached (s : State) (ref : SecretRef) : Option Bytes × State :=
  match s.cache ref.text with
  | none => (none, s)
  | some (value, expiresAt) =>
    if expiresAt < s.now then (none, s.invalidate ref) else (some value, s)

/-- `HandleStore.issue`. -/
def issue (s : State) (ref : SecretRef) (value : Bytes) (requester : Name) : State :=
  { s with handles := s.handles ++ [⟨ref, value, requester, s.now + 60⟩] }

/-- The checks of `_raw_get` before the backend's read. -/
def rawGet (backends : Backends) (s : State) (ref : SecretRef) : Phase :=
  if (backends ref.backend).isNone then .failed else if s.degraded then .failed else .reading

def push (s : State) (call : Call) : State := { s with calls := s.calls ++ [call] }

def moved (s : State) (index : Nat) (call : Call) : State :=
  { s with calls := s.calls.set index call }

def start (backends : Backends) (s : State) (kind : Kind) (ref : SecretRef)
    (requester : Name) : State :=
  match kind with
  | .get =>
    match s.cached ref with
    | (some value, s) =>
      (s.issue ref value requester).push
        ⟨kind, ref, requester, .auditing, value, none, none, some s.handles.length⟩
    | (none, s) =>
      s.push ⟨kind, ref, requester, s.rawGet backends ref, [], none, none, none⟩
  | .put value =>
    let phase := if (backends ref.backend).isNone then .failed else .writing
    s.push ⟨kind, ref, requester, phase, value, none, none, none⟩
  | .rotate => s.push ⟨kind, ref, requester, s.rawGet backends ref, [], none, none, none⟩

/-- The backend call of `call` takes effect; a read of an absent secret raises. -/
def effect (backends : Backends) (s : State) (index : Nat) (call : Call) : Option State :=
  match placeOf backends call.ref, call.phase with
  | some place, .reading =>
    match (s.stored place).getLast? with
    | none => some (s.moved index { call with phase := .failed })
    | some value =>
      some (s.moved index
        { call with
          phase := .read
          value := value
          seen := some ((s.stored place).length - 1) })
  | some place, .writing =>
    some
      { s.moved index
          { call with phase := .wrote, wroteAt := some (s.stored place).length } with
        stored := fun other =>
          if other = place then s.stored place ++ [call.value] else s.stored other }
  | _, _ => none

def resume (backends : Backends) (s : State) (index : Nat) (call : Call) : Option State :=
  match call.phase, call.kind with
  | .read, .get =>
    some (((s.remember call.ref call.value).issue call.ref call.value call.requester).moved index
      { call with phase := .auditing, handle := some s.handles.length })
  | .read, .rotate =>
    let phase := if (backends call.ref.backend).isNone then .failed else .writing
    some (s.moved index { call with phase := phase })
  | .wrote, _ => some ((s.invalidate call.ref).moved index { call with phase := .auditing })
  | .auditing, .rotate => some (s.moved index { call with phase := .auditingRotate })
  | .auditing, _ => some (s.moved index { call with phase := .done })
  | .auditingRotate, _ => some (s.moved index { call with phase := .done })
  | _, _ => none

/-- What the call awaits raises, or its task is cancelled. -/
def fail (s : State) (index : Nat) (call : Call) : Option State :=
  if call.phase = .done ∨ call.phase = .failed then none
  else some (s.moved index { call with phase := .failed })

def step (backends : Backends) (s : State) : Step → Option State
  | .start kind ref requester => some (s.start backends kind ref requester)
  | .effect index => (s.calls[index]?).bind (s.effect backends index)
  | .resume index => (s.calls[index]?).bind (s.resume backends index)
  | .fail index => (s.calls[index]?).bind (s.fail index)
  | .clock now => some { s with now := now }
  | .degrade degraded => some { s with degraded := degraded }

def run (backends : Backends) (s : State) (steps : List Step) : Option State :=
  Library.run (State.step backends) s steps

/-- The broker before its first call, over any stored secrets. -/
def initial (stored : Place → List Bytes) (now : Int) : State :=
  ⟨stored, fun _ => none, now, false, [], []⟩

end State

/-- The backend write has been followed by the call's invalidation of the cache. -/
def Call.Settled (call : Call) : Prop :=
  call.phase = .auditing ∨ call.phase = .auditingRotate ∨ call.phase = .done

instance (call : Call) : Decidable call.Settled := inferInstanceAs (Decidable (_ ∨ _))

def Call.CompletedPut (call : Call) : Prop := call.phase = .done ∧ ∃ value, call.kind = .put value

/-- In the run, every get that starts after a put has completed, on a ref of the same place,
is issued that put's value or one written later. -/
def GetsSeePuts (backends : Backends) (first : State) (steps : List Step) : Prop :=
  ∀ before ref requester after s t, steps = before ++ .start .get ref requester :: after →
    first.run backends before = some s → first.run backends steps = some t →
    ∀ put ∈ s.calls, put.CompletedPut → ∀ place n, placeOf backends put.ref = some place →
      placeOf backends ref = some place → put.wroteAt = some n →
    ∀ call, t.calls[s.calls.length]? = some call → ∀ id, call.handle = some id →
      ∃ entry, t.handles[id]? = some entry ∧ entry.value ∈ (t.stored place).drop n

/-- No rotate has written over the value of a completed put that wrote after the rotate's
read. -/
def RotatesKeepPuts (backends : Backends) (s : State) : Prop :=
  ∀ rotate ∈ s.calls, rotate.kind = .rotate → ∀ put ∈ s.calls, put.CompletedPut →
    placeOf backends put.ref = placeOf backends rotate.ref →
    ∀ seen m n, rotate.seen = some seen → put.wroteAt = some m → rotate.wroteAt = some n →
      ¬ (seen < m ∧ m < n)

end Broker

end HlHelper.Secrets
