import HlHelper.Dispatch.Dispatcher

/-! A stored task dispatched again: what `dispatch_task` rebuilds of the columns that
`CommandDispatcher.dispatch` filled. -/

namespace HlHelper.Tasks

open HlHelper.Dispatch HlHelper.Library

inductive RebuildError where
  | badRequest (detail : String)
  | attributeError
  | typeError
  | valueError
  deriving DecidableEq, Repr

section Builtins

def isSpace (c : Char) : Bool :=
  c.toNat ∈ [0x20, 0x85, 0xa0, 0x1680, 0x2028, 0x2029, 0x202f, 0x205f, 0x3000] ||
    (0x09 ≤ c.toNat && c.toNat ≤ 0x0d) || (0x1c ≤ c.toNat && c.toNat ≤ 0x1f) ||
    (0x2000 ≤ c.toNat && c.toNat ≤ 0x200a)

def strip (text : List Char) : List Char :=
  ((text.dropWhile isSpace).reverse.dropWhile isSpace).reverse

/-- Decimal digits, with single underscores between them. -/
def readDigits (text : List Char) : Option Nat :=
  let groups := text.splitOnP (· = '_')
  if groups.all (fun group => !group.isEmpty && group.all Char.isDigit) then
    let digits := groups.flatten
    if 4300 < digits.length then none
    else some (digits.foldl (fun value c => 10 * value + (c.toNat - '0'.toNat)) 0)
  else none

/-- `int(text)`. -/
def readInt (text : String) : Option Int :=
  match strip text.toList with
  | '-' :: digits => (readDigits digits).map (fun value => -(value : Int))
  | '+' :: digits => (readDigits digits).map Int.ofNat
  | digits => (readDigits digits).map Int.ofNat

/-- `int(value)`. -/
def toInt : Json → Except RebuildError Int
  | .int n => .ok n
  | .bool b => .ok (if b then 1 else 0)
  | .str text => (readInt text).elim (.error .valueError) .ok
  | .arr _ | .obj _ => .error .typeError

variable (repr : Json → String)

/-- `str(value)`; the text of a list or of a dict is `repr`. -/
def toStr : Json → String
  | .str text => text
  | .int n => toString n
  | .bool true => "True"
  | .bool false => "False"
  | .arr items => repr (.arr items)
  | .obj fields => repr (.obj fields)

end Builtins

def fieldsOf : Json → Except RebuildError (List (String × Json))
  | .obj fields => .ok fields
  | _ => .error .attributeError

def get (fields : List (String × Json)) (key : String) : Option Json :=
  (fields.find? (fun field => field.1 = key)).map Prod.snd

section Rebuild

variable (repr : Json → String)

/-- The payload of the task's kind; a shell command is given the class's defaults for what is
not read. -/
def rebuildPayload (kind : TaskKind) (payload : Json) : Except RebuildError TaskPayload :=
  match kind with
  | .reboot =>
    (fieldsOf payload).bind fun fields =>
    (toInt ((get fields "delay_s").getD (.int 0))).map fun delayS =>
      .reboot delayS (toStr repr ((get fields "reason").getD (.str "")))
  | .shellExec =>
    (fieldsOf payload).bind fun fields =>
    (toInt ((get fields "timeout_s").getD (.int 60))).map fun timeoutS =>
      .shellExec (toStr repr ((get fields "command").getD (.str ""))) timeoutS false ""
  | .pkgUpdate =>
    (fieldsOf payload).map fun fields =>
      match get fields "classes" with
      | some (.arr classes) => .pkgUpdate (classes.map (toStr repr))
      | _ => .pkgUpdate []
  | _ => .error (.badRequest "unsupported_task_kind")

/-- The selectors that `dispatch_task` builds; the two parts of a tag are taken as they are. -/
inductive Target where
  | hostList (hostIds : List HostId)
  | group (groupId : String) (includeSubgroups : Bool)
  | tag (key value : Json)

def unsupportedShape : RebuildError := .badRequest "unsupported_selector_shape"

def hostIdOf : Json → Option HostId
  | .str hostId => some hostId
  | _ => none

def rebuildTarget (selector : Json) : Except RebuildError Target :=
  (fieldsOf selector).bind fun fields =>
    match get fields "host_id", get fields "host_ids", get fields "group_id", get fields "tag" with
    | some (.str hostId), _, _, _ => .ok (.hostList [hostId])
    | some _, _, _, _ => .error unsupportedShape
    | none, some (.arr items), _, _ =>
      (items.mapM hostIdOf).elim (.error unsupportedShape) fun hostIds => .ok (.hostList hostIds)
    | none, some _, _, _ => .error unsupportedShape
    | none, none, some (.str groupId), _ =>
      match get fields "include_subgroups" with
      | none => .ok (.group groupId true)
      | some (.bool includeSubgroups) => .ok (.group groupId includeSubgroups)
      | some _ => .error unsupportedShape
    | none, none, some _, _ => .error unsupportedShape
    | none, none, none, some (.obj tag) =>
      match get tag "key", get tag "value" with
      | some key, some value => .ok (.tag key value)
      | _, _ => .error unsupportedShape
    | none, none, none, _ => .error unsupportedShape

/-- What `dispatch_task` dispatches: the request may name other targets. -/
def rebuild (task : Task) (targets : Option Json) : Except RebuildError (TaskPayload × Target) :=
  (rebuildPayload repr task.kind task.payload).bind fun payload =>
    (rebuildTarget (targets.getD task.targetSelector)).map fun target => (payload, target)

end Rebuild

def Denotes : Selector → Target → Prop
  | .hostList hostIds, .hostList others => others = hostIds
  | .group groupId includeSubgroups, .group text others =>
    text = groupId.toText ∧ others = includeSubgroups
  | .tag key value, .tag otherKey otherValue => otherKey = .str key ∧ otherValue = .str value
  | _, _ => False

/-- The stored task is rebuilt to the payload and the selector it was stored from. -/
def RoundTrip (repr : Json → String) (task : Task) (call : Call) : Prop :=
  ∃ target, rebuild repr task none = .ok (call.payload, target) ∧ Denotes call.targets target

/-- A shell command runs unprivileged and without a reason. -/
def PlainShell : TaskPayload → Prop
  | .shellExec _ _ asRoot reason => asRoot = false ∧ reason = ""
  | _ => True

def Unmixed : Selector → Prop
  | .mixed _ => False
  | _ => True

variable {repr : Json → String} {c : Collaborators} {draws : Draws} {fleet : Fleet} {call : Call}
  {plan : Plan}

theorem planned_columns (planned : planOf c draws fleet call = .ok plan) :
    ∃ payloadKind, getPayloadKind call.payload = .ok payloadKind ∧
      taskKind payloadKind = .ok plan.task.kind ∧
      payloadToDict call.payload = .ok plan.task.payload ∧
      selectorToDict call.targets = .ok plan.task.targetSelector := by
  unfold planOf at planned
  obtain ⟨hosts, _, planned⟩ := bind_eq_ok.mp planned
  obtain ⟨payloadKind, kind, planned⟩ := bind_eq_ok.mp planned
  obtain ⟨principalId, _, planned⟩ := bind_eq_ok.mp planned
  obtain ⟨task, named, planned⟩ := bind_eq_ok.mp planned
  obtain ⟨payload, stored, planned⟩ := bind_eq_ok.mp planned
  obtain ⟨selector, targets, rfl⟩ := map_eq_ok.mp planned
  exact ⟨payloadKind, kind, named, stored, targets⟩

def restored : TaskPayload → TaskPayload
  | .shellExec command timeoutS _ _ => .shellExec command timeoutS false ""
  | payload => payload

theorem restored_eq_iff {payload : TaskPayload} :
    restored payload = payload ↔ PlainShell payload := by
  cases payload with
  | shellExec command timeoutS asRoot reason =>
    simp only [restored, TaskPayload.shellExec.injEq, true_and, PlainShell]
    exact and_congr eq_comm eq_comm
  | _ => simp [restored, PlainShell]

theorem rebuildPayload_stored {payload : TaskPayload} {payloadKind : String} {kind : TaskKind}
    {stored : Json} (named : getPayloadKind payload = .ok payloadKind)
    (known : taskKind payloadKind = .ok kind) (encoded : payloadToDict payload = .ok stored) :
    rebuildPayload repr kind stored = .ok (restored payload) := by
  cases payload with
  | reboot delayS reason =>
    cases named
    cases known
    cases encoded
    rfl
  | shellExec command timeoutS asRoot reason =>
    cases named
    cases known
    cases encoded
    rfl
  | pkgUpdate classes =>
    cases named
    cases known
    cases encoded
    have texts : (classes.map Json.str).map (toStr repr) = classes := by
      rw [List.map_map]
      exact List.map_id _
    change Except.ok (TaskPayload.pkgUpdate ((classes.map Json.str).map (toStr repr))) = _
    rw [texts]
    rfl
  | unsupported typeName kindName => cases encoded

theorem hostIds_stored (hostIds : List HostId) :
    (hostIds.map Json.str).mapM hostIdOf = some hostIds := by
  induction hostIds with
  | nil => rfl
  | cons hostId hostIds ih => simp [hostIdOf, ih]

theorem rebuildTarget_stored {selector : Selector} {stored : Json}
    (encoded : selectorToDict selector = .ok stored) (unmixed : Unmixed selector) :
    ∃ target, rebuildTarget stored = .ok target ∧ Denotes selector target := by
  cases selector with
  | hostList hostIds =>
    rw [selectorToDict] at encoded
    cases encoded
    refine ⟨.hostList hostIds, ?_, rfl⟩
    change ((hostIds.map Json.str).mapM hostIdOf).elim _ _ = _
    rw [hostIds_stored]
    rfl
  | group groupId includeSubgroups =>
    rw [selectorToDict] at encoded
    cases encoded
    exact ⟨.group groupId.toText includeSubgroups, rfl, rfl, rfl⟩
  | tag key value =>
    rw [selectorToDict] at encoded
    cases encoded
    exact ⟨.tag (.str key) (.str value), rfl, rfl, rfl⟩
  | mixed selectors => exact unmixed.elim
  | unknown typeName =>
    rw [selectorToDict] at encoded
    cases encoded

theorem rebuildTarget_mixed {selectors : List Selector} {stored : Json}
    (encoded : selectorToDict (.mixed selectors) = .ok stored) :
    rebuildTarget stored = .error unsupportedShape := by
  rw [selectorToDict] at encoded
  obtain ⟨dicts, _, rfl⟩ := map_eq_ok.mp encoded
  rfl

/-- A stored task is dispatched again as it was, just where it is no shell command with
privileges or a reason and its selector is not mixed. -/
theorem redispatch_same_iff (repr : Json → String)
    (planned : planOf c draws fleet call = .ok plan) :
    RoundTrip repr plan.task call ↔ PlainShell call.payload ∧ Unmixed call.targets := by
  obtain ⟨payloadKind, kind, named, payload, targets⟩ := planned_columns planned
  have rebuilt : rebuildPayload repr plan.task.kind plan.task.payload =
      .ok (restored call.payload) := rebuildPayload_stored kind named payload
  have together : rebuild repr plan.task none =
      (rebuildTarget plan.task.targetSelector).map fun target =>
        (restored call.payload, target) := by
    rw [rebuild, rebuilt]
    rfl
  constructor
  · rintro ⟨target, same, denotes⟩
    rw [together] at same
    obtain ⟨found, read, equal⟩ := map_eq_ok.mp same
    obtain ⟨first, rfl⟩ := Prod.mk.inj equal
    refine ⟨restored_eq_iff.mp first, ?_⟩
    cases selector : call.targets with
    | mixed selectors =>
      rw [selector] at targets
      rw [rebuildTarget_mixed targets] at read
      cases read
    | _ => trivial
  · rintro ⟨plain, unmixed⟩
    obtain ⟨target, read, denotes⟩ := rebuildTarget_stored targets unmixed
    refine ⟨target, ?_, denotes⟩
    rw [together, read, restored_eq_iff.mpr plain]
    rfl

theorem reboot_redispatched :
    ∃ plan, planOf openDispatcher quietDraws twoHosts.fleet (reboot ["h1"] none) = .ok plan ∧
      RoundTrip (fun _ => "") plan.task (reboot ["h1"] none) := by
  cases planned : planOf openDispatcher quietDraws twoHosts.fleet (reboot ["h1"] none) with
  | error e => cases planned
  | ok plan => exact ⟨plan, rfl, (redispatch_same_iff _ planned).mpr ⟨trivial, trivial⟩⟩

def elevated (targets : Selector) : Call where
  principal := ⟨some "admin", none, []⟩
  targets := targets
  payload := .shellExec "id" 60 true "audit"
  idempotencyKey := none

/-- Dispatched again the command has lost its privileges and its reason, and with a mixed
selector it is refused. -/
theorem elevated_lost :
    (∃ plan, planOf openDispatcher quietDraws twoHosts.fleet (elevated (.hostList ["h1"])) =
        .ok plan ∧
      rebuild (fun _ => "") plan.task none =
        .ok (.shellExec "id" 60 false "", .hostList ["h1"]) ∧
      ¬ RoundTrip (fun _ => "") plan.task (elevated (.hostList ["h1"]))) ∧
    ∃ plan, planOf openDispatcher quietDraws twoHosts.fleet
        (elevated (.mixed [.hostList ["h1"], .hostList ["h2"]])) = .ok plan ∧
      rebuild (fun _ => "") plan.task none = .error (.badRequest "unsupported_selector_shape") := by
  constructor
  · cases planned : planOf openDispatcher quietDraws twoHosts.fleet
        (elevated (.hostList ["h1"])) with
    | error e => cases planned
    | ok plan =>
      cases planned
      refine ⟨_, rfl, rfl, ?_⟩
      rintro ⟨target, same, _⟩
      cases same
  · cases planned : planOf openDispatcher quietDraws twoHosts.fleet
        (elevated (.mixed [.hostList ["h1"], .hostList ["h2"]])) with
    | error e => cases planned
    | ok plan =>
      cases planned
      exact ⟨_, rfl, rfl⟩

end HlHelper.Tasks
