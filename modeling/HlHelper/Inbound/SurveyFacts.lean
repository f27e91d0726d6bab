import HlHelper.Inbound.RecvLoop

/-! The survey of a host, which two handlers write: a `HostSurvey` replaces it, a `HostFacts`
puts its facts into the survey that it has read. The handlers of one host may overlap. -/

namespace HlHelper.Inbound

open Audit Library Results

structure Disk where
  device : String
  mount : String
  fstype : String
  sizeBytes : Nat
  deriving DecidableEq, Repr, Inhabited

structure Nic where
  name : String
  mac : String
  ipv4 : List String
  ipv6 : List String
  speedMbps : Nat
  deriving DecidableEq, Repr, Inhabited

structure HostSurvey where
  hostId : HostId
  os : String
  osVersion : String
  kernel : String
  arch : String
  virt : String
  cpuModel : String
  cpuCores : Nat
  cpuThreads : Nat
  memTotalBytes : Nat
  disks : List Disk
  nics : List Nic
  biosVendor : String
  biosVersion : String
  boardVendor : String
  boardProduct : String
  collectedAt : Option Timestamp
  signature : Bytes
  deriving DecidableEq, Repr, Inhabited

abbrev Fields := List (String × Value)

/-- The fields that `MessageToDict` puts into a dict: the ones that differ from their default. -/
def present (entries : List (String × Option Value)) : Fields :=
  entries.filterMap (fun entry => entry.2.map (fun value => (entry.1, value)))

def textValue (text : String) : Option Value := (nonblank text).map Value.str

def countValue (n : Nat) : Option Value := if n = 0 then none else some (.int n)

def longValue (n : Nat) : Option Value := if n = 0 then none else some (.str (toString n))

def listValue (items : List Value) : Option Value := if items = [] then none else some (.arr items)

def diskDict (disk : Disk) : Value :=
  .obj (present [
    ("device", textValue disk.device),
    ("mount", textValue disk.mount),
    ("fstype", textValue disk.fstype),
    ("size_bytes", longValue disk.sizeBytes)])

def nicDict (nic : Nic) : Value :=
  .obj (present [
    ("name", textValue nic.name),
    ("mac", textValue nic.mac),
    ("ipv4", listValue (nic.ipv4.map Value.str)),
    ("ipv6", listValue (nic.ipv6.map Value.str)),
    ("speed_mbps", longValue nic.speedMbps)])

/-- A dict without the key `facts`. -/
structure SurveyDict where
  fields : Fields
  noFacts : "facts" ∉ fields.map Prod.fst

theorem present_keys {entries : List (String × Option Value)} {key : String}
    (member : key ∈ (present entries).map Prod.fst) : key ∈ entries.map Prod.fst := by
  obtain ⟨field, inside, rfl⟩ := List.mem_map.mp member
  obtain ⟨entry, listed, made⟩ := List.mem_filterMap.mp inside
  obtain ⟨value, _, rfl⟩ := Option.map_eq_some_iff.mp made
  exact List.mem_map.mpr ⟨entry, listed, rfl⟩

section Messages

-- `Timestamp.ToJsonString`, which raises outside the years 1 to 9999, and `b64encode`
variable (toJsonString : Timestamp → Option String) (b64encode : Bytes → String)

def surveyEntries (msg : HostSurvey) (collectedAt : Option String) :
    List (String × Option Value) := [
  ("host_id", textValue msg.hostId),
  ("os", textValue msg.os),
  ("os_version", textValue msg.osVersion),
  ("kernel", textValue msg.kernel),
  ("arch", textValue msg.arch),
  ("virt", textValue msg.virt),
  ("cpu_model", textValue msg.cpuModel),
  ("cpu_cores", countValue msg.cpuCores),
  ("cpu_threads", countValue msg.cpuThreads),
  ("mem_total_bytes", longValue msg.memTotalBytes),
  ("disks", listValue (msg.disks.map diskDict)),
  ("nics", listValue (msg.nics.map nicDict)),
  ("bios_vendor", textValue msg.biosVendor),
  ("bios_version", textValue msg.biosVersion),
  ("board_vendor", textValue msg.boardVendor),
  ("board_product", textValue msg.boardProduct),
  ("collected_at", collectedAt.map Value.str),
  ("signature", if msg.signature = [] then none else some (.str (b64encode msg.signature)))]

theorem surveyEntries_noFacts (msg : HostSurvey) (collectedAt : Option String) :
    "facts" ∉ (present (surveyEntries b64encode msg collectedAt)).map Prod.fst := by
  intro member
  have named := present_keys member
  simp [surveyEntries] at named

/-- `MessageToDict(msg, preserving_proto_field_name=True)`, `none` where it raises. -/
def messageToDict (msg : HostSurvey) : Option SurveyDict :=
  match msg.collectedAt with
  | none => some ⟨_, surveyEntries_noFacts b64encode msg none⟩
  | some moment =>
    (toJsonString moment).map (fun text => ⟨_, surveyEntries_noFacts b64encode msg (some text)⟩)

inductive SurveyMessage where
  | hostSurvey (msg : HostSurvey)
  | hostFacts (msg : HostFacts)
  deriving Inhabited

inductive Brought where
  | survey (dict : SurveyDict)
  | facts (report : Value)

/-- `none` where the handler raises or turns the message down before it reads the host. -/
def SurveyMessage.brings (now : Datetime) : SurveyMessage → Option Brought
  | .hostSurvey msg => (messageToDict toJsonString b64encode msg).map .survey
  | .hostFacts msg => if msg.hostId = "" then none else some (.facts (factsOf msg now))

end Messages

/-- A handler that has read the host and not yet committed. -/
structure Handler where
  seen : Option Fields
  brought : Brought

/-- What the handler assigns to `host.survey`. -/
def Handler.assigned (handler : Handler) : Fields :=
  match handler.brought with
  | .survey dict => dict.fields
  | .facts report => setField (handler.seen.getD []) "facts" report

/-- The survey in the row of the host, the handlers at work on it, and what has been committed,
in this order. -/
structure SurveyState where
  survey : Option Fields
  handlers : List (Nat × Handler)
  committed : List Brought

inductive SurveyEvent where
  | reads (id : Nat) (msg : SurveyMessage) (now : Datetime)
  | commits (id : Nat)
  | fails (id : Nat)

section Steps

variable (toJsonString : Timestamp → Option String) (b64encode : Bytes → String)

-- `==` of two dicts; a commit writes no attribute that equals what was read
variable (same : Fields → Fields → Bool)

def Handler.writesNothing (handler : Handler) : Bool :=
  handler.seen.any (fun seen => same seen handler.assigned)

def Handler.written (handler : Handler) (survey : Option Fields) : Option Fields :=
  if handler.writesNothing same then survey else some handler.assigned

def SurveyState.drop (s : SurveyState) (id : Nat) : SurveyState :=
  { s with handlers := s.handlers.filter (fun entry => entry.1 ≠ id) }

def surveyStep (s : SurveyState) : SurveyEvent → Option SurveyState
  | .reads id msg now =>
    if id ∈ s.handlers.map Prod.fst then none
    else
      match msg.brings toJsonString b64encode now with
      | none => some s
      | some brought => some { s with handlers := (id, ⟨s.survey, brought⟩) :: s.handlers }
  | .commits id =>
    (findKey Prod.fst s.handlers id).map (fun entry =>
      { s.drop id with
        survey := entry.2.written same s.survey
        committed := s.committed ++ [entry.2.brought] })
  | .fails id => some (s.drop id)

end Steps

def Brought.facts? : Brought → Option Value
  | .survey _ => none
  | .facts report => some report

def Brought.survey? : Brought → Option SurveyDict
  | .survey dict => some dict
  | .facts _ => none

section Property

-- a value up to what `==` does not tell apart
variable (plain : Value → Value)

def content (survey : Option Fields) (key : String) : Option Value :=
  (findKey Prod.fst (survey.getD []) key).map (fun field => plain field.2)

/-- The content of the last `HostFacts` that was committed, or what was there at the start. -/
def factsDue (start : Option Fields) (committed : List Brought) : Option Value :=
  match (committed.filterMap Brought.facts?).getLast? with
  | none => content plain start "facts"
  | some report => some (plain report)

/-- The same for a key of the last `HostSurvey`. -/
def surveyDue (start : Option Fields) (committed : List Brought) (key : String) : Option Value :=
  match (committed.filterMap Brought.survey?).getLast? with
  | none => content plain start key
  | some dict => content plain (some dict.fields) key

/-- Under `facts` the last facts, under every other key the last survey. -/
def PartsHold (start : Option Fields) (s : SurveyState) : Prop :=
  content plain s.survey "facts" = factsDue plain start s.committed ∧
    ∀ key, key ≠ "facts" → content plain s.survey key = surveyDue plain start s.committed key

variable (same : Fields → Fields → Bool)

/-- The handler's write takes nothing from the other part. One that writes nothing needs its own
part to be still as it read it. -/
def Handler.Spares (handler : Handler) (survey : Option Fields) : Prop :=
  match handler.brought, handler.writesNothing same with
  | .survey _, false => content plain survey "facts" = none
  | .survey _, true =>
    ∀ key, key ≠ "facts" → content plain survey key = content plain handler.seen key
  | .facts _, false =>
    ∀ key, key ≠ "facts" → content plain handler.seen key = content plain survey key
  | .facts _, true => content plain survey "facts" = content plain handler.seen "facts"

def Spared (s : SurveyState) : SurveyEvent → Prop
  | .commits id =>
    ∀ entry, findKey Prod.fst s.handlers id = some entry → entry.2.Spares plain same s.survey
  | _ => True

variable {plain} {same} {start : Option Fields} {fields : Fields} {handler : Handler}
  {s t : SurveyState}

theorem content_noFacts (dict : SurveyDict) : content plain (some dict.fields) "facts" = none := by
  rw [content, Option.getD_some, findKey_none.mpr dict.noFacts]
  rfl

theorem content_setField (survey : Option Fields) (name : String) (value : Value) (key : String) :
    content plain (some (setField (survey.getD []) name value)) key =
      if key = name then some (plain value) else content plain survey key := by
  rw [content, Option.getD_some, findKey_setField]
  split <;> rfl

theorem factsDue_snoc (committed : List Brought) (brought : Brought) :
    factsDue plain start (committed ++ [brought]) =
      (brought.facts?).elim (factsDue plain start committed)
        (fun report => some (plain report)) := by
  cases brought <;> simp [factsDue, Brought.facts?]

theorem surveyDue_snoc (committed : List Brought) (brought : Brought) (key : String) :
    surveyDue plain start (committed ++ [brought]) key =
      (brought.survey?).elim (surveyDue plain start committed key)
        (fun dict => content plain (some dict.fields) key) := by
  cases brought <;> simp [surveyDue, Brought.survey?]

section Commit

-- dicts that are equal hold equal values
variable (equal : ∀ old new, same old new = true →
  ∀ key, content plain (some old) key = content plain (some new) key)

include equal

theorem content_seen (nothing : handler.writesNothing same = true) (key : String) :
    content plain handler.seen key = content plain (some handler.assigned) key := by
  cases seen : handler.seen with
  | none => simp [Handler.writesNothing, seen] at nothing
  | some old =>
    rw [Handler.writesNothing, seen] at nothing
    exact equal old handler.assigned nothing key

theorem survey_exact {dict : SurveyDict} (brought : handler.brought = .survey dict)
    (holds : PartsHold plain start s) (id : Nat) :
    handler.Spares plain same s.survey ↔ PartsHold plain start { s.drop id with
      survey := handler.written same s.survey, committed := s.committed ++ [.survey dict] } := by
  have assigned : handler.assigned = dict.fields := by simp [Handler.assigned, brought]
  simp only [PartsHold, factsDue_snoc, surveyDue_snoc, Brought.facts?, Brought.survey?,
    Option.elim_none, Option.elim_some, Handler.Spares, brought, Handler.written]
  rw [← holds.1, assigned]
  cases nothing : handler.writesNothing same with
  | false =>
    simp only [Bool.false_eq_true, if_false, content_noFacts]
    exact ⟨fun absent => ⟨absent.symm, fun _ _ => trivial⟩, fun kept => kept.1.symm⟩
  | true =>
    have seen := content_seen equal nothing
    rw [assigned] at seen
    simp only [if_true, seen, true_and]

theorem facts_exact {report : Value} (brought : handler.brought = .facts report)
    (holds : PartsHold plain start s) (id : Nat) :
    handler.Spares plain same s.survey ↔ PartsHold plain start { s.drop id with
      survey := handler.written same s.survey, committed := s.committed ++ [.facts report] } := by
  have assigned (key : String) : content plain (some handler.assigned) key =
      if key = "facts" then some (plain report) else content plain handler.seen key := by
    rw [Handler.assigned, brought]
    exact content_setField handler.seen "facts" report key
  simp only [PartsHold, factsDue_snoc, surveyDue_snoc, Brought.facts?, Brought.survey?,
    Option.elim_none, Option.elim_some, Handler.Spares, brought, Handler.written]
  cases nothing : handler.writesNothing same with
  | false =>
    simp only [Bool.false_eq_true, if_false, assigned, if_true, true_and]
    constructor
    · intro spared key other
      rw [if_neg other, spared key other]
      exact holds.2 key other
    · intro kept key other
      have here := kept key other
      rw [if_neg other] at here
      exact here.trans (holds.2 key other).symm
  | true =>
    have seen := content_seen equal nothing "facts"
    rw [assigned, if_pos rfl] at seen
    simp only [if_true, seen]
    exact ⟨fun spared => ⟨spared, holds.2⟩, fun kept => kept.1⟩

theorem surveyStep_exact {toJsonString : Timestamp → Option String} {b64encode : Bytes → String}
    {event : SurveyEvent} (holds : PartsHold plain start s)
    (stepped : surveyStep toJsonString b64encode same s event = some t) :
    Spared plain same s event ↔ PartsHold plain start t := by
  cases event with
  | reads id msg now =>
    have kept : PartsHold plain start t := by
      simp only [surveyStep] at stepped
      split at stepped
      · cases stepped
      · split at stepped <;> cases stepped <;> exact holds
    exact ⟨fun _ => kept, fun _ => trivial⟩
  | commits id =>
    obtain ⟨⟨id', handler⟩, found, rfl⟩ := Option.map_eq_some_iff.mp stepped
    have single : Spared plain same s (.commits id) ↔
        handler.Spares plain same s.survey := by
      simp [Spared, found]
    rw [single]
    cases brought : handler.brought with
    | survey dict => exact survey_exact equal brought holds id
    | facts report => exact facts_exact equal brought holds id
  | fails id =>
    cases stepped
    exact ⟨fun _ => holds, fun _ => trivial⟩

end Commit

/-- In a run of handlers that starts with nothing committed, the parts hold in every state reached
exactly if each handler that commits spares the other part. -/
theorem parts_hold_iff (toJsonString : Timestamp → Option String) (b64encode : Bytes → String)
    (plain : Value → Value) (same : Fields → Fields → Bool)
    (equal : ∀ old new, same old new = true →
      ∀ key, content plain (some old) key = content plain (some new) key)
    (start : Option Fields) (handlers : List (Nat × Handler)) (events : List SurveyEvent)
    {t : SurveyState}
    (reached : run (surveyStep toJsonString b64encode same) ⟨start, handlers, []⟩ events = some t) :
    Meets (surveyStep toJsonString b64encode same) (Spared plain same) ⟨start, handlers, []⟩
        events ↔
      ∀ before after u, events = before ++ after →
        run (surveyStep toJsonString b64encode same) ⟨start, handlers, []⟩ before = some u →
          PartsHold plain start u :=
  meets_iff_throughout
    (fun _ _ _ holds stepped => surveyStep_exact equal holds stepped) ⟨rfl, fun _ _ => rfl⟩ reached

def linuxSurvey : SurveyMessage := .hostSurvey { (default : HostSurvey) with os := "linux" }

def sshdFacts : SurveyMessage :=
  .hostFacts { (default : HostFacts) with hostId := "h", sshd := [("permitrootlogin", "yes")] }

def bothEmpty (old new : Fields) : Bool := old.isEmpty && new.isEmpty

theorem bothEmpty_equal (old new : Fields) (empty : bothEmpty old new = true) (key : String) :
    content id (some old) key = content id (some new) key := by
  obtain ⟨first, second⟩ := Bool.and_eq_true_iff.mp empty
  rw [List.isEmpty_iff.mp first, List.isEmpty_iff.mp second]

def surveyThenFacts : List SurveyEvent :=
  [.reads 0 linuxSurvey default, .commits 0, .reads 1 sshdFacts default, .commits 1]

theorem surveyThenFacts_holds :
    ∃ t, run (surveyStep (fun _ => none) (fun _ => "") bothEmpty) ⟨none, [], []⟩ surveyThenFacts =
        some t ∧ t.committed.length = 2 ∧ PartsHold id none t := by
  have met : Meets (surveyStep (fun _ => none) (fun _ => "") bothEmpty) (Spared id bothEmpty)
      ⟨none, [], []⟩ surveyThenFacts := by
    refine ⟨trivial, fun t first => ⟨?_, fun u second => ⟨trivial, fun v third => ⟨?_, ?_⟩⟩⟩⟩
    · cases first
      rintro _ ⟨⟩
      rfl
    · cases first
      cases second
      cases third
      rintro _ ⟨⟩ key _
      rfl
    · exact fun _ _ => trivial
  refine ⟨_, rfl, rfl, ?_⟩
  exact (parts_hold_iff (fun _ => none) (fun _ => "") id bothEmpty bothEmpty_equal none []
    surveyThenFacts rfl).mp met surveyThenFacts [] _ rfl rfl

theorem facts_erased :
    ¬ ∀ (same : Fields → Fields → Bool), (∀ old new, same old new = true →
        ∀ key, content id (some old) key = content id (some new) key) →
      ∀ start events t,
        run (surveyStep (fun _ => none) (fun _ => "") same) ⟨start, [], []⟩ events = some t →
          t.handlers = [] → PartsHold id start t := by
  intro kept
  have holds := kept bothEmpty bothEmpty_equal none
    [.reads 0 sshdFacts default, .commits 0, .reads 1 linuxSurvey default, .commits 1] _ rfl rfl
  exact Option.some_ne_none _ holds.1.symm

end Property

end HlHelper.Inbound
