import HlHelper.Auth.Sessions
import HlHelper.Library.Machine
import HlHelper.Library.Rows
import Mathlib.Data.List.Induction

/-! `ApiKeyService` over the table of keys. A call comes with its draws and its time. -/

namespace HlHelper.Auth.ApiKeys

open HlHelper.Library

local instance (priority := 2000) decidableOfText {p : Char → Prop} [DecidablePred p]
    (text : List Char) :
    Decidable (∀ c ∈ text, p c) := List.decidableBAll _ _

/-- A `datetime`: its wall clock in microseconds, and the UTC offset of an aware one. -/
structure Datetime where
  wall : Int
  offset : Option Int
  deriving DecidableEq, Repr

/-- The moment of a datetime, where a naive one is in UTC. -/
def Datetime.instant (time : Datetime) : Int := time.wall - time.offset.getD 0

/-- `replace(tzinfo=timezone.utc)` of a naive datetime. -/
def Datetime.assumedUtc (time : Datetime) : Datetime :=
  { time with offset := some (time.offset.getD 0) }

/-- What the calls raise. `unicodeEncode` is from `encode("ascii")`. -/
inductive Failure where
  | apiKeyError (text : String)
  | expired (text : String)
  | revoked (text : String)
  | ipDenied (text : String)
  | value (text : String)
  | type (text : String)
  | unicodeEncode
  | integrity
  deriving DecidableEq, Repr

/-- `ApiKeyError` and its subclasses. -/
def Failure.isApiKeyError : Failure → Bool
  | .apiKeyError _ | .expired _ | .revoked _ | .ipDenied _ => true
  | .value _ | .type _ | .unicodeEncode | .integrity => false

def Datetime.ge (now exp : Datetime) : Except Failure Bool :=
  match now.offset, exp.offset with
  | some mine, some other => .ok (decide (exp.wall - other ≤ now.wall - mine))
  | none, none => .ok (decide (exp.wall ≤ now.wall))
  | _, _ => .error (.type "can't compare offset-naive and offset-aware datetimes")

inductive PrincipalKind where
  | user
  | serviceAccount
  deriving DecidableEq, Repr

/-- A row of `api_keys`. `keyPrefix` is its column `prefix`. -/
structure Row where
  id : String
  keyPrefix : String
  last4 : String
  keyHash : Bytes
  principalId : String
  principalKind : PrincipalKind
  name : String
  expiresAt : Option Datetime
  revokedAt : Option Datetime
  ipAllowlist : List String
  lastUsedAt : Option Datetime
  deriving DecidableEq, Repr

section Plaintext

def alphabet : List Char :=
  "ABCDEFGHIJKLMNOPQRSTUVWXYZabcdefghijklmnopqrstuvwxyz0123456789-_".toList

def symbol (n : Nat) : Char := alphabet.getD n '_'

/-- `urlsafe_b64encode` without the padding. -/
def urlsafeB64 : Bytes → List Char
  | a :: b :: c :: rest =>
    symbol (a.toNat / 4) :: symbol (a.toNat % 4 * 16 + b.toNat / 16) ::
      symbol (b.toNat % 16 * 4 + c.toNat / 64) :: symbol (c.toNat % 64) :: urlsafeB64 rest
  | [a, b] =>
    [symbol (a.toNat / 4), symbol (a.toNat % 4 * 16 + b.toNat / 16), symbol (b.toNat % 16 * 4)]
  | [a] => [symbol (a.toNat / 4), symbol (a.toNat % 4 * 16)]
  | [] => []

structure TokenBytes where
  content : Bytes
  size : content.length = 32
  deriving DecidableEq

def generatePlaintext (raw : TokenBytes) : String :=
  String.ofList (['h', 'l', 'k', '_'] ++ urlsafeB64 raw.content)

def hashPlaintext (sha : Sha256) (plaintext : String) : Except Failure Bytes :=
  if ∀ c ∈ plaintext.toList, c.toNat < 128 then .ok (sha.sum (Wire.utf8 plaintext))
  else .error .unicodeEncode

def parsePrefix (plaintext : String) : String := String.ofList (plaintext.toList.take 8)

def symbolIndex (c : Char) : Nat := alphabet.idxOf c

theorem symbolIndex_symbol : ∀ n < 64, symbolIndex (symbol n) = n := by decide

theorem symbol_ascii (n : Nat) : (symbol n).toNat < 128 := by
  have all : ∀ c ∈ alphabet, c.toNat < 128 := by decide
  rw [symbol, List.getD_eq_getElem?_getD]
  cases found : alphabet[n]? with
  | none => decide
  | some c => exact all c (List.mem_of_getElem? found)

theorem symbol_injective {m n : Nat} (left : m < 64) (right : n < 64)
    (same : symbol m = symbol n) : m = n := by
  rw [← symbolIndex_symbol m left, same, symbolIndex_symbol n right]

theorem urlsafeB64_ascii (content : Bytes) : ∀ c ∈ urlsafeB64 content, c.toNat < 128 := by
  induction content using urlsafeB64.induct with
  | case1 a b c rest ih =>
    simp only [urlsafeB64, List.forall_mem_cons]
    exact ⟨symbol_ascii _, symbol_ascii _, symbol_ascii _, symbol_ascii _, ih⟩
  | case2 a b => simp [urlsafeB64, symbol_ascii]
  | case3 a => simp [urlsafeB64, symbol_ascii]
  | case4 => simp [urlsafeB64]

theorem urlsafeB64_injective {first second : Bytes} (size : first.length = second.length)
    (same : urlsafeB64 first = urlsafeB64 second) : first = second := by
  induction first using urlsafeB64.induct generalizing second with
  | case1 a b c rest ih =>
    obtain _ | ⟨x, _ | ⟨y, _ | ⟨z, others⟩⟩⟩ := second
    case cons.cons.cons =>
      simp only [urlsafeB64, List.cons.injEq] at same
      obtain ⟨one, two, three, four, later⟩ := same
      have := a.toNat_lt
      have := b.toNat_lt
      have := c.toNat_lt
      have := x.toNat_lt
      have := y.toNat_lt
      have := z.toNat_lt
      have one := symbol_injective (by omega) (by omega) one
      have two := symbol_injective (by omega) (by omega) two
      have three := symbol_injective (by omega) (by omega) three
      have four := symbol_injective (by omega) (by omega) four
      rw [UInt8.toNat_inj.mp (show a.toNat = x.toNat by omega),
        UInt8.toNat_inj.mp (show b.toNat = y.toNat by omega),
        UInt8.toNat_inj.mp (show c.toNat = z.toNat by omega), ih (by simpa using size) later]
    all_goals simp at size
  | case2 a b =>
    obtain ⟨x, y, rfl⟩ := List.length_eq_two.mp size.symm
    simp only [urlsafeB64, List.cons.injEq] at same
    obtain ⟨one, two, three, -⟩ := same
    have := a.toNat_lt
    have := b.toNat_lt
    have := x.toNat_lt
    have := y.toNat_lt
    have one := symbol_injective (by omega) (by omega) one
    have two := symbol_injective (by omega) (by omega) two
    have three := symbol_injective (by omega) (by omega) three
    rw [UInt8.toNat_inj.mp (show a.toNat = x.toNat by omega),
      UInt8.toNat_inj.mp (show b.toNat = y.toNat by omega)]
  | case3 a =>
    obtain ⟨x, rfl⟩ := List.length_eq_one_iff.mp size.symm
    simp only [urlsafeB64, List.cons.injEq] at same
    obtain ⟨one, two, -⟩ := same
    have := a.toNat_lt
    have := x.toNat_lt
    have one := symbol_injective (by omega) (by omega) one
    have two := symbol_injective (by omega) (by omega) two
    rw [UInt8.toNat_inj.mp (show a.toNat = x.toNat by omega)]
  | case4 => exact (List.length_eq_zero_iff.mp size.symm).symm

end Plaintext

structure IssueRequest where
  principalId : String
  principalKind : PrincipalKind
  name : String
  expiresAt : Option Datetime
  ipAllowlist : Option (List String)
  deriving DecidableEq, Repr

/-- A request with the random id and token that are drawn for it. -/
structure Key where
  id : String
  raw : TokenBytes
  request : IssueRequest

namespace Key

def plaintext (key : Key) : String := generatePlaintext key.raw

def digest (sha : Sha256) (key : Key) : Bytes := sha.sum (Wire.utf8 key.plaintext)

def allowlist (key : Key) : List String := key.request.ipAllowlist.getD []

def row (key : Key) (digest : Bytes) : Row where
  id := key.id
  keyPrefix := parsePrefix key.plaintext
  last4 := String.ofList (key.plaintext.toList.drop (key.plaintext.toList.length - 4))
  keyHash := digest
  principalId := key.request.principalId
  principalKind := key.request.principalKind
  name := key.request.name
  expiresAt := key.request.expiresAt
  revokedAt := none
  ipAllowlist := key.allowlist
  lastUsedAt := none

end Key

/-- `load` is what the session gives back for a datetime of a row. SQLite stores the wall clock
only. -/
structure Service where
  sha : Sha256
  ipaddress : Ipaddress
  load : Datetime → Datetime

def Row.loaded (load : Datetime → Datetime) (row : Row) : Row :=
  { row with
    expiresAt := row.expiresAt.map load
    revokedAt := row.revokedAt.map load
    lastUsedAt := row.lastUsedAt.map load }

inductive Answer where
  | issued (plaintext apiKeyId : String)
  | revoked
  | verified (row : Row)
  | raised (failure : Failure)
  deriving DecidableEq, Repr

namespace Service

variable (service : Service)

def ipInAllowlist (sourceIp : String) (allowlist : List String) : Bool :=
  match service.ipaddress.ipAddress sourceIp with
  | none => false
  | some address => allowlist.any fun entry =>
    match service.ipaddress.ipNetwork entry with
    | none => false
    | some network => network.contains address

def invalidCidr (allowlist : List String) : Option String :=
  allowlist.find? fun cidr => (service.ipaddress.ipNetwork cidr).isNone

def issue (rows : List Row) (key : Key) : List Row × Answer :=
  match service.invalidCidr key.allowlist with
  | some cidr => (rows, .raised (.value ("invalid_cidr: " ++ cidr)))
  | none =>
    match hashPlaintext service.sha key.plaintext with
    | .error failure => (rows, .raised failure)
    | .ok digest =>
      if key.id ∈ rows.map Row.id then (rows, .raised .integrity)
      else (rows ++ [key.row digest], .issued key.plaintext key.id)

def checkExpiry (expiresAt : Option Datetime) (now : Datetime) : Except Failure Unit :=
  match expiresAt with
  | none => .ok ()
  | some exp => do
      let reached ← now.ge exp.assumedUtc
      if reached then .error (.expired "expired") else .ok ()

def checkAllowlist (allowlist : List String) (sourceIp : Option String) : Except Failure Unit :=
  if allowlist = [] then .ok ()
  else
    match sourceIp with
    | none => .error (.ipDenied "ip_required")
    | some ip =>
      if service.ipInAllowlist ip allowlist then .ok () else .error (.ipDenied "ip_not_allowed")

/-- What `verify` asks of the row that it has found. -/
def check (row : Row) (sourceIp : Option String) (now : Datetime) : Except Failure Unit :=
  if row.revokedAt.isSome then .error (.revoked "revoked")
  else do
    checkExpiry row.expiresAt now
    service.checkAllowlist row.ipAllowlist sourceIp

def lookup (rows : List Row) (keyPrefix : String) (digest : Bytes) : Option Row :=
  (rows.filter fun row => row.keyPrefix = keyPrefix).find? fun row => row.keyHash = digest

def verify (rows : List Row) (plaintext : String) (sourceIp : Option String) (now : Datetime) :
    List Row × Answer :=
  match hashPlaintext service.sha plaintext with
  | .error failure => (rows, .raised failure)
  | .ok digest =>
    match lookup rows (parsePrefix plaintext) digest with
    | none => (rows, .raised (.apiKeyError "invalid"))
    | some row =>
      match service.check (row.loaded service.load) sourceIp now with
      | .error failure => (rows, .raised failure)
      | .ok () =>
        (rows.map fun other =>
          if other.id = row.id then { other with lastUsedAt := some now } else other,
          .verified { row.loaded service.load with lastUsedAt := some now })

def revoke (rows : List Row) (apiKeyId : String) (now : Datetime) : List Row × Answer :=
  (rows.map fun row =>
    if row.id = apiKeyId ∧ row.revokedAt = none then { row with revokedAt := some now } else row,
    .revoked)

end Service

inductive Op where
  | issue (key : Key)
  | revoke (apiKeyId : String) (now : Datetime)
  | verify (plaintext : String) (sourceIp : Option String) (now : Datetime)

def Service.step (service : Service) (rows : List Row) : Op → List Row × Answer
  | .issue key => service.issue rows key
  | .revoke apiKeyId now => Service.revoke rows apiKeyId now
  | .verify plaintext sourceIp now => service.verify rows plaintext sourceIp now

def Service.table (service : Service) (history : List Op) : List Row :=
  after service.step [] history

section Exact

variable (service : Service) (history : List Op) (plaintext : String) (sourceIp : Option String)
  (now : Datetime)

/-- The key was issued, and `since` are the calls from then on. -/
def Issued (key : Key) (since : List Op) : Prop :=
  ∃ earlier, history = earlier ++ .issue key :: since ∧
    (service.issue (service.table earlier) key).2 = .issued key.plaintext key.id

/-- The address is in a network of the allowlist, or there is none. -/
def Admitted (key : Key) : Prop :=
  key.allowlist = [] ∨ ∃ ip ∈ sourceIp, ∃ address ∈ service.ipaddress.ipAddress ip,
    ∃ entry ∈ key.allowlist, ∃ network ∈ service.ipaddress.ipNetwork entry,
      network.contains address = true

structure Opens (key : Key) (since : List Op) : Prop where
  own : plaintext = key.plaintext
  unrevoked : ∀ time, .revoke key.id time ∉ since
  ahead : ∀ exp ∈ key.request.expiresAt, now.instant < exp.instant
  admitted : Admitted service sourceIp key

/-- The call returns a key exactly when it opens, with nothing but its last use changed, and
raises an `ApiKeyError` and changes nothing where none does. -/
structure Exact : Prop where
  returns : ∀ key since, Issued service history key since →
    ((∃ row, (service.verify (service.table history) plaintext sourceIp now).2 = .verified row ∧
      row.id = key.id) ↔ Opens service plaintext sourceIp now key since)
  verified : ∀ row, (service.verify (service.table history) plaintext sourceIp now).2 =
      .verified row →
    (∃ key since, Issued service history key since ∧ row =
      { (key.row (key.digest service.sha)).loaded service.load with lastUsedAt := some now }) ∧
    (service.verify (service.table history) plaintext sourceIp now).1 =
      (service.table history).map fun other =>
        if other.id = row.id then { other with lastUsedAt := some now } else other
  refused : (∀ key since, Issued service history key since →
      ¬ Opens service plaintext sourceIp now key since) →
    ∃ failure, failure.isApiKeyError = true ∧
      service.verify (service.table history) plaintext sourceIp now =
        (service.table history, .raised failure)

/-- The string is ASCII. Where it is the plaintext of a key that is not revoked and has an expiry,
`now` is aware, and unless the address is refused the expiry that is loaded is on the same side. -/
structure Plain : Prop where
  ascii : ∀ c ∈ plaintext.toList, c.toNat < 128
  clock : ∀ key since, Issued service history key since → plaintext = key.plaintext →
    (∀ time, .revoke key.id time ∉ since) → ∀ exp ∈ key.request.expiresAt,
      now.offset ≠ none ∧ (Admitted service sourceIp key →
        (now.instant < exp.instant ↔ now.instant < (service.load exp).instant))

def drawn : List TokenBytes :=
  history.filterMap fun
    | .issue key => if service.invalidCidr key.allowlist = none then some key.raw else none
    | _ => none

end Exact

section Table

variable {service : Service} {history : List Op} {rows : List Row} {row : Row} {key other : Key}
  {since : List Op} {op : Op}

theorem toList_plaintext (raw : TokenBytes) :
    (generatePlaintext raw).toList = ['h', 'l', 'k', '_'] ++ urlsafeB64 raw.content :=
  String.toList_ofList

theorem plaintext_injective {first second : TokenBytes}
    (same : generatePlaintext first = generatePlaintext second) : first = second := by
  have texts := congrArg String.toList same
  rw [toList_plaintext, toList_plaintext, List.append_cancel_left_eq] at texts
  have contents := urlsafeB64_injective (first.size.trans second.size.symm) texts
  cases first
  cases second
  cases contents
  rfl

theorem plaintext_ascii (raw : TokenBytes) :
    ∀ c ∈ (generatePlaintext raw).toList, c.toNat < 128 := by
  have front : ∀ c ∈ ['h', 'l', 'k', '_'], c.toNat < 128 := by decide
  rw [toList_plaintext]
  intro c member
  rcases List.mem_append.mp member with fixed | drawn
  · exact front c fixed
  · exact urlsafeB64_ascii _ c drawn

theorem hashPlaintext_eq {sha : Sha256} {plaintext : String}
    (ascii : ∀ c ∈ plaintext.toList, c.toNat < 128) :
    hashPlaintext sha plaintext = .ok (sha.sum (Wire.utf8 plaintext)) := if_pos ascii

theorem hashPlaintext_plaintext (sha : Sha256) (key : Key) :
    hashPlaintext sha key.plaintext = .ok (key.digest sha) :=
  hashPlaintext_eq (plaintext_ascii key.raw)

/-- A row is what its key was issued with but for its revocation, which is among the calls since,
and its last use. -/
structure Holds (service : Service) (row : Row) (key : Key) (since : List Op) : Prop where
  same : { row with revokedAt := none, lastUsedAt := none } = key.row (key.digest service.sha)
  revoked : row.revokedAt = none ↔ ∀ time, .revoke key.id time ∉ since

section

variable (holds : Holds service row key since)
include holds

theorem Holds.id : row.id = key.id :=
  congrArg Row.id holds.same

theorem Holds.keyPrefix :
    row.keyPrefix = parsePrefix key.plaintext := congrArg Row.keyPrefix holds.same

theorem Holds.keyHash : row.keyHash = key.digest service.sha := congrArg Row.keyHash holds.same

theorem Holds.expiresAt : row.expiresAt = key.request.expiresAt := congrArg Row.expiresAt holds.same

theorem Holds.ipAllowlist : row.ipAllowlist = key.allowlist := congrArg Row.ipAllowlist holds.same

end

theorem step_cases (service : Service) (rows : List Row) (op : Op) :
    (∃ key, op = .issue key ∧ service.invalidCidr key.allowlist = none ∧
      key.id ∉ rows.map Row.id ∧ service.step rows op =
        (rows ++ [key.row (key.digest service.sha)], .issued key.plaintext key.id)) ∨
    (∀ key, op = .issue key → (service.step rows op).2 ≠ .issued key.plaintext key.id) ∧
      ∃ update : Row → Row, (service.step rows op).1 = rows.map update ∧
        ∀ row, { update row with revokedAt := none, lastUsedAt := none } =
            { row with revokedAt := none, lastUsedAt := none } ∧
          ((update row).revokedAt = none ↔
            row.revokedAt = none ∧ ∀ time, op ≠ .revoke row.id time) := by
  cases op with
  | issue key =>
    simp only [Service.step, Service.issue, hashPlaintext_plaintext]
    cases invalid : service.invalidCidr key.allowlist with
    | some cidr => exact .inr ⟨by simp, id, by simp⟩
    | none =>
      by_cases taken : key.id ∈ rows.map Row.id
      · simp only [if_pos taken]
        exact .inr ⟨by simp, id, by simp⟩
      · refine .inl ⟨key, rfl, invalid, taken, ?_⟩
        simp only [if_neg taken]
  | revoke apiKeyId now =>
    refine .inr ⟨by simp, _, rfl, fun row => ?_⟩
    by_cases hit : row.id = apiKeyId ∧ row.revokedAt = none
    · rw [if_pos hit]
      exact ⟨rfl, by simp [hit.1]⟩
    · rw [if_neg hit]
      refine ⟨rfl, fun alive => ⟨alive, fun time same => ?_⟩, And.left⟩
      exact hit ⟨(Op.revoke.inj same).1.symm, alive⟩
  | verify plaintext sourceIp now =>
    refine .inr ⟨by simp, ?_⟩
    simp only [Service.step, Service.verify]
    split
    · exact ⟨id, by simp⟩
    · split
      · exact ⟨id, by simp⟩
      · split
        · exact ⟨id, by simp⟩
        · refine ⟨_, rfl, fun row => ?_⟩
          split
          · exact ⟨rfl, by simp⟩
          · exact ⟨rfl, by simp⟩

theorem issued_concat : Issued service (history ++ [op]) key since ↔
    (since = [] ∧ op = .issue key ∧
      (service.issue (service.table history) key).2 = .issued key.plaintext key.id) ∨
    ∃ rest, since = rest ++ [op] ∧ Issued service history key rest := by
  constructor
  · rintro ⟨earlier, split, issued⟩
    rcases List.eq_nil_or_concat since with rfl | ⟨rest, last, rfl⟩
    · obtain ⟨rfl, last⟩ := List.append_inj' split rfl
      exact .inl ⟨rfl, (List.cons.inj last).1, issued⟩
    · rw [List.concat_eq_append, ← List.cons_append, ← List.append_assoc] at split
      obtain ⟨front, last⟩ := List.append_inj' split rfl
      obtain rfl := (List.cons.inj last).1
      exact .inr ⟨rest, List.concat_eq_append, earlier, front, issued⟩
  · rintro (⟨rfl, rfl, issued⟩ | ⟨rest, rfl, earlier, rfl, issued⟩)
    · exact ⟨history, rfl, issued⟩
    · exact ⟨earlier, by simp, issued⟩

structure Faithful (service : Service) (history : List Op) (rows : List Row) : Prop where
  unique : (rows.map Row.id).Nodup
  sound : ∀ row ∈ rows, ∃ key since, Issued service history key since ∧ Holds service row key since
  complete : ∀ key since, Issued service history key since →
    ∃ row ∈ rows, Holds service row key since

theorem Holds.step (holds : Holds service row key since) {update : Row → Row}
    (kept : { update row with revokedAt := none, lastUsedAt := none } =
      { row with revokedAt := none, lastUsedAt := none })
    (revoked : (update row).revokedAt = none ↔
      row.revokedAt = none ∧ ∀ time, op ≠ .revoke row.id time) :
    Holds service (update row) key (since ++ [op]) where
  same := kept.trans holds.same
  revoked := by
    rw [revoked, holds.revoked, holds.id, ← forall_and]
    refine forall_congr' fun time => ?_
    rw [List.mem_append, List.mem_singleton, not_or]
    exact and_congr_right' ⟨fun other same => other same.symm, fun other same => other same.symm⟩

theorem Faithful.step (faithful : Faithful service history (service.table history)) (op : Op) :
    Faithful service (history ++ [op]) (service.table (history ++ [op])) := by
  have table : service.table (history ++ [op]) = (service.step (service.table history) op).1 :=
    after_concat _ _ _ _
  rw [table]
  rcases step_cases service (service.table history) op with
    ⟨key, rfl, -, fresh, stepped⟩ | ⟨other, update, updated, kept⟩
  · have last : Holds service (key.row (key.digest service.sha)) key [] := ⟨rfl, by simp [Key.row]⟩
    have later : ∀ {row old since}, Holds service row old since →
        Holds service row old (since ++ [.issue key]) :=
      fun holds => @Holds.step _ _ _ _ _ holds id rfl (by simp)
    rw [stepped]
    refine ⟨?_, ?_, ?_⟩
    · apply @unique_append _ _ _ _ (some _) faithful.unique
      intro row new
      cases new
      exact fresh
    · intro row member
      rcases List.mem_append.mp member with old | new
      · obtain ⟨owner, since, issued, holds⟩ := faithful.sound row old
        exact ⟨owner, _, issued_concat.mpr (.inr ⟨since, rfl, issued⟩), later holds⟩
      · obtain rfl := List.mem_singleton.mp new
        exact ⟨key, [], issued_concat.mpr (.inl ⟨rfl, rfl, congrArg Prod.snd stepped⟩), last⟩
    · intro owner since issued
      rcases issued_concat.mp issued with ⟨rfl, same, -⟩ | ⟨rest, rfl, earlier⟩
      · obtain rfl := Op.issue.inj same
        exact ⟨_, by simp, last⟩
      · obtain ⟨row, member, holds⟩ := faithful.complete owner rest earlier
        exact ⟨row, List.mem_append_left _ member, later holds⟩
  · rw [updated]
    refine ⟨?_, ?_, ?_⟩
    · refine unique_map faithful.unique fun row => ?_
      have same := congrArg Row.id (kept row).1
      exact same
    · intro row member
      obtain ⟨old, inside, rfl⟩ := List.mem_map.mp member
      obtain ⟨owner, since, issued, holds⟩ := faithful.sound old inside
      exact ⟨owner, _, issued_concat.mpr (.inr ⟨since, rfl, issued⟩),
        holds.step (kept old).1 (kept old).2⟩
    · intro owner since issued
      rcases issued_concat.mp issued with ⟨-, same, answer⟩ | ⟨rest, rfl, earlier⟩
      · subst same
        exact absurd answer (other owner rfl)
      · obtain ⟨row, member, holds⟩ := faithful.complete owner rest earlier
        exact ⟨update row, List.mem_map_of_mem member, holds.step (kept row).1 (kept row).2⟩

theorem table_faithful (service : Service) (history : List Op) :
    Faithful service history (service.table history) := by
  induction history using List.reverseRecOn with
  | nil =>
    refine ⟨List.nodup_nil, fun row member => absurd member (by simp [Service.table, after]), ?_⟩
    rintro key since ⟨earlier, split, -⟩
    simp at split
  | append_singleton history op ih => exact ih.step op

end Table

section Check

variable {service : Service} {row : Row} {sourceIp : Option String} {now : Datetime}

theorem ge_assumedUtc {offset : Int} (aware : now.offset = some offset) (exp : Datetime) :
    now.ge exp.assumedUtc = .ok (decide (exp.instant ≤ now.instant)) := by
  simp only [Datetime.ge, aware, Datetime.assumedUtc, Datetime.instant, Option.getD_some]
  rfl

theorem checkExpiry_ok_iff {expiresAt : Option Datetime}
    (aware : ∀ exp ∈ expiresAt, now.offset ≠ none) :
    Service.checkExpiry expiresAt now = .ok () ↔ ∀ exp ∈ expiresAt, now.instant < exp.instant := by
  cases expiresAt with
  | none => simp [Service.checkExpiry]
  | some exp =>
    obtain ⟨offset, known⟩ := Option.ne_none_iff_exists'.mp (aware exp rfl)
    simp only [Service.checkExpiry, ge_assumedUtc known]
    by_cases reached : exp.instant ≤ now.instant
    · rw [decide_eq_true reached]
      refine ⟨fun passed => absurd passed (by simp [bind, Except.bind]), fun ahead => ?_⟩
      exact absurd reached (Int.not_le.mpr (ahead exp rfl))
    · rw [decide_eq_false reached]
      refine ⟨fun _ other same => ?_, fun _ => rfl⟩
      cases same
      exact Int.not_le.mp reached

theorem checkExpiry_error {expiresAt : Option Datetime} {failure : Failure}
    (aware : ∀ exp ∈ expiresAt, now.offset ≠ none)
    (failed : Service.checkExpiry expiresAt now = .error failure) :
    failure.isApiKeyError = true := by
  cases expiresAt with
  | none => cases failed
  | some exp =>
    obtain ⟨offset, known⟩ := Option.ne_none_iff_exists'.mp (aware exp rfl)
    simp only [Service.checkExpiry, ge_assumedUtc known] at failed
    by_cases reached : exp.instant ≤ now.instant
    · simp only [reached, decide_true] at failed
      cases failed
      rfl
    · simp only [reached, decide_false] at failed
      cases failed

theorem checkExpiry_naive (naive : now.offset = none) (exp : Datetime) :
    ∃ text, Service.checkExpiry (some exp) now = .error (.type text) := by
  simp only [Service.checkExpiry, Datetime.ge, naive, Datetime.assumedUtc]
  exact ⟨_, rfl⟩

theorem ipInAllowlist_iff {ip : String} {allowlist : List String} :
    service.ipInAllowlist ip allowlist = true ↔
      ∃ address ∈ service.ipaddress.ipAddress ip, ∃ entry ∈ allowlist,
        ∃ network ∈ service.ipaddress.ipNetwork entry, network.contains address = true := by
  unfold Service.ipInAllowlist
  cases service.ipaddress.ipAddress ip with
  | none => simp
  | some address =>
    simp only [List.any_eq_true, Option.mem_def, Option.some.injEq, exists_eq_left']
    refine exists_congr fun entry => and_congr_right fun _ => ?_
    cases service.ipaddress.ipNetwork entry with
    | none => simp
    | some network => simp

theorem checkAllowlist_ok_iff {key : Key} :
    service.checkAllowlist key.allowlist sourceIp = .ok () ↔ Admitted service sourceIp key := by
  unfold Service.checkAllowlist Admitted
  by_cases empty : key.allowlist = []
  · simp [empty]
  · rw [if_neg empty]
    cases sourceIp with
    | none => simp [empty]
    | some ip =>
      have inside := @ipInAllowlist_iff service ip key.allowlist
      simp only [empty, false_or, Option.mem_some, exists_eq_left']
      rw [← inside]
      by_cases passed : service.ipInAllowlist ip key.allowlist = true
      · simp [passed]
      · simp [passed]

theorem checkAllowlist_error {allowlist : List String} {failure : Failure}
    (failed : service.checkAllowlist allowlist sourceIp = .error failure) :
    failure.isApiKeyError = true := by
  unfold Service.checkAllowlist at failed
  split at failed
  · cases failed
  · split at failed
    · cases failed
      rfl
    · split at failed
      · cases failed
      · cases failed
        rfl

theorem check_ok_iff : service.check row sourceIp now = .ok () ↔
    row.revokedAt = none ∧ Service.checkExpiry row.expiresAt now = .ok () ∧
      service.checkAllowlist row.ipAllowlist sourceIp = .ok () := by
  unfold Service.check
  cases row.revokedAt with
  | some time => simp
  | none =>
    rw [if_neg (by simp)]
    cases Service.checkExpiry row.expiresAt now with
    | error failure => simp [bind, Except.bind]
    | ok checked => exact ⟨fun passed => ⟨rfl, rfl, passed⟩, fun passed => passed.2.2⟩

theorem check_error {failure : Failure} (aware : row.revokedAt = none →
      ∀ exp ∈ row.expiresAt, now.offset ≠ none)
    (failed : service.check row sourceIp now = .error failure) : failure.isApiKeyError = true := by
  unfold Service.check at failed
  cases revoked : row.revokedAt with
  | some time =>
    rw [revoked] at failed
    cases failed
    rfl
  | none =>
    rw [revoked] at failed
    cases checked : Service.checkExpiry row.expiresAt now with
    | error other =>
      rw [checked] at failed
      cases failed
      exact checkExpiry_error (aware revoked) checked
    | ok passed =>
      rw [checked] at failed
      exact checkAllowlist_error failed

end Check

theorem split_unique {α β : Type*} {f : α → Option β} {entries front back first second : List α}
    {x y : α} {value : β} (distinct : (entries.filterMap f).Nodup)
    (left : entries = front ++ x :: first) (right : entries = back ++ y :: second)
    (here : f x = some value) (there : f y = some value) : x = y ∧ first = second := by
  have twice : ∀ {middle more rest : List α} {x y : α}, f x = some value → f y = some value →
      ¬ ((middle ++ x :: (more ++ y :: rest)).filterMap f).Nodup := by
    intro middle more rest x y here there distinct
    rw [List.filterMap_append, List.filterMap_cons_some here, List.filterMap_append,
      List.filterMap_cons_some there] at distinct
    have apart := (List.nodup_cons.mp (List.nodup_append.mp distinct).2.1).1
    exact apart (by simp)
  rw [left] at right
  rcases List.append_eq_append_iff.mp right with ⟨middle, rfl, same⟩ | ⟨middle, rfl, same⟩
  · cases middle with
    | nil => exact List.cons.inj same
    | cons next more =>
      obtain ⟨rfl, rfl⟩ := List.cons.inj same
      exact absurd (left ▸ distinct) (twice here there)
  · cases middle with
    | nil =>
      obtain ⟨rfl, rfl⟩ := List.cons.inj same
      exact ⟨rfl, rfl⟩
    | cons next more =>
      obtain ⟨rfl, rfl⟩ := List.cons.inj same
      rw [left, List.append_assoc] at distinct
      exact absurd distinct (twice there here)

section Verify

variable {service : Service} {history : List Op} {plaintext : String} {sourceIp : Option String}
  {now : Datetime} {row : Row} {key other : Key} {since rest : List Op}

theorem issued_drawn (issued : Issued service history key since) :
    service.invalidCidr key.allowlist = none := by
  obtain ⟨earlier, -, answer⟩ := issued
  rcases step_cases service (service.table earlier) (.issue key) with
    ⟨_, same, valid, -⟩ | ⟨never, -⟩
  · obtain rfl := Op.issue.inj same
    exact valid
  · exact absurd answer (never key rfl)

theorem mem_drawn (issued : Issued service history key since) :
    key.raw ∈ drawn service history := by
  have valid := issued_drawn issued
  obtain ⟨earlier, rfl, -⟩ := issued
  exact List.mem_filterMap.mpr ⟨.issue key, by simp, if_pos valid⟩

theorem issued_unique (distinct : (drawn service history).Nodup)
    (issued : Issued service history key since) (too : Issued service history other rest)
    (same : key.plaintext = other.plaintext) : key = other ∧ since = rest := by
  have valid := issued_drawn issued
  have validToo := issued_drawn too
  obtain ⟨earlier, split, -⟩ := issued
  obtain ⟨before, splitToo, -⟩ := too
  obtain ⟨ops, later⟩ := split_unique distinct split splitToo (if_pos valid)
    ((if_pos validToo).trans (congrArg some (plaintext_injective same).symm))
  exact ⟨Op.issue.inj ops, later⟩

theorem lookup_of_issued (issued : Issued service history key since) :
    ∃ row, Service.lookup (service.table history) (parsePrefix key.plaintext)
      (key.digest service.sha) = some row := by
  obtain ⟨row, member, holds⟩ := (table_faithful service history).complete key since issued
  apply Option.isSome_iff_exists.mp
  rw [Service.lookup, List.find?_isSome]
  refine ⟨row, List.mem_filter.mpr ⟨member, ?_⟩, ?_⟩
  · exact decide_eq_true holds.keyPrefix
  · exact decide_eq_true holds.keyHash

def CollisionFree (service : Service) (history : List Op) (plaintext : String) : Prop :=
  ∀ raw ∈ drawn service history, service.sha.sum (Wire.utf8 (generatePlaintext raw)) =
    service.sha.sum (Wire.utf8 plaintext) → Wire.utf8 (generatePlaintext raw) = Wire.utf8 plaintext

theorem utf8_injective {first second : String} (same : Wire.utf8 first = Wire.utf8 second) :
    first = second := by
  have texts := congrArg Wire.unutf8 same
  rw [Wire.unutf8_utf8, Wire.unutf8_utf8] at texts
  exact Option.some.inj texts

theorem lookup_some (collisionFree : CollisionFree service history plaintext)
    (found : Service.lookup (service.table history) (parsePrefix plaintext)
      (service.sha.sum (Wire.utf8 plaintext)) = some row) :
    row ∈ service.table history ∧ ∃ key since, Issued service history key since ∧
      Holds service row key since ∧ plaintext = key.plaintext := by
  have member := (List.mem_filter.mp (List.mem_of_find?_eq_some found)).1
  have hash : row.keyHash = service.sha.sum (Wire.utf8 plaintext) := by
    simpa using List.find?_some found
  obtain ⟨key, since, issued, holds⟩ := (table_faithful service history).sound row member
  refine ⟨member, key, since, issued, holds, ?_⟩
  rw [holds.keyHash] at hash
  exact (utf8_injective (collisionFree _ (mem_drawn issued) hash)).symm

theorem loaded_of_holds (holds : Holds service row key since) (alive : row.revokedAt = none) :
    { row.loaded service.load with lastUsedAt := some now } =
      { (key.row (key.digest service.sha)).loaded service.load with lastUsedAt := some now } := by
  rw [← holds.same]
  simp only [Row.loaded, alive]

theorem check_loaded_iff (holds : Holds service row key since)
    (aware : ∀ exp ∈ key.request.expiresAt, now.offset ≠ none) :
    service.check (row.loaded service.load) sourceIp now = .ok () ↔
      (∀ time, .revoke key.id time ∉ since) ∧
      (∀ exp ∈ key.request.expiresAt, now.instant < (service.load exp).instant) ∧
      Admitted service sourceIp key := by
  have loaded : (row.loaded service.load).expiresAt = key.request.expiresAt.map service.load :=
    congrArg (Option.map service.load) holds.expiresAt
  have alive : (row.loaded service.load).revokedAt = none ↔ row.revokedAt = none :=
    Option.map_eq_none_iff
  have list : (row.loaded service.load).ipAllowlist = key.allowlist := holds.ipAllowlist
  rw [check_ok_iff, loaded, list, alive, holds.revoked, checkAllowlist_ok_iff]
  rw [checkExpiry_ok_iff (by simpa using aware)]
  simp

theorem digest_eq_of_id (issued : Issued service history key since)
    (too : Issued service history other rest) (same : key.id = other.id) :
    key.digest service.sha = other.digest service.sha := by
  have faithful := table_faithful service history
  obtain ⟨row, member, holds⟩ := faithful.complete key since issued
  obtain ⟨second, inside, held⟩ := faithful.complete other rest too
  obtain rfl := key_injective faithful.unique member inside
    (holds.id.trans (same.trans held.id.symm))
  exact holds.keyHash.symm.trans held.keyHash

theorem verify_cases (ascii : ∀ c ∈ plaintext.toList, c.toNat < 128)
    (collisionFree : CollisionFree service history plaintext) :
    ((∀ key since, Issued service history key since → plaintext ≠ key.plaintext) ∧
      service.verify (service.table history) plaintext sourceIp now =
        (service.table history, .raised (.apiKeyError "invalid"))) ∨
    ∃ row key since, Issued service history key since ∧ Holds service row key since ∧
      plaintext = key.plaintext ∧
      ((∃ failure, service.check (row.loaded service.load) sourceIp now = .error failure ∧
          service.verify (service.table history) plaintext sourceIp now =
            (service.table history, .raised failure)) ∨
        service.check (row.loaded service.load) sourceIp now = .ok () ∧
          service.verify (service.table history) plaintext sourceIp now =
            ((service.table history).map fun other =>
              if other.id = row.id then { other with lastUsedAt := some now } else other,
              .verified { row.loaded service.load with lastUsedAt := some now })) := by
  unfold Service.verify
  rw [hashPlaintext_eq ascii]
  dsimp only
  cases found : Service.lookup (service.table history) (parsePrefix plaintext)
      (service.sha.sum (Wire.utf8 plaintext)) with
  | none =>
    refine .inl ⟨fun key since issued own => ?_, rfl⟩
    subst own
    obtain ⟨row, there⟩ := lookup_of_issued issued
    cases found.symm.trans there
  | some row =>
    obtain ⟨-, key, since, issued, holds, own⟩ := lookup_some collisionFree found
    refine .inr ⟨row, key, since, issued, holds, own, ?_⟩
    dsimp only
    cases checked : service.check (row.loaded service.load) sourceIp now with
    | error failure => exact .inl ⟨failure, rfl, rfl⟩
    | ok passed => exact .inr ⟨rfl, rfl⟩

theorem exact_of_plain (distinct : (drawn service history).Nodup)
    (collisionFree : CollisionFree service history plaintext)
    (plain : Plain service history plaintext sourceIp now) :
    Exact service history plaintext sourceIp now := by
  rcases @verify_cases _ _ _ sourceIp now plain.ascii collisionFree with
    ⟨unknown, refused⟩ | ⟨row, key, since, issued, holds, own, outcome⟩
  · refine ⟨fun key since issued => ⟨?_, ?_⟩, fun row answer => ?_, fun _ => ⟨_, rfl, refused⟩⟩
    · rintro ⟨row, answer, -⟩
      rw [refused] at answer
      cases answer
    · exact fun opens => absurd opens.own (unknown key since issued)
    · rw [refused] at answer
      cases answer
  · have alone : ∀ other rest, Issued service history other rest →
        plaintext = other.plaintext → other = key ∧ rest = since := fun other rest too same =>
      issued_unique distinct too issued (same.symm.trans own)
    have opens_iff : (∀ time, .revoke key.id time ∉ since) →
        (service.check (row.loaded service.load) sourceIp now = .ok () ↔
          Opens service plaintext sourceIp now key since) := by
      intro unrevoked
      have clock := plain.clock key since issued own unrevoked
      rw [check_loaded_iff holds fun exp has => (clock exp has).1]
      constructor
      · rintro ⟨-, ahead, admitted⟩
        exact ⟨own, unrevoked, fun exp has => ((clock exp has).2 admitted).mpr (ahead exp has),
          admitted⟩
      · rintro ⟨-, -, ahead, admitted⟩
        exact ⟨unrevoked, fun exp has => ((clock exp has).2 admitted).mp (ahead exp has), admitted⟩
    rcases outcome with ⟨failure, failed, verdict⟩ | ⟨passed, verdict⟩
    · have closed : ∀ other rest, Issued service history other rest →
          ¬ Opens service plaintext sourceIp now other rest := by
        intro other rest too opens
        obtain ⟨rfl, rfl⟩ := alone other rest too opens.own
        cases failed.symm.trans ((opens_iff opens.unrevoked).mpr opens)
      refine ⟨fun other rest too => ⟨?_, ?_⟩, fun row answer => ?_, fun _ => ⟨_, ?_, verdict⟩⟩
      · rintro ⟨row, answer, -⟩
        rw [verdict] at answer
        cases answer
      · exact fun opens => absurd opens (closed other rest too)
      · rw [verdict] at answer
        cases answer
      · refine check_error (fun alive exp has => ?_) failed
        obtain ⟨given, known, -⟩ := Option.map_eq_some_iff.mp has
        rw [holds.expiresAt] at known
        have unrevoked := holds.revoked.mp (Option.map_eq_none_iff.mp alive)
        exact (plain.clock key since issued own unrevoked given known).1
    · have alive : row.revokedAt = none := Option.map_eq_none_iff.mp (check_ok_iff.mp passed).1
      have opens := (opens_iff (holds.revoked.mp alive)).mp passed
      refine ⟨fun other rest too => ⟨?_, ?_⟩, fun returned answer => ?_, fun closed => ?_⟩
      · rintro ⟨returned, answer, same⟩
        rw [verdict] at answer
        obtain rfl := Answer.verified.inj answer
        have digests := digest_eq_of_id issued too (holds.id.symm.trans same)
        have texts := collisionFree _ (mem_drawn too)
          (digests.symm.trans (congrArg (fun text => service.sha.sum (Wire.utf8 text)) own.symm))
        obtain ⟨rfl, rfl⟩ := alone other rest too (utf8_injective texts).symm
        exact opens
      · intro openToo
        obtain ⟨rfl, rfl⟩ := alone other rest too openToo.own
        exact ⟨_, congrArg Prod.snd verdict, holds.id⟩
      · rw [verdict] at answer
        obtain rfl := Answer.verified.inj answer
        refine ⟨⟨key, since, issued, loaded_of_holds holds alive⟩, ?_⟩
        rw [verdict]
        rfl
      · exact absurd opens (closed key since issued)

theorem plain_of_exact (distinct : (drawn service history).Nodup)
    (collisionFree : CollisionFree service history plaintext)
    (exact_ : Exact service history plaintext sourceIp now) :
    Plain service history plaintext sourceIp now := by
  have ascii : ∀ c ∈ plaintext.toList, c.toNat < 128 := by
    by_contra other
    have closed : ∀ key since, Issued service history key since →
        ¬ Opens service plaintext sourceIp now key since := by
      rintro key since - ⟨rfl, -, -, -⟩
      exact other (plaintext_ascii key.raw)
    obtain ⟨failure, known, verdict⟩ := exact_.refused closed
    rw [Service.verify, hashPlaintext, if_neg other] at verdict
    obtain rfl := Answer.raised.inj (congrArg Prod.snd verdict)
    cases known
  refine ⟨ascii, fun key since issued own unrevoked exp has => ?_⟩
  rcases @verify_cases _ _ _ sourceIp now ascii collisionFree with
    ⟨unknown, -⟩ | ⟨row, other, rest, too, holds, same, outcome⟩
  · exact absurd own (unknown key since issued)
  obtain ⟨rfl, rfl⟩ := issued_unique distinct issued too (own.symm.trans same)
  have alive : row.revokedAt = none := holds.revoked.mpr unrevoked
  have aware : now.offset ≠ none := by
    intro naive
    obtain ⟨text, raised⟩ := checkExpiry_naive naive (service.load exp)
    have checked : service.check (row.loaded service.load) sourceIp now = .error (.type text) := by
      have expiry : (row.loaded service.load).expiresAt = some (service.load exp) :=
        (congrArg (Option.map service.load) holds.expiresAt).trans
          (congrArg (Option.map service.load) has)
      rw [Service.check, if_neg (by simp [Row.loaded, alive]), expiry, raised]
      rfl
    rcases outcome with ⟨failure, failed, verdict⟩ | ⟨passed, -⟩
    · obtain rfl := Except.error.inj (checked.symm.trans failed)
      have closed : ∀ key since, Issued service history key since →
          ¬ Opens service plaintext sourceIp now key since := by
        intro key since issued opens
        obtain ⟨row, answer, -⟩ := (exact_.returns key since issued).mpr opens
        rw [verdict] at answer
        cases answer
      obtain ⟨failure, known, again⟩ := exact_.refused closed
      obtain rfl := Answer.raised.inj (congrArg Prod.snd (verdict.symm.trans again))
      cases known
    · cases checked.symm.trans passed
  refine ⟨aware, fun admitted => ?_⟩
  have only : ∀ other ∈ key.request.expiresAt, other = exp := fun other given =>
    Option.some.inj (given.symm.trans has)
  have checks := @check_loaded_iff _ sourceIp now _ _ _ holds fun _ _ => aware
  constructor
  · intro ahead
    have opens : Opens service plaintext sourceIp now key since :=
      ⟨own, unrevoked, fun other given => only other given ▸ ahead, admitted⟩
    obtain ⟨returned, answer, -⟩ := (exact_.returns key since issued).mpr opens
    rcases outcome with ⟨failure, -, verdict⟩ | ⟨passed, -⟩
    · rw [verdict] at answer
      cases answer
    · exact (checks.mp passed).2.1 exp has
  · intro ahead
    have passed := checks.mpr ⟨unrevoked, fun other given => only other given ▸ ahead, admitted⟩
    rcases outcome with ⟨failure, failed, -⟩ | ⟨-, verdict⟩
    · cases failed.symm.trans passed
    · exact ((exact_.returns key since issued).mp
        ⟨_, congrArg Prod.snd verdict, holds.id⟩).ahead exp has

end Verify

/-- Behind any calls, a call of `verify` is exact if and only if its string is ASCII and an expiry
that it comes to is compared as it was given. -/
theorem verify_exact_iff (service : Service) (history : List Op) (plaintext : String)
    (sourceIp : Option String) (now : Datetime) (distinct : (drawn service history).Nodup)
    (collisionFree : CollisionFree service history plaintext) :
    Exact service history plaintext sourceIp now ↔
      Plain service history plaintext sourceIp now :=
  ⟨plain_of_exact distinct collisionFree, exact_of_plain distinct collisionFree⟩

section Runs

def sqlite : Service := ⟨.head, ⟨fun _ => none, fun _ => none, fun _ => ""⟩, fun time =>
  { time with offset := none }⟩

def expiring : Key :=
  ⟨"k", ⟨List.replicate 32 0, rfl⟩, ⟨"u", .user, "ci", some ⟨10, some 0⟩, none⟩⟩

theorem non_ascii_raises :
    sqlite.verify (sqlite.table [.issue expiring]) "hlk_é" none ⟨5, some 0⟩ =
      (sqlite.table [.issue expiring], .raised .unicodeEncode) ∧
    ¬ Exact sqlite [.issue expiring] "hlk_é" none ⟨5, some 0⟩ := by
  have other : ¬ ∀ c ∈ "hlk_é".toList, c.toNat < 128 := by decide
  have verdict : sqlite.verify (sqlite.table [.issue expiring]) "hlk_é" none ⟨5, some 0⟩ =
      (sqlite.table [.issue expiring], .raised .unicodeEncode) := by
    rw [Service.verify, hashPlaintext, if_neg other]
  refine ⟨verdict, fun exact_ => ?_⟩
  obtain ⟨failure, known, again⟩ := exact_.refused (by
    rintro key since - ⟨own, -, -, -⟩
    exact other (own ▸ plaintext_ascii key.raw))
  rw [verdict] at again
  obtain rfl := Answer.raised.inj (congrArg Prod.snd again)
  cases known

theorem plaintext_verified :
    Exact sqlite [.issue expiring] expiring.plaintext none ⟨5, some 0⟩ := by
  have draws : drawn sqlite [.issue expiring] = [expiring.raw] := rfl
  refine (verify_exact_iff _ _ _ _ _ ?_ ?_).mpr ⟨plaintext_ascii _, ?_⟩
  · rw [draws]
    exact List.nodup_singleton _
  · intro raw member _
    rw [draws, List.mem_singleton] at member
    rw [member]
    rfl
  · rintro key since ⟨earlier, split, -⟩ - - exp has
    cases earlier with
    | nil =>
      obtain rfl := Op.issue.inj (List.cons.inj split).1
      cases has
      exact ⟨by decide, fun _ => by decide⟩
    | cons first earlier => simp at split

end Runs

end HlHelper.Auth.ApiKeys
