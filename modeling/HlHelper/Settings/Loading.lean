import HlHelper.Library.OrderedMap

/-! `load_settings`: the environment and the config file merged by hand, beside the environment
reader of the settings library, and the choice of the RBAC provider. -/

namespace HlHelper.Settings

open HlHelper.Library

/-- What YAML, JSON and the validated fields hold; a `float` is held as Python prints it. -/
inductive Value where
  | null
  | bool (b : Bool)
  | int (n : Int)
  | float (text : String)
  | str (s : String)
  | list (items : List Value)
  | dict (fields : List (String × Value))
  deriving Repr, Inhabited

def Value.truthy : Value → Bool
  | .null => false
  | .bool b => b
  | .int n => n != 0
  | .float text => text != "0.0" && text != "-0.0"
  | .str s => s != ""
  | .list items => !items.isEmpty
  | .dict fields => !fields.isEmpty

/-- The fields of `FleetSettings`; `sources` is `sources_`, where the report goes. -/
inductive Field where
  | dataDir | dbUrl | publicUrl | logLevel | tz | metricsEnabled | otelEndpoint | traceSampleRate
  | auditRetentionDays | vaultAddr | vaultToken | sessionSigningKeyRef | adminToken
  | bootstrapAdminEmail | idempotencyMaxBodyBytes | rateLimitMaxBuckets | trustedProxyIps
  | sessionIdleTtlS | sessionAbsTtlS | passwordArgon2TimeCost | passwordArgon2MemoryKib
  | passwordArgon2Parallelism | webauthnRpId | webauthnOrigin | secretsRootDir
  | secretsRootKeyB64 | egressProxy | lockoutWindowS | csrfCookieName | sessionCookieName
  | cookieSecure | bootstrapTokenTtlMinutes | allowPermissiveRbac | advisoryEnabled
  | advisoryCatalogDatabaseUrl | advisorySyncOnStartup | advisorySyncIntervals
  | advisoryEcosystems | advisoryAlwaysIncludeLanguages | advisoryPiMode | sources
  deriving DecidableEq, Repr

namespace Field

/-- `model_fields`. -/
def all : List Field :=
  [.dataDir, .dbUrl, .publicUrl, .logLevel, .tz, .metricsEnabled, .otelEndpoint,
    .traceSampleRate, .auditRetentionDays, .vaultAddr, .vaultToken, .sessionSigningKeyRef,
    .adminToken, .bootstrapAdminEmail, .idempotencyMaxBodyBytes, .rateLimitMaxBuckets,
    .trustedProxyIps, .sessionIdleTtlS, .sessionAbsTtlS, .passwordArgon2TimeCost,
    .passwordArgon2MemoryKib, .passwordArgon2Parallelism, .webauthnRpId, .webauthnOrigin,
    .secretsRootDir, .secretsRootKeyB64, .egressProxy, .lockoutWindowS, .csrfCookieName,
    .sessionCookieName, .cookieSecure, .bootstrapTokenTtlMinutes, .allowPermissiveRbac,
    .advisoryEnabled, .advisoryCatalogDatabaseUrl, .advisorySyncOnStartup,
    .advisorySyncIntervals, .advisoryEcosystems, .advisoryAlwaysIncludeLanguages,
    .advisoryPiMode, .sources]

def name : Field → String
  | .dataDir => "data_dir"
  | .dbUrl => "db_url"
  | .publicUrl => "public_url"
  | .logLevel => "log_level"
  | .tz => "tz"
  | .metricsEnabled => "metrics_enabled"
  | .otelEndpoint => "otel_endpoint"
  | .traceSampleRate => "trace_sample_rate"
  | .auditRetentionDays => "audit_retention_days"
  | .vaultAddr => "vault_addr"
  | .vaultToken => "vault_token"
  | .sessionSigningKeyRef => "session_signing_key_ref"
  | .adminToken => "admin_token"
  | .bootstrapAdminEmail => "bootstrap_admin_email"
  | .idempotencyMaxBodyBytes => "idempotency_max_body_bytes"
  | .rateLimitMaxBuckets => "rate_limit_max_buckets"
  | .trustedProxyIps => "trusted_proxy_ips"
  | .sessionIdleTtlS => "session_idle_ttl_s"
  | .sessionAbsTtlS => "session_abs_ttl_s"
  | .passwordArgon2TimeCost => "password_argon2_time_cost"
  | .passwordArgon2MemoryKib => "password_argon2_memory_kib"
  | .passwordArgon2Parallelism => "password_argon2_parallelism"
  | .webauthnRpId => "webauthn_rp_id"
  | .webauthnOrigin => "webauthn_origin"
  | .secretsRootDir => "secrets_root_dir"
  | .secretsRootKeyB64 => "secrets_root_key_b64"
  | .egressProxy => "egress_proxy"
  | .lockoutWindowS => "lockout_window_s"
  | .csrfCookieName => "csrf_cookie_name"
  | .sessionCookieName => "session_cookie_name"
  | .cookieSecure => "cookie_secure"
  | .bootstrapTokenTtlMinutes => "bootstrap_token_ttl_minutes"
  | .allowPermissiveRbac => "allow_permissive_rbac"
  | .advisoryEnabled => "advisory_enabled"
  | .advisoryCatalogDatabaseUrl => "advisory_catalog_database_url"
  | .advisorySyncOnStartup => "advisory_sync_on_startup"
  | .advisorySyncIntervals => "advisory_sync_intervals"
  | .advisoryEcosystems => "advisory_ecosystems"
  | .advisoryAlwaysIncludeLanguages => "advisory_always_include_languages"
  | .advisoryPiMode => "advisory_pi_mode"
  | .sources => "sources_"

def default : Field → Value
  | .dataDir => .str "/data"
  | .dbUrl => .str "sqlite+aiosqlite:////data/fleet.db"
  | .publicUrl => .str "https://localhost:8443"
  | .logLevel => .str "info"
  | .tz => .str "UTC"
  | .metricsEnabled => .bool false
  | .otelEndpoint => .null
  | .traceSampleRate => .float "0.01"
  | .auditRetentionDays => .int 0
  | .vaultAddr => .null
  | .vaultToken => .null
  | .sessionSigningKeyRef => .str "local:/data/keys/session"
  | .adminToken => .null
  | .bootstrapAdminEmail => .null
  | .idempotencyMaxBodyBytes => .int 1048576
  | .rateLimitMaxBuckets => .int 100000
  | .trustedProxyIps => .list []
  | .sessionIdleTtlS => .int 1800
  | .sessionAbsTtlS => .int 43200
  | .passwordArgon2TimeCost => .int 3
  | .passwordArgon2MemoryKib => .int 65536
  | .passwordArgon2Parallelism => .int 4
  | .webauthnRpId => .null
  | .webauthnOrigin => .null
  | .secretsRootDir => .null
  | .secretsRootKeyB64 => .null
  | .egressProxy => .null
  | .lockoutWindowS => .int 300
  | .csrfCookieName => .str "hls_csrf"
  | .sessionCookieName => .str "hls_session"
  | .cookieSecure => .bool true
  | .bootstrapTokenTtlMinutes => .int 60
  | .allowPermissiveRbac => .bool false
  | .advisoryEnabled => .bool true
  | .advisoryCatalogDatabaseUrl => .null
  | .advisorySyncOnStartup => .bool false
  | .advisorySyncIntervals => .dict [("osv", .int 21600), ("epss", .int 86400), ("kev", .int 86400)]
  | .advisoryEcosystems => .str "auto"
  | .advisoryAlwaysIncludeLanguages => .bool true
  | .advisoryPiMode => .bool false
  | .sources => .dict []

theorem mem_all (field : Field) : field ∈ all := by
  cases field <;> decide

end Field

inductive Source where
  | env
  | file
  | default
  deriving DecidableEq, Repr

structure FleetSettings where
  values : Field → Value
  sources : Field → Source

abbrev Env := OrderedMap String String

abbrev Mapping := OrderedMap String Value

/-- The libraries: `str.lower` and `str.strip`, `json.loads`, what the environment reader makes of a
variable's text (nothing of a JSON null), and the validation of a field. -/
structure Lib where
  lower : String → String
  strip : String → String
  jsonLoads : String → Except String Value
  decode : Field → String → Except String (Option Value)
  validate : Field → Value → Except String Value

section Pydantic

variable (lib : Lib)

def coerceEcosystems (text : String) : Except String Value :=
  let stripped := lib.strip text
  let parts := (stripped.toList.splitOn ',').map (fun part => lib.strip (String.ofList part))
  if stripped = "auto" then .ok (.str "auto")
  else if "[".toList.isPrefixOf stripped.toList then lib.jsonLoads stripped
  else if ',' ∈ stripped.toList then .ok (.list ((parts.filter (· ≠ "")).map .str))
  else .ok (.str text)

def coerce : Field → Value → Except String Value
  | .advisorySyncIntervals, .str text => lib.jsonLoads text
  | .advisoryEcosystems, .str text => coerceEcosystems lib text
  | _, value => .ok value

def validated (field : Field) (value : Value) : Except String Value :=
  (coerce lib field value).bind (lib.validate field)

mutual

/-- A value of a source over that of the source below: only mappings are merged. -/
def Value.above : Value → Value → Value
  | .dict fields, .dict others => .dict (fieldsAbove fields others)
  | value, _ => value

/-- `deep_update`. -/
def fieldsAbove : List (String × Value) → List (String × Value) → List (String × Value)
  | [], others => others
  | (key, value) :: fields, others =>
    let entry :=
      match others.lookup key with
      | some other => value.above other
      | none => value
    let updated :=
      if (others.map Prod.fst).contains key then
        others.map (fun other => if other.1 = key then (key, entry) else other)
      else others ++ [(key, entry)]
    fieldsAbove fields updated

end

/-- The environment reader: names are compared in lower case. -/
def readEnv (process : Env) (field : Field) : Except String (Option Value) :=
  let envVars := process.entries.foldl
    (fun vars entry => vars.insert (lib.lower entry.1) entry.2) (OrderedMap.empty : Env)
  match envVars.get? ("fleet_" ++ field.name) with
  | none => .ok none
  | some text => lib.decode field text

def build (process : Env) (merged : Mapping) (field : Field) : Except String Value :=
  (readEnv lib process field).bind fun below =>
    match merged.get? field.name, below with
    | some value, some other => validated lib field (value.above other)
    | some value, none => validated lib field value
    | none, some other => validated lib field other
    | none, none => .ok field.default

end Pydantic

section Load

variable (lib : Lib)

/-- The names that start with `FLEET_`, in lower case. -/
def envKeysLower (env : Env) : Env :=
  (env.entries.filter (fun entry => "FLEET_".toList.isPrefixOf entry.1.toList)).foldl
    (fun vars entry => vars.insert (lib.lower entry.1) entry.2) .empty

def merge (lowered : Env) (fileData : Mapping) : Mapping :=
  (lowered.entries.filter (fun entry => "fleet_".toList.isPrefixOf entry.1.toList)).foldl
    (fun merged entry =>
      merged.insert (String.ofList (entry.1.toList.drop 6)) (.str entry.2)) fileData

def sourceOf (lowered : Env) (fileData : Mapping) (field : Field) : Source :=
  if "fleet_" ++ field.name ∈ lowered.keys then .env
  else if field.name ∈ fileData.keys then .file
  else .default

def piPreset : Field → Option Value
  | .advisorySyncOnStartup => some (.bool false)
  | .advisorySyncIntervals =>
    some (.dict [("osv", .int 86400), ("epss", .int 86400), ("kev", .int 86400)])
  | .advisoryAlwaysIncludeLanguages => some (.bool true)
  | _ => none

def applyPiModePreset (s : FleetSettings) (lowered : Env) (fileData : Mapping) : FleetSettings :=
  if (s.values .advisoryPiMode).truthy then
    { s with values := fun field =>
        if "fleet_" ++ field.name ∈ lowered.keys ∨ field.name ∈ fileData.keys then s.values field
        else (piPreset field).getD (s.values field) }
  else s

/-- The mapping of the config file; a path names a file that exists, and that is read and parsed or
not. -/
def readConfig (files : String → Option (Except String Mapping)) (env : Env)
    (configFile : Option String) : Except String Mapping :=
  match (configFile.or (env.get? "FLEET_CONFIG_FILE")).bind files with
  | none => .ok .empty
  | some read => read

/-- `load_settings` in a process with the environment `process`. -/
def loadSettings (process : Env) (files : String → Option (Except String Mapping))
    (env : Option Env) (configFile : Option String) : Except String FleetSettings :=
  let env := env.getD process
  (readConfig files env configFile).bind fun fileData =>
    let lowered := envKeysLower lib env
    let merged := merge lowered fileData
    (Field.all.mapM (build lib process merged)).map fun _ =>
      let values := fun field => (build lib process merged field).toOption.getD field.default
      applyPiModePreset ⟨values, sourceOf lowered fileData⟩ lowered fileData

end Load

inductive RbacProvider where
  | real
  | permissive
  deriving DecidableEq, Repr

def rbacProvider (lib : Lib) (process : Env) (s : FleetSettings) : RbacProvider :=
  let allowPermissive := (s.values .allowPermissiveRbac).truthy
  let isProd := lib.lower ((process.get? "FLEET_ENV").getD "dev") = "prod"
  if isProd ∧ !allowPermissive then .real
  else if allowPermissive then .permissive
  else .real

end HlHelper.Settings
