import HlHelper.Library.Checked
import HlHelper.Settings.Loading

/-! When the settings take their values from the layer that the report names, and when only the
config file makes RBAC permissive. -/

namespace HlHelper.Settings

open HlHelper.Library

section Claim

variable (lib : Lib)

def IsSet (env : Env) (field : Field) : Prop :=
  ∃ entry ∈ env.entries, lib.lower entry.1 = "fleet_" ++ field.name

/-- One that starts with `FLEET_` in upper case is. -/
def Heard (env : Env) (field : Field) : Prop :=
  ∃ entry ∈ env.entries, "FLEET_".toList.isPrefixOf entry.1.toList ∧
    lib.lower entry.1 = "fleet_" ++ field.name

/-- The value of a field is that of the highest layer that sets it, and the report names it. -/
structure Truthful (env : Env) (fileData : Mapping) (s : FleetSettings) (field : Field) :
    Prop where
  fromEnv : IsSet lib env field → s.sources field = .env ∧ ∃ entry ∈ env.entries,
    lib.lower entry.1 = "fleet_" ++ field.name ∧
      validated lib field (.str entry.2) = .ok (s.values field)
  fromFile : ¬ IsSet lib env field → ∀ value, fileData.get? field.name = some value →
    s.sources field = .file ∧ validated lib field value = .ok (s.values field)
  byDefault : ¬ IsSet lib env field → fileData.get? field.name = none →
    s.sources field = .default ∧ s.values field =
      if (s.values .advisoryPiMode).truthy then (piPreset field).getD field.default
      else field.default

def FileAllows (fileData : Mapping) : Prop :=
  ∃ value, fileData.get? Field.allowPermissiveRbac.name = some value ∧
    ∃ allowed, validated lib .allowPermissiveRbac value = .ok allowed ∧ allowed.truthy

structure TruthfulAndSafe (process env : Env) (fileData : Mapping) (s : FleetSettings) :
    Prop where
  truthful : ∀ field, field ≠ .sources → Truthful lib env fileData s field
  safe : rbacProvider lib process s = .permissive → FileAllows lib fileData

/-- Variables start with `FLEET_` in upper case, and the last one for `allow_permissive_rbac` does
not set it where the file does not. -/
structure Guarded (env : Env) (fileData : Mapping) : Prop where
  heard : ∀ field, field ≠ .sources → IsSet lib env field → Heard lib env field
  fileOnly : ∀ text allowed,
    (envKeysLower lib env).get? ("fleet_" ++ Field.allowPermissiveRbac.name) = some text →
      validated lib .allowPermissiveRbac (.str text) = .ok allowed → allowed.truthy →
        FileAllows lib fileData

end Claim

variable {lib : Lib} {env process : Env} {fileData : Mapping} {field : Field}

theorem envKeysLower_get? (lib : Lib) (env : Env) (key : String) :
    (envKeysLower lib env).get? key =
      (((env.entries.filter (fun entry => "FLEET_".toList.isPrefixOf entry.1.toList)).filter
        (fun entry => lib.lower entry.1 = key)).getLast?.map Prod.snd) := by
  rw [envKeysLower, OrderedMap.get?_foldl_insert]
  exact Option.or_none

theorem entry_of_get? {key text : String} (found : (envKeysLower lib env).get? key = some text) :
    ∃ entry ∈ env.entries, "FLEET_".toList.isPrefixOf entry.1.toList ∧ lib.lower entry.1 = key ∧
      entry.2 = text := by
  rw [envKeysLower_get?] at found
  obtain ⟨entry, last, text⟩ := Option.map_eq_some_iff.mp found
  obtain ⟨inside, same⟩ := List.mem_filter.mp (List.mem_of_getLast? last)
  obtain ⟨member, upper⟩ := List.mem_filter.mp inside
  exact ⟨entry, member, upper, of_decide_eq_true same, text⟩

theorem heard_iff : Heard lib env field ↔
    ∃ text, (envKeysLower lib env).get? ("fleet_" ++ field.name) = some text := by
  constructor
  · rintro ⟨entry, member, upper, same⟩
    have inside : entry ∈ (env.entries.filter (fun entry =>
        "FLEET_".toList.isPrefixOf entry.1.toList)).filter
          (fun entry => lib.lower entry.1 = "fleet_" ++ field.name) := by
      rw [List.mem_filter, List.mem_filter]
      exact ⟨⟨member, upper⟩, decide_eq_true same⟩
    obtain ⟨last, found⟩ :=
      Option.isSome_iff_exists.mp (List.getLast?_isSome.mpr (List.ne_nil_of_mem inside))
    rw [envKeysLower_get?, found]
    exact ⟨last.2, rfl⟩
  · rintro ⟨text, found⟩
    obtain ⟨entry, member, upper, same, _⟩ := entry_of_get? found
    exact ⟨entry, member, upper, same⟩

theorem get?_unheard (unheard : ¬ Heard lib env field) :
    (envKeysLower lib env).get? ("fleet_" ++ field.name) = none := by
  by_contra there
  exact unheard (heard_iff.mpr (Option.ne_none_iff_exists'.mp there))

theorem drop_fleet {key name : String} (lower : "fleet_".toList.isPrefixOf key.toList) :
    String.ofList (key.toList.drop 6) = name ↔ key = "fleet_" ++ name := by
  obtain ⟨rest, split⟩ := List.isPrefixOf_iff_prefix.mp lower
  have dropped : key.toList.drop 6 = rest := by
    rw [← split]
    rfl
  rw [dropped]
  constructor
  · rintro rfl
    rw [← String.toList_inj, String.toList_append, ← split]
    exact congrArg _ String.toList_ofList.symm
  · rintro rfl
    rw [String.toList_append] at split
    rw [List.append_cancel_left split, String.ofList_toList]

theorem merge_get? (lowered : Env) (fileData : Mapping) (name : String) :
    (merge lowered fileData).get? name =
      ((lowered.get? ("fleet_" ++ name)).map .str).or (fileData.get? name) := by
  rw [merge, OrderedMap.get?_foldl_insert]
  congr 1
  have inside : ∀ entry : String × String, entry ∈ (lowered.entries.filter
      (fun entry => "fleet_".toList.isPrefixOf entry.1.toList)).filter
        (fun entry => String.ofList (entry.1.toList.drop 6) = name) ↔
      entry ∈ lowered.entries ∧ entry.1 = "fleet_" ++ name := by
    intro entry
    rw [List.mem_filter, List.mem_filter]
    constructor
    · rintro ⟨⟨member, lower⟩, same⟩
      exact ⟨member, (drop_fleet lower).mp (of_decide_eq_true same)⟩
    · rintro ⟨member, same⟩
      have lower : "fleet_".toList.isPrefixOf entry.1.toList := by
        rw [same, String.toList_append]
        exact List.isPrefixOf_iff_prefix.mpr (List.prefix_append _ _)
      exact ⟨⟨member, lower⟩, decide_eq_true ((drop_fleet lower).mpr same)⟩
  cases last : ((lowered.entries.filter
      (fun entry => "fleet_".toList.isPrefixOf entry.1.toList)).filter
        (fun entry => String.ofList (entry.1.toList.drop 6) = name)).getLast? with
  | none =>
    have empty := List.getLast?_eq_none_iff.mp last
    cases found : lowered.get? ("fleet_" ++ name) with
    | none => rfl
    | some text =>
      have member := (inside _).mpr ⟨OrderedMap.get?_eq_some_iff.mp found, rfl⟩
      rw [empty] at member
      exact (List.not_mem_nil member).elim
  | some entry =>
    obtain ⟨member, same⟩ := (inside entry).mp (List.mem_of_getLast? last)
    rw [OrderedMap.get?_eq_some_iff.mpr (same ▸ member : ("fleet_" ++ name, entry.2) ∈ _)]
    rfl

theorem readEnv_none (unset : ¬ IsSet lib process field) :
    readEnv lib process field = .ok none := by
  have absent : (process.entries.foldl
      (fun vars entry => vars.insert (lib.lower entry.1) entry.2) (OrderedMap.empty : Env)).get?
        ("fleet_" ++ field.name) = none := by
    rw [OrderedMap.get?_foldl_insert, List.filter_eq_nil_iff.mpr]
    · rfl
    · intro entry member same
      exact unset ⟨entry, member, of_decide_eq_true same⟩
  simp only [readEnv, absent]

theorem build_heard {text : String} {value : Value}
    (found : (envKeysLower lib env).get? ("fleet_" ++ field.name) = some text)
    (built : build lib process (merge (envKeysLower lib env) fileData) field = .ok value) :
    validated lib field (.str text) = .ok value := by
  obtain ⟨below, _, built⟩ := bind_eq_ok.mp built
  rw [merge_get?, found] at built
  cases below with
  | none => exact built
  | some other => exact built

theorem build_unheard {value : Value}
    (unheard : (envKeysLower lib env).get? ("fleet_" ++ field.name) = none)
    (unset : ¬ IsSet lib process field)
    (built : build lib process (merge (envKeysLower lib env) fileData) field = .ok value) :
    (∀ inFile, fileData.get? field.name = some inFile → validated lib field inFile = .ok value) ∧
      (fileData.get? field.name = none → value = field.default) := by
  obtain ⟨below, reads, built⟩ := bind_eq_ok.mp built
  rw [readEnv_none unset] at reads
  cases reads
  rw [merge_get?, unheard] at built
  constructor
  · intro inFile found
    rw [found] at built
    exact built
  · intro absent
    rw [absent] at built
    exact (Except.ok.inj built).symm

theorem loadSettings_ok {files : String → Option (Except String Mapping)} {given : Option Env}
    {configFile : Option String} {s : FleetSettings}
    (loaded : loadSettings lib process files given configFile = .ok s) :
    ∃ fileData values, readConfig files (given.getD process) configFile = .ok fileData ∧
      (∀ field, build lib process (merge (envKeysLower lib (given.getD process)) fileData) field =
        .ok (values field)) ∧
      s = applyPiModePreset
        ⟨values, sourceOf (envKeysLower lib (given.getD process)) fileData⟩
        (envKeysLower lib (given.getD process)) fileData := by
  obtain ⟨fileData, read, loaded⟩ := bind_eq_ok.mp loaded
  obtain ⟨results, mapped, rfl⟩ := map_eq_ok.mp loaded
  refine ⟨fileData, _, read, ?_, rfl⟩
  intro field
  obtain ⟨value, built⟩ := mapM_ok mapped (Field.mem_all field)
  rw [built]
  rfl

theorem preset_values (values : Field → Value) (sources : Field → Source) (lowered : Env)
    (fileData : Mapping) (field : Field) :
    (applyPiModePreset ⟨values, sources⟩ lowered fileData).values field =
      if (values .advisoryPiMode).truthy ∧ ¬ ("fleet_" ++ field.name ∈ lowered.keys ∨
        field.name ∈ fileData.keys) then (piPreset field).getD (values field)
      else values field := by
  unfold applyPiModePreset
  by_cases pi : (values .advisoryPiMode).truthy = true
  · rw [if_pos pi]
    dsimp only
    by_cases explicit : "fleet_" ++ field.name ∈ lowered.keys ∨ field.name ∈ fileData.keys
    · rw [if_pos explicit, if_neg (fun both => both.2 explicit)]
    · rw [if_neg explicit, if_pos ⟨pi, explicit⟩]
  · rw [if_neg pi, if_neg (fun both => pi both.1)]

theorem preset_sources (values : Field → Value) (sources : Field → Source) (lowered : Env)
    (fileData : Mapping) :
    (applyPiModePreset ⟨values, sources⟩ lowered fileData).sources = sources := by
  unfold applyPiModePreset
  split <;> rfl

theorem preset_other (values : Field → Value) (sources : Field → Source) (lowered : Env)
    (fileData : Mapping) (other : piPreset field = none) :
    (applyPiModePreset ⟨values, sources⟩ lowered fileData).values field = values field := by
  rw [preset_values, other]
  split <;> rfl

theorem sourceOf_eq_env {lowered : Env} :
    sourceOf lowered fileData field = .env ↔ "fleet_" ++ field.name ∈ lowered.keys := by
  unfold sourceOf
  split_ifs with first second
  · exact ⟨fun _ => first, fun _ => rfl⟩
  · exact ⟨nofun, fun there => absurd there first⟩
  · exact ⟨nofun, fun there => absurd there first⟩

theorem mem_keys_iff {m : Env} {key : String} :
    key ∈ m.keys ↔ ∃ text, m.get? key = some text := by
  rw [← Option.ne_none_iff_exists', ne_eq, OrderedMap.get?_eq_none_iff, not_not]

section Loaded

variable {values : Field → Value}

theorem truthful_of_heard (heard : IsSet lib env field → Heard lib env field)
    (quiet : IsSet lib process field → Heard lib env field)
    (built : ∀ field, build lib process (merge (envKeysLower lib env) fileData) field =
      .ok (values field)) :
    Truthful lib env fileData (applyPiModePreset ⟨values, sourceOf (envKeysLower lib env) fileData⟩
      (envKeysLower lib env) fileData) field := by
  have unheard : ¬ IsSet lib env field → ¬ Heard lib env field := by
    rintro unset ⟨entry, member, _, same⟩
    exact unset ⟨entry, member, same⟩
  refine ⟨?_, ?_, ?_⟩
  · intro set
    obtain ⟨text, found⟩ := heard_iff.mp (heard set)
    have explicit := mem_keys_iff.mpr ⟨text, found⟩
    obtain ⟨entry, member, _, same, rfl⟩ := entry_of_get? found
    rw [preset_sources, preset_values, if_neg (fun both => both.2 (.inl explicit))]
    exact ⟨sourceOf_eq_env.mpr explicit, entry, member, same, build_heard found (built field)⟩
  · intro unset value inFile
    have unnamed := get?_unheard (unheard unset)
    have explicit : field.name ∈ fileData.keys := by
      by_contra missing
      rw [OrderedMap.get?_eq_none_iff.mpr missing] at inFile
      cases inFile
    have silent := OrderedMap.get?_eq_none_iff.mp unnamed
    rw [preset_sources, preset_values, if_neg (fun both => both.2 (.inr explicit))]
    refine ⟨?_, (build_unheard unnamed (fun set => unheard unset (quiet set)) (built field)).1 value
      inFile⟩
    rw [sourceOf, if_neg silent, if_pos explicit]
  · intro unset outside
    have unnamed := get?_unheard (unheard unset)
    have silent := OrderedMap.get?_eq_none_iff.mp unnamed
    have missing := OrderedMap.get?_eq_none_iff.mp outside
    have value := (build_unheard unnamed (fun set => unheard unset (quiet set)) (built field)).2
      outside
    rw [preset_sources, preset_other values _ _ _ (rfl : piPreset .advisoryPiMode = none),
      preset_values, value]
    refine ⟨by rw [sourceOf, if_neg silent, if_neg missing], ?_⟩
    by_cases pi : (values .advisoryPiMode).truthy = true
    · rw [if_pos pi, if_pos ⟨pi, not_or.mpr ⟨silent, missing⟩⟩]
    · rw [if_neg pi, if_neg (fun both => pi both.1)]

end Loaded

theorem rbacProvider_eq (s : FleetSettings) :
    rbacProvider lib process s = .permissive ↔ (s.values .allowPermissiveRbac).truthy := by
  unfold rbacProvider
  cases (s.values .allowPermissiveRbac).truthy <;> simp

theorem allow_unset {value : Value} (unheard : ¬ Heard lib env .allowPermissiveRbac)
    (unset : ¬ IsSet lib process .allowPermissiveRbac)
    (built : build lib process (merge (envKeysLower lib env) fileData) .allowPermissiveRbac =
      .ok value) (allowed : value.truthy) : FileAllows lib fileData := by
  obtain ⟨fromFile, byDefault⟩ := build_unheard (get?_unheard unheard) unset built
  cases inFile : fileData.get? Field.allowPermissiveRbac.name with
  | none =>
    rw [byDefault inFile] at allowed
    cases allowed
  | some value => exact ⟨value, inFile, _, fromFile value inFile, allowed⟩

/-- Where `load_settings` reads the environment of its process, or no other variable of the process
names a field, the settings are truthful and RBAC is safe exactly when the environment is
guarded. -/
theorem settings_truthful_iff (lib : Lib) (process : Env)
    (files : String → Option (Except String Mapping)) (given : Option Env)
    (configFile : Option String) (s : FleetSettings)
    (loaded : loadSettings lib process files given configFile = .ok s)
    (same : given = none ∨ ∀ field, field ≠ .sources → IsSet lib process field →
      Heard lib (given.getD process) field) :
    ∃ fileData, readConfig files (given.getD process) configFile = .ok fileData ∧
      (TruthfulAndSafe lib process (given.getD process) fileData s ↔
        Guarded lib (given.getD process) fileData) := by
  obtain ⟨fileData, values, read, built, rfl⟩ := loadSettings_ok loaded
  refine ⟨fileData, read, ?_⟩
  have allow := preset_other values (sourceOf (envKeysLower lib (given.getD process)) fileData)
    (envKeysLower lib (given.getD process)) fileData (rfl : piPreset .allowPermissiveRbac = none)
  constructor
  · intro claimed
    refine ⟨?_, ?_⟩
    · intro field other set
      obtain ⟨source, _⟩ := (claimed.truthful field other).fromEnv set
      rw [preset_sources, sourceOf_eq_env, mem_keys_iff] at source
      exact heard_iff.mpr source
    · intro text allowed found valid truthy
      have value := Except.ok.inj ((build_heard found (built _)).symm.trans valid)
      refine claimed.safe ((rbacProvider_eq _).mpr ?_)
      rw [allow, value]
      exact truthy
  · intro guarded
    have quiet : ∀ field, field ≠ .sources → IsSet lib process field →
        Heard lib (given.getD process) field := by
      intro field other set
      rcases same with rfl | named
      · exact guarded.heard field other set
      · exact named field other set
    refine ⟨?_, ?_⟩
    · intro field other
      exact truthful_of_heard (guarded.heard field other) (quiet field other) built
    · intro permissive
      rw [rbacProvider_eq, allow] at permissive
      by_cases heard : Heard lib (given.getD process) .allowPermissiveRbac
      · obtain ⟨text, found⟩ := heard_iff.mp heard
        exact guarded.fileOnly text _ found (build_heard found (built _)) permissive
      · exact allow_unset heard (fun set => heard (quiet _ nofun set)) (built _) permissive

section Example

/-- ASCII names, texts without mappings, and one field that is read as a truth value. -/
def plainLib : Lib where
  lower s := String.ofList (s.toList.map Char.toLower)
  strip s := s
  jsonLoads _ := .error "Expecting value"
  decode _ text := .ok (some (.str text))
  validate
    | .allowPermissiveRbac, .str text => .ok (.bool (text = "true"))
    | _, value => .ok value

def configFiles (path : String) : Option (Except String Mapping) :=
  if path = "/data/fleet.yml" then
    some (.ok ⟨[("log_level", .str "warning"), ("tz", .str "Europe/Rome")], by decide⟩)
  else none

def someEnv : Env :=
  ⟨[("PATH", "/bin"), ("FLEET_LOG_LEVEL", "debug"), ("FLEET_CONFIG_FILE", "/data/fleet.yml")],
    by decide⟩

theorem settings_loaded : ∃ s, loadSettings plainLib someEnv configFiles none none = .ok s ∧
    ∃ fileData, readConfig configFiles someEnv none = .ok fileData ∧
      (TruthfulAndSafe plainLib someEnv someEnv fileData s ↔
        Guarded plainLib someEnv fileData) := by
  have returns : ((loadSettings plainLib someEnv configFiles none none).map
      (fun s => s.sources .logLevel)).toOption = some .env := by decide +kernel
  obtain ⟨s, loaded, _⟩ := ok_of_toOption_map returns
  exact ⟨s, loaded, settings_truthful_iff _ _ _ none none s loaded (.inl rfl)⟩

def permissiveEnv : Env := ⟨[("FLEET_ALLOW_PERMISSIVE_RBAC", "true")], by decide⟩

def lowerCaseEnv : Env := ⟨[("fleet_log_level", "debug")], by decide⟩

/-- The environment alone makes RBAC permissive; and the report calls a value of the environment a
default. -/
theorem environment_prevails :
    (∃ s, loadSettings plainLib permissiveEnv configFiles none none = .ok s ∧
      ¬ TruthfulAndSafe plainLib permissiveEnv permissiveEnv .empty s) ∧
    ∃ s, loadSettings plainLib lowerCaseEnv configFiles none none = .ok s ∧
      ¬ TruthfulAndSafe plainLib lowerCaseEnv lowerCaseEnv .empty s := by
  constructor
  · have chosen : ((loadSettings plainLib permissiveEnv configFiles none none).map
        (rbacProvider plainLib permissiveEnv)).toOption = some .permissive := by decide +kernel
    obtain ⟨s, loaded, permissive⟩ := ok_of_toOption_map chosen
    refine ⟨s, loaded, ?_⟩
    intro claimed
    obtain ⟨value, inFile, _⟩ := claimed.safe permissive
    cases inFile
  · have reported : ((loadSettings plainLib lowerCaseEnv configFiles none none).map
        (fun s => s.sources .logLevel)).toOption = some .default := by decide +kernel
    obtain ⟨s, loaded, default⟩ := ok_of_toOption_map reported
    refine ⟨s, loaded, ?_⟩
    intro claimed
    have set : IsSet plainLib lowerCaseEnv .logLevel :=
      ⟨_, List.mem_singleton_self _, by decide +kernel⟩
    have source := ((claimed.truthful .logLevel nofun).fromEnv set).1
    cases source.symm.trans default

end Example

end HlHelper.Settings
