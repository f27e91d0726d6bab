import HlHelper.Library.OrderedMap

/-! The plugin registry: its four operations on the rows of a session and on the audit chain, and
the transactions that commit or roll back what they leave. -/

namespace HlHelper.Plugins

open HlHelper.Library

def allowedCapabilities : List String :=
  ["egress.http", "egress.tcp", "secrets.read", "hooks.update.pre", "hooks.update.post",
    "hooks.task.created", "hooks.notification.route", "storage.local"]

inductive PluginRuntime where
  | binary | python | node | jvm | wasm
  deriving DecidableEq, Repr

structure ResourceLimits where
  cpuMilli : Int
  memoryMib : Int
  diskMib : Int
  deriving DecidableEq, Repr

structure PluginManifest where
  id : String
  version : String
  name : String
  runtime : PluginRuntime
  capabilities : List String
  minHlHelperVersion : String
  resources : ResourceLimits
  description : Option String
  allowed : ∀ capability ∈ capabilities, capability ∈ allowedCapabilities
  deriving DecidableEq

inductive PluginState where
  | disabled | enabled | paused | broken
  deriving DecidableEq, Repr

def PluginState.text : PluginState → String
  | .disabled => "disabled"
  | .enabled => "enabled"
  | .paused => "paused"
  | .broken => "broken"

structure CapabilityAck where
  ackedCapabilities : List String
  ackActor : String
  ackAt : Int
  deriving DecidableEq, Repr

/-- `manifestJson` is the manifest that the column's text was dumped from. -/
structure Plugin where
  id : String
  version : String
  state : PluginState
  manifestJson : PluginManifest
  installedAt : Int
  installedBy : String
  disabledReason : Option String
  capabilityAckJson : Option CapabilityAck
  deriving DecidableEq

inductive Payload where
  | empty
  | manifest (version : String) (capabilities : List String) (manifestDigest : String)
  | acked (ackedCapabilities : List String)
  | reason (reason : String)
  deriving DecidableEq, Repr

structure AuditEntry where
  actor : String
  action : String
  subject : String
  payload : Payload
  deriving DecidableEq, Repr

inductive PluginError where
  | pluginNotFound (message : String)
  | notAcknowledged (message : String)
  /-- The message names the invalid capabilities as a set, in any order. -/
  | capabilityMismatch (invalid : List String)
  | invalidState (message : String)
  /-- Of the database or of the chain; an id that exists already is one. -/
  | storage
  deriving DecidableEq, Repr

def PluginError.Refusal (error : PluginError) : Prop := error ≠ .storage

/-- `audit` has the registry's entries of the chain. -/
structure Db where
  plugins : OrderedMap String Plugin
  audit : List AuditEntry
  deriving DecidableEq

inductive Storage where
  | done
  | flushFails
  | appendFails
  /-- Another transaction has taken the sequence of the entry; the second insert succeeds. -/
  | raced
  deriving DecidableEq, Repr

/-- What a call returns or raises, and what its session holds then. -/
abbrev Outcome := Except PluginError Plugin × Db

inductive Call where
  | install (manifest : PluginManifest) (actorId : String) (now : Int)
  | acknowledgeCapabilities (pluginId actorId : String) (acked : List String) (now : Int)
  | enable (pluginId actorId : String)
  | disable (pluginId actorId reason : String)
  deriving DecidableEq

namespace Db

/-- At a race `append` rolls the session back and inserts its entry again, with no row behind. -/
def write (db committed : Db) (plugin : Plugin) (entry : AuditEntry) : Storage → Outcome
  | .done => (.ok plugin, ⟨db.plugins.insert plugin.id plugin, db.audit ++ [entry]⟩)
  | .flushFails => (.error .storage, db)
  | .appendFails => (.error .storage, { db with plugins := db.plugins.insert plugin.id plugin })
  | .raced => (.ok plugin, { committed with audit := committed.audit ++ [entry] })

/-- The row that `session.get` finds, or the error of every operation but `install`. -/
def withPlugin (db : Db) (pluginId : String) (body : Plugin → Outcome) : Outcome :=
  match db.plugins.get? pluginId with
  | none => (.error (.pluginNotFound ("Plugin " ++ pluginId ++ " not found")), db)
  | some plugin => body plugin

/-- `digest` is SHA-256 of the manifest's text, in hex. -/
def install (digest : PluginManifest → String) (db committed : Db) (manifest : PluginManifest)
    (actorId : String) (now : Int) (storage : Storage) : Outcome :=
  let plugin : Plugin :=
    { id := manifest.id
      version := manifest.version
      state := .disabled
      manifestJson := manifest
      installedAt := now
      installedBy := actorId
      disabledReason := none
      capabilityAckJson := none }
  if manifest.id ∈ db.plugins.keys then (.error .storage, db)
  else db.write committed plugin ⟨actorId, "plugin.installed", manifest.id,
    .manifest manifest.version manifest.capabilities (digest manifest)⟩ storage

def acknowledgeCapabilities (db committed : Db) (pluginId actorId : String) (acked : List String)
    (now : Int) (storage : Storage) : Outcome :=
  db.withPlugin pluginId fun plugin =>
    let invalid := acked.filter (· ∉ plugin.manifestJson.capabilities)
    if invalid ≠ [] then (.error (.capabilityMismatch invalid.dedup), db)
    else db.write committed { plugin with capabilityAckJson := some ⟨acked, actorId, now⟩ }
      ⟨actorId, "plugin.capability_ack", pluginId, .acked acked⟩ storage

def enable (db committed : Db) (pluginId actorId : String) (storage : Storage) : Outcome :=
  db.withPlugin pluginId fun plugin =>
    if plugin.capabilityAckJson = none then
      (.error (.notAcknowledged ("Plugin " ++ pluginId ++ " capabilities not acknowledged")), db)
    else if plugin.state ∉ [.disabled, .paused] then
      (.error (.invalidState ("Cannot enable plugin in state " ++ plugin.state.text)), db)
    else db.write committed { plugin with state := .enabled, disabledReason := none }
      ⟨actorId, "plugin.enabled", pluginId, .empty⟩ storage

def disable (db committed : Db) (pluginId actorId reason : String) (storage : Storage) : Outcome :=
  db.withPlugin pluginId fun plugin =>
    db.write committed { plugin with state := .disabled, disabledReason := some reason }
      ⟨actorId, "plugin.disabled", pluginId, .reason reason⟩ storage

def call (digest : PluginManifest → String) (db committed : Db) (storage : Storage) :
    Call → Outcome
  | .install manifest actorId now => db.install digest committed manifest actorId now storage
  | .acknowledgeCapabilities pluginId actorId acked now =>
    db.acknowledgeCapabilities committed pluginId actorId acked now storage
  | .enable pluginId actorId => db.enable committed pluginId actorId storage
  | .disable pluginId actorId reason => db.disable committed pluginId actorId reason storage

end Db

/-- The database, and what the transaction of the open session would make of it. -/
structure World where
  committed : Db
  session : Db
  deriving DecidableEq

inductive Event where
  | call (call : Call) (storage : Storage)
  | commit
  | close
  deriving DecidableEq

namespace World

def initial : World := ⟨⟨.empty, []⟩, ⟨.empty, []⟩⟩

/-- An error leaves the block of the session, which is rolled back. -/
def step (digest : PluginManifest → String) (w : World) : Event → World
  | .call call storage =>
    match w.session.call digest w.committed storage call with
    | (.ok _, db) => { w with session := db }
    | (.error _, _) => { w with session := w.committed }
  | .commit => { w with committed := w.session }
  | .close => { w with session := w.committed }

def run (digest : PluginManifest → String) (events : List Event) : World :=
  events.foldl (step digest) initial

end World

end HlHelper.Plugins
