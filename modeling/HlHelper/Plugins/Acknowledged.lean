import HlHelper.Plugins.Registry

/-! Every enabled plugin has an acknowledgement, of nothing that its manifest does not ask for. -/

namespace HlHelper.Plugins

open HlHelper.Library

structure Acknowledged (db : Db) : Prop where
  enabled : ∀ id plugin, db.plugins.get? id = some plugin → plugin.state = .enabled →
    plugin.capabilityAckJson ≠ none
  inside : ∀ id plugin ack, db.plugins.get? id = some plugin →
    plugin.capabilityAckJson = some ack →
      ∀ capability ∈ ack.ackedCapabilities, capability ∈ plugin.manifestJson.capabilities

/-- What a call that returns has made of a row. -/
inductive Change (db : Db) : Plugin → Prop where
  | installed {plugin : Plugin} (state : plugin.state = .disabled)
      (ack : plugin.capabilityAckJson = none) : Change db plugin
  | acknowledged {old : Plugin} {id : String} (found : db.plugins.get? id = some old)
      (ack : CapabilityAck)
      (inside : ∀ capability ∈ ack.ackedCapabilities, capability ∈ old.manifestJson.capabilities) :
      Change db { old with capabilityAckJson := some ack }
  | enabled {old : Plugin} {id : String} (found : db.plugins.get? id = some old)
      (ack : old.capabilityAckJson ≠ none) :
      Change db { old with state := .enabled, disabledReason := none }
  | disabled {old : Plugin} {id : String} (found : db.plugins.get? id = some old)
      (reason : String) :
      Change db { old with state := .disabled, disabledReason := some reason }

variable {digest : PluginManifest → String} {db committed : Db}

/-- The rows behind a call that returns: its own write, or what was committed. -/
def Left (committed db : Db) (plugin : Plugin) (after : Db) : Prop :=
  after.plugins = db.plugins.insert plugin.id plugin ∨ after.plugins = committed.plugins

variable {plugin returned : Plugin} {storage : Storage} {after : Db}

theorem write_ok {entry : AuditEntry}
    (done : db.write committed plugin entry storage = (.ok returned, after)) :
    returned = plugin ∧ Left committed db plugin after := by
  cases storage <;> cases done
  · exact ⟨rfl, .inl rfl⟩
  · exact ⟨rfl, .inr rfl⟩

theorem write_error {entry : AuditEntry} {error : PluginError}
    (raised : db.write committed plugin entry storage = (.error error, after)) :
    error = .storage := by
  cases storage <;> cases raised <;> rfl

theorem withPlugin_ok {pluginId : String} {body : Plugin → Outcome}
    (done : db.withPlugin pluginId body = (.ok returned, after)) :
    ∃ plugin, db.plugins.get? pluginId = some plugin ∧ body plugin = (.ok returned, after) := by
  unfold Db.withPlugin at done
  cases found : db.plugins.get? pluginId with
  | none => rw [found] at done; cases done
  | some plugin => rw [found] at done; exact ⟨plugin, rfl, done⟩

theorem call_ok {call : Call}
    (done : db.call digest committed storage call = (.ok returned, after)) :
    Left committed db returned after ∧ Change db returned := by
  cases call with
  | install manifest actorId now =>
    simp only [Db.call, Db.install] at done
    split at done
    · cases done
    · obtain ⟨rfl, left⟩ := write_ok done
      exact ⟨left, .installed rfl rfl⟩
  | acknowledgeCapabilities pluginId actorId acked now =>
    obtain ⟨plugin, found, goes⟩ := withPlugin_ok done
    dsimp only at goes
    split at goes
    · cases goes
    · next valid =>
      obtain ⟨rfl, left⟩ := write_ok goes
      refine ⟨left, .acknowledged found _ ?_⟩
      simpa [List.filter_eq_nil_iff] using valid
  | enable pluginId actorId =>
    obtain ⟨plugin, found, goes⟩ := withPlugin_ok done
    split at goes
    · cases goes
    · next ack =>
      split at goes
      · cases goes
      · obtain ⟨rfl, left⟩ := write_ok goes
        exact ⟨left, .enabled found ack⟩
  | disable pluginId actorId reason =>
    obtain ⟨plugin, found, goes⟩ := withPlugin_ok done
    obtain ⟨rfl, left⟩ := write_ok goes
    exact ⟨left, .disabled found reason⟩

theorem get?_empty (id : String) : (OrderedMap.empty : OrderedMap String Plugin).get? id = none :=
  rfl

theorem acknowledged_empty : Acknowledged ⟨.empty, []⟩ where
  enabled := by simp [get?_empty]
  inside := by simp [get?_empty]

theorem Acknowledged.insert (held : Acknowledged db)
    (written : after.plugins = db.plugins.insert plugin.id plugin)
    (enabled : plugin.state = .enabled → plugin.capabilityAckJson ≠ none)
    (inside : ∀ ack, plugin.capabilityAckJson = some ack →
      ∀ capability ∈ ack.ackedCapabilities, capability ∈ plugin.manifestJson.capabilities) :
    Acknowledged after := by
  have rows : ∀ id found, after.plugins.get? id = some found →
      found = plugin ∨ db.plugins.get? id = some found := by
    intro id found there
    rw [written] at there
    by_cases same : id = plugin.id
    · rw [same, OrderedMap.get?_insert_self] at there
      exact .inl (Option.some.inj there).symm
    · rw [OrderedMap.get?_insert_other _ same] at there
      exact .inr there
  constructor
  · intro id found there
    rcases rows id found there with rfl | old
    · exact enabled
    · exact held.enabled id found old
  · intro id found ack there
    rcases rows id found there with rfl | old
    · exact inside ack
    · exact held.inside id found ack old

theorem Acknowledged.change (held : Acknowledged db) (changed : Change db plugin)
    (written : after.plugins = db.plugins.insert plugin.id plugin) : Acknowledged after := by
  cases changed with
  | installed state ack =>
    refine held.insert written ?_ ?_
    · intro enabled
      cases state.symm.trans enabled
    · intro stored some
      cases ack.symm.trans some
  | acknowledged found ack inside =>
    refine held.insert written (fun _ => nofun) ?_
    rintro _ ⟨⟩
    exact inside
  | @enabled old id found ack =>
    exact held.insert written (fun _ => ack) (fun stored => held.inside id old stored found)
  | @disabled old id found reason =>
    exact held.insert written nofun (fun stored => held.inside id old stored found)

theorem Acknowledged.left (held : Acknowledged committed) (session : Acknowledged db)
    (changed : Change db plugin) (left : Left committed db plugin after) : Acknowledged after := by
  rcases left with written | lost
  · exact session.change changed written
  · exact ⟨lost ▸ held.enabled, lost ▸ held.inside⟩

theorem withPlugin_refused {pluginId : String} {body : Plugin → Outcome} {error : PluginError}
    (refused : db.withPlugin pluginId body = (.error error, after)) :
    after = db ∨ ∃ plugin, body plugin = (.error error, after) := by
  unfold Db.withPlugin at refused
  split at refused
  · cases refused
    exact .inl rfl
  · next plugin _ => exact .inr ⟨plugin, refused⟩

theorem refused_unchanged {call : Call} {error : PluginError}
    (raised : db.call digest committed storage call = (.error error, after))
    (refusal : error.Refusal) : after = db := by
  cases call with
  | install manifest actorId now =>
    simp only [Db.call, Db.install] at raised
    split at raised
    · cases raised
      rfl
    · exact absurd (write_error raised) refusal
  | acknowledgeCapabilities pluginId actorId acked now =>
    rcases withPlugin_refused raised with same | ⟨plugin, goes⟩
    · exact same
    · dsimp only at goes
      split at goes
      · cases goes
        rfl
      · exact absurd (write_error goes) refusal
  | enable pluginId actorId =>
    rcases withPlugin_refused raised with same | ⟨plugin, goes⟩
    · exact same
    · split at goes
      · cases goes
        rfl
      · split at goes
        · cases goes
          rfl
        · exact absurd (write_error goes) refusal
  | disable pluginId actorId reason =>
    rcases withPlugin_refused raised with same | ⟨plugin, goes⟩
    · exact same
    · exact absurd (write_error goes) refusal

structure Undone (digest : PluginManifest → String) (w : World) (call : Call) (storage : Storage)
    (error : PluginError) : Prop where
  session : error.Refusal → (w.session.call digest w.committed storage call).2 = w.session
  committed : w.step digest (.call call storage) = ⟨w.committed, w.committed⟩

theorem Acknowledged.step {w : World} (event : Event)
    (held : Acknowledged w.committed ∧ Acknowledged w.session) :
    Acknowledged (w.step digest event).committed ∧ Acknowledged (w.step digest event).session := by
  cases event with
  | call call storage =>
    cases outcome : w.session.call digest w.committed storage call with
    | mk result after =>
      cases result with
      | error error =>
        simp only [World.step, outcome]
        exact ⟨held.1, held.1⟩
      | ok plugin =>
        obtain ⟨left, changed⟩ := call_ok outcome
        simp only [World.step, outcome]
        exact ⟨held.1, held.1.left held.2 changed left⟩
  | commit => exact ⟨held.2, held.2⟩
  | close => exact ⟨held.1, held.1⟩

/-- After any calls in any sessions, each enabled plugin has an acknowledgement, of capabilities
of its manifest only; and a call that raises changes nothing. -/
theorem enabled_acknowledged (digest : PluginManifest → String) (events : List Event) :
    (Acknowledged (World.run digest events).committed ∧
      Acknowledged (World.run digest events).session) ∧
    ∀ call storage error, ((World.run digest events).session.call digest
      (World.run digest events).committed storage call).1 = .error error →
        Undone digest (World.run digest events) call storage error := by
  constructor
  · have keep : ∀ w : World, Acknowledged w.committed ∧ Acknowledged w.session →
        Acknowledged (events.foldl (World.step digest) w).committed ∧
          Acknowledged (events.foldl (World.step digest) w).session := by
      induction events with
      | nil => exact fun w held => held
      | cons event events ih => exact fun w held => ih _ (Acknowledged.step event held)
    exact keep .initial ⟨acknowledged_empty, acknowledged_empty⟩
  · intro call storage error raised
    refine ⟨fun refusal => refused_unchanged (Prod.ext raised rfl) refusal, ?_⟩
    simp only [World.step]
    split
    · next done => cases raised.symm.trans (congrArg Prod.fst done)
    · rfl

section Example

def routing : PluginManifest where
  id := "org.example.routing"
  version := "1.0.0"
  name := "Routing"
  runtime := .wasm
  capabilities := ["egress.http", "hooks.notification.route"]
  minHlHelperVersion := "0.1.0"
  resources := ⟨100, 64, 0⟩
  description := none
  allowed := by decide

def unnamed : PluginManifest → String := fun _ => ""

theorem enable_refused : Undone unnamed (World.run unnamed [.call (.install routing "u" 1) .done])
    (.enable "org.example.routing" "u") .done
    (.notAcknowledged "Plugin org.example.routing capabilities not acknowledged") :=
  (enabled_acknowledged unnamed [.call (.install routing "u" 1) .done]).2 _ _ _
    (by decide +kernel)

theorem enabled_with_nothing : ¬ ∀ id plugin, (World.run unnamed
    [.call (.install routing "u" 1) .done,
      .call (.acknowledgeCapabilities "org.example.routing" "u" [] 2) .done,
      .call (.enable "org.example.routing" "u") .done, .commit]).committed.plugins.get? id =
        some plugin → plugin.state = .enabled → ∃ ack, plugin.capabilityAckJson = some ack ∧
    ∀ capability ∈ plugin.manifestJson.capabilities, capability ∈ ack.ackedCapabilities := by
  intro all
  let enabled : Plugin :=
    { id := "org.example.routing", version := "1.0.0", state := .enabled, manifestJson := routing,
      installedAt := 1, installedBy := "u", disabledReason := none,
      capabilityAckJson := some ⟨[], "u", 2⟩ }
  obtain ⟨ack, stored, full⟩ := all "org.example.routing" enabled (by decide +kernel) rfl
  cases stored
  exact List.not_mem_nil (full "egress.http" List.mem_cons_self)

end Example

end HlHelper.Plugins
