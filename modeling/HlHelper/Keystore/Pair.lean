import HlHelper.Keystore.Tls

/-! The certificate and the key are a pair exactly as long as no commit begins. -/

namespace HlHelper.Keystore

open HlHelper.Library

variable {x509 : X509} {chain key root : Bytes} {a b : Agent} {index : Nat} {call : Call}

/-- `tls.crt` and `tls.key` are there and match, and are what the agent was enrolled with or a
pair that has been verified. -/
def Usable (x509 : X509) (chain key : Bytes) (a : Agent) : Prop :=
  ∃ crt priv, a.disk.read "tls.crt" = some crt ∧ a.disk.read "tls.key" = some priv ∧
    x509.keyPair crt priv = true ∧ ((crt, priv) = (chain, key) ∨ (crt, priv) ∈ a.verified)

def Quiet (a : Agent) : Step → Prop
  | .advance index => ∀ call ∈ a.calls[index]?, call.phase ≠ .backupChain
  | _ => True

/-- The phases up to the first rename of a commit, with the file that is open for a write. -/
def Phase.early : Phase → Bool
  | .statKey | .backupKey | .commitChain | .commitKey | .syncCommitted | .done => false
  | _ => true

def Phase.handle : Phase → Option Nat
  | .writeChain _ file | .writeKey file => some file
  | _ => none

structure Untouched (chain key : Bytes) (disk : Disk) : Prop where
  chainLink : disk.links "tls.crt" = some 0
  keyLink : disk.links "tls.key" = some 1
  chainData : disk.data 0 = chain
  keyData : disk.data 1 = key
  others : ∀ name file, name ≠ "tls.crt" → name ≠ "tls.key" → disk.links name = some file → 2 ≤ file
  fresh : 2 ≤ disk.next

structure Still (chain key : Bytes) (a : Agent) : Prop where
  untouched : Untouched chain key a.disk
  early : ∀ call ∈ a.calls, call.phase.early = true
  handles : ∀ call ∈ a.calls, ∀ file, call.phase.handle = some file → 2 ≤ file

namespace Untouched

variable {disk after : Disk} {name : String} {file : Nat} {content : Bytes}

theorem create (untouched : Untouched chain key disk) (not_chain : name ≠ "tls.crt")
    (not_key : name ≠ "tls.key") :
    Untouched chain key (disk.create name).1 ∧ 2 ≤ (disk.create name).2 := by
  have kept : ∀ file, 2 ≤ file → ∀ low < 2,
      Function.update disk.data file [] low = disk.data low :=
    fun file high low small => Function.update_of_ne (by omega) ..
  cases found : disk.links name with
  | some file =>
    have high := untouched.others name file not_chain not_key found
    simp only [Disk.create, found]
    exact ⟨⟨untouched.chainLink, untouched.keyLink,
      (kept file high 0 (by omega)).trans untouched.chainData,
      (kept file high 1 (by omega)).trans untouched.keyData, untouched.others,
      untouched.fresh⟩, high⟩
  | none =>
    have high := untouched.fresh
    simp only [Disk.create, found]
    refine ⟨⟨(Files.write_other (Ne.symm not_chain)).trans untouched.chainLink,
      (Files.write_other (Ne.symm not_key)).trans untouched.keyLink,
      (kept _ high 0 (by omega)).trans untouched.chainData,
      (kept _ high 1 (by omega)).trans untouched.keyData, ?_, Nat.le_succ_of_le high⟩, high⟩
    intro other file apart apartToo there
    have wrote : disk.links.write name disk.next other = some file := there
    by_cases same : other = name
    · rw [same, Files.write_self] at wrote
      exact Option.some.inj wrote ▸ high
    · rw [Files.write_other same] at wrote
      exact untouched.others other file apart apartToo wrote

theorem write (untouched : Untouched chain key disk) (high : 2 ≤ file) :
    Untouched chain key (disk.write file content) where
  __ := untouched
  chainData := (Function.update_of_ne (by omega) ..).trans untouched.chainData
  keyData := (Function.update_of_ne (by omega) ..).trans untouched.keyData

theorem remove (untouched : Untouched chain key disk) (not_chain : name ≠ "tls.crt")
    (not_key : name ≠ "tls.key") : Untouched chain key (disk.remove name) where
  __ := untouched
  chainLink := (Files.remove_other (Ne.symm not_chain)).trans untouched.chainLink
  keyLink := (Files.remove_other (Ne.symm not_key)).trans untouched.keyLink
  others other file apart apartToo there := by
    have kept : disk.links.remove name other = some file := there
    by_cases same : other = name
    · rw [same, Files.remove_self] at kept
      cases kept
    · rw [Files.remove_other same] at kept
      exact untouched.others other file apart apartToo kept

theorem usable (untouched : Untouched chain key a.disk) (pair : x509.keyPair chain key = true) :
    Usable x509 chain key a := by
  refine ⟨chain, key, ?_, ?_, pair, .inl rfl⟩
  · rw [Disk.read, untouched.chainLink, Option.map_some, untouched.chainData]
  · rw [Disk.read, untouched.keyLink, Option.map_some, untouched.keyData]

end Untouched

namespace Still

section

variable (still : Still chain key a)
include still

theorem goes {disk : Disk} {phase : Phase} (untouched : Untouched chain key disk)
    (early : phase.early = true) (handle : ∀ file, phase.handle = some file → 2 ≤ file) :
    Still chain key ((a.onDisk disk).moved index call phase) where
  untouched := untouched
  early other member := by
    rcases List.mem_or_eq_of_mem_set member with old | rfl
    · exact still.early other old
    · exact early
  handles other member file holds := by
    rcases List.mem_or_eq_of_mem_set member with old | rfl
    · exact still.handles other old file holds
    · exact handle file holds

theorem stays {phase : Phase} (early : phase.early = true) (handle : phase.handle = none) :
    Still chain key (a.moved index call phase) :=
  still.goes still.untouched early fun _ holds => absurd (handle.symm.trans holds) nofun

theorem advance (turn : a.calls[index]? = some call) (quiet : call.phase ≠ .backupChain)
    (stepped : a.advance x509 index call = some b) : Still chain key b := by
  have member := List.mem_of_getElem? turn
  have early := still.early call member
  have high := still.handles call member
  obtain ⟨kind, privPem, phase⟩ := call
  cases phase with
  | requesting => cases stepped
  | openChain issued =>
    obtain ⟨untouched, opened⟩ := still.untouched.create (by decide : "tls.crt.new" ≠ "tls.crt")
      (by decide)
    cases stepped
    exact still.goes untouched rfl fun file holds => Option.some.inj holds ▸ opened
  | writeChain issued file =>
    cases stepped
    exact still.goes (still.untouched.write (high file rfl)) rfl fun _ holds => by cases holds
  | openKey =>
    obtain ⟨untouched, opened⟩ := still.untouched.create (by decide : "tls.key.new" ≠ "tls.crt")
      (by decide)
    cases stepped
    exact still.goes untouched rfl fun file holds => Option.some.inj holds ▸ opened
  | writeKey file =>
    cases stepped
    exact still.goes (still.untouched.write (high file rfl)) rfl fun _ holds => by cases holds
  | syncStaged => exact Option.some.inj stepped ▸ still.stays rfl rfl
  | readChain =>
    simp only [Agent.advance] at stepped
    split at stepped
    · exact Option.some.inj stepped ▸ still.stays rfl rfl
    · exact Option.some.inj stepped ▸ still.stays rfl rfl
  | readKey read =>
    simp only [Agent.advance] at stepped
    split at stepped
    · exact Option.some.inj stepped ▸ still.stays rfl rfl
    · exact Option.some.inj stepped ▸ still.stays rfl rfl
  | readRoot read priv =>
    simp only [Agent.advance] at stepped
    split at stepped
    · exact Option.some.inj stepped ▸ still.stays rfl rfl
    · split at stepped
      · exact Option.some.inj stepped ▸ still.stays rfl rfl
      · exact Option.some.inj stepped ▸ still.stays rfl rfl
      · split at stepped
        · cases stepped
          have moved : Still chain key
              (a.moved index ⟨kind, privPem, .readRoot read priv⟩ .statChainNew) :=
            still.stays rfl rfl
          exact ⟨moved.untouched, moved.early, moved.handles⟩
        · exact Option.some.inj stepped ▸ still.stays rfl rfl
  | removeChain error =>
    cases stepped
    exact still.goes (still.untouched.remove (by decide) (by decide)) rfl
      fun _ holds => by cases holds
  | removeKey error =>
    cases stepped
    exact still.goes (still.untouched.remove (by decide) (by decide)) rfl
      fun _ holds => by cases holds
  | statChainNew =>
    cases stepped
    split
    · exact still.stays rfl rfl
    · exact still.stays rfl rfl
  | statKeyNew =>
    cases stepped
    split
    · exact still.stays rfl rfl
    · exact still.stays rfl rfl
  | statChain =>
    cases stepped
    have there : a.stat "tls.crt" = true := by
      rw [Agent.stat, still.untouched.chainLink]
      rfl
    rw [if_pos there]
    exact still.stays rfl rfl
  | backupChain => exact absurd rfl quiet
  | statKey => cases early
  | backupKey => cases early
  | commitChain => cases early
  | commitKey => cases early
  | syncCommitted => cases early
  | done => cases stepped
  | failed error => cases stepped

theorem torn (member : call ∈ a.calls) {written : Bytes} :
    Untouched chain key (a.torn call written).disk := by
  have high := still.handles call member
  rw [Agent.torn]
  split
  · next file phase => exact still.untouched.write (high file (by rw [phase]; rfl))
  · next file phase => exact still.untouched.write (high file (by rw [phase]; rfl))
  · exact still.untouched

end

theorem torn_calls {written : Bytes} : (a.torn call written).calls = a.calls := by
  rw [Agent.torn]
  split <;> rfl

theorem afterError_early {kind : Kind} {phase next : Phase}
    (failing : Agent.afterError kind phase = some next) :
    next.early = true ∧ next.handle = none := by
  unfold Agent.afterError at failing
  split at failing
  all_goals cases failing
  all_goals exact ⟨rfl, rfl⟩

theorem fail (still : Still chain key a) (turn : a.calls[index]? = some call) {written : Bytes}
    (stepped : a.fail index written call = some b) : Still chain key b := by
  have member := List.mem_of_getElem? turn
  obtain ⟨phase, failing, rfl⟩ := Option.map_eq_some_iff.mp stepped
  obtain ⟨early, handle⟩ := afterError_early failing
  have torn : Still chain key (a.torn call written) :=
    ⟨still.torn member, fun other there => still.early other (torn_calls ▸ there),
      fun other there => still.handles other (torn_calls ▸ there)⟩
  exact torn.stays early handle

theorem crash (still : Still chain key a) (torn : Option (Nat × Bytes)) :
    Still chain key (a.crash torn) := by
  have none_ : ∀ {disk}, Untouched chain key disk →
      Still chain key { a with disk := disk, calls := [] } := fun untouched =>
    ⟨untouched, fun _ member => absurd member List.not_mem_nil,
      fun _ member => absurd member List.not_mem_nil⟩
  cases torn with
  | none => exact none_ still.untouched
  | some cut =>
    obtain ⟨index, written⟩ := cut
    cases turn : a.calls[index]? with
    | none =>
      simp only [Agent.crash, turn]
      exact none_ still.untouched
    | some call =>
      simp only [Agent.crash, turn]
      exact ⟨still.torn (List.mem_of_getElem? turn),
        fun _ member => absurd member List.not_mem_nil,
        fun _ member => absurd member List.not_mem_nil⟩

theorem step (still : Still chain key a) {event : Step} (quiet : Quiet a event)
    (stepped : a.step x509 event = some b) : Still chain key b := by
  cases event with
  | start kind privPem =>
    cases stepped
    refine ⟨still.untouched, fun call member => ?_, fun call member => ?_⟩
    · rcases List.mem_append.mp member with old | new
      · exact still.early call old
      · rw [List.mem_singleton.mp new]
        rfl
    · rcases List.mem_append.mp member with old | new
      · exact still.handles call old
      · rw [List.mem_singleton.mp new]
        exact fun _ holds => by cases holds
  | issued index issued =>
    obtain ⟨call, _, stepped⟩ := Option.bind_eq_some_iff.mp stepped
    split at stepped
    · exact Option.some.inj stepped ▸ still.stays rfl rfl
    · cases stepped
  | advance index =>
    obtain ⟨call, turn, stepped⟩ := Option.bind_eq_some_iff.mp stepped
    exact still.advance turn (quiet call turn) stepped
  | fail index written =>
    obtain ⟨call, turn, stepped⟩ := Option.bind_eq_some_iff.mp stepped
    exact still.fail turn stepped
  | crash torn => exact Option.some.inj stepped ▸ still.crash torn

theorem enrolled : Still chain key (.enrolled chain key root) where
  untouched :=
    { chainLink := rfl
      keyLink := rfl
      chainData := rfl
      keyData := rfl
      others := by
        intro name file not_chain not_key there
        simp only [Agent.enrolled, if_neg not_chain, if_neg not_key] at there
        split at there
        · exact Option.some.inj there ▸ Nat.le_refl 2
        · cases there
      fresh := Nat.le_succ 2 }
  early _ member := absurd member List.not_mem_nil
  handles _ member := absurd member List.not_mem_nil

end Still

theorem not_usable_of_backup (usable : Usable x509 chain key a)
    (turn : a.calls[index]? = some call) (begins : call.phase = .backupChain)
    (stepped : a.step x509 (.advance index) = some b) : ¬ Usable x509 chain key b := by
  obtain ⟨crt, _, there, _⟩ := usable
  obtain ⟨file, linked, _⟩ := Option.map_eq_some_iff.mp there
  obtain ⟨links, renamed⟩ : ∃ links, a.disk.links.rename "tls.crt" "tls.crt.prev" = some links :=
    ⟨_, Files.rename_eq_some.mpr ⟨file, linked, rfl⟩⟩
  simp only [Agent.step, turn, Option.bind_some, Agent.advance, begins, Agent.renames, Disk.rename,
    renamed, Option.map_some] at stepped
  cases stepped
  rintro ⟨crt, _, found, _⟩
  obtain ⟨file, linked, _⟩ := Option.map_eq_some_iff.mp found
  have gone : links "tls.crt" = none := Files.rename_source renamed (by decide)
  cases gone.symm.trans linked

/-- In every run of an enrolled agent the two files are a pair after every step if and only if no
commit comes to its first rename. -/
theorem usable_iff_quiet (x509 : X509) (chain key root : Bytes) (steps : List Step) (b : Agent)
    (pair : x509.keyPair chain key = true)
    (reached : run (Agent.step x509) (.enrolled chain key root) steps = some b) :
    (∀ before after a, steps = before ++ after →
        run (Agent.step x509) (.enrolled chain key root) before = some a →
        Usable x509 chain key a) ↔
      Meets (Agent.step x509) Quiet (.enrolled chain key root) steps := by
  constructor
  · intro always
    refine meets_of_splits fun before event after a split there => ?_
    cases event with
    | advance index =>
      intro call turn begins
      have usable := always before (.advance index :: after) a split there
      rw [split, run_append, there, Option.bind_some] at reached
      obtain ⟨c, stepped, _⟩ := run_cons_eq_some.mp reached
      refine not_usable_of_backup usable turn begins stepped ?_
      refine always (before ++ [.advance index]) after c (by rw [split]; simp) ?_
      rw [run_append, there, Option.bind_some]
      exact run_cons_eq_some.mpr ⟨c, stepped, rfl⟩
    | _ => trivial
  · intro quiet before after a split there
    rw [split] at quiet
    have before_quiet : Meets (Agent.step x509) Quiet (.enrolled chain key root) before := by
      rw [split] at reached
      exact (meets_append there quiet).1
    have still : Still chain key a :=
      run_keeps (fun _ _ _ still quiet stepped => still.step quiet stepped) Still.enrolled there
        before_quiet
    exact still.untouched.usable pair

instance (a : Agent) (event : Step) : Decidable (Quiet a event) := by
  unfold Quiet
  split
  · infer_instance
  · infer_instance

def plainX509 : X509 where
  keyPair := fun chain key => chain.head? = key.head?
  verify := fun chain root => chain.getLast? = root.head?

def advances (index count : Nat) : List Step := List.replicate count (.advance index)

/-- A rotation whose chain ends at another root, and a re-enrolment that crashes over its key. -/
def rejected : List Step :=
  [.start .rotation [2], .issued 0 [2, 8]] ++ advances 0 10 ++
    [.start .reenrolment [3], .issued 1 [3, 9]] ++ advances 1 3 ++ [.crash (some (1, []))]

theorem rejected_stays_usable :
    ∃ a, run (Agent.step plainX509) (.enrolled [1, 9] [1] [9]) rejected = some a ∧
      Usable plainX509 [1, 9] [1] a := by
  have ends : (run (Agent.step plainX509) (.enrolled [1, 9] [1] [9]) rejected).isSome := by
    decide +kernel
  obtain ⟨b, reached⟩ := Option.isSome_iff_exists.mp ends
  have usable :=
    (usable_iff_quiet plainX509 [1, 9] [1] [9] rejected b rfl reached).mpr (by decide +kernel)
  exact ⟨b, reached, usable rejected [] b (List.append_nil _).symm reached⟩

def interrupted : List Step :=
  [.start .rotation [2], .issued 0 [2, 9]] ++ advances 0 12 ++ [.crash none]

def overlapped : List Step :=
  [.start .rotation [2], .issued 0 [2, 9], .start .reenrolment [3], .issued 1 [3, 9]] ++
    advances 0 15 ++ advances 1 4 ++ advances 0 2 ++ advances 1 5

/-- A crash leaves no certificate, and two calls that overlap leave the certificate of one with
the key of the other. -/
theorem rotation_breaks_the_pair :
    (∃ a, run (Agent.step plainX509) (.enrolled [1, 9] [1] [9]) interrupted = some a ∧
      a.calls = [] ∧ ¬ Usable plainX509 [1, 9] [1] a) ∧
    ∃ a, run (Agent.step plainX509) (.enrolled [1, 9] [1] [9]) overlapped = some a ∧
      (∀ call ∈ a.calls, a.advance plainX509 0 call = none) ∧
      ¬ Usable plainX509 [1, 9] [1] a := by
  constructor
  · have gone : (run (Agent.step plainX509) (.enrolled [1, 9] [1] [9]) interrupted).any (fun a =>
        a.calls = [] ∧ a.disk.read "tls.crt" = none) := by decide +kernel
    obtain ⟨a, reached, both⟩ := (Option.any_eq_true _ _).mp gone
    obtain ⟨none_, missing⟩ := of_decide_eq_true both
    refine ⟨a, reached, none_, ?_⟩
    rintro ⟨crt, _, found, _⟩
    cases missing.symm.trans found
  · have mixed : (run (Agent.step plainX509) (.enrolled [1, 9] [1] [9]) overlapped).any (fun a =>
        (∀ call ∈ a.calls, (a.advance plainX509 0 call).isNone) ∧
          a.disk.read "tls.crt" = some [2, 9] ∧ a.disk.read "tls.key" = some [3]) := by
      decide +kernel
    obtain ⟨a, reached, all⟩ := (Option.any_eq_true _ _).mp mixed
    obtain ⟨ended, certificate, private_⟩ := of_decide_eq_true all
    refine ⟨a, reached, fun call member => Option.isNone_iff_eq_none.mp (ended call member), ?_⟩
    rintro ⟨crt, priv, found, foundToo, pair, _⟩
    obtain rfl := Option.some.inj (certificate.symm.trans found)
    obtain rfl := Option.some.inj (private_.symm.trans foundToo)
    exact absurd pair (by decide)

end HlHelper.Keystore
