import Mathlib.Tactic.Common
import StorageScaleTest.Ownership.Objects

/-!
# No API object is untracked

An intent that is not yet journaled, or an ambiguous absence, stands for every create of its name
that is still in flight. It is given up only by a command that has found out that no such create
is left.
-/

namespace StorageScaleTest.Ownership

variable {own : Attempt} {s s' : State} {name : ObjectName} {key : Key}

/-! ## The law and its condition -/

def State.Intended (s : State) (identity : Identity) : Prop :=
  ∃ key intent, s.intents key = some intent ∧ intent.toIdentity = identity

def State.Noted (s : State) (identity : Identity) : Prop :=
  ∃ key, s.ambiguousAbsences key = some identity

def State.Journaled (s : State) (identity : Identity) (uid : Uid) : Prop :=
  ∃ key resource, s.resources key = some resource ∧ resource.toIdentity = identity ∧
    resource.uid = uid

/-- An object is covered by a journal entry of its UID; a create has no UID yet. -/
structure Tracked (own : Attempt) (s : State) : Prop where
  objects : ∀ name o, s.objects name = some o → o.ownership = own.nonce →
    s.Intended ⟨name, own.nonce⟩ ∨ s.Noted ⟨name, own.nonce⟩ ∨ s.Journaled ⟨name, own.nonce⟩ o.uid
  requests : ∀ request ∈ s.requests, s.now ≤ request.deadline →
    s.Intended ⟨request.object, own.nonce⟩ ∨ s.Noted ⟨request.object, own.nonce⟩ ∨
      ∃ uid, s.Journaled ⟨request.object, own.nonce⟩ uid

/-- No sent create of the name can still take effect. -/
def State.Settled (s : State) (name : ObjectName) : Prop :=
  ∀ request ∈ s.requests, request.object = name → request.deadline < s.now

/-- The name whose intent a call lets go of when the command goes on after it. -/
def Phase.concludes : Phase → Option ObjectName
  | .verify c _ | .inspect c _ => some c.object
  | .absent target (.clear _ _) | .delete target (.clear _ _) => some target.object
  | _ => none

/-- No command verifies a created object, inspects a Lease, or deletes what an intent has created
while another create of that name is in flight. -/
def Calm (own : Attempt) (s : State) : Action → Prop
  | .advance answer => ∀ name, s.phase.concludes = some name →
      (perform own s answer s.phase).phase ≠ .idle → s.Settled name
  | _ => True

structure Start (own : Attempt) (s : State) : Prop where
  phase : s.phase = .idle
  intents : ∀ key, s.intents key = none
  resources : ∀ key, s.resources key = none
  requests : s.requests = []
  objects : ∀ name o, s.objects name = some o → o.ownership ≠ own.nonce

inductive CalmRun (own : Attempt) (start : State) : State → Prop
  | refl : CalmRun own start start
  | step {before after : State} {action : Action} (run : CalmRun own start before)
      (calm : Calm own before action) (moved : step own before action = some after) :
      CalmRun own start after

/-! ## What covers a name -/

/-- An intent under a key that is not journaled for it, or an ambiguous absence. -/
def State.Open (s : State) (identity : Identity) : Prop :=
  (∃ key intent, s.intents key = some intent ∧ intent.toIdentity = identity ∧
    ∀ resource, s.resources key = some resource → resource.toIdentity ≠ identity) ∨
  s.Noted identity

def State.OpenBut (s : State) (key : Key) (identity : Identity) : Prop :=
  (∃ key' intent, key' ≠ key ∧ s.intents key' = some intent ∧ intent.toIdentity = identity ∧
    ∀ resource, s.resources key' = some resource → resource.toIdentity ≠ identity) ∨
  s.Noted identity

structure Guarded (own : Attempt) (s : State) : Prop where
  objects : ∀ name o, s.objects name = some o → o.ownership = own.nonce →
    s.Open ⟨name, own.nonce⟩ ∨ s.Journaled ⟨name, own.nonce⟩ o.uid
  requests : ∀ request ∈ s.requests, s.now ≤ request.deadline →
    s.Open ⟨request.object, own.nonce⟩

theorem State.Open.recorded {identity : Identity} (is_open : s.Open identity) :
    s.Intended identity ∨ s.Noted identity := by
  rcases is_open with ⟨key, intent, eq, same, -⟩ | noted
  · exact .inl ⟨key, intent, eq, same⟩
  · exact .inr noted

theorem Guarded.tracked (guarded : Guarded own s) : Tracked own s := by
  constructor
  · intro name o eq owned
    rcases guarded.objects name o eq owned with is_open | journaled
    · exact is_open.recorded.imp_right .inl
    · exact .inr (.inr journaled)
  · intro request mem live
    exact (guarded.requests request mem live).recorded.imp_right .inl

/-! ## What the running command knows -/

structure Creating (own : Attempt) (s : State) (c : Creation) : Prop where
  intent : ∃ intent, s.intents c.key = some intent ∧ intent.toIdentity = ⟨c.object, own.nonce⟩
  unjournaled : s.resources c.key = none

/-- A Lease of the attempt that does not name the claim comes from another creation. -/
structure Placed (own : Attempt) (s : State) (c : Creation) (claim : ClaimIdentity) : Prop where
  objects : ∀ o, s.objects c.object = some o → o.ownership = own.nonce →
    leaseMatches own o claim none = true ∨ s.OpenBut c.key ⟨c.object, own.nonce⟩ ∨
      s.Journaled ⟨c.object, own.nonce⟩ o.uid
  requests : ∀ request ∈ s.requests, request.object = c.object → s.now ≤ request.deadline →
    request.claim = some claim ∨ s.OpenBut c.key ⟨c.object, own.nonce⟩

def State.Elsewhere (own : Attempt) (s : State) (key : Key) (name : ObjectName) : Prop :=
  ∀ o, s.objects name = some o → o.ownership = own.nonce →
    s.OpenBut key ⟨name, own.nonce⟩ ∨ s.Journaled ⟨name, own.nonce⟩ o.uid

def Clearable (own : Attempt) (s : State) (key : Key) : Prop :=
  ∀ intent, s.intents key = some intent →
    (∃ resource, s.resources key = some resource ∧ resource.toIdentity = intent.toIdentity) ∨
    s.Noted intent.toIdentity ∨
    (s.Settled intent.object ∧ s.Elsewhere own key intent.object)

def Targets (s : State) (target : Resource) : Next → Prop
  | .clear key _ => ∀ intent, s.intents key = some intent → intent.object = target.object
  | _ => True

def Knows (own : Attempt) (s : State) : Phase → Prop
  | .intend c => s.resources c.key = none
  | .create c _ => Creating own s c ∧ ∀ claim, c.claim = some claim → Placed own s c claim
  | .observe c _ | .retry c _ => Creating own s c ∧ c.claim = none
  | .verify c _ => Creating own s c
  | .inspect c claim => Creating own s c ∧ Placed own s c claim
  | .journal c uid => Creating own s c ∧ s.Settled c.object ∧
      ∀ o, s.objects c.object = some o → o.ownership = own.nonce → o.uid = uid
  | .clear key _ => Clearable own s key
  | .await key _ intent | .recheck key _ intent | .record key _ intent
  | .confirm key _ intent _ => s.intents key = some intent
  | .erase target next | .absent target next | .delete target next => Targets s target next
  | _ => True

structure Inv (own : Attempt) (s : State) : Prop where
  guarded : Guarded own s
  knows : Knows own s s.phase

theorem Creating.is_open {c : Creation} (creating : Creating own s c) :
    s.Open ⟨c.object, own.nonce⟩ := by
  obtain ⟨intent, eq, same⟩ := creating.intent
  refine .inl ⟨c.key, intent, eq, same, fun resource eq' => ?_⟩
  rw [creating.unjournaled] at eq'
  cases eq'

/-! ## Moves of the environment -/

/-- The attempt's files stay as they are, and an object of the attempt that is new comes from a
create in flight. -/
structure Drift (own : Attempt) (s s' : State) : Prop where
  intents : s'.intents = s.intents
  resources : s'.resources = s.resources
  absences : s'.ambiguousAbsences = s.ambiguousAbsences
  now : s.now ≤ s'.now
  requests : ∀ request ∈ s'.requests, request ∈ s.requests
  objects : ∀ name o, s'.objects name = some o → o.ownership = own.nonce →
    s.objects name = some o ∨ ∃ request ∈ s.requests, request.object = name ∧
      s.now ≤ request.deadline ∧ o.run = own.run ∧
      o.reservation = request.claim.map (·, own.run, own.nonce)

namespace Drift

theorem noted (drift : Drift own s s') (identity : Identity) :
    s'.Noted identity ↔ s.Noted identity := by
  unfold State.Noted
  rw [drift.absences]

theorem is_open (drift : Drift own s s') (identity : Identity) :
    s'.Open identity ↔ s.Open identity := by
  unfold State.Open
  rw [drift.noted, drift.intents, drift.resources]

theorem openBut (drift : Drift own s s') (identity : Identity) :
    s'.OpenBut key identity ↔ s.OpenBut key identity := by
  unfold State.OpenBut
  rw [drift.noted, drift.intents, drift.resources]

theorem journaled (drift : Drift own s s') (identity : Identity) (uid : Uid) :
    s'.Journaled identity uid ↔ s.Journaled identity uid := by
  unfold State.Journaled
  rw [drift.resources]

theorem settled (drift : Drift own s s') (settled : s.Settled name) : s'.Settled name :=
  fun request mem eq =>
    Nat.lt_of_lt_of_le (settled request (drift.requests request mem) eq) drift.now

theorem old (drift : Drift own s s') (settled : s.Settled name) {o : Object}
    (eq : s'.objects name = some o) (owned : o.ownership = own.nonce) :
    s.objects name = some o := by
  rcases drift.objects name o eq owned with eq | ⟨request, mem, same, live, -⟩
  · exact eq
  · exact absurd (settled request mem same) (Nat.not_lt.mpr live)

theorem guarded (drift : Drift own s s') (guarded : Guarded own s) : Guarded own s' := by
  constructor
  · intro name o eq owned
    rw [drift.is_open, drift.journaled]
    rcases drift.objects name o eq owned with eq | ⟨request, mem, rfl, live, -⟩
    · exact guarded.objects name o eq owned
    · exact .inl (guarded.requests request mem live)
  · intro request mem live
    rw [drift.is_open]
    exact guarded.requests request (drift.requests request mem) (Nat.le_trans drift.now live)

theorem creating (drift : Drift own s s') {c : Creation} (creating : Creating own s c) :
    Creating own s' c where
  intent := by rw [drift.intents]; exact creating.intent
  unjournaled := by rw [drift.resources]; exact creating.unjournaled

theorem placed (drift : Drift own s s') {c : Creation} {claim : ClaimIdentity}
    (placed : Placed own s c claim) : Placed own s' c claim := by
  constructor
  · intro o eq owned
    rw [drift.openBut, drift.journaled]
    rcases drift.objects c.object o eq owned with eq | ⟨request, mem, same, live, run, reserved⟩
    · exact placed.objects o eq owned
    · rcases placed.requests request mem same live with named | elsewhere
      · left
        simp [leaseMatches, owned, run, reserved, named]
      · exact .inr (.inl elsewhere)
  · intro request mem same live
    rw [drift.openBut]
    exact placed.requests request (drift.requests request mem) same (Nat.le_trans drift.now live)

theorem clearable (drift : Drift own s s') (clearable : Clearable own s key) :
    Clearable own s' key := by
  intro intent eq
  rw [drift.intents] at eq
  rw [drift.resources, drift.noted]
  rcases clearable intent eq with journaled | noted | ⟨settled, elsewhere⟩
  · exact .inl journaled
  · exact .inr (.inl noted)
  · refine .inr (.inr ⟨drift.settled settled, fun o eq' owned => ?_⟩)
    rw [drift.openBut, drift.journaled]
    exact elsewhere o (drift.old settled eq' owned) owned

theorem targets (drift : Drift own s s') {target : Resource} {next : Next}
    (targets : Targets s target next) : Targets s' target next := by
  cases next with
  | clear key released =>
      intro intent eq
      rw [drift.intents] at eq
      exact targets intent eq
  | fail => trivial
  | mark step => trivial

theorem knows (drift : Drift own s s') {phase : Phase} (knows : Knows own s phase) :
    Knows own s' phase := by
  cases phase with
  | intend c => exact (congrFun drift.resources c.key).trans knows
  | create c attempt =>
      exact ⟨drift.creating knows.1, fun claim eq => drift.placed (knows.2 claim eq)⟩
  | observe c attempt => exact ⟨drift.creating knows.1, knows.2⟩
  | retry c attempt => exact ⟨drift.creating knows.1, knows.2⟩
  | verify c expected => exact drift.creating knows
  | inspect c claim => exact ⟨drift.creating knows.1, drift.placed knows.2⟩
  | journal c uid =>
      obtain ⟨creating, settled, only⟩ := knows
      exact ⟨drift.creating creating, drift.settled settled, fun o eq owned =>
        only o (drift.old settled eq owned) owned⟩
  | clear key released => exact drift.clearable knows
  | await key released intent => exact (congrFun drift.intents key).trans knows
  | recheck key released intent => exact (congrFun drift.intents key).trans knows
  | record key released intent => exact (congrFun drift.intents key).trans knows
  | confirm key released intent uid => exact (congrFun drift.intents key).trans knows
  | erase target next => exact drift.targets knows
  | absent target next => exact drift.targets knows
  | delete target next => exact drift.targets knows
  | idle => trivial
  | reconcile key released => trivial
  | mark step => trivial
  | discard key => trivial
  | release r => trivial
  | settle r resource => trivial
  | certify r resource => trivial
  | expunge r resource => trivial
  | gone r resource => trivial

theorem inv (drift : Drift own s s') (phase : s'.phase = s.phase) (inv : Inv own s) :
    Inv own s' where
  guarded := drift.guarded inv.guarded
  knows := by rw [phase]; exact drift.knows inv.knows

theorem enter (s : State) (phase : Phase) : Drift own s (s.enter phase) :=
  ⟨rfl, rfl, rfl, Nat.le_refl _, fun _ mem => mem, fun _ _ eq _ => .inl eq⟩

end Drift

theorem receive_old {object : ObjectName} {claim : Option ClaimIdentity} {o : Object}
    (eq : (s.receive own object claim).objects name = some o) :
    s.objects name = some o ∨ name = object ∧ o.run = own.run ∧
      o.reservation = claim.map (·, own.run, own.nonce) := by
  unfold State.receive at eq
  split at eq
  · exact .inl eq
  · dsimp only at eq
    by_cases same : name = object
    · subst same
      rw [Function.update_self] at eq
      obtain rfl := Option.some.inj eq
      exact .inr ⟨rfl, rfl, rfl⟩
    · rw [Function.update_of_ne same] at eq
      exact .inl eq

theorem receive_rest (own : Attempt) (s : State) (object : ObjectName) (claim : Option ClaimIdentity) :
    ∃ objects nextUid, s.receive own object claim = { s with objects, nextUid } := by
  unfold State.receive
  split
  · exact ⟨s.objects, s.nextUid, rfl⟩
  · exact ⟨_, _, rfl⟩

theorem deliver_drift {request : Request} (mem : request ∈ s.requests)
    (live : s.now ≤ request.deadline) :
    Drift own s { s.receive own request.object request.claim with
      requests := s.requests.erase request } := by
  obtain ⟨objects, nextUid, rest⟩ := receive_rest own s request.object request.claim
  have old := @receive_old own s
  constructor
  · rw [rest]
  · rw [rest]
  · rw [rest]
  · exact Nat.le_of_eq (by rw [rest])
  · exact fun other mem => List.mem_of_mem_erase mem
  · intro name o eq owned
    rcases old eq with eq | ⟨rfl, run, reserved⟩
    · exact .inl eq
    · exact .inr ⟨request, mem, rfl, live, run, reserved⟩

theorem step_drift {action : Action} (moved : step own s action = some s')
    (outside : ∀ command settings, action ≠ .start command settings)
    (idle : ∀ answer, action ≠ .advance answer) (alive : action ≠ .crash) :
    Drift own s s' ∧ s'.phase = s.phase := by
  cases action with
  | start command settings => exact absurd rfl (outside command settings)
  | advance answer => exact absurd rfl (idle answer)
  | crash => exact absurd rfl alive
  | tick =>
      obtain rfl := Option.some.inj moved
      exact ⟨⟨rfl, rfl, rfl, Nat.le_succ _, fun _ mem => mem, fun _ _ eq _ => .inl eq⟩, rfl⟩
  | deliver request =>
      simp only [step, Option.ite_none_right_eq_some, Option.some.injEq] at moved
      obtain ⟨⟨mem, live⟩, rfl⟩ := moved
      refine ⟨deliver_drift mem live, ?_⟩
      obtain ⟨objects, nextUid, rest⟩ :=
        receive_rest own s request.object request.claim
      rw [rest]
  | lose request =>
      obtain rfl := Option.some.inj moved
      exact ⟨⟨rfl, rfl, rfl, Nat.le_refl _, fun _ mem => List.mem_of_mem_erase mem,
        fun _ _ eq _ => .inl eq⟩, rfl⟩
  | appear name object =>
      simp only [step, Option.ite_none_right_eq_some, Option.some.injEq] at moved
      obtain ⟨⟨-, foreign, -⟩, rfl⟩ := moved
      refine ⟨⟨rfl, rfl, rfl, Nat.le_refl _, fun _ mem => mem, fun name' o eq owned => ?_⟩, rfl⟩
      dsimp only at eq
      by_cases same : name' = name
      · subst same
        rw [Function.update_self] at eq
        obtain rfl := Option.some.inj eq
        exact absurd owned foreign
      · rw [Function.update_of_ne same] at eq
        exact .inl eq
  | vanish name =>
      obtain rfl := Option.some.inj moved
      refine ⟨⟨rfl, rfl, rfl, Nat.le_refl _, fun _ mem => mem, fun name' o eq _ => ?_⟩, rfl⟩
      dsimp only at eq
      by_cases same : name' = name
      · subst same
        rw [Function.update_self] at eq
        cases eq
      · rw [Function.update_of_ne same] at eq
        exact .inl eq

/-! ## Calls of the running command -/

theorem Inv.enter (inv : Inv own s) {phase : Phase} (knows : Knows own s phase) :
    Inv own (s.enter phase) :=
  ⟨(Drift.enter s phase).guarded inv.guarded, (Drift.enter s phase).knows knows⟩

theorem Inv.idle (inv : Inv own s) : Inv own (s.enter .idle) := inv.enter trivial

theorem Inv.orFail (inv : Inv own s) {answer : Answer} {result : State}
    (answered : answer = .ok → Inv own result) : Inv own (orFail s answer result) := by
  cases answer with
  | ok => exact answered rfl
  | lost retryable => exact inv.idle

/-- A local write keeps what is covered, or gives up an intent of a settled name. -/
theorem Guarded.write (guarded : Guarded own s) (objects : s'.objects = s.objects)
    (requests : s'.requests = s.requests) (now : s'.now = s.now)
    (journaled : ∀ identity uid, s.Journaled identity uid → s'.Journaled identity uid)
    (kept : ∀ name, s.Open ⟨name, own.nonce⟩ → s'.Open ⟨name, own.nonce⟩ ∨
      s.Settled name ∧ ∀ o, s.objects name = some o → o.ownership = own.nonce →
        s'.Open ⟨name, own.nonce⟩ ∨ s'.Journaled ⟨name, own.nonce⟩ o.uid) :
    Guarded own s' := by
  constructor
  · intro name o eq owned
    rw [objects] at eq
    rcases guarded.objects name o eq owned with is_open | entry
    · rcases kept name is_open with is_open | ⟨-, covered⟩
      · exact .inl is_open
      · exact covered o eq owned
    · exact .inr (journaled _ _ entry)
  · intro request mem live
    rw [requests] at mem
    rw [now] at live
    rcases kept _ (guarded.requests request mem live) with is_open | ⟨settled, -⟩
    · exact is_open
    · exact absurd (settled request mem rfl) (Nat.not_lt.mpr live)

theorem Guarded.intend (guarded : Guarded own s) {intent : Intent} {phase : Phase}
    (same : ∀ old, s.intents key = some old → old.toIdentity = intent.toIdentity) :
    Guarded own { s with
      intents := Function.update s.intents key (some intent), phase } := by
  refine guarded.write rfl rfl rfl ?_ ?_
  · exact fun _ _ entry => entry
  · rintro name (⟨key', old, eq, identity, fresh⟩ | noted)
    · left
      left
      by_cases here : key' = key
      · subst here
        exact ⟨key', intent, Function.update_self .., (same old eq).symm.trans identity, fresh⟩
      · exact ⟨key', old, (Function.update_of_ne here ..).trans eq, identity, fresh⟩
    · exact .inl (.inr noted)

theorem State.OpenBut.update {identity : Identity} (openBut : s.OpenBut key identity)
    (intent : Option Intent) (phase : Phase) :
    { s with intents := Function.update s.intents key intent, phase }.OpenBut key identity := by
  rcases openBut with ⟨key', intent', here, eq, rest⟩ | noted
  · exact .inl ⟨key', intent', here, (Function.update_of_ne here ..).trans eq, rest⟩
  · exact .inr noted

theorem State.Open.but {identity : Identity} (is_open : s.Open identity)
    (absent : s.intents key = none) : s.OpenBut key identity := by
  rcases is_open with ⟨key', intent, eq, rest⟩ | noted
  · refine .inl ⟨key', intent, fun here => ?_, eq, rest⟩
    rw [here, absent] at eq
    cases eq
  · exact .inr noted

theorem Inv.writeIntent (inv : Inv own s) {c : Creation} (unjournaled : s.resources c.key = none) :
    Inv own (writeIntent own s c) := by
  unfold Ownership.writeIntent
  split
  · exact inv.idle
  · split
    · exact inv.idle
    · rename_i absent
      constructor
      · apply inv.guarded.intend
        intro old eq
        rw [absent] at eq
        cases eq
      · refine ⟨⟨⟨_, Function.update_self .., rfl⟩, unjournaled⟩, fun claim _ => ⟨?_, ?_⟩⟩
        · intro o eq owned
          right
          exact (inv.guarded.objects _ o eq owned).imp_left fun is_open =>
            (is_open.but absent).update _ _
        · intro request mem same live
          right
          have covered := inv.guarded.requests request mem live
          rw [same] at covered
          exact (covered.but absent).update _ _

theorem Guarded.receive (guarded : Guarded own s) {object : ObjectName}
    {claim : Option ClaimIdentity} (is_open : s.Open ⟨object, own.nonce⟩) :
    Guarded own (s.receive own object claim) := by
  have old := @receive_old own s
  obtain ⟨objects, nextUid, rest⟩ := receive_rest own s object claim
  constructor
  · intro name o eq owned
    rcases old eq with eq | ⟨rfl, -⟩
    · rw [rest]
      exact guarded.objects name o eq owned
    · rw [rest]
      exact .inl is_open
  · rw [rest]
    exact guarded.requests

theorem Creating.receive {c : Creation} (creating : Creating own s c) (object : ObjectName)
    (claim : Option ClaimIdentity) : Creating own (s.receive own object claim) c := by
  obtain ⟨objects, nextUid, rest⟩ := receive_rest own s object claim
  rw [rest]
  exact ⟨creating.intent, creating.unjournaled⟩

theorem Placed.receive {c : Creation} {claim : ClaimIdentity} (placed : Placed own s c claim) :
    Placed own (s.receive own c.object (some claim)) c claim := by
  have old := @receive_old own s
  obtain ⟨objects, nextUid, rest⟩ := receive_rest own s c.object (some claim)
  constructor
  · intro o eq owned
    rcases old eq with eq | ⟨-, run, reserved⟩
    · rw [rest]
      exact placed.objects o eq owned
    · left
      simp [leaseMatches, owned, run, reserved]
  · rw [rest]
    exact placed.requests

theorem Inv.sendCreate (inv : Inv own s) {c : Creation} {attempt : Nat} {answer : Answer}
    (creating : Creating own s c)
    (placed : ∀ claim, c.claim = some claim → Placed own s c claim) :
    Inv own (sendCreate own s c attempt answer) := by
  unfold Ownership.sendCreate
  cases answer with
  | ok =>
      have guarded : Guarded own (s.receive own c.object c.claim) :=
        inv.guarded.receive creating.is_open
      have created := creating.receive c.object c.claim
      refine ⟨(Drift.enter _ _).guarded guarded, (Drift.enter _ _).knows ?_⟩
      cases kind : c.claim with
      | none =>
          rw [kind] at created
          exact created
      | some claim =>
          rw [kind] at created
          exact ⟨created, (placed claim kind).receive⟩
  | lost retryable =>
      have created : Creating own { s with
          requests := { object := c.object, claim := c.claim, deadline := s.deadline c.key }
            :: s.requests
          phase := c.claim.elim (if retryable then .observe c attempt else .verify c none)
            fun claim => .inspect c claim } c := ⟨creating.intent, creating.unjournaled⟩
      constructor
      · constructor
        · exact inv.guarded.objects
        · intro request mem live
          rcases List.mem_cons.mp mem with rfl | mem
          · exact creating.is_open
          · exact inv.guarded.requests request mem live
      · dsimp only
        cases kind : c.claim with
        | none =>
            rw [kind] at created
            cases retryable with
            | true => exact ⟨created, kind⟩
            | false => exact created
        | some claim =>
            rw [kind] at created
            refine ⟨created, (placed claim kind).objects, ?_⟩
            intro request mem same live
            rcases List.mem_cons.mp mem with rfl | mem
            · exact .inl rfl
            · exact (placed claim kind).requests request mem same live

theorem Inv.observeCreate (inv : Inv own s) {c : Creation} {attempt : Nat}
    (creating : Creating own s c) (kind : c.claim = none) :
    Inv own (observeCreate s c attempt) := by
  unfold Ownership.observeCreate
  split
  · exact inv.enter creating
  · apply inv.enter
    split
    · trivial
    · exact ⟨creating, kind⟩

theorem Inv.prepareRetry (inv : Inv own s) {c : Creation} {attempt : Nat}
    (creating : Creating own s c) (kind : c.claim = none) :
    Inv own (prepareRetry s c attempt) := by
  unfold Ownership.prepareRetry
  split
  · exact inv.idle
  · rename_i intent found
    obtain ⟨intent', eq, same⟩ := creating.intent
    obtain rfl : intent = intent' := Option.some.inj (found.symm.trans eq)
    constructor
    · apply inv.guarded.intend
      intro old eq'
      obtain rfl : intent = old := Option.some.inj (eq.symm.trans eq')
      rfl
    · refine ⟨⟨⟨_, Function.update_self .., same⟩, creating.unjournaled⟩, fun claim eq' => ?_⟩
      rw [kind] at eq'
      cases eq'

theorem Inv.verifyCreated (inv : Inv own s) {c : Creation} {expected : Option Uid}
    (creating : Creating own s c)
    (calm : (verifyCreated own s c expected).phase ≠ .idle → s.Settled c.object) :
    Inv own (verifyCreated own s c expected) := by
  unfold Ownership.verifyCreated at calm ⊢
  split
  · rename_i o found
    simp only [found] at calm
    apply inv.enter
    split
    · rename_i verified
      refine ⟨creating, calm ?_, fun o' eq _ => ?_⟩
      · rw [if_pos verified]
        exact Phase.noConfusion
      · rw [Option.some.inj (found.symm.trans eq)]
    · trivial
  · exact inv.idle

theorem Inv.inspectLease (inv : Inv own s) {c : Creation} {claim : ClaimIdentity}
    (creating : Creating own s c) (placed : Placed own s c claim)
    (calm : (inspectLease own s c claim).phase ≠ .idle → s.Settled c.object) :
    Inv own (inspectLease own s c claim) := by
  unfold Ownership.inspectLease at calm ⊢
  split
  · rename_i o found
    simp only [found] at calm
    apply inv.enter
    split
    · rename_i own_lease
      refine ⟨creating, calm ?_, fun o' eq _ => ?_⟩
      · rw [if_pos own_lease]
        exact Phase.noConfusion
      · rw [Option.some.inj (found.symm.trans eq)]
    · rename_i foreign
      intro intent eq
      obtain ⟨intent', eq', same⟩ := creating.intent
      obtain rfl : intent = intent' := Option.some.inj (eq.symm.trans eq')
      have object : intent.object = c.object := congrArg Identity.object same
      right
      right
      rw [object]
      refine ⟨calm ?_, fun o' eq owned => ?_⟩
      · rw [if_neg foreign]
        exact Phase.noConfusion
      · obtain rfl := Option.some.inj (found.symm.trans eq)
        exact (placed.objects o found owned).resolve_left foreign
  · exact inv.idle

theorem Inv.unjournaled (inv : Inv own s) (c : Creation) (uid : Uid) :
    Inv own (s.enter (unjournaled own c uid)) := by
  apply inv.enter
  unfold Ownership.unjournaled
  split
  · trivial
  · trivial

theorem Inv.journalResource (inv : Inv own s) {c : Creation} {uid : Uid}
    (creating : Creating own s c) (settled : s.Settled c.object)
    (only : ∀ o, s.objects c.object = some o → o.ownership = own.nonce → o.uid = uid) :
    Inv own (journalResource own s c uid) := by
  unfold Ownership.journalResource
  rw [creating.unjournaled]
  dsimp only
  have entry (key : Key) (resource : Resource)
      (eq : s.resources key = some resource) :
      Function.update s.resources c.key
        (some { object := c.object, nonce := own.nonce, uid }) key = some resource := by
    rw [Function.update_of_ne, eq]
    rintro rfl
    rw [creating.unjournaled] at eq
    cases eq
  constructor
  · refine inv.guarded.write rfl rfl rfl ?_ ?_
    · rintro identity uid' ⟨key, resource, eq, rest⟩
      exact ⟨key, resource, entry key resource eq, rest⟩
    · intro name is_open
      by_cases here : name = c.object
      · subst here
        right
        refine ⟨settled, fun o eq owned => .inr ?_⟩
        exact ⟨c.key, _, Function.update_self .., rfl, (only o eq owned).symm⟩
      · left
        rcases is_open with ⟨key, intent, eq, same, fresh⟩ | noted
        · refine .inl ⟨key, intent, eq, same, fun resource eq' => ?_⟩
          dsimp only at eq'
          by_cases journaled : key = c.key
          · subst journaled
            rw [Function.update_self] at eq'
            obtain rfl := Option.some.inj eq'
            exact fun named => here (congrArg Identity.object named).symm
          · rw [Function.update_of_ne journaled] at eq'
            exact fresh resource eq'
        · exact .inr noted
  · intro intent eq
    obtain ⟨intent', eq', same⟩ := creating.intent
    obtain rfl : intent = intent' := Option.some.inj (eq.symm.trans eq')
    exact .inl ⟨_, Function.update_self .., same.symm⟩

theorem Guarded.clear (guarded : Guarded own s) (clearable : Clearable own s key)
    (phase : Phase) :
    Guarded own { s with intents := Function.update s.intents key none, phase } := by
  refine guarded.write rfl rfl rfl (fun _ _ entry => entry) ?_
  rintro name (⟨key', intent, eq, same, fresh⟩ | noted)
  · by_cases here : key' = key
    · subst here
      have object : intent.object = name := congrArg Identity.object same
      rcases clearable intent eq with ⟨resource, entry, journaled⟩ | noted | ⟨settled, elsewhere⟩
      · exact absurd (journaled.trans same) (fresh resource entry)
      · rw [same] at noted
        exact .inl (.inr noted)
      · rw [object] at settled elsewhere
        refine .inr ⟨settled, fun o eq owned => (elsewhere o eq owned).imp_left fun openBut => ?_⟩
        rcases openBut with ⟨key, intent, other, eq, rest⟩ | noted
        · exact .inl ⟨key, intent, (Function.update_of_ne other ..).trans eq, rest⟩
        · exact .inr noted
    · exact .inl (.inl ⟨key', intent, (Function.update_of_ne here ..).trans eq, same, fresh⟩)
  · exact .inl (.inr noted)

theorem Inv.clearIntent (inv : Inv own s) {released : Bool} (clearable : Clearable own s key) :
    Inv own (clearIntent s key released) := by
  refine ⟨inv.guarded.clear clearable _, ?_⟩
  unfold Ownership.clearIntent
  cases released <;> trivial

theorem Inv.reconcileIntent (inv : Inv own s) {released : Bool} :
    Inv own (reconcileIntent s key released) := by
  unfold Ownership.reconcileIntent
  split
  · exact inv.idle
  · rename_i intent found
    split
    · exact inv.enter found
    · exact inv.enter found

theorem Inv.recordAbsence (inv : Inv own s) {released : Bool} {intent : Intent}
    (found : s.intents key = some intent) : Inv own (recordAbsence s key released intent) := by
  unfold Ownership.recordAbsence
  split
  · rename_i identity noted
    apply inv.enter
    split
    · rename_i same
      intro intent' eq
      obtain rfl : intent = intent' := Option.some.inj (found.symm.trans eq)
      exact .inr (.inl ⟨key, noted.trans (congrArg some same)⟩)
    · trivial
  · rename_i absent
    have kept (identity : Identity) (noted : s.Noted identity) :
        { s with
          ambiguousAbsences := Function.update s.ambiguousAbsences key (some intent.toIdentity)
          phase := .clear key released }.Noted identity := by
      obtain ⟨key', eq⟩ := noted
      refine ⟨key', ?_⟩
      dsimp only
      rw [Function.update_of_ne, eq]
      rintro rfl
      rw [absent] at eq
      cases eq
    constructor
    · refine inv.guarded.write rfl rfl rfl (fun _ _ entry => entry) fun name is_open => .inl ?_
      rcases is_open with here | noted
      · exact .inl here
      · exact .inr (kept _ noted)
    · intro intent' eq
      obtain rfl : intent = intent' := Option.some.inj (found.symm.trans eq)
      exact .inr (.inl ⟨key, Function.update_self ..⟩)

theorem Inv.confirmIntent (inv : Inv own s) {released : Bool} {intent : Intent} {uid : Uid}
    (found : s.intents key = some intent) :
    Inv own (confirmIntent own s key released intent uid) := by
  unfold Ownership.confirmIntent
  split
  · apply inv.enter
    split
    · intro intent' eq
      rw [Option.some.inj (found.symm.trans eq)]
    · trivial
  · exact inv.idle

theorem Inv.eraseOwned (inv : Inv own s) {target : Resource} {next : Next} {answer : Answer}
    (targets : Targets s target next) : Inv own (eraseOwned own s target next answer) := by
  unfold Ownership.eraseOwned
  cases answer with
  | ok =>
      dsimp only
      split
      · apply inv.enter
        split
        · exact targets
        · exact targets
      · exact inv.enter targets
  | lost retryable => exact inv.enter targets

theorem Targets.next {target : Resource} {next : Next} (targets : Targets s target next)
    (settled : ∀ key released, next = .clear key released → s.Settled target.object)
    (gone : s.objects target.object = none) : Knows own s next.phase := by
  cases next with
  | fail => trivial
  | mark step => trivial
  | clear key released =>
      intro intent eq
      rw [targets intent eq]
      refine .inr (.inr ⟨settled key released rfl, fun o found => ?_⟩)
      rw [gone] at found
      cases found

theorem Inv.observeAbsent (inv : Inv own s) {target : Resource} {next : Next}
    (targets : Targets s target next)
    (calm : (observeAbsent s target next).phase ≠ .idle →
      ∀ key released, next = .clear key released → s.Settled target.object) :
    Inv own (observeAbsent s target next) := by
  unfold Ownership.observeAbsent at calm ⊢
  apply inv.enter
  split
  · trivial
  · rename_i absent
    have gone : s.objects target.object = none := by simpa using absent
    refine targets.next (fun key released eq => calm ?_ key released eq) gone
    rw [if_neg absent, eq]
    exact Phase.noConfusion

theorem vanish_drift (own : Attempt) (s : State) (name : ObjectName) (phase : Phase) :
    Drift own s { s with objects := Function.update s.objects name none, phase } := by
  refine ⟨rfl, rfl, rfl, Nat.le_refl _, fun _ mem => mem, fun name' o eq _ => ?_⟩
  dsimp only at eq
  by_cases same : name' = name
  · subst same
    rw [Function.update_self] at eq
    cases eq
  · rw [Function.update_of_ne same] at eq
    exact .inl eq

theorem Inv.deleteNamed (inv : Inv own s) {target : Resource} {next : Next}
    (targets : Targets s target next)
    (calm : (deleteNamed s target next).phase ≠ .idle →
      ∀ key released, next = .clear key released → s.Settled target.object) :
    Inv own (deleteNamed s target next) := by
  unfold Ownership.deleteNamed at calm ⊢
  split
  · exact inv.idle
  · rename_i o found
    simp only [found] at calm
    have drift := vanish_drift own s target.object next.phase
    refine ⟨drift.guarded inv.guarded, ?_⟩
    apply (drift.targets targets).next
    · intro key released eq
      apply drift.settled (calm ?_ key released eq)
      rw [eq]
      exact Phase.noConfusion
    · exact Function.update_self ..

theorem Inv.discardJournaled (inv : Inv own s) : Inv own (discardJournaled s key) := by
  unfold Ownership.discardJournaled
  split
  · exact inv.idle
  · split
    · exact inv.idle
    · exact inv.enter trivial

theorem Inv.releaseLease (inv : Inv own s) {r : Reservation} : Inv own (releaseLease own s r) := by
  unfold Ownership.releaseLease
  split
  · exact inv.idle
  · split
    · exact inv.enter trivial
    · apply inv.enter
      split <;> trivial
    · apply inv.enter
      split <;> trivial
    · rename_i resource intent entry found
      split
      · rename_i redundant
        rw [Bool.and_eq_true, decide_eq_true_eq] at redundant
        refine ⟨inv.guarded.clear ?_ _, trivial⟩
        intro intent' eq
        obtain rfl : intent = intent' := Option.some.inj (found.symm.trans eq)
        exact .inl ⟨resource, entry, redundant.2.symm⟩
      · exact inv.idle

theorem Inv.certifyLease (inv : Inv own s) {r : Reservation} {resource : Resource} :
    Inv own (certifyLease own s r resource) := by
  unfold Ownership.certifyLease
  split
  · apply inv.enter
    split <;> trivial
  · exact inv.idle

theorem Inv.expungeLease (inv : Inv own s) {r : Reservation} {resource : Resource}
    {answer : Answer} : Inv own (expungeLease s r resource answer) := by
  cases answer with
  | ok =>
      unfold Ownership.expungeLease
      dsimp only
      split
      · exact ⟨(vanish_drift own s resource.object _).guarded inv.guarded, trivial⟩
      · exact inv.enter trivial
  | lost retryable => exact inv.enter trivial

theorem Inv.perform (inv : Inv own s) {answer : Answer} (calm : Calm own s (.advance answer)) :
    Inv own (perform own s answer s.phase) := by
  have knows := inv.knows
  unfold Calm at calm
  cases phase : s.phase with
  | idle => exact inv
  | intend c =>
      rw [phase] at knows
      exact inv.orFail fun _ => inv.writeIntent knows
  | create c attempt =>
      rw [phase] at knows
      exact inv.sendCreate knows.1 knows.2
  | observe c attempt =>
      rw [phase] at knows
      exact inv.orFail fun _ => inv.observeCreate knows.1 knows.2
  | retry c attempt =>
      rw [phase] at knows
      exact inv.orFail fun _ => inv.prepareRetry knows.1 knows.2
  | verify c expected =>
      rw [phase] at knows calm
      apply inv.orFail
      rintro rfl
      exact inv.verifyCreated knows (calm _ rfl)
  | inspect c claim =>
      rw [phase] at knows calm
      apply inv.orFail
      rintro rfl
      exact inv.inspectLease knows.1 knows.2 (calm _ rfl)
  | journal c uid =>
      rw [phase] at knows
      cases answer with
      | ok => exact inv.journalResource knows.1 knows.2.1 knows.2.2
      | lost retryable => exact inv.unjournaled c uid
  | clear key released =>
      rw [phase] at knows
      exact inv.orFail fun _ => inv.clearIntent knows
  | reconcile key released => exact inv.orFail fun _ => inv.reconcileIntent
  | await key released intent =>
      rw [phase] at knows
      unfold Ownership.perform awaitHorizon
      dsimp only
      split
      · exact inv.enter knows
      · exact inv
  | recheck key released intent =>
      rw [phase] at knows
      apply inv.orFail
      intro _
      unfold recheckIntent
      split
      · exact inv.enter knows
      · exact inv.enter knows
  | record key released intent =>
      rw [phase] at knows
      exact inv.orFail fun _ => inv.recordAbsence knows
  | confirm key released intent uid =>
      rw [phase] at knows
      exact inv.orFail fun _ => inv.confirmIntent knows
  | erase target next =>
      rw [phase] at knows
      exact inv.eraseOwned knows
  | absent target next =>
      rw [phase] at knows calm
      apply inv.orFail
      rintro rfl
      apply inv.observeAbsent knows
      rintro going key released rfl
      exact calm _ rfl going
  | delete target next =>
      rw [phase] at knows calm
      apply inv.orFail
      rintro rfl
      apply inv.deleteNamed knows
      rintro going key released rfl
      exact calm _ rfl going
  | mark step =>
      apply inv.orFail
      intro _
      exact ⟨inv.guarded.write rfl rfl rfl (fun _ _ entry => entry) fun _ is_open => .inl is_open,
        trivial⟩
  | discard key => exact inv.discardJournaled
  | release r => exact inv.orFail fun _ => inv.releaseLease
  | settle r resource =>
      apply inv.orFail
      intro _
      unfold settleLease
      apply inv.enter
      split <;> trivial
  | certify r resource => exact inv.orFail fun _ => inv.certifyLease
  | expunge r resource => exact inv.expungeLease
  | gone r resource =>
      apply inv.orFail
      intro _
      unfold observeGone
      apply inv.enter
      split <;> trivial

/-! ## Whole runs -/

theorem Command.knows (command : Command) (fresh : command.fresh s = true) :
    Knows own s command.phase := by
  cases command with
  | createOwnedObject key object => exact Option.isNone_iff_eq_none.mp fresh
  | acquirePvcLease reservation => exact Option.isNone_iff_eq_none.mp fresh
  | cleanupCreationIntent key => trivial
  | deleteJournaled key => trivial
  | releasePvcLease reservation => trivial

theorem Inv.step (inv : Inv own s) {action : Action} (calm : Calm own s action)
    (moved : step own s action = some s') : Inv own s' := by
  cases action with
  | start command settings =>
      simp only [Ownership.step, Option.ite_none_right_eq_some, Option.some.injEq] at moved
      obtain ⟨⟨-, fresh⟩, rfl⟩ := moved
      have drift : Drift own s { s with settings, phase := command.phase } :=
        ⟨rfl, rfl, rfl, Nat.le_refl _, fun _ mem => mem, fun _ _ eq _ => .inl eq⟩
      exact ⟨drift.guarded inv.guarded, drift.knows (command.knows fresh)⟩
  | advance answer =>
      obtain rfl := Option.some.inj moved
      exact inv.perform calm
  | crash =>
      obtain rfl := Option.some.inj moved
      exact inv.idle
  | tick => exact (step_drift moved nofun nofun nofun).elim fun drift phase => drift.inv phase inv
  | deliver request =>
      exact (step_drift moved nofun nofun nofun).elim fun drift phase => drift.inv phase inv
  | lose request =>
      exact (step_drift moved nofun nofun nofun).elim fun drift phase => drift.inv phase inv
  | appear name object =>
      exact (step_drift moved nofun nofun nofun).elim fun drift phase => drift.inv phase inv
  | vanish name =>
      exact (step_drift moved nofun nofun nofun).elim fun drift phase => drift.inv phase inv

theorem Start.inv (start : Start own s) : Inv own s where
  guarded := by
    constructor
    · intro name o eq owned
      exact absurd owned (start.objects name o eq)
    · intro request mem
      rw [start.requests] at mem
      cases mem
  knows := by
    rw [start.phase]
    trivial

theorem CalmRun.inv (start : Start own s) (run : CalmRun own s s') : Inv own s' := by
  induction run with
  | refl => exact start.inv
  | step run calm moved ih => exact ih.step calm moved

theorem tracked_of_calm (start : Start own s) (run : CalmRun own s s') : Tracked own s' :=
  (run.inv start).guarded.tracked

/-! ## A Lease that is created late -/

def attemptOne : Attempt where
  run := 1
  nonce := 1

def oneClaim : ClaimIdentity where
  namespaceUid := 0
  pvUid := 0
  pvcUid := 0

def theLease : Reservation where
  key := ['p']
  lease := { kind := ['L'], namespaceName := ['n'], name := ['l'] }
  claim := oneClaim

def reserved : State where
  now := 0
  nextUid := 1
  objects := Function.update (fun _ => none) theLease.lease
    (some { uid := 0, ownership := 2, run := 2, reservation := some (oneClaim, 2, 2) })
  requests := []
  intents _ := none
  resources _ := none
  ambiguousAbsences _ := none
  steps _ := false
  settings := { attempts := 3, processTimeout := 30 }
  phase := .idle

theorem reserved_start : Start attemptOne reserved where
  phase := rfl
  intents _ := rfl
  resources _ := rfl
  requests := rfl
  objects name o eq := by
    unfold reserved at eq
    dsimp only at eq
    by_cases here : name = theLease.lease
    · rw [here, Function.update_self] at eq
      obtain rfl := Option.some.inj eq
      decide
    · rw [Function.update_of_ne here] at eq
      cases eq

def quietStep (own : Attempt) (s : State) (action : Action) : Option State :=
  if s.requests = [] ∨ s.phase.concludes = none then step own s action else none

theorem CalmRun.quiet (run : CalmRun own s s') {action : Action} {after : State}
    (moved : quietStep own s' action = some after) : CalmRun own s after := by
  rw [quietStep, Option.ite_none_right_eq_some] at moved
  refine run.step ?_ moved.2
  cases action with
  | advance answer =>
      intro name concludes _ request mem
      rcases moved.1 with empty | none
      · rw [empty] at mem
        cases mem
      · rw [none] at concludes
        cases concludes
  | _ => trivial

theorem CalmRun.quietly (run : CalmRun own s s') (actions : List Action) {after : State}
    (moved : actions.foldlM (quietStep own) s' = some after) : CalmRun own s after := by
  induction actions generalizing s' with
  | nil => exact Option.some_inj.mp moved ▸ run
  | cons action actions ih =>
      rw [List.foldlM_cons] at moved
      obtain ⟨between, first, rest⟩ := Option.bind_eq_some_iff.mp moved
      exact ih (run.quiet first) rest

def theJob : ObjectName where
  kind := ['J']
  namespaceName := ['n']
  name := ['j']

/-- The answers of two creates of a Job are lost. Both take effect late, before the Job is verified,
and the command is killed before it journals the Job. -/
def lostAnswers : List Action :=
  [.start (.createOwnedObject ['s'] theJob) reserved.settings, .advance .ok, .advance (.lost true),
    .advance .ok, .tick, .advance .ok, .advance (.lost true),
    .deliver { object := theJob, claim := none, deadline := 30 },
    .deliver { object := theJob, claim := none, deadline := 31 }, .advance .ok, .advance .ok, .crash]

/-- The Job that is left is the one of the intent. -/
theorem tracked_of_calm_sample : ∃ s, lostAnswers.foldlM (step attemptOne) reserved = some s ∧
    Tracked attemptOne s ∧ (s.objects theJob).map (·.uid) = some 1 ∧ s.resources ['s'] = none ∧
    (s.intents ['s']).map (·.object) = some theJob :=
  ⟨_, rfl, tracked_of_calm reserved_start (CalmRun.refl.quietly lostAnswers rfl), rfl, rfl, rfl⟩

/-- The create of the Lease is in flight when the command sees the Lease of attempt 2, and takes
effect after that one is gone. -/
def lateLease : List Action :=
  [.start (.acquirePvcLease theLease) reserved.settings, .advance .ok, .advance (.lost true),
    .advance .ok, .advance .ok, .vanish theLease.lease,
    .deliver { object := theLease.lease, claim := some oneClaim, deadline := 30 }]

theorem late_lease_untracked : Start attemptOne reserved ∧
    ∃ s, lateLease.foldlM (step attemptOne) reserved = some s ∧ ¬Tracked attemptOne s := by
  refine ⟨reserved_start, _, rfl, fun tracked => ?_⟩
  rcases tracked.objects theLease.lease _ rfl rfl with ⟨key, intent, found, -⟩ | ⟨key, noted⟩ |
    ⟨key, resource, entry, -⟩
  · have gone : Function.update (Function.update (fun _ => none) theLease.key
        (some { object := theLease.lease, nonce := 1, mtime := 0 })) theLease.key none key =
          some intent := found
    rw [Function.update_idem, Function.update_eq_self] at gone
    cases gone
  · cases noted
  · cases entry

end StorageScaleTest.Ownership
