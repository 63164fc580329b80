import StorageScaleTest.Batch.Sealing
import StorageScaleTest.Proof.Batch.History

/-!
# What a start seals

While a start prepares, the appends that commit extend the groups. The digest that it took at first
is still that of the manifest only where none has.
-/

namespace StorageScaleTest.Batch.Sealing

open Shell

section

variable [Ctype] {setting : Setting} {s s' start : State} {p q : Process} {ledger ledger' : Ledger}
  {seen seen' : List Text} {digest : Text} {read : List Text}

/-! ## Runs -/

inductive Run (setting : Setting) (start : State) : List (State × Action × State) → State → Prop
  | refl : Run setting start [] start
  | step {trail : List (State × Action × State)} {s s' : State} {action : Action}
      (before : Run setting start trail s) (moved : step setting s action = some s') :
      Run setting start ((s, action, s') :: trail) s'

def State.manifest (s : State) : Text := contentOf s.files .manifest

def manifests (trail : List (State × Action × State)) (s : State) : List Text :=
  s.manifest :: trail.map (·.1.manifest)

def Apart (digest : Text → Text) (texts : List Text) : Prop :=
  ∀ a ∈ texts, ∀ b ∈ texts, digest a = digest b → a = b

def Setting.text (setting : Setting) (ledger : Ledger) : Text :=
  manifestText setting.digest setting.ds ledger

/-- Any batch, sealed or not, before any of the invocations. -/
structure Start (setting : Setting) (s : State) : Prop where
  batch : ∃ ledger, s.files .manifest = some (.regular (setting.text ledger)) ∧
    (s.files .seal = none → Holds setting.digest setting.ds ledger s.files)
  phases : ∀ p, s.phase p = (setting.invocation p).begin

def Phase.committed : Phase → Bool
  | .appendWrite rest => !rest.contains .commit
  | .appendRelease success | .finished success => success
  | _ => false

/-! ## The invariant -/

/-- The digest is that of a revision, and what was read are revisions since. -/
def Follows (setting : Setting) (seen : List Text) (ledger : Ledger) (digest : Text)
    (read : List Text) : Prop :=
  ∃ base, base <+: ledger ∧ setting.text base ∈ seen ∧
    digest = setting.digest (setting.text base) ∧
    ∀ text ∈ read, ∃ mid, text = setting.text mid ∧ base <+: mid ∧ mid <+: ledger

def Current (setting : Setting) (ledger : Ledger) (digest : Text) (read : List Text) : Prop :=
  digest = setting.digest (setting.text ledger) ∧ ∀ text ∈ read, text = setting.text ledger

def Appending (setting : Setting) (ledger : Ledger) (files : Files) (submission : Submission)
    (rest : List Write) : Prop :=
  rest = [] ∨ rest = [.refreshUnion submission.union] ∨
    ∃ files₀ done later, Holds setting.digest setting.ds ledger files₀ ∧
      (∀ stage ∈ submission.stages, stage.executions ≠ []) ∧
      ledger.total + submission.ledger.total ≤ 9999 ∧
      done ++ later = stagingWrites setting.ds ledger submission ∧
      rest = later ++ [.commit, .refreshUnion submission.union] ∧
      files = perform setting.digest files₀ done

def Local (setting : Setting) (seen : List Text) (ledger : Ledger) (files : Files) (p : Process) :
    Phase → Prop
  | .appendWrite rest => files .seal = none ∧ ∃ submission,
      setting.invocation p = .append submission true ∧
        Appending setting ledger files submission rest
  | .refreshUnion digest => files .seal = none ∧ Follows setting seen ledger digest []
  | .firstRelease digest => Follows setting seen ledger digest []
  | .preflight digest read | .secondAcquire digest read | .compare digest read =>
    Follows setting seen ledger digest read
  | .writeControl digest read | .sealEnvironment digest read | .sealManifest digest read =>
    files .seal = none ∧ Current setting ledger digest read
  | _ => True

structure Inv (setting : Setting) (seen : List Text) (ledger : Ledger) (s : State) : Prop where
  manifest : s.files .manifest = some (.regular (setting.text ledger))
  listed : setting.text ledger ∈ seen
  holds : s.files .seal = none → Holds setting.digest setting.ds ledger s.files
  holder : ∀ p, s.alive p = true → (s.phase p).locked = true → s.lock = some p
  phases : ∀ p, s.alive p = true → Local setting seen ledger s.files p (s.phase p)
  sealing : ∀ p digest read, (s.phase p).sealing = some (digest, read) →
    s.files .seal = some (.regular (unlines [digest])) ∧ Current setting ledger digest read
  once : ∀ p q, (s.phase p).sealing.isSome = true → (s.phase q).sealing.isSome = true → p = q

structure Moved (setting : Setting) (seen : List Text) (ledger : Ledger) (s : State) (q : Process)
    (after : Outcome) (ledger' : Ledger) : Prop where
  manifest : after.1 .manifest = some (.regular (setting.text ledger'))
  holds : after.1 .seal = none → Holds setting.digest setting.ds ledger' after.1
  writes : after.1 = s.files ∧ ledger' = ledger ∨ s.lock = some q ∧ s.files .seal = none
  lock : ∀ p, p ≠ q → s.alive p = true → s.lock = some p → after.2.1 = some p
  holder : after.2.2.locked = true → after.2.1 = some q
  phase : Local setting (setting.text ledger' :: seen) ledger' after.1 q after.2.2
  sealing : after.2.2.sealing = (s.phase q).sealing ∧ after.1 .seal = s.files .seal ∨
    s.files .seal = none ∧ ∃ digest read, after.2.2.sealing = some (digest, read) ∧
      after.1 .seal = some (.regular (unlines [digest])) ∧ Current setting ledger' digest read
  kept : ∀ path, path ≠ .seal → Below ledger.length ledger.total path → after.1 path = s.files path
  commits : ledger' = ledger ∨ ∃ submission, setting.invocation q = .append submission true ∧
    ledger' = ledger ++ submission.ledger ∧ after.2.2.committed = true

theorem Moved.grows {after : Outcome} (moved : Moved setting seen ledger s q after ledger') :
    ledger <+: ledger' := by
  rcases moved.commits with rfl | ⟨submission, -, rfl, -⟩
  · exact List.prefix_rfl
  · exact List.prefix_append _ _

theorem Follows.mono (follows : Follows setting seen ledger digest read) (grows : ledger <+: ledger')
    (more : seen ⊆ seen') : Follows setting seen' ledger' digest read := by
  obtain ⟨base, le, listed, eq, all⟩ := follows
  refine ⟨base, le.trans grows, more listed, eq, fun text mem => ?_⟩
  obtain ⟨mid, same, lower, upper⟩ := all text mem
  exact ⟨mid, same, lower, upper.trans grows⟩

theorem Local.more {files : Files} {phase : Phase} (facts : Local setting seen ledger files p phase)
    (more : seen ⊆ seen') : Local setting seen' ledger files p phase := by
  cases phase with
  | refreshUnion digest => exact ⟨facts.1, facts.2.mono List.prefix_rfl more⟩
  | firstRelease digest => exact Follows.mono facts List.prefix_rfl more
  | preflight digest read => exact Follows.mono facts List.prefix_rfl more
  | secondAcquire digest read => exact Follows.mono facts List.prefix_rfl more
  | compare digest read => exact Follows.mono facts List.prefix_rfl more
  | _ => exact facts

/-- Outside of the lock a process relies on no file. -/
theorem Local.unlocked {files files' : Files} {phase : Phase}
    (facts : Local setting seen ledger files p phase) (free : phase.locked = false)
    (grows : ledger <+: ledger') (more : seen ⊆ seen') :
    Local setting seen' ledger' files' p phase := by
  cases phase with
  | preflight digest read => exact Follows.mono facts grows more
  | secondAcquire digest read => exact Follows.mono facts grows more
  | appendWrite | refreshUnion | firstRelease | compare | writeControl | sealEnvironment
  | sealManifest => cases free
  | _ => trivial

/-! ## Steps -/

def State.become (s : State) (q : Process) (after : Outcome) : State :=
  { s with files := after.1, lock := after.2.1, phase := Function.update s.phase q after.2.2 }

theorem step_cases {action : Action} (moved : step setting s action = some s') :
    (∃ q, action = .advance q ∧ s.alive q = true ∧
      s' = s.become q (operate setting s q (s.phase q))) ∨
    (∃ q digest read, action = .inspect q ∧ s.alive q = true ∧
      s.phase q = .preflight digest read ∧
      s' = s.become q (s.files, s.lock, .preflight digest (s.manifest :: read))) ∨
    ∃ q, action = .die q ∧ s' = { s with alive := Function.update s.alive q false } := by
  cases action with
  | advance q =>
      simp only [step] at moved
      split at moved
      · rename_i alive
        exact .inl ⟨q, rfl, alive, (Option.some.inj moved).symm⟩
      · cases moved
  | inspect q =>
      simp only [step] at moved
      split at moved
      · rename_i digest read phase
        split at moved
        · rename_i alive
          exact .inr (.inl ⟨q, digest, read, rfl, alive, phase, (Option.some.inj moved).symm⟩)
        · cases moved
      · cases moved
  | die q => exact .inr (.inr ⟨q, rfl, (Option.some.inj moved).symm⟩)

theorem Inv.become {after : Outcome} (inv : Inv setting seen ledger s) (alive : s.alive q = true)
    (moved : Moved setting seen ledger s q after ledger') :
    Inv setting (setting.text ledger' :: seen) ledger' (s.become q after) := by
  have same : (s.become q after).phase q = after.2.2 := Function.update_self ..
  have other : ∀ p, p ≠ q → (s.become q after).phase p = s.phase p := fun p ne =>
    Function.update_of_ne ne ..
  constructor
  · exact moved.manifest
  · exact List.mem_cons_self
  · exact moved.holds
  · intro p alive' locked
    by_cases eq : p = q
    · subst eq
      rw [same] at locked
      exact moved.holder locked
    · rw [other p eq] at locked
      exact moved.lock p eq alive' (inv.holder p alive' locked)
  · intro p alive'
    by_cases eq : p = q
    · subst eq
      rw [same]
      exact moved.phase
    · rw [other p eq]
      have facts := inv.phases p alive'
      rcases moved.writes with ⟨files, rfl⟩ | ⟨lock, -⟩
      · have files' : (s.become q after).files = s.files := files
        rw [files']
        exact facts.more (List.subset_cons_self _ _)
      · -- The one that writes has the lock, so that the others rely on no file.
        have free : (s.phase p).locked = false := by
          by_contra locked
          have held := inv.holder p alive' (by simpa using locked)
          rw [lock] at held
          exact eq (Option.some.inj held).symm
        exact facts.unlocked free moved.grows (List.subset_cons_self _ _)
  · intro p digest read sealed
    rcases moved.sealing with ⟨phase, files⟩ | ⟨unsealed, digest', read', phase, files, current⟩
    · have before : (s.phase p).sealing = some (digest, read) := by
        by_cases eq : p = q
        · subst eq
          rw [same, phase] at sealed
          exact sealed
        · rwa [other p eq] at sealed
      obtain ⟨content, current⟩ := inv.sealing p digest read before
      have ledgers : ledger' = ledger := by
        rcases moved.writes with ⟨-, ledgers⟩ | ⟨-, unsealed⟩
        · exact ledgers
        · rw [content] at unsealed
          cases unsealed
      rw [ledgers]
      exact ⟨files.trans content, current⟩
    · by_cases eq : p = q
      · subst eq
        rw [same, phase] at sealed
        cases sealed
        exact ⟨files, current⟩
      · rw [other p eq] at sealed
        have content := (inv.sealing p digest read sealed).1
        rw [content] at unsealed
        cases unsealed
  · have before : ∀ p, ((s.become q after).phase p).sealing.isSome = true → p = q ∨
        (s.phase p).sealing.isSome = true := by
      intro p sealed
      by_cases eq : p = q
      · exact .inl eq
      · rw [other p eq] at sealed
        exact .inr sealed
    intro p p' sealed sealed'
    rcases moved.sealing with ⟨phase, -⟩ | ⟨unsealed, -⟩
    · have kept : ∀ p, ((s.become q after).phase p).sealing.isSome = true →
          (s.phase p).sealing.isSome = true := by
        intro p sealed
        by_cases eq : p = q
        · subst eq
          rwa [same, phase] at sealed
        · rwa [other p eq] at sealed
      exact inv.once p p' (kept p sealed) (kept p' sealed')
    · have fresh : ∀ p, (s.phase p).sealing.isSome = true → False := by
        intro p sealed
        obtain ⟨⟨digest, read⟩, eq⟩ := Option.isSome_iff_exists.mp sealed
        have content := (inv.sealing p digest read eq).1
        rw [content] at unsealed
        cases unsealed
      have mine : p = q := (before p sealed).resolve_right (fresh p)
      have mine' : p' = q := (before p' sealed').resolve_right (fresh p')
      rw [mine, mine']

theorem Inv.die (inv : Inv setting seen ledger s) (q : Process) :
    Inv setting seen ledger { s with alive := Function.update s.alive q false } := by
  have before : ∀ p, Function.update s.alive q false p = true → s.alive p = true := by
    intro p alive
    by_cases eq : p = q
    · subst eq
      rw [Function.update_self] at alive
      cases alive
    · rwa [Function.update_of_ne eq] at alive
  constructor
  · exact inv.manifest
  · exact inv.listed
  · exact inv.holds
  · exact fun p alive => inv.holder p (before p alive)
  · exact fun p alive => inv.phases p (before p alive)
  · exact inv.sealing
  · exact inv.once

/-! ## What each phase makes of the batch -/

omit [Ctype] in
theorem store_other {files : Files} {content : Text} {path path' : Path} (ne : path' ≠ path) :
    store files path content path' = files path' := if_neg ne

theorem holds_store {files : Files} (content : Text) {path : Path}
    (holds : Holds setting.digest setting.ds ledger files)
    (loose : path = .environment ∨ path = .sealedEnvironment) :
    Holds setting.digest setting.ds ledger (store files path content) ∧
      ∀ path', Below ledger.length ledger.total path' →
        store files path content path' = files path' := by
  have kept : ∀ path', Below ledger.length ledger.total path' →
      store files path content path' = files path' := by
    intro path' below
    apply store_other
    rintro rfl
    rcases loose with rfl | rfl <;> exact below
  refine ⟨holds.congr kept (store_other ?_) (holds.unlinked.store path), kept⟩
  rcases loose with rfl | rfl <;> nofun

theorem Inv.stays (inv : Inv setting seen ledger s) (alive : s.alive q = true) {next : Phase}
    (locked : next.locked = true → (s.phase q).locked = true)
    (facts : Local setting seen ledger s.files q next)
    (sealing : next.sealing = (s.phase q).sealing) :
    Moved setting seen ledger s q (stay s next) ledger where
  manifest := inv.manifest
  holds := inv.holds
  writes := .inl ⟨rfl, rfl⟩
  lock _ _ _ held := held
  holder held := inv.holder q alive (locked held)
  phase := facts.more (List.subset_cons_self _ _)
  sealing := .inl ⟨sealing, rfl⟩
  kept _ _ _ := rfl
  commits := .inl rfl

theorem Inv.releases (inv : Inv setting seen ledger s) (alive : s.alive q = true)
    (held : (s.phase q).locked = true) {next : Phase} (free : next.locked = false)
    (facts : Local setting seen ledger s.files q next)
    (sealing : next.sealing = (s.phase q).sealing) :
    Moved setting seen ledger s q (release s next) ledger where
  manifest := inv.manifest
  holds := inv.holds
  writes := .inl ⟨rfl, rfl⟩
  lock p ne _ held' := by
    rw [inv.holder q alive held] at held'
    exact absurd (Option.some.inj held').symm ne
  holder locked := by
    change next.locked = true at locked
    rw [free] at locked
    cases locked
  phase := facts.more (List.subset_cons_self _ _)
  sealing := .inl ⟨sealing, rfl⟩
  kept _ _ _ := rfl
  commits := .inl rfl

theorem Inv.acquires (inv : Inv setting seen ledger s) {next : Phase}
    (facts : Local setting seen ledger s.files q next)
    (sealing : next.sealing = none) (sealing' : (s.phase q).sealing = none) :
    Moved setting seen ledger s q (acquire s q next) ledger := by
  have shape : (acquire s q next = (s.files, some q, next) ∧
        ∀ p, s.alive p = true → s.lock ≠ some p) ∨
      acquire s q next = (s.files, s.lock, .finished false) := by
    unfold acquire
    cases lock : s.lock with
    | none => exact .inl ⟨rfl, fun p _ eq => by cases eq⟩
    | some holder =>
        by_cases alive : s.alive holder = true
        · exact .inr (if_pos alive)
        · refine .inl ⟨if_neg alive, fun p alive' eq => alive ?_⟩
          rwa [Option.some.inj eq]
  rcases shape with ⟨eq, free⟩ | eq <;> rw [eq]
  · constructor
    · exact inv.manifest
    · exact inv.holds
    · exact .inl ⟨rfl, rfl⟩
    · exact fun p _ alive held => absurd held (free p alive)
    · exact fun _ => rfl
    · exact facts.more (List.subset_cons_self _ _)
    · exact .inl ⟨sealing.trans sealing'.symm, rfl⟩
    · exact fun _ _ _ => rfl
    · exact .inl rfl
  · constructor
    · exact inv.manifest
    · exact inv.holds
    · exact .inl ⟨rfl, rfl⟩
    · exact fun _ _ _ held => held
    · exact fun locked => by cases locked
    · trivial
    · exact .inl ⟨sealing'.symm, rfl⟩
    · exact fun _ _ _ => rfl
    · exact .inl rfl

theorem Inv.writes (inv : Inv setting seen ledger s) (alive : s.alive q = true)
    (held : (s.phase q).locked = true) (unsealed : s.files .seal = none) {files : Files}
    {next : Phase} (holds : Holds setting.digest setting.ds ledger files)
    (kept : ∀ path, Below ledger.length ledger.total path → files path = s.files path)
    (facts : Local setting (setting.text ledger :: seen) ledger files q next)
    (sealing : next.sealing = (s.phase q).sealing) :
    Moved setting seen ledger s q (files, s.lock, next) ledger where
  manifest := holds.manifest
  holds _ := holds
  writes := .inr ⟨inv.holder q alive held, unsealed⟩
  lock _ _ _ held := held
  holder _ := inv.holder q alive held
  phase := facts
  sealing := .inl ⟨sealing, holds.unsealed.trans unsealed.symm⟩
  kept path _ below := kept path below
  commits := .inl rfl

theorem Follows.now (inv : Inv setting seen ledger s) :
    Follows setting seen ledger (manifestDigest setting s) [] := by
  refine ⟨ledger, List.prefix_rfl, inv.listed, ?_, fun _ mem => by cases mem⟩
  unfold manifestDigest contentOf
  rw [inv.manifest]

section

variable (hex : ∀ text, isHex64 (setting.digest text) = true) (valid : isDatestamp setting.ds = true)

include hex valid

theorem text_injective {base : Ledger} (le : base <+: ledger)
    (same : setting.text base = setting.text ledger) : base = ledger := by
  have rows := congrArg (fun text => (records text).map recordFields) same
  simp only [Setting.text, manifestText, records_rows (manifestRowsOf_plain hex valid _)] at rows
  have lengths := congrArg (countRows groupTag) rows
  rw [(count_manifestRows _).1, (count_manifestRows _).1] at lengths
  exact le.eq_of_length lengths

theorem Follows.current (follows : Follows setting seen ledger digest read)
    (apart : Apart setting.digest seen) (listed : setting.text ledger ∈ seen)
    (same : digest = setting.digest (setting.text ledger)) :
    Current setting ledger digest read := by
  obtain ⟨base, le, listed', eq, all⟩ := follows
  obtain rfl := text_injective hex valid le (apart _ listed' _ listed (eq.symm.trans same))
  refine ⟨same, fun text mem => ?_⟩
  obtain ⟨mid, rfl, lower, upper⟩ := all text mem
  rw [upper.eq_of_length_le lower.length_le]

theorem Appending.begins {submission : Submission} {writes : List Write}
    (holds : Holds setting.digest setting.ds ledger s.files)
    (planned : publishGroups setting.ds s.files submission = some writes) :
    Appending setting ledger s.files submission writes := by
  obtain ⟨rfl, inhabited, bound⟩ := publishGroups_holds hex valid holds planned
  exact .inr (.inr ⟨s.files, [], _, holds, inhabited, bound, rfl, rfl, rfl⟩)

theorem append_moved (inv : Inv setting seen ledger s) (alive : s.alive q = true) {w : Write}
    {rest : List Write} (phase : s.phase q = .appendWrite (w :: rest)) :
    ∃ ledger', Moved setting seen ledger s q
      (w.apply setting.digest s.files, s.lock, .appendWrite rest) ledger' := by
  have facts := inv.phases q alive
  have held : (s.phase q).locked = true := by rw [phase]; rfl
  rw [phase] at facts
  obtain ⟨unsealed, submission, invocation, nil | last | staging⟩ := facts
  · cases nil
  · obtain ⟨rfl, rfl⟩ := List.cons.inj last
    obtain ⟨holds, kept⟩ := holds_store submission.union (inv.holds unsealed)
      (.inl rfl)
    exact ⟨ledger, inv.writes alive held unsealed holds kept
      ⟨holds.unsealed, submission, invocation, .inl rfl⟩ (by rw [phase]; rfl)⟩
  · obtain ⟨files₀, done, later, holds₀, inhabited, bound, plan, eq, files⟩ := staging
    cases later with
    | nil =>
        obtain ⟨rfl, rfl⟩ := List.cons.inj eq
        rw [List.append_nil] at plan
        subst plan
        have holds := commit_holds hex valid holds₀ inhabited bound
        rw [← files] at holds
        refine ⟨ledger ++ submission.ledger, ?_⟩
        constructor
        · exact holds.manifest
        · exact fun _ => holds
        · exact .inr ⟨inv.holder q alive held, unsealed⟩
        · exact fun _ _ _ held => held
        · exact fun _ => inv.holder q alive held
        · exact ⟨holds.unsealed, submission, invocation, .inr (.inl rfl)⟩
        · exact .inl ⟨by rw [phase]; rfl, holds.unsealed.trans unsealed.symm⟩
        · exact fun path _ below => @commit_below _ setting.digest _ _ _ path below
        · exact .inr ⟨submission, invocation, rfl, rfl⟩
    | cons w' later =>
        obtain ⟨rfl, rfl⟩ := List.cons.inj eq
        have after : After ledger.length ledger.total w := by
          apply @stagingWrites_after _ setting.ds ledger submission
          rw [← plan]
          exact List.mem_append_right _ List.mem_cons_self
        have single : ∀ w' ∈ [w], After ledger.length ledger.total w' := by
          simpa using after
        have kept : ∀ path, Below ledger.length ledger.total path →
            w.apply setting.digest s.files path = s.files path :=
          fun path below => apply_below after below
        have holds : Holds setting.digest setting.ds ledger (w.apply setting.digest s.files) :=
          (inv.holds unsealed).congr kept (perform_manifest single)
            ((inv.holds unsealed).unlinked.apply w)
        refine ⟨ledger, inv.writes alive held unsealed holds kept ⟨holds.unsealed, submission,
          invocation, .inr (.inr ⟨files₀, done ++ [w], later, holds₀, inhabited, bound, ?_, rfl, ?_⟩)⟩
          (by rw [phase]; rfl)⟩
        · rw [List.append_assoc]
          exact plan
        · rw [perform_append, ← files]
          rfl

theorem operate_moved (inv : Inv setting seen ledger s) (apart : Apart setting.digest seen)
    (alive : s.alive q = true) :
    ∃ ledger', Moved setting seen ledger s q (operate setting s q (s.phase q)) ledger' := by
  have facts := inv.phases q alive
  have stays : ∀ next : Phase, (next.locked = true → (s.phase q).locked = true) →
      Local setting seen ledger s.files q next → next.sealing = (s.phase q).sealing →
      ∃ ledger', Moved setting seen ledger s q (stay s next) ledger' :=
    fun next locked facts sealing => ⟨ledger, inv.stays alive locked facts sealing⟩
  have content : manifestDigest setting s = setting.digest (setting.text ledger) := by
    unfold manifestDigest contentOf
    rw [inv.manifest]
  cases phase : s.phase q with
  | appendVerify =>
      rw [operate]
      split <;> exact stays _ nofun trivial (by rw [phase]; rfl)
  | appendAcquire => exact ⟨ledger, inv.acquires trivial rfl (by rw [phase]; rfl)⟩
  | appendCheck =>
      have released : ∀ success, ∃ ledger',
          Moved setting seen ledger s q (stay s (.appendRelease success)) ledger' :=
        fun success => stays _ (fun _ => by rw [phase]; rfl) trivial (by rw [phase]; rfl)
      rw [operate]
      split
      · exact released false
      · rename_i unsealed
        split
        · rename_i submission invocation
          split
          · rename_i writes planned
            have none : s.files .seal = none := by
              simpa [State.isSealed] using unsealed
            exact stays _ (fun _ => by rw [phase]; rfl) ⟨none, submission, invocation,
              Appending.begins hex valid (inv.holds none) planned⟩ (by rw [phase]; rfl)
          · exact released false
        · exact released false
  | appendWrite rest =>
      cases rest with
      | nil => exact stays _ (fun _ => by rw [phase]; rfl) trivial (by rw [phase]; rfl)
      | cons w rest => exact append_moved hex valid inv alive phase
  | appendRelease success =>
      exact ⟨ledger, inv.releases alive (by rw [phase]; rfl) rfl trivial (by rw [phase]; rfl)⟩
  | verify =>
      rw [operate]
      split
      · split <;> exact stays _ nofun trivial (by rw [phase]; rfl)
      · exact stays _ nofun trivial (by rw [phase]; rfl)
  | refreshAcquire => exact ⟨ledger, inv.acquires trivial rfl (by rw [phase]; rfl)⟩
  | refresh =>
      rw [operate]
      split
      · exact stays _ (fun _ => by rw [phase]; rfl) trivial (by rw [phase]; rfl)
      · rename_i unsealed
        have none : s.files .seal = none := by simpa [State.isSealed] using unsealed
        obtain ⟨holds, kept⟩ := holds_store _ (inv.holds none) (.inl rfl)
        exact ⟨ledger, inv.writes alive (by rw [phase]; rfl) none holds kept trivial
          (by rw [phase]; rfl)⟩
  | refreshRelease success =>
      rw [operate]
      cases success <;>
        exact ⟨ledger, inv.releases alive (by rw [phase]; rfl) rfl trivial (by rw [phase]; rfl)⟩
  | refuseSealed =>
      rw [operate]
      split
      · split <;> exact stays _ nofun trivial (by rw [phase]; rfl)
      · exact stays _ nofun trivial (by rw [phase]; rfl)
  | enterLoop =>
      rw [operate]
      split <;> exact stays _ nofun trivial (by rw [phase]; rfl)
  | firstAcquire => exact ⟨ledger, inv.acquires trivial rfl (by rw [phase]; rfl)⟩
  | readDigest =>
      rw [operate]
      split
      · exact stays _ (fun _ => by rw [phase]; rfl) trivial (by rw [phase]; rfl)
      · rename_i unsealed
        have none : s.files .seal = none := by simpa [State.isSealed] using unsealed
        exact stays _ (fun _ => by rw [phase]; rfl) ⟨none, Follows.now inv⟩ (by rw [phase]; rfl)
  | refreshUnion digest =>
      rw [phase] at facts
      obtain ⟨holds, kept⟩ := holds_store _ (inv.holds facts.1) (.inl rfl)
      exact ⟨ledger, inv.writes alive (by rw [phase]; rfl) facts.1 holds kept
        (Follows.mono facts.2 List.prefix_rfl (List.subset_cons_self _ _)) (by rw [phase]; rfl)⟩
  | firstRelease digest =>
      rw [phase] at facts
      exact ⟨ledger, inv.releases alive (by rw [phase]; rfl) rfl facts (by rw [phase]; rfl)⟩
  | preflight digest read =>
      rw [phase] at facts
      exact stays _ nofun facts (by rw [phase]; rfl)
  | secondAcquire digest read =>
      rw [phase] at facts
      exact ⟨ledger, inv.acquires facts rfl (by rw [phase]; rfl)⟩
  | compare digest read =>
      rw [phase] at facts
      rw [operate]
      split
      · exact stays _ (fun _ => by rw [phase]; rfl) trivial (by rw [phase]; rfl)
      · rename_i unsealed
        have none : s.files .seal = none := by simpa [State.isSealed] using unsealed
        split
        · exact stays _ (fun _ => by rw [phase]; rfl) trivial (by rw [phase]; rfl)
        · rename_i same
          have same' := not_not.mp same
          rw [content] at same'
          exact stays _ (fun _ => by rw [phase]; rfl)
            ⟨none, Follows.current hex valid facts apart inv.listed same'⟩ (by rw [phase]; rfl)
  | writeControl digest read =>
      rw [phase] at facts
      obtain ⟨holds, kept⟩ := holds_store _ (inv.holds facts.1) (.inl rfl)
      exact ⟨ledger, inv.writes alive (by rw [phase]; rfl) facts.1 holds kept
        ⟨holds.unsealed, facts.2⟩ (by rw [phase]; rfl)⟩
  | sealEnvironment digest read =>
      rw [phase] at facts
      obtain ⟨holds, kept⟩ := holds_store _ (inv.holds facts.1) (.inr rfl)
      exact ⟨ledger, inv.writes alive (by rw [phase]; rfl) facts.1 holds kept
        ⟨holds.unsealed, facts.2⟩ (by rw [phase]; rfl)⟩
  | sealManifest digest read =>
      rw [phase] at facts
      have held : s.lock = some q := inv.holder q alive (by rw [phase]; rfl)
      refine ⟨ledger, ?_⟩
      constructor
      · exact inv.manifest
      · nofun
      · exact .inr ⟨held, facts.1⟩
      · exact fun _ _ _ held => held
      · exact fun _ => held
      · trivial
      · exact .inr ⟨facts.1, digest, read, rfl, rfl, facts.2⟩
      · exact fun path ne _ => store_other ne
      · exact .inl rfl
  | sealedRelease digest read =>
      exact ⟨ledger, inv.releases alive (by rw [phase]; rfl) rfl trivial (by rw [phase]; rfl)⟩
  | retryRelease =>
      exact ⟨ledger, inv.releases alive (by rw [phase]; rfl) rfl trivial (by rw [phase]; rfl)⟩
  | refusedRelease =>
      exact ⟨ledger, inv.releases alive (by rw [phase]; rfl) rfl trivial (by rw [phase]; rfl)⟩
  | «sealed» digest read => exact stays _ nofun trivial (by rw [phase])
  | finished success => exact stays _ nofun trivial (by rw [phase])

theorem step_moved {action : Action} (inv : Inv setting seen ledger s)
    (apart : Apart setting.digest seen) (moved : step setting s action = some s') :
    (∃ q after ledger', (action = .advance q ∨ action = .inspect q) ∧ s.alive q = true ∧
      s' = s.become q after ∧ Moved setting seen ledger s q after ledger') ∨
    ∃ q, action = .die q ∧ s' = { s with alive := Function.update s.alive q false } := by
  rcases step_cases moved with ⟨q, rfl, alive, rfl⟩ | ⟨q, digest, read, rfl, alive, phase, rfl⟩ |
    ⟨q, rfl, rfl⟩
  · obtain ⟨ledger', after⟩ := operate_moved hex valid inv apart alive
    exact .inl ⟨q, _, ledger', .inl rfl, alive, rfl, after⟩
  · have facts := inv.phases q alive
    rw [phase] at facts
    obtain ⟨base, le, listed, eq, all⟩ := facts
    have next : Follows setting seen ledger digest (s.manifest :: read) := by
      refine ⟨base, le, listed, eq, fun text mem => ?_⟩
      rcases List.mem_cons.mp mem with rfl | mem
      · refine ⟨ledger, ?_, le, List.prefix_rfl⟩
        unfold State.manifest contentOf
        rw [inv.manifest]
      · exact all text mem
    exact .inl ⟨q, _, ledger, .inr rfl, alive, rfl,
      inv.stays alive nofun next (by rw [phase]; rfl)⟩
  · exact .inr ⟨q, rfl, rfl⟩

end

theorem Inv.manifest_eq (inv : Inv setting seen ledger s) : s.manifest = setting.text ledger := by
  unfold State.manifest contentOf
  rw [inv.manifest]

theorem Inv.more (inv : Inv setting seen ledger s) (more : seen ⊆ seen') :
    Inv setting seen' ledger s where
  manifest := inv.manifest
  listed := more inv.listed
  holds := inv.holds
  holder := inv.holder
  phases p alive := (inv.phases p alive).more more
  sealing := inv.sealing
  once := inv.once

theorem Start.inv (started : Start setting s) :
    ∃ ledger, Inv setting (manifests [] s) ledger s := by
  obtain ⟨ledger, manifest, holds⟩ := started.batch
  have phases : ∀ p, s.phase p = .appendVerify ∨ s.phase p = .verify := by
    intro p
    rw [started.phases]
    cases setting.invocation p <;> simp [Invocation.begin]
  refine ⟨ledger, ?_⟩
  constructor
  · exact manifest
  · unfold manifests State.manifest contentOf
    rw [manifest]
    exact List.mem_cons_self
  · exact holds
  · intro p _ locked
    rcases phases p with eq | eq <;> rw [eq] at locked <;> cases locked
  · intro p _
    rcases phases p with eq | eq <;> rw [eq] <;> trivial
  · intro p digest read found
    rcases phases p with eq | eq <;> rw [eq] at found <;> cases found
  · intro p q found
    rcases phases p with eq | eq <;> rw [eq] at found <;> cases found

/-! ## Every run -/

variable {trail : List (State × Action × State)}

omit [Ctype] in
theorem Apart.mono {texts texts' : List Text} (apart : Apart setting.digest texts)
    (less : texts' ⊆ texts) : Apart setting.digest texts' :=
  fun a mem b mem' => apart a (less mem) b (less mem')

theorem Run.inv (hex : ∀ text, isHex64 (setting.digest text) = true)
    (valid : isDatestamp setting.ds = true) (started : Start setting start)
    (run : Run setting start trail s) (apart : Apart setting.digest (manifests trail s)) :
    ∃ ledger, Inv setting (manifests trail s) ledger s := by
  induction run with
  | refl => exact started.inv
  | step before moved ih =>
      rename_i trail s s' action
      have less : manifests trail s ⊆ manifests ((s, action, s') :: trail) s' :=
        List.subset_cons_self _ _
      have apart' := apart.mono less
      obtain ⟨ledger, inv⟩ := ih apart'
      rcases step_moved hex valid inv apart' moved with
        ⟨q, after, ledger', -, alive, rfl, moved'⟩ | ⟨q, -, rfl⟩
      · have next := inv.become alive moved'
        rw [← next.manifest_eq] at next
        exact ⟨ledger', next⟩
      · exact ⟨ledger, (inv.die q).more less⟩

theorem Run.steps (run : Run setting start trail s) :
    ∀ b action c, (b, action, c) ∈ trail → ∃ earlier, Run setting start earlier b ∧
      manifests earlier b ⊆ manifests trail s ∧ Sealing.step setting b action = some c := by
  induction run with
  | refl =>
      intro b action c mem
      cases mem
  | step before moved ih =>
      intro b action c mem
      rcases List.mem_cons.mp mem with eq | mem
      · cases eq
        exact ⟨_, before, List.subset_cons_self _ _, moved⟩
      · obtain ⟨earlier, run, less, moved'⟩ := ih b action c mem
        exact ⟨earlier, run, fun _ mem => List.mem_cons_of_mem _ (less mem), moved'⟩

theorem committed_step {action : Action} (moved : step setting s action = some s')
    (committed : (s.phase p).committed = true) : (s'.phase p).committed = true := by
  have other : ∀ q after, (p = q → after.2.2.committed = true) →
      ((s.become q after).phase p).committed = true := by
    intro q after mine
    by_cases eq : p = q
    · subst eq
      exact (congrArg Phase.committed (Function.update_self ..)).trans (mine rfl)
    · exact (congrArg Phase.committed (Function.update_of_ne eq ..)).trans committed
  rcases step_cases moved with ⟨q, -, -, rfl⟩ | ⟨q, digest, read, -, -, phase, rfl⟩ | ⟨q, -, rfl⟩
  · apply other
    rintro rfl
    cases phase : s.phase p with
    | appendWrite rest =>
        rw [phase] at committed
        cases rest with
        | nil => rfl
        | cons w rest =>
            simp only [Phase.committed, List.contains_cons, Bool.not_or, Bool.and_eq_true]
              at committed
            exact committed.2
    | appendRelease success =>
        rw [phase] at committed
        exact committed
    | finished success =>
        rw [phase] at committed
        exact committed
    | _ =>
        rw [phase] at committed
        cases committed
  · apply other
    rintro rfl
    rw [phase] at committed
    cases committed
  · exact committed

theorem Run.committed (run : Run setting start trail s) :
    ∀ b action c, (b, action, c) ∈ trail → (c.phase p).committed = true →
      (s.phase p).committed = true := by
  induction run with
  | refl =>
      intro b action c mem
      cases mem
  | step before moved ih =>
      intro b action c mem committed
      rcases List.mem_cons.mp mem with eq | mem
      · cases eq
        exact committed
      · exact committed_step moved (ih b action c mem committed)

/-- At most one start seals, with the digest of the manifest that it checked, and the manifest
stays as it is from then on. An append leaves the manifest as it is up to its rename, commits all
of its groups with it, and changes no earlier group. -/
theorem seals_preflighted (hex : ∀ text, isHex64 (setting.digest text) = true)
    (valid : isDatestamp setting.ds = true) (started : Start setting start)
    (run : Run setting start trail s) (apart : Apart setting.digest (manifests trail s)) :
    (∀ p q, (s.phase p).sealing.isSome = true → (s.phase q).sealing.isSome = true → p = q) ∧
    (∀ p digest read, (s.phase p).sealing = some (digest, read) →
      s.files .seal = some (.regular (unlines [digest])) ∧
        digest = setting.digest s.manifest ∧ ∀ text ∈ read, text = s.manifest) ∧
    (∀ b action c, (b, action, c) ∈ trail → b.isSealed = true →
      c.files .manifest = b.files .manifest) ∧
    ∀ p submission agrees, setting.invocation p = .append submission agrees →
      ∀ b c, (b, .advance p, c) ∈ trail → ∃ ledger,
        b.files .manifest = some (.regular (setting.text ledger)) ∧
        (∀ path, path ≠ .seal → Below ledger.length ledger.total path →
          c.files path = b.files path) ∧
        (c.files .manifest = b.files .manifest ∨ (s.phase p).committed = true ∧
          c.files .manifest = some (.regular (setting.text (ledger ++ submission.ledger)))) := by
  have before : ∀ b action c, (b, action, c) ∈ trail → ∃ seen ledger,
      Inv setting seen ledger b ∧ ((∃ q after ledger', (action = .advance q ∨ action = .inspect q) ∧
        c = b.become q after ∧ Moved setting seen ledger b q after ledger') ∨
        ∃ q, action = .die q ∧ c = { b with alive := Function.update b.alive q false }) := by
    intro b action c mem
    obtain ⟨earlier, run', less, moved⟩ := run.steps b action c mem
    obtain ⟨ledger, inv⟩ := run'.inv hex valid started (apart.mono less)
    refine ⟨_, ledger, inv, ?_⟩
    rcases step_moved hex valid inv (apart.mono less) moved with
      ⟨q, after, ledger', kind, -, eq, moved'⟩ | died
    · exact .inl ⟨q, after, ledger', kind, eq, moved'⟩
    · exact .inr died
  obtain ⟨ledger, inv⟩ := run.inv hex valid started apart
  refine ⟨inv.once, fun p digest read found => ?_, fun b action c mem sealed => ?_,
    fun p submission agrees invocation b c mem => ?_⟩
  · obtain ⟨content, eq, all⟩ := inv.sealing p digest read found
    rw [inv.manifest_eq]
    exact ⟨content, eq, all⟩
  · obtain ⟨seen, ledger, inv', ⟨q, after, ledger', -, rfl, moved⟩ | ⟨q, -, rfl⟩⟩ :=
      before b action c mem
    · rcases moved.writes with ⟨files, -⟩ | ⟨-, unsealed⟩
      · exact congrArg (· .manifest) files
      · rw [State.isSealed, unsealed] at sealed
        cases sealed
    · rfl
  · obtain ⟨seen, ledger, inv', ⟨q, after, ledger', kind, rfl, moved⟩ | ⟨q, eq, -⟩⟩ :=
      before b _ c mem
    · obtain rfl : p = q := by
        rcases kind with eq | eq <;> cases eq
        rfl
      refine ⟨ledger, inv'.manifest, moved.kept, ?_⟩
      rcases moved.commits with rfl | ⟨submission', invocation', rfl, committed⟩
      · exact .inl (moved.manifest.trans inv'.manifest.symm)
      · rw [invocation] at invocation'
        obtain ⟨rfl, -⟩ := Invocation.append.inj invocation'
        refine .inr ⟨run.committed b _ _ mem ?_, moved.manifest⟩
        exact (congrArg Phase.committed (Function.update_self ..)).trans committed
    · cases eq

end

/-! ## An append to a batch with one execution -/

local instance sealingLocale : Ctype := posix

def oneAppend : Setting where
  digest := sampleDigest
  ds := sampleStamp
  invocation p := if p = 1 then .append oneSubmission true else .start
  union _ := []
  control := []

def oneBatch : State where
  files := sampleBatch 1
  lock := none
  phase p := (oneAppend.invocation p).begin
  alive _ := true

theorem oneBatch_start : Start oneAppend oneBatch where
  batch := by
    have valid : isDatestamp sampleStamp = true := by decide
    obtain ⟨ledger, holds⟩ := history_holds sampleDigest_hex valid
      (prepared_holds sampleDigest_hex ⟨[], [], none, none, none⟩) [(oneSubmission, 10)]
    exact ⟨ledger, holds.manifest, fun _ => holds⟩
  phases _ := rfl

def record (setting : Setting) (run : List (State × Action × State) × State) (action : Action) :
    Option (List (State × Action × State) × State) :=
  (step setting run.2 action).map fun s => ((run.2, action, s) :: run.1, s)

theorem Run.of_actions {actions : List Action} {after : List (State × Action × State) × State}
    (run : Run setting start trail s) (moved : actions.foldlM (record setting) (trail, s) = some after) :
    Run setting start after.1 after.2 := by
  induction actions generalizing trail s with
  | nil =>
      cases moved
      exact run
  | cons action rest ih =>
      rw [List.foldlM_cons] at moved
      obtain ⟨next, first, later⟩ := Option.bind_eq_some_iff.mp moved
      obtain ⟨s', stepped, rfl⟩ := Option.map_eq_some_iff.mp first
      exact ih (.step run stepped) later

/-- An append commits while the first preflight of a start is going on; a second start comes when
the batch is sealed. -/
def appendAndStarts : List Action :=
  List.replicate 10 (.advance 2) ++ .inspect 2 :: List.replicate 16 (.advance 1) ++
    List.replicate 8 (.advance 2) ++ .inspect 2 :: List.replicate 7 (.advance 2) ++
    List.replicate 2 (.advance 3)

theorem seals_preflighted_sample : ∃ trail s, Run oneAppend oneBatch trail s ∧
    trail.length = appendAndStarts.length ∧ s.phase 1 = .finished true ∧
    s.phase 3 = .finished false ∧ s.manifest ≠ oneBatch.manifest ∧
    s.phase 2 = .sealed (sampleDigest s.manifest) [s.manifest] ∧
    s.files .seal = some (.regular (unlines [sampleDigest s.manifest])) ∧
    (∀ p, (s.phase p).sealing.isSome = true → p = 2) ∧
    (∀ b action c, (b, action, c) ∈ trail → b.isSealed = true →
      c.files .manifest = b.files .manifest) ∧
    ∀ b c, (b, .advance 1, c) ∈ trail → ∃ ledger,
      b.files .manifest = some (.regular (oneAppend.text ledger)) ∧
      (∀ path, path ≠ .seal → Below ledger.length ledger.total path →
        c.files path = b.files path) ∧
      (c.files .manifest = b.files .manifest ∨
        c.files .manifest =
          some (.regular (oneAppend.text (ledger ++ oneSubmission.ledger)))) := by
  have ran : (appendAndStarts.foldlM (record oneAppend) ([], oneBatch)).map (fun run =>
      (run.1.length, run.2.phase 1, run.2.phase 3,
        decide (run.2.phase 2 = .sealed (sampleDigest run.2.manifest) [run.2.manifest]),
        decide (sampleDigest run.2.manifest = sampleDigest oneBatch.manifest),
        (manifests run.1 run.2).all fun text =>
          text = oneBatch.manifest || text = run.2.manifest)) =
      some (appendAndStarts.length, .finished true, .finished false, true, false, true) := by
    decide +kernel
  obtain ⟨⟨trail, s⟩, moved, facts⟩ := Option.map_eq_some_iff.mp ran
  simp only [Prod.mk.injEq, decide_eq_true_eq, decide_eq_false_iff_not, List.all_eq_true,
    Bool.or_eq_true] at facts
  obtain ⟨steps, appended, refused, sealed, other, revisions⟩ := facts
  have run : Run oneAppend oneBatch trail s := Run.of_actions .refl moved
  have apart : Apart oneAppend.digest (manifests trail s) := by
    intro a memA b memB same
    change sampleDigest a = sampleDigest b at same
    rcases revisions a memA with rfl | rfl <;> rcases revisions b memB with rfl | rfl
    · rfl
    · exact absurd same.symm other
    · exact absurd same other
    · rfl
  have valid : isDatestamp oneAppend.ds = true := by decide
  obtain ⟨once, seals, kept, appends⟩ :=
    seals_preflighted sampleDigest_hex valid oneBatch_start run apart
  have sealing : (s.phase 2).sealing = some (sampleDigest s.manifest, [s.manifest]) := by
    rw [sealed]
    rfl
  obtain ⟨stored, -⟩ := seals 2 (sampleDigest s.manifest) [s.manifest] sealing
  have changed : s.manifest ≠ oneBatch.manifest := fun same => other (congrArg sampleDigest same)
  have sealer : (s.phase 2).sealing.isSome = true := by rw [sealing, Option.isSome_some]
  refine ⟨trail, s, run, steps, appended, refused, changed, sealed, stored,
    fun p held => once p 2 held sealer, kept, ?_⟩
  intro b c mem
  obtain ⟨ledger, manifest, below, committed⟩ := appends 1 oneSubmission true rfl b c mem
  exact ⟨ledger, manifest, below, committed.imp_right And.right⟩

/-- The append dies right after its rename. -/
theorem crashed_append_commits : ∃ trail s, Start oneAppend oneBatch ∧
    Run oneAppend oneBatch trail s ∧ oneAppend.invocation 1 = .append oneSubmission true ∧
    s.alive 1 = false ∧ s.manifest ≠ oneBatch.manifest := by
  let actions : List Action := List.replicate 13 (.advance 1) ++ [.die 1]
  have changed : ((actions.foldlM (record oneAppend) ([], oneBatch)).map fun run =>
      !run.2.alive 1 && decide (run.2.manifest ≠ oneBatch.manifest)) = some true := by
    decide +kernel
  obtain ⟨⟨trail, s⟩, moved, facts⟩ := Option.map_eq_some_iff.mp changed
  rw [Bool.and_eq_true, Bool.not_eq_true', decide_eq_true_eq] at facts
  exact ⟨trail, s, oneBatch_start, Run.of_actions .refl moved, rfl, facts.1, facts.2⟩

end StorageScaleTest.Batch.Sealing
