import StorageScaleTest.Dispatch.Lock

/-!
# Mutual exclusion of the dispatch lock

A process that takes over a stale lock knows that no holder of it is left, and this stays true
until another process makes the directory anew.
-/

namespace StorageScaleTest.Dispatch

open Shell

variable {setting : Setting} {s s' : State} {p q : Process} {action : Action}

/-! ## The law and its condition -/

/-- At most one live process believes that it owns the lock. -/
def Exclusive (s : State) : Prop :=
  ∀ p q, s.alive p = true → s.alive q = true → (s.phase p).owns = true →
    (s.phase q).owns = true → p = q

/-- The next operation of the process removes a file or the directory of a lock that another live
process has made and not given back. -/
def Trespasses (s : State) (p : Process) : Prop :=
  s.alive p = true ∧ ∃ lock q, s.lock = some lock ∧ lock.creator = some q ∧ q ≠ p ∧
    s.stage q = .holding ∧
    match s.phase p with
    | .cleanUp file | .unlink _ file => lock.holds file = true
    | .cleanUpDirectory | .removeDirectory _ => lock.empty = true
    | _ => False

/-- No directory is made while another live process is between its token check and its `rmdir`. -/
def Calm (s : State) : Action → Prop
  | .advance p => (∃ left, s.phase p = .attempt left) → s.lock = none →
      ∀ q, q ≠ p → s.alive q = true → (s.phase q).removes = false
  | _ => True

structure Acquired (setting : Setting) (p : Process) (lock : LockDirectory) : Prop where
  creator : lock.creator = some p
  token : lock.token = some (setting.newToken p)
  mode : lock.mode = some (setting.mode p)
  pid : lock.pid = some (printed p)

/-- Every live process calls the acquisition, holds the lock, or has nothing to do with it; the
lock is absent or anything that processes of the past have left. -/
structure Start (setting : Setting) (s : State) : Prop where
  phases : ∀ p, s.alive p = true → s.phase p = .attempt 1 ∨ (∃ success, s.phase p = .returned success) ∨
    s.phase p = .owner ∧ ∃ lock, s.lock = some lock ∧ Acquired setting p lock
  drawn : ∀ lock p, s.lock = some lock → lock.token = some (setting.newToken p) →
    s.stage p ≠ .before

inductive CalmRun (setting : Setting) (start : State) : State → Prop
  | refl : CalmRun setting start start
  | step {before after : State} {action : Action} (run : CalmRun setting start before)
      (calm : Calm before action) (moved : step setting before action = some after) :
      CalmRun setting start after

/-! ## Tokens -/

theorem printed_colon (n : Nat) : ':' ∉ printed n := by
  intro mem
  exact absurd (Nat.isDigit_of_mem_toDigits (by decide) (by decide) mem) (by decide)

theorem printed_injective {m n : Nat} (same : printed m = printed n) : m = n := by
  rw [← Nat.ofDigitChars_ten_toDigits (n := m), ← Nat.ofDigitChars_ten_toDigits (n := n)]
  exact congrArg (Nat.ofDigitChars 10 · 0) same

theorem newToken_injective (same : setting.newToken p = setting.newToken q) : p = q := by
  unfold Setting.newToken at same
  have tail := (List.cons.inj (List.append_cancel_left same)).2
  exact printed_injective (append_separator_inj (printed_colon p) (printed_colon q) tail).1

theorem numeral_printed (n : Nat) : numeral (printed n) = some n := by
  have digits : isDigits (printed n) = true := by
    unfold isDigits
    rw [Bool.and_eq_true, List.all_eq_true]
    exact ⟨decide_eq_true (by simp [printed]), fun c mem =>
      Nat.isDigit_of_mem_toDigits (by decide) (by decide) mem⟩
  unfold numeral
  rw [if_pos digits]
  exact congrArg some Nat.ofDigitChars_ten_toDigits

/-! ## What is on disk and what the processes know -/

structure Mine (setting : Setting) (p : Process) (lock : LockDirectory) : Prop where
  creator : lock.creator = some p
  token : ∀ token, lock.token = some token → token = setting.newToken p
  mode : ∀ mode, lock.mode = some mode → mode ≠ .slurm
  pid : ∀ pid, lock.pid = some pid → pid = printed p

def Seen (setting : Setting) (s : State) (token : Text) : Prop :=
  ∀ p, setting.newToken p = token → s.stage p ≠ .before

def Gone (setting : Setting) (s : State) (token : Text) : Prop :=
  ∀ p, setting.newToken p = token → s.stage p = .after

def OfHolder (setting : Setting) (s : State) (token : Text) (P : Process → Prop) : Prop :=
  ∀ p, setting.newToken p = token → s.stage p = .holding → P p

def Knows (setting : Setting) (s : State) : Phase → Prop
  | .readMode _ existing => Seen setting s existing
  | .readHostname _ existing mode | .readPid _ existing mode _ =>
    Seen setting s existing ∧ OfHolder setting s existing fun _ => mode ≠ .slurm
  | .probe _ existing mode _ pid =>
    Seen setting s existing ∧ OfHolder setting s existing (fun _ => mode ≠ .slurm) ∧
      OfHolder setting s existing fun p => pid = printed p
  | .readJob _ existing | .accounting _ existing _ => Gone setting s existing
  | .enter (.reclaim _) expected | .compare (.reclaim _) expected => Gone setting s expected
  | .unlink (.reclaim _) _ | .removeDirectory (.reclaim _) => ∀ p, s.stage p ≠ .holding
  | _ => True

structure Guarded (setting : Setting) (s : State) : Prop where
  held : ∀ p, s.stage p = .holding → ∃ lock, s.lock = some lock ∧ Mine setting p lock
  seen : ∀ lock token, s.lock = some lock → lock.token = some token → Seen setting s token
  knows : ∀ p, s.alive p = true → Knows setting s (s.phase p)

theorem stage_alive (alive : s.alive p = true) : s.stage p = (s.phase p).stage := by
  rw [State.stage, if_pos alive]

theorem alive_of_stage (stage : s.stage p ≠ .after) : s.alive p = true := by
  by_contra dead
  exact stage (by rw [State.stage, if_neg dead])

theorem Guarded.holder_unique (inv : Guarded setting s) (left : s.stage p = .holding)
    (right : s.stage q = .holding) : p = q := by
  obtain ⟨lock, eq, mine⟩ := inv.held p left
  obtain ⟨lock', eq', mine'⟩ := inv.held q right
  obtain rfl : lock = lock' := Option.some.inj (eq.symm.trans eq')
  exact Option.some.inj (mine.creator.symm.trans mine'.creator)

theorem stage_of_owns {phase : Phase} (owns : phase.owns = true) : phase.stage = .holding := by
  unfold Phase.owns at owns
  split at owns
  all_goals first | rfl | cases owns

theorem Guarded.exclusive (inv : Guarded setting s) : Exclusive s := by
  intro p q alive alive' owns owns'
  apply inv.holder_unique
  · rw [stage_alive alive]
    exact stage_of_owns owns
  · rw [stage_alive alive']
    exact stage_of_owns owns'

theorem Guarded.no_trespass (inv : Guarded setting s) : ¬Trespasses s p := by
  rintro ⟨alive, lock, q, _, _, other, holding, removal⟩
  have knows := inv.knows p alive
  have own : (s.phase p).stage ≠ .holding := fun stage =>
    other (inv.holder_unique holding ((stage_alive alive).trans stage))
  split at removal
  · rename_i eq
    exact own (by rw [eq]; rfl)
  · rename_i purpose file eq
    cases purpose with
    | own => exact own (by rw [eq]; rfl)
    | reclaim left =>
        rw [eq] at knows
        exact knows q holding
  · rename_i eq
    exact own (by rw [eq]; rfl)
  · rename_i purpose eq
    cases purpose with
    | own => exact own (by rw [eq]; rfl)
    | reclaim left =>
        rw [eq] at knows
        exact knows q holding
  · exact removal

/-! ## One operation -/

theorem afterRelease_stage (purpose : Purpose) : (afterRelease purpose).stage ≠ .holding := by
  cases purpose with
  | own => simp [afterRelease, Phase.stage]
  | reclaim left => cases left <;> simp [afterRelease, Phase.stage]

theorem judgeProcess_cases (alive : Process → Bool) (left : Nat) (existing : Text)
    (mode : LockMode) (host pid : Text) :
    judgeProcess setting alive left existing mode host pid = .returned false ∨
      judgeProcess setting alive left existing mode host pid = .enter (.reclaim left) existing ∧
        ∃ owner, numeral pid = some owner ∧ alive owner = false := by
  unfold judgeProcess
  cases value : numeral pid with
  | none => exact .inl rfl
  | some owner =>
      simp only
      split
      · exact .inl rfl
      · rename_i stale
        simp only [Bool.or_eq_true, not_or, Bool.not_eq_true] at stale
        exact .inr ⟨rfl, owner, rfl, stale.1.2⟩

theorem operate_stage (phase : Phase) :
    (phase.stage = .holding → (operate setting s p phase).2.stage ≠ .before) ∧
      (phase.stage = .after → (operate setting s p phase).2.stage = .after) := by
  unfold operate write
  cases phase with
  | enter purpose expected =>
      cases purpose <;> cases s.lock <;> simp [Phase.stage, afterRelease]
  | compare purpose expected =>
      dsimp only
      cases purpose <;> split <;> simp [Phase.stage]
  | unlink purpose file => cases purpose <;> cases file <;> simp [Phase.stage, LockFile.next]
  | removeDirectory purpose =>
      dsimp only
      cases purpose <;> cases s.lock <;> dsimp only <;> (try split) <;>
        simp [Phase.stage, afterRelease]
  | cleanUp file => cases file <;> simp [Phase.stage, LockFile.next]
  | writeToken => cases s.lock <;> simp [Phase.stage]
  | writeHostname => cases s.lock <;> simp [Phase.stage]
  | writePid => cases s.lock <;> simp [Phase.stage]
  | writeMode => cases s.lock <;> simp [Phase.stage]
  | _ => simp [Phase.stage]

/-- Only a `mkdir` makes a holder. -/
theorem operate_acquires {phase : Phase} (stage : phase.stage = .before)
    (stage' : (operate setting s p phase).2.stage = .holding) :
    (∃ left, phase = .attempt left) ∧ s.lock = none := by
  cases phase with
  | attempt left =>
      refine ⟨⟨left, rfl⟩, ?_⟩
      cases lock : s.lock with
      | none => rfl
      | some lock' => simp [operate, lock, Phase.stage] at stage'
  | readToken left => dsimp only [operate] at stage'; split at stage' <;> cases stage'
  | readMode left existing => dsimp only [operate] at stage'; split at stage' <;> cases stage'
  | readHostname left existing mode =>
      dsimp only [operate] at stage'; split at stage' <;> cases stage'
  | readPid left existing mode host =>
      dsimp only [operate] at stage'; split at stage' <;> cases stage'
  | probe left existing mode host pid =>
      dsimp only [operate] at stage'
      split at stage'
      · cases stage'
      · cases stage'
      · rcases judgeProcess_cases s.alive left existing mode host pid with
          eq | ⟨eq, _⟩ <;> rw [eq] at stage' <;> cases stage'
  | readJob left existing => dsimp only [operate] at stage'; split at stage' <;> cases stage'
  | accounting left existing job =>
      dsimp only [operate] at stage'; split at stage' <;> cases stage'
  | enter purpose expected =>
      cases purpose with
      | own => cases stage
      | reclaim left =>
          dsimp only [operate] at stage'
          split at stage'
          · exact absurd stage' (afterRelease_stage _)
          · cases stage'
  | compare purpose expected =>
      cases purpose with
      | own => cases stage
      | reclaim left => dsimp only [operate] at stage'; split at stage' <;> cases stage'
  | unlink purpose file =>
      cases purpose with
      | own => cases stage
      | reclaim left => cases file <;> cases stage'
  | removeDirectory purpose =>
      cases purpose with
      | own => cases stage
      | reclaim left =>
          dsimp only [operate] at stage'
          split at stage'
          · cases stage'
          · split at stage'
            · exact absurd stage' (afterRelease_stage _)
            · cases stage'
  | _ => cases stage

/-! ## What a process learns -/

theorem Gone.of_seen {token : Text} (seen : Seen setting s token)
    (unheld : ∀ p, setting.newToken p = token → s.stage p ≠ .holding) : Gone setting s token := by
  intro p same
  have drawn := seen p same
  have unheld := unheld p same
  cases stage : s.stage p with
  | before => exact absurd stage drawn
  | holding => exact absurd stage unheld
  | after => rfl

theorem knows_afterRelease (purpose : Purpose) : Knows setting s (afterRelease purpose) := by
  cases purpose with
  | own => trivial
  | reclaim left => cases left <;> trivial

theorem judged_gone {existing host pid : Text} {mode : LockMode} {left owner : Nat}
    (knows : Knows setting s (.probe left existing mode host pid))
    (value : numeral pid = some owner) (dead : s.alive owner = false) :
    Gone setting s existing := by
  obtain ⟨seen, _, ofHolder⟩ := knows
  apply Gone.of_seen seen
  intro p same holding
  rw [ofHolder p same holding, numeral_printed, Option.some.injEq] at value
  rw [State.stage, value, if_neg (by simp [dead])] at holding
  cases holding

theorem Guarded.learns (inv : Guarded setting s) (alive : s.alive p = true) :
    Knows setting s (operate setting s p (s.phase p)).2 := by
  have knows := inv.knows p alive
  cases phase : s.phase p with
  | readToken left =>
      dsimp only [operate]
      split
      · trivial
      · trivial
      · rename_i read
        obtain ⟨lock, eq, token⟩ := Option.bind_eq_some_iff.mp read
        exact inv.seen lock _ eq token
  | readMode left existing =>
      rw [phase] at knows
      dsimp only [operate]
      split
      · trivial
      · rename_i mode read
        obtain ⟨lock, eq, content⟩ := Option.bind_eq_some_iff.mp read
        refine ⟨knows, fun q same holding => ?_⟩
        obtain ⟨lock', eq', mine⟩ := inv.held q holding
        obtain rfl : lock = lock' := Option.some.inj (eq.symm.trans eq')
        exact mine.mode mode content
  | readHostname left existing mode =>
      rw [phase] at knows
      dsimp only [operate]
      split
      · trivial
      · exact knows
  | readPid left existing mode host =>
      rw [phase] at knows
      dsimp only [operate]
      split
      · trivial
      · rename_i pid read
        obtain ⟨lock, eq, content⟩ := Option.bind_eq_some_iff.mp read
        refine ⟨knows.1, knows.2, fun q same holding => ?_⟩
        obtain ⟨lock', eq', mine⟩ := inv.held q holding
        obtain rfl : lock = lock' := Option.some.inj (eq.symm.trans eq')
        exact mine.pid pid content
  | probe left existing mode host pid =>
      rw [phase] at knows
      dsimp only [operate]
      split
      · exact Gone.of_seen knows.1 fun q same holding => knows.2.1 q same holding rfl
      · trivial
      · rcases judgeProcess_cases s.alive left existing mode host pid with
          eq | ⟨eq, owner, value, dead⟩
        · rw [eq]
          trivial
        · rw [eq]
          exact judged_gone knows value dead
  | readJob left existing =>
      rw [phase] at knows
      dsimp only [operate]
      split
      · trivial
      · exact knows
  | accounting left existing job =>
      rw [phase] at knows
      dsimp only [operate]
      split
      · exact knows
      · trivial
  | enter purpose expected =>
      dsimp only [operate]
      split
      · exact knows_afterRelease purpose
      · cases purpose with
        | own => trivial
        | reclaim left =>
            rw [phase] at knows
            exact knows
  | compare purpose expected =>
      dsimp only [operate]
      split
      · cases purpose with
        | own => trivial
        | reclaim left =>
            rename_i matched
            rw [phase] at knows
            intro q holding
            obtain ⟨lock, eq, mine⟩ := inv.held q holding
            rw [eq] at matched
            have same := mine.token expected matched.1
            rw [knows q same.symm] at holding
            cases holding
      · trivial
  | unlink purpose file =>
      cases purpose with
      | own => cases file <;> trivial
      | reclaim left =>
          rw [phase] at knows
          cases file <;> exact knows
  | removeDirectory purpose =>
      dsimp only [operate]
      split
      · trivial
      · split
        · exact knows_afterRelease purpose
        · trivial
  | attempt left => dsimp only [operate]; split <;> trivial
  | cleanUp file => cases file <;> trivial
  | writeToken => dsimp only [operate, write]; split <;> trivial
  | writeHostname => dsimp only [operate, write]; split <;> trivial
  | writePid => dsimp only [operate, write]; split <;> trivial
  | writeMode => dsimp only [operate, write]; split <;> trivial
  | owner => trivial
  | cleanUpDirectory => trivial
  | returned success => trivial

/-! ## What a process changes -/

theorem Mine.unlink {lock : LockDirectory} (mine : Mine setting p lock) (file : LockFile) :
    Mine setting p (lock.unlink file) := by
  cases file with
  | token => exact { mine with token := fun _ eq => by cases eq }
  | mode => exact { mine with mode := fun _ eq => by cases eq }
  | hostname => exact ⟨mine.creator, mine.token, mine.mode, mine.pid⟩
  | pid => exact { mine with pid := fun _ eq => by cases eq }
  | jobid => exact ⟨mine.creator, mine.token, mine.mode, mine.pid⟩

theorem Mine.fresh : Mine setting p (.fresh p) where
  creator := rfl
  token _ eq := by cases eq
  mode _ eq := by cases eq
  pid _ eq := by cases eq

theorem Guarded.keeps_own (inv : Guarded setting s) (alive : s.alive p = true)
    (holding : (operate setting s p (s.phase p)).2.stage = .holding) :
    ∃ lock, (operate setting s p (s.phase p)).1 = some lock ∧ Mine setting p lock := by
  by_cases before : (s.phase p).stage = .before
  · obtain ⟨⟨left, phase⟩, none⟩ := operate_acquires before holding
    rw [phase]
    simp only [operate, none]
    exact ⟨_, rfl, .fresh⟩
  · have stage : s.stage p = .holding := by
      rw [stage_alive alive]
      cases stage : (s.phase p).stage with
      | before => exact absurd stage before
      | holding => rfl
      | after =>
          rw [(operate_stage (s.phase p)).2 stage] at holding
          cases holding
    obtain ⟨lock, eq, mine⟩ := inv.held p stage
    have phaseStage := (stage_alive alive).symm.trans stage
    have mode := setting.valid p
    cases phase : s.phase p with
    | writeToken =>
        simp only [operate, write, eq]
        exact ⟨_, rfl, { mine with token := fun _ eq => (Option.some.inj eq).symm }⟩
    | writeHostname =>
        simp only [operate, write, eq]
        exact ⟨_, rfl, ⟨mine.creator, mine.token, mine.mode, mine.pid⟩⟩
    | writePid =>
        simp only [operate, write, eq]
        exact ⟨_, rfl, { mine with pid := fun _ eq => (Option.some.inj eq).symm }⟩
    | writeMode =>
        simp only [operate, write, eq]
        refine ⟨_, rfl, { mine with mode := fun _ eq => ?_ }⟩
        obtain rfl := Option.some.inj eq
        rcases mode with ssh | batch | submit <;> simp [*]
    | cleanUp file =>
        simp only [operate, eq]
        exact ⟨_, rfl, mine.unlink file⟩
    | cleanUpDirectory => rw [phase] at holding; cases holding
    | owner => exact ⟨lock, eq, mine⟩
    | enter purpose expected => exact ⟨lock, eq, mine⟩
    | compare purpose expected => exact ⟨lock, eq, mine⟩
    | unlink purpose file =>
        simp only [operate, eq]
        exact ⟨_, rfl, mine.unlink file⟩
    | removeDirectory purpose =>
        rw [phase] at holding
        simp only [operate, eq] at holding
        split at holding
        · exact absurd holding (afterRelease_stage _)
        · cases holding
    | _ => rw [phase] at phaseStage; cases phaseStage

theorem Guarded.keeps_other (inv : Guarded setting s) (alive : s.alive p = true) (other : q ≠ p)
    (holding : s.stage q = .holding) :
    (operate setting s p (s.phase p)).1 = s.lock := by
  obtain ⟨lock, eq, _⟩ := inv.held q holding
  have knows := inv.knows p alive
  have own : (s.phase p).stage ≠ .holding := fun stage =>
    other (inv.holder_unique holding ((stage_alive alive).trans stage))
  cases phase : s.phase p with
  | attempt left => simp [operate, eq]
  | unlink purpose file =>
      cases purpose with
      | own => rw [phase] at own; exact absurd rfl own
      | reclaim left => rw [phase] at knows; exact absurd holding (knows q)
  | removeDirectory purpose =>
      cases purpose with
      | own => rw [phase] at own; exact absurd rfl own
      | reclaim left => rw [phase] at knows; exact absurd holding (knows q)
  | writeToken => rw [phase] at own; exact absurd rfl own
  | writeHostname => rw [phase] at own; exact absurd rfl own
  | writePid => rw [phase] at own; exact absurd rfl own
  | writeMode => rw [phase] at own; exact absurd rfl own
  | cleanUp file => rw [phase] at own; exact absurd rfl own
  | cleanUpDirectory => rw [phase] at own; exact absurd rfl own
  | _ => rfl

theorem write_token {change : LockDirectory → LockDirectory} {next : Phase} {token : Text}
    {lock : LockDirectory} {before : Option LockDirectory}
    (kept : ∀ lock : LockDirectory, (change lock).token = lock.token)
    (eq : (write change next before).1 = some lock) (found : lock.token = some token) :
    ∃ old, before = some old ∧ old.token = some token := by
  cases before with
  | none => cases eq
  | some old =>
      obtain rfl := Option.some.inj eq
      exact ⟨old, rfl, (kept old).symm.trans found⟩

theorem unlink_token {file : LockFile} {token : Text} {lock : LockDirectory}
    {before : Option LockDirectory} (eq : before.map (·.unlink file) = some lock)
    (found : lock.token = some token) : ∃ old, before = some old ∧ old.token = some token := by
  obtain ⟨old, rfl, rfl⟩ := Option.map_eq_some_iff.mp eq
  refine ⟨old, rfl, ?_⟩
  cases file with
  | token => cases found
  | mode => exact found
  | hostname => exact found
  | pid => exact found
  | jobid => exact found

/-- A token on disk was there before, or its process has just written it. -/
theorem operate_token {phase : Phase} {lock : LockDirectory} {token : Text}
    (eq : (operate setting s p phase).1 = some lock) (found : lock.token = some token) :
    (∃ old, s.lock = some old ∧ old.token = some token) ∨
      token = setting.newToken p ∧ phase = .writeToken ∧ s.lock.isSome := by
  cases phase with
  | attempt left =>
      simp only [operate] at eq
      split at eq
      · obtain rfl := Option.some.inj eq
        cases found
      · rename_i old absent
        obtain rfl := Option.some.inj eq
        exact .inl ⟨_, absent, found⟩
  | writeToken =>
      cases before : s.lock with
      | none => simp [operate, write, before] at eq
      | some old =>
          simp only [operate, write, before] at eq
          obtain rfl := Option.some.inj eq
          exact .inr ⟨(Option.some.inj found).symm, rfl, rfl⟩
  | writeHostname =>
      unfold operate at eq
      exact .inl (write_token (fun _ => by rfl) eq found)
  | writePid =>
      unfold operate at eq
      exact .inl (write_token (fun _ => by rfl) eq found)
  | writeMode =>
      unfold operate at eq
      exact .inl (write_token (fun _ => by rfl) eq found)
  | cleanUp file => exact .inl (unlink_token eq found)
  | unlink purpose file => exact .inl (unlink_token eq found)
  | cleanUpDirectory =>
      exact .inl ⟨lock, (Option.filter_eq_some_iff.mp eq).1, found⟩
  | removeDirectory purpose =>
      simp only [operate] at eq
      split at eq
      · cases eq
      · split at eq
        · cases eq
        · rename_i present _
          obtain rfl := Option.some.inj eq
          exact .inl ⟨_, present, found⟩
  | _ => exact .inl ⟨lock, eq, found⟩

/-! ## A step of the system -/

def Later (s s' : State) : Prop :=
  ∀ p, (s.stage p = .holding → s'.stage p ≠ .before) ∧ (s.stage p = .after → s'.stage p = .after)

theorem Later.ne_before (later : Later s s') (drawn : s.stage p ≠ .before) :
    s'.stage p ≠ .before := by
  cases stage : s.stage p with
  | before => exact absurd stage drawn
  | holding => exact (later p).1 stage
  | after => simp [(later p).2 stage]

theorem Seen.later {token : Text} (later : Later s s') (seen : Seen setting s token) :
    Seen setting s' token := fun p same => later.ne_before (seen p same)

theorem Gone.later {token : Text} (later : Later s s') (gone : Gone setting s token) :
    Gone setting s' token := fun p same => (later p).2 (gone p same)

theorem OfHolder.later {token : Text} {P : Process → Prop} (later : Later s s')
    (seen : Seen setting s token) (known : OfHolder setting s token P) :
    OfHolder setting s' token P := by
  intro p same holding
  apply known p same
  cases stage : s.stage p with
  | before => exact absurd stage (seen p same)
  | holding => rfl
  | after => rw [(later p).2 stage] at holding; cases holding

theorem Knows.later {phase : Phase} (later : Later s s')
    (quiet : phase.removes = true → phase.stage = .before → (∀ p, s.stage p ≠ .holding) →
      ∀ p, s'.stage p ≠ .holding)
    (knows : Knows setting s phase) : Knows setting s' phase := by
  cases phase with
  | readMode left existing => exact Seen.later later knows
  | readHostname left existing mode => exact ⟨knows.1.later later, knows.2.later later knows.1⟩
  | readPid left existing mode host => exact ⟨knows.1.later later, knows.2.later later knows.1⟩
  | probe left existing mode host pid =>
      exact ⟨knows.1.later later, knows.2.1.later later knows.1, knows.2.2.later later knows.1⟩
  | readJob left existing => exact Gone.later later knows
  | accounting left existing job => exact Gone.later later knows
  | enter purpose expected =>
      cases purpose with
      | own => trivial
      | reclaim left => exact Gone.later later knows
  | compare purpose expected =>
      cases purpose with
      | own => trivial
      | reclaim left => exact Gone.later later knows
  | unlink purpose file =>
      cases purpose with
      | own => trivial
      | reclaim left => exact quiet rfl rfl knows
  | removeDirectory purpose =>
      cases purpose with
      | own => trivial
      | reclaim left => exact quiet rfl rfl knows
  | _ => trivial

theorem Guarded.unchanged (inv : Guarded setting s) (lock : s'.lock = s.lock)
    (held : ∀ p, s'.stage p = .holding → s.stage p = .holding) (later : Later s s')
    (knows : ∀ p, s'.alive p = true → Knows setting s (s'.phase p)) : Guarded setting s' where
  held p holding := lock ▸ inv.held p (held p holding)
  seen old token eq found := (inv.seen old token (lock ▸ eq) found).later later
  knows p alive := (knows p alive).later later fun _ _ unheld p holding =>
    unheld p (held p holding)

theorem Guarded.advance (inv : Guarded setting s) (calm : Calm s (.advance p))
    (alive : s.alive p = true) :
    Guarded setting { s with
      lock := (operate setting s p (s.phase p)).1
      phase := Function.update s.phase p (operate setting s p (s.phase p)).2 } := by
  let after : State := { s with
    lock := (operate setting s p (s.phase p)).1
    phase := Function.update s.phase p (operate setting s p (s.phase p)).2 }
  have self : after.stage p = (operate setting s p (s.phase p)).2.stage := by
    simp [State.stage, after, alive]
  have others : ∀ q, q ≠ p → after.stage q = s.stage q := fun q other => by
    simp [State.stage, after, other]
  have later : Later s after := by
    intro q
    by_cases same : q = p
    · rw [same, self, stage_alive alive]
      exact operate_stage (s.phase p)
    · rw [others q same]
      exact ⟨fun stage => by simp [stage], id⟩
  constructor
  · intro q holding
    by_cases same : q = p
    · subst same
      exact inv.keeps_own alive (self ▸ holding)
    · have before := (others q same).symm.trans holding
      obtain ⟨lock, eq, mine⟩ := inv.held q before
      exact ⟨lock, (inv.keeps_other alive same before).trans eq, mine⟩
  · intro lock token eq found
    rcases operate_token eq found with ⟨old, present, kept⟩ | ⟨rfl, phase, _⟩
    · exact (inv.seen old token present kept).later later
    · intro q same
      obtain rfl := newToken_injective same
      refine later.ne_before ?_
      rw [stage_alive alive, phase]
      decide
  · intro q alive'
    by_cases same : q = p
    · subst same
      have phase : after.phase q = (operate setting s q (s.phase q)).2 :=
        Function.update_self ..
      change Knows setting after (after.phase q)
      rw [phase]
      refine (inv.learns alive).later later fun _ before unheld r holding => ?_
      by_cases mover : r = q
      · rw [mover, self, before] at holding
        cases holding
      · exact unheld r ((others r mover).symm.trans holding)
    · have phase : after.phase q = s.phase q := Function.update_of_ne same ..
      change Knows setting after (after.phase q)
      rw [phase]
      refine (inv.knows q alive').later later fun removes _ unheld r holding => ?_
      by_cases mover : r = p
      · rw [mover, self] at holding
        cases stage : (s.phase p).stage with
        | before =>
            obtain ⟨attempt, none⟩ := operate_acquires stage holding
            rw [calm attempt none q same alive'] at removes
            cases removes
        | holding => exact unheld p ((stage_alive alive).trans stage)
        | after =>
            rw [(operate_stage (s.phase p)).2 stage] at holding
            cases holding
      · exact unheld r ((others r mover).symm.trans holding)

theorem Guarded.fail (inv : Guarded setting s) (alive : s.alive p = true)
    (writes : (s.phase p).writes = true) :
    Guarded setting { s with phase := Function.update s.phase p (.cleanUp .token) } := by
  have stage : s.stage p = .holding := by
    rw [stage_alive alive]
    cases phase : s.phase p <;> first | rfl | (rw [phase] at writes; cases writes)
  have same : ∀ q, State.stage { s with phase := Function.update s.phase p (.cleanUp .token) } q =
      s.stage q := by
    intro q
    by_cases mover : q = p
    · rw [mover, stage]
      simp [State.stage, alive, Phase.stage]
    · simp [State.stage, mover]
  refine inv.unchanged rfl (fun q holding => (same q).symm.trans holding) (fun q => ?_)
    fun q alive' => ?_
  · rw [same q]
    exact ⟨fun eq => by simp [eq], id⟩
  · by_cases mover : q = p
    · simp only [mover, Function.update_self]
      trivial
    · simp only [Function.update_of_ne mover]
      exact inv.knows q alive'

theorem Guarded.die (inv : Guarded setting s) (p : Process) :
    Guarded setting { s with alive := Function.update s.alive p false } := by
  have dead : State.stage { s with alive := Function.update s.alive p false } p = .after := by
    simp [State.stage]
  have others : ∀ q, q ≠ p →
      State.stage { s with alive := Function.update s.alive p false } q = s.stage q :=
    fun q other => by simp [State.stage, other]
  refine inv.unchanged rfl (fun q holding => ?_) (fun q => ?_) fun q alive => ?_
  · by_cases mover : q = p
    · rw [mover, dead] at holding
      cases holding
    · exact (others q mover).symm.trans holding
  · by_cases mover : q = p
    · rw [mover, dead]
      exact ⟨fun _ => by simp, fun _ => rfl⟩
    · rw [others q mover]
      exact ⟨fun stage => by simp [stage], id⟩
  · apply inv.knows q
    by_cases mover : q = p
    · simp [mover] at alive
    · simpa [mover] using alive

theorem Guarded.step (inv : Guarded setting s) (calm : Calm s action)
    (moved : step setting s action = some s') : Guarded setting s' := by
  cases action with
  | advance p =>
      dsimp only [Dispatch.step] at moved
      split at moved
      · rename_i alive
        obtain rfl := Option.some.inj moved
        exact inv.advance calm alive
      · cases moved
  | fail p =>
      dsimp only [Dispatch.step] at moved
      split at moved
      · rename_i enabled
        obtain ⟨alive, writes⟩ := Bool.and_eq_true_iff.mp enabled
        obtain rfl := Option.some.inj moved
        exact inv.fail alive writes
      · cases moved
  | die p =>
      obtain rfl := Option.some.inj moved
      exact inv.die p
  | jobEnds job =>
      obtain rfl := Option.some.inj moved
      exact inv.unchanged rfl (fun _ holding => holding)
        (fun _ => ⟨fun stage => by simp only [State.stage] at stage ⊢; simp [stage], id⟩) inv.knows

theorem Start.guarded (start : Start setting s) : Guarded setting s := by
  have holder : ∀ p, s.stage p = .holding →
      ∃ lock, s.lock = some lock ∧ Acquired setting p lock := by
    intro p holding
    have alive := alive_of_stage (s := s) (p := p) (by simp [holding])
    rw [stage_alive alive] at holding
    rcases start.phases p alive with idle | ⟨success, ended⟩ | ⟨_, lock, eq, acquired⟩
    · rw [idle] at holding
      cases holding
    · rw [ended] at holding
      cases holding
    · exact ⟨lock, eq, acquired⟩
  refine ⟨fun p holding => ?_, fun lock token eq found p same => ?_, fun p alive => ?_⟩
  · obtain ⟨lock, eq, acquired⟩ := holder p holding
    refine ⟨lock, eq, acquired.creator, fun _ token => ?_, fun _ mode => ?_, fun _ pid => ?_⟩
    · exact Option.some.inj (token.symm.trans acquired.token)
    · obtain rfl := Option.some.inj (mode.symm.trans acquired.mode)
      rcases setting.valid p with valid | valid | valid <;> simp [valid]
    · exact Option.some.inj (pid.symm.trans acquired.pid)
  · exact start.drawn lock p eq (same ▸ found)
  · rcases start.phases p alive with idle | ⟨success, ended⟩ | ⟨owner, _⟩
    · rw [idle]
      trivial
    · rw [ended]
      trivial
    · rw [owner]
      trivial

theorem CalmRun.guarded (start : Start setting s) (run : CalmRun setting s s') :
    Guarded setting s' := by
  induction run with
  | refl => exact start.guarded
  | step _ calm moved ih => exact ih.step calm moved

/-! ## Without the condition -/

/-- The directory of another process is empty, and the removal is on its way to it. -/
structure Doomed (s : State) (p q : Process) : Prop where
  other : p ≠ q
  alive : s.alive q = true
  holding : s.stage p = .holding
  lock : ∃ lock, s.lock = some lock ∧ lock.creator = some p ∧ lock.empty = true

theorem unlink_of_empty {lock : LockDirectory} (empty : lock.empty = true) (file : LockFile) :
    lock.unlink file = lock := by
  simp only [LockDirectory.empty, Bool.and_eq_true, Option.isNone_iff_eq_none] at empty
  obtain ⟨⟨⟨⟨⟨_, token⟩, mode⟩, hostname⟩, pid⟩, jobid⟩ := empty
  cases lock
  cases file <;> simp_all [LockDirectory.unlink]

theorem Doomed.unlink (doomed : Doomed s p q) {file : LockFile} {phase : Phase}
    (next : operate setting s q (s.phase q) = (s.lock.map (·.unlink file), phase)) :
    ∃ s', step setting s (.advance q) = some s' ∧ Doomed s' p q ∧ s'.phase q = phase := by
  obtain ⟨lock, eq, creator, empty⟩ := doomed.lock
  refine ⟨{ s with phase := Function.update s.phase q phase }, ?_, ?_, by simp⟩
  · dsimp only [step]
    rw [if_pos doomed.alive, next, eq, Option.map_some, unlink_of_empty empty, ← eq]
  · refine ⟨doomed.other, doomed.alive, ?_, lock, eq, creator, empty⟩
    have holding := doomed.holding
    simpa [State.stage, doomed.other] using holding

def removalsLeft : Phase → Nat
  | .cleanUp file | .unlink _ file =>
    match file with
    | .token => 5
    | .mode => 4
    | .hostname => 3
    | .pid => 2
    | .jobid => 1
  | _ => 0

variable (setting s q) in
theorem removes_cases {phase : Phase} (removes : phase.removes = true) :
    (phase = .cleanUpDirectory ∨ ∃ purpose, phase = .removeDirectory purpose) ∨
      ∃ file next, operate setting s q phase = (s.lock.map (·.unlink file), next) ∧
        next.removes = true ∧ removalsLeft phase = removalsLeft next + 1 := by
  cases phase with
  | cleanUp file => exact .inr ⟨file, _, rfl, by cases file <;> rfl, by cases file <;> rfl⟩
  | unlink purpose file => exact .inr ⟨file, _, rfl, by cases file <;> rfl, by cases file <;> rfl⟩
  | cleanUpDirectory => exact .inl (.inl rfl)
  | removeDirectory purpose => exact .inl (.inr ⟨purpose, rfl⟩)
  | _ => cases removes

theorem Doomed.trespass {n : Nat} (doomed : Doomed s p q) (removes : (s.phase q).removes = true)
    (left : removalsLeft (s.phase q) = n) :
    ∃ (actions : List Action) (s' : State), actions.foldlM (step setting) s = some s' ∧
      Trespasses s' q := by
  induction n generalizing s with
  | zero =>
      rcases removes_cases setting s q removes with
        last | ⟨file, next, _, _, eq⟩
      · obtain ⟨lock, eq, creator, empty⟩ := doomed.lock
        refine ⟨[], s, rfl, doomed.alive, lock, p, eq, creator, doomed.other, doomed.holding, ?_⟩
        rcases last with phase | ⟨purpose, phase⟩
        · simpa only [phase] using empty
        · simpa only [phase] using empty
      · omega
  | succ n ih =>
      rcases removes_cases setting s q removes with
        last | ⟨file, next, operation, removes', eq⟩
      · rcases last with phase | ⟨purpose, phase⟩ <;> rw [phase] at left <;> cases left
      · obtain ⟨s', moved, doomed', phase⟩ := doomed.unlink operation
        obtain ⟨actions, s'', run, trespass⟩ :=
          ih doomed' (by rw [phase]; exact removes') (by rw [phase]; omega)
        exact ⟨.advance q :: actions, s'', by simpa [List.foldlM_cons, moved] using run, trespass⟩

/-- Where a lock is made beside an unfinished removal, the removal goes on to the new lock: left to
run alone, its process takes the directory away from the process that has just made it. -/
theorem trespass_of_overlap {left : Nat} (attempt : s.phase p = .attempt left)
    (absent : s.lock = none) (alive : s.alive p = true) (other : p ≠ q) (alive' : s.alive q = true)
    (removes : (s.phase q).removes = true) :
    ∃ (actions : List Action) (s' : State),
      (.advance p :: actions).foldlM (step setting) s = some s' ∧ Trespasses s' q := by
  let made : State := { s with
    lock := some (.fresh p), phase := Function.update s.phase p .writeToken }
  have moved : step setting s (.advance p) = some made := by
    dsimp only [step]
    rw [if_pos alive, attempt]
    simp only [operate, absent]
    rfl
  have doomed : Doomed made p q :=
    ⟨other, alive', by simp [made, State.stage, alive, Phase.stage], _, rfl, rfl, rfl⟩
  have phase : made.phase q = s.phase q := Function.update_of_ne (Ne.symm other) ..
  obtain ⟨actions, s', run, trespass⟩ := doomed.trespass (phase ▸ removes) rfl
  exact ⟨actions, s', by simpa [List.foldlM_cons, moved] using run, trespass⟩

/-! ## Runs -/

/-- While no lock is made beside an unfinished removal, the lock excludes. -/
theorem exclusive_of_calm (start : Start setting s) (run : CalmRun setting s s') :
    Exclusive s' ∧ ∀ p, ¬Trespasses s' p :=
  ⟨(run.guarded start).exclusive, fun _ => (run.guarded start).no_trespass⟩

/-! ## Two processes that take over one stale lock -/

def oneHost : Setting where
  localHost := ['h']
  mode _ := .batch
  valid _ := .inr (.inl rfl)
  seconds _ := 0
  random _ := 0

def stale : State where
  lock := some { creator := some 9, debris := false, token := some (oneHost.newToken 9),
                 mode := some .batch, hostname := some ['h'], pid := some (printed 9),
                 jobid := none }
  phase _ := .attempt 1
  alive p := p = 1 || p = 2
  ended _ := false

theorem stale_start : Start oneHost stale where
  phases _ _ := .inl rfl
  drawn lock p eq found := by
    obtain rfl := Option.some.inj eq
    obtain rfl := newToken_injective (Option.some.inj found)
    decide

section Calmly

variable (setting : Setting) (live : List Process)

def calm (s : State) : Action → Bool
  | .advance p =>
    match s.phase p, s.lock with
    | .attempt _, none => live.all fun q => q == p || !s.alive q || !(s.phase q).removes
    | _, _ => true
  | _ => true

def calmStep (s : State) (action : Action) : Option State :=
  if calm live s action then step setting s action else none

variable {setting live}

theorem alive_of_step (moved : step setting s action = some s') (alive : s'.alive q = true) :
    s.alive q = true := by
  cases action with
  | advance p | fail p =>
      simp only [step, Option.ite_none_right_eq_some, Option.some.injEq] at moved
      rw [← moved.2] at alive
      exact alive
  | die p =>
      cases moved
      by_cases same : q = p
      · simp [same] at alive
      · simpa [same] using alive
  | jobEnds job =>
      cases moved
      exact alive

theorem CalmRun.alive {start : State} (run : CalmRun setting start s)
    (alive : s.alive q = true) : start.alive q = true := by
  induction run with
  | refl => exact alive
  | step _ _ moved ih => exact ih (alive_of_step moved alive)

theorem calm_of_check (only : ∀ q, s.alive q = true → q ∈ live) (checked : calm live s action = true) :
    Calm s action := by
  cases action with
  | advance p =>
      rintro ⟨left, attempt⟩ free q other alive
      simp only [calm, attempt, free, List.all_eq_true] at checked
      simpa [other, alive] using checked q (only q alive)
  | fail p | die p | jobEnds job => trivial

theorem CalmRun.of_calmStep {start : State} {actions : List Action}
    (only : ∀ q, s.alive q = true → q ∈ live) (run : CalmRun setting start s)
    (ran : actions.foldlM (calmStep setting live) s = some s') : CalmRun setting start s' := by
  induction actions generalizing s with
  | nil =>
      cases ran
      exact run
  | cons action actions ih =>
      rw [List.foldlM_cons] at ran
      obtain ⟨next, taken, rest⟩ := Option.bind_eq_some_iff.mp ran
      rw [calmStep, Option.ite_none_right_eq_some] at taken
      obtain ⟨checked, moved⟩ := taken
      exact ih (fun q alive => only q (alive_of_step moved alive))
        (run.step (calm_of_check only checked) moved) rest

end Calmly

/-- Process 1 finds the stale lock, removes it and makes its own; process 2 finds that one alive. -/
def takeOver : List Action := List.replicate 19 (.advance 1) ++ List.replicate 6 (.advance 2)

def giveBack : List Action := List.replicate 9 (.advance 1)

theorem exclusive_of_calm_sample : ∃ owned released,
    CalmRun oneHost stale owned ∧ CalmRun oneHost owned released ∧
    (owned.lock.bind (·.creator) = some 1 ∧ owned.phase 1 = .owner ∧
      owned.phase 2 = .returned false) ∧
    (released.lock = none ∧ released.phase 1 = .returned true) ∧
    (Exclusive owned ∧ ∀ p, ¬Trespasses owned p) ∧
    (Exclusive released ∧ ∀ p, ¬Trespasses released p) := by
  have ran : (takeOver.foldlM (calmStep oneHost [1, 2]) stale).bind (fun owned =>
      (giveBack.foldlM (calmStep oneHost [1, 2]) owned).map fun released =>
        (owned.lock.bind (·.creator), owned.phase 1, owned.phase 2, released.lock,
          released.phase 1)) =
      some (some 1, .owner, .returned false, none, .returned true) := by
    decide +kernel
  obtain ⟨owned, first, ran⟩ := Option.bind_eq_some_iff.mp ran
  obtain ⟨released, second, facts⟩ := Option.map_eq_some_iff.mp ran
  simp only [Prod.mk.injEq] at facts
  obtain ⟨creator, owner, loser, free, success⟩ := facts
  have only : ∀ q, stale.alive q = true → q ∈ [1, 2] := by simp [stale]
  have run := CalmRun.of_calmStep only .refl first
  have onlyOwned : ∀ q, owned.alive q = true → q ∈ [1, 2] := fun q alive => only q (run.alive alive)
  exact ⟨owned, released, run, .of_calmStep onlyOwned .refl second, ⟨creator, owner, loser⟩,
    ⟨free, success⟩, exclusive_of_calm stale_start run,
    exclusive_of_calm stale_start (.of_calmStep onlyOwned run second)⟩

/-- Both check the token before either removes it; the second then removes the lock of the first. -/
def overlap : List Action :=
  List.replicate 8 (.advance 1) ++ List.replicate 19 (.advance 2) ++ List.replicate 11 (.advance 1)

theorem both_own : Start oneHost stale ∧ ∃ s, overlap.foldlM (step oneHost) stale = some s ∧
    ¬Exclusive s := by
  have owners : (overlap.foldlM (step oneHost) stale).map (fun s =>
      (s.alive 1, s.alive 2, (s.phase 1).owns, (s.phase 2).owns)) =
        some (true, true, true, true) := by decide +kernel
  obtain ⟨s, run, eq⟩ := Option.map_eq_some_iff.mp owners
  simp only [Prod.mk.injEq] at eq
  refine ⟨stale_start, s, run, fun exclusive => ?_⟩
  exact absurd (exclusive 1 2 eq.1 eq.2.1 eq.2.2.1 eq.2.2.2) (by decide)

end StorageScaleTest.Dispatch
