import Mathlib.Logic.Function.Basic
import StorageScaleTest.Batch.Readers

/-!
# Appending to a batch and starting it

Invocations of `--append`, `--start` and `--status` on one batch directory. The dispatch lock is
exclusive: a process gets it where nobody holds it or its holder is dead.
-/

namespace StorageScaleTest.Batch.Sealing

open Shell

abbrev Process := Nat

inductive Invocation
  /-- `agrees`: the frozen settings of the batch are those of the new groups. -/
  | append (submission : Submission) (agrees : Bool)
  | start
  | status

structure Setting where
  digest : Text → Text
  ds : Text
  invocation : Process → Invocation
  /-- What the refresh of the union makes of the committed groups. -/
  union : Files → Text
  /-- The control root that a Kubernetes start adds to the snapshot. -/
  control : Text

/-! ## Phases -/

inductive Phase
  /-- `_elbencho_batch_prepare` -/
  | appendVerify | appendAcquire | appendCheck
  | appendWrite (rest : List Write)
  | appendRelease (success : Bool)
  /-- `_elbencho_batch_run`, until the snapshot of a draft is up to date -/
  | verify | refreshAcquire | refresh | refreshRelease (success : Bool)
  /-- The sealing loop of a start -/
  | refuseSealed | enterLoop | firstAcquire | readDigest
  | refreshUnion (digest : Text)
  | firstRelease (digest : Text)
  | preflight (digest : Text) (read : List Text)
  | secondAcquire (digest : Text) (read : List Text)
  | compare (digest : Text) (read : List Text)
  | writeControl (digest : Text) (read : List Text)
  | sealEnvironment (digest : Text) (read : List Text)
  | sealManifest (digest : Text) (read : List Text)
  | sealedRelease (digest : Text) (read : List Text)
  | retryRelease | refusedRelease
  /-- The dispatch, for a start that has sealed the batch. -/
  | sealed (digest : Text) (read : List Text)
  | finished (success : Bool)
  deriving DecidableEq, Repr

structure State where
  files : Files
  lock : Option Process
  phase : Process → Phase
  alive : Process → Bool

def State.isSealed (s : State) : Bool := (s.files .seal).isSome

inductive Action
  | advance (p : Process)
  /-- The preflight reads the manifest once more. -/
  | inspect (p : Process)
  | die (p : Process)
  deriving DecidableEq, Repr

variable [Ctype] (setting : Setting)

/-! ## Steps -/

abbrev Outcome := Files × Option Process × Phase

/-- `_elbencho_acquire_dispatch_lock` -/
def acquire (s : State) (p : Process) (next : Phase) : Outcome :=
  match s.lock with
  | none => (s.files, some p, next)
  | some holder =>
    if s.alive holder then (s.files, s.lock, .finished false) else (s.files, some p, next)

def release (s : State) (next : Phase) : Outcome := (s.files, none, next)

def stay (s : State) (next : Phase) : Outcome := (s.files, s.lock, next)

def manifestDigest (s : State) : Text := setting.digest (contentOf s.files .manifest)

def operate (s : State) (p : Process) : Phase → Outcome
  | .appendVerify =>
    stay s (if !s.isSealed && verifyManifest setting.digest true s.files then .appendAcquire
      else .finished false)
  | .appendAcquire => acquire s p .appendCheck
  | .appendCheck =>
    stay s (if s.isSealed then .appendRelease false
      else match setting.invocation p with
        | .append submission true =>
          match publishGroups setting.ds s.files submission with
          | some writes => .appendWrite writes
          | none => .appendRelease false
        | _ => .appendRelease false)
  | .appendWrite [] => stay s (.appendRelease true)
  | .appendWrite (w :: rest) => (w.apply setting.digest s.files, s.lock, .appendWrite rest)
  | .appendRelease success => release s (.finished success)
  | .verify =>
    stay s (if verifyManifest setting.digest true s.files then
        if s.isSealed then .refuseSealed else .refreshAcquire
      else .finished false)
  | .refreshAcquire => acquire s p .refresh
  | .refresh =>
    if s.isSealed then
      stay s (.refreshRelease (verifyManifest setting.digest true s.files))
    else (store s.files .environment (setting.union s.files), s.lock, .refreshRelease true)
  | .refreshRelease success => release s (if success then .refuseSealed else .finished false)
  | .refuseSealed =>
    stay s (match setting.invocation p with
      | .start => if s.isSealed then .finished false else .enterLoop
      | _ => .finished true)
  -- A batch that another start has sealed since is dispatched as it is.
  | .enterLoop => stay s (if s.isSealed then .finished true else .firstAcquire)
  | .firstAcquire => acquire s p .readDigest
  | .readDigest =>
    stay s (if s.isSealed then .refusedRelease else .refreshUnion (manifestDigest setting s))
  | .refreshUnion digest =>
    (store s.files .environment (setting.union s.files), s.lock, .firstRelease digest)
  | .firstRelease digest => release s (.preflight digest [])
  | .preflight digest read => stay s (.secondAcquire digest read)
  | .secondAcquire digest read => acquire s p (.compare digest read)
  | .compare digest read =>
    stay s (if s.isSealed then .refusedRelease
      else if digest ≠ manifestDigest setting s then .retryRelease
      else .writeControl digest read)
  | .writeControl digest read =>
    (store s.files .environment (contentOf s.files .environment ++ setting.control), s.lock,
      .sealEnvironment digest read)
  | .sealEnvironment digest read =>
    (store s.files .sealedEnvironment
      (unlines [setting.digest (contentOf s.files .environment)]), s.lock,
      .sealManifest digest read)
  | .sealManifest digest read =>
    (store s.files .seal (unlines [digest]), s.lock, .sealedRelease digest read)
  | .sealedRelease digest read => release s (.sealed digest read)
  | .retryRelease => release s .firstAcquire
  | .refusedRelease => release s (.finished false)
  | .sealed digest read => stay s (.sealed digest read)
  | .finished success => stay s (.finished success)

def step (s : State) : Action → Option State
  | .advance p =>
    if s.alive p then
      let (files, lock, phase) := operate setting s p (s.phase p)
      some { s with files, lock, phase := Function.update s.phase p phase }
    else none
  | .inspect p =>
    match s.phase p with
    | .preflight digest read =>
      if s.alive p then
        let next := .preflight digest (contentOf s.files .manifest :: read)
        some { s with phase := Function.update s.phase p next }
      else none
    | _ => none
  | .die p => some { s with alive := Function.update s.alive p false }

def Invocation.begin : Invocation → Phase
  | .append .. => .appendVerify
  | .start | .status => .verify

def Phase.locked : Phase → Bool
  | .appendCheck | .appendWrite _ | .appendRelease _ | .refresh | .refreshRelease _
  | .readDigest | .refreshUnion _ | .firstRelease _ | .compare .. | .writeControl ..
  | .sealEnvironment .. | .sealManifest .. | .sealedRelease .. | .retryRelease
  | .refusedRelease => true
  | _ => false

/-- The digest that the process has sealed the batch with, and what its preflight read. -/
def Phase.sealing : Phase → Option (Text × List Text)
  | .sealedRelease digest read | .sealed digest read => some (digest, read)
  | _ => none

end StorageScaleTest.Batch.Sealing
