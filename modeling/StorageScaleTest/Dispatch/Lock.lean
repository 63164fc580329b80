import Mathlib.Logic.Function.Basic
import StorageScaleTest.Shell.Words

/-!
# The dispatch lock

Processes of one host and user that acquire the lock of one executions directory, release it, or
die between two of the file operations.
-/

namespace StorageScaleTest.Dispatch

open Shell

abbrev Process := Nat
abbrev Job := Nat
abbrev Text := List Char

/-! ## The lock directory -/

inductive LockMode
  | ssh | batch | slurmSubmit | slurm | other
  deriving DecidableEq, Repr

/-- The files of a lock, in the order in which `rm` is given them. -/
inductive LockFile
  | token | mode | hostname | pid | jobid
  deriving DecidableEq, Repr

/-- `creator` is no file: it is the process whose `mkdir` made the directory. `debris` stands for
files that `rm` is not given. -/
structure LockDirectory where
  creator : Option Process
  debris : Bool
  token : Option Text
  mode : Option LockMode
  hostname : Option Text
  pid : Option Text
  jobid : Option Text
  deriving DecidableEq, Repr

namespace LockDirectory

def fresh (creator : Process) : LockDirectory :=
  { creator := some creator, debris := false, token := none, mode := none, hostname := none,
    pid := none, jobid := none }

def empty (lock : LockDirectory) : Bool :=
  !lock.debris && lock.token.isNone && lock.mode.isNone && lock.hostname.isNone
    && lock.pid.isNone && lock.jobid.isNone

def holds (lock : LockDirectory) : LockFile → Bool
  | .token => lock.token.isSome
  | .mode => lock.mode.isSome
  | .hostname => lock.hostname.isSome
  | .pid => lock.pid.isSome
  | .jobid => lock.jobid.isSome

def unlink (lock : LockDirectory) : LockFile → LockDirectory
  | .token => { lock with token := none }
  | .mode => { lock with mode := none }
  | .hostname => { lock with hostname := none }
  | .pid => { lock with pid := none }
  | .jobid => { lock with jobid := none }

end LockDirectory

/-- The file that `rm` removes next. -/
def LockFile.next : LockFile → Option LockFile
  | .token => some .mode
  | .mode => some .hostname
  | .hostname => some .pid
  | .pid => some .jobid
  | .jobid => none

/-! ## Processes -/

/-- Who calls `_elbencho_release_dispatch_lock`: the owner, or a process that takes over a stale
lock and has some attempts left afterwards. -/
inductive Purpose
  | own
  | reclaim (left : Nat)
  deriving DecidableEq, Repr

inductive Phase
  | attempt (left : Nat)
  | writeToken | writeHostname | writePid | writeMode
  | cleanUp (file : LockFile) | cleanUpDirectory
  | owner
  | readToken (left : Nat)
  | readMode (left : Nat) (existing : Text)
  | readHostname (left : Nat) (existing : Text) (mode : LockMode)
  | readPid (left : Nat) (existing : Text) (mode : LockMode) (host : Text)
  | probe (left : Nat) (existing : Text) (mode : LockMode) (host pid : Text)
  | readJob (left : Nat) (existing : Text)
  | accounting (left : Nat) (existing : Text) (job : Job)
  | enter (purpose : Purpose) (expected : Text)
  | compare (purpose : Purpose) (expected : Text)
  | unlink (purpose : Purpose) (file : LockFile)
  | removeDirectory (purpose : Purpose)
  | returned (success : Bool)
  deriving DecidableEq, Repr

/-- What the processes are called with and draw: modes are `ssh`, `batch` and `slurm-submit`. -/
structure Setting where
  localHost : Text
  mode : Process → LockMode
  valid : ∀ p, mode p = .ssh ∨ mode p = .batch ∨ mode p = .slurmSubmit
  seconds : Process → Nat
  random : Process → Nat

def printed (n : Nat) : Text := Nat.toDigits 10 n

/-- `host:pid:seconds:random` -/
def Setting.newToken (setting : Setting) (p : Process) : Text :=
  setting.localHost ++ ':' :: (printed p ++
    ':' :: (printed (setting.seconds p) ++ ':' :: printed (setting.random p)))

structure State where
  lock : Option LockDirectory
  phase : Process → Phase
  alive : Process → Bool
  ended : Job → Bool

inductive Action
  | advance (p : Process)
  /-- A write fails. -/
  | fail (p : Process)
  | die (p : Process)
  | jobEnds (job : Job)
  deriving DecidableEq, Repr

variable (setting : Setting)

def numeral (word : Text) : Option Nat :=
  if isDigits word then some (Nat.ofDigitChars 10 word 0) else none

/-- The outcome of `_elbencho_dispatch_lock_is_active` for a lock of a process: only one that is
provably stale goes on to its release. -/
def judgeProcess (alive : Process → Bool) (left : Nat) (existing : Text) (mode : LockMode)
    (host pid : Text) : Phase :=
  match numeral pid with
  | none => .returned false
  | some owner =>
    if host ≠ setting.localHost || alive owner || mode = .slurmSubmit then .returned false
    else .enter (.reclaim left) existing

def afterRelease : Purpose → Phase
  | .own => .returned true
  | .reclaim 0 => .returned false
  | .reclaim (left+1) => .attempt left

def write (change : LockDirectory → LockDirectory) (next : Phase) (lock : Option LockDirectory) :
    Option LockDirectory × Phase :=
  match lock with
  | none => (none, .cleanUp .token)
  | some lock => (some (change lock), next)

def operate (s : State) (p : Process) : Phase → Option LockDirectory × Phase
  | .attempt left =>
    match s.lock with
    | none => (some (.fresh p), .writeToken)
    | some lock => (some lock, .readToken left)
  | .writeToken =>
    write (fun lock => { lock with token := some (setting.newToken p) }) .writeHostname s.lock
  | .writeHostname =>
    write (fun lock => { lock with hostname := some setting.localHost }) .writePid s.lock
  | .writePid => write (fun lock => { lock with pid := some (printed p) }) .writeMode s.lock
  | .writeMode => write (fun lock => { lock with mode := some (setting.mode p) }) .owner s.lock
  | .cleanUp file =>
    (s.lock.map (·.unlink file), match file.next with
      | some next => .cleanUp next
      | none => .cleanUpDirectory)
  | .cleanUpDirectory => (s.lock.filter (! ·.empty), .returned false)
  | .owner => (s.lock, .enter .own (setting.newToken p))
  | .readToken left =>
    (s.lock, match s.lock.bind (·.token) with
      | none | some [] => .returned false
      | some existing => .readMode left existing)
  | .readMode left existing =>
    (s.lock, match s.lock.bind (·.mode) with
      | none => .returned false
      | some mode => .readHostname left existing mode)
  | .readHostname left existing mode =>
    (s.lock, match s.lock.bind (·.hostname) with
      | none => .returned false
      | some host => .readPid left existing mode host)
  | .readPid left existing mode host =>
    (s.lock, match s.lock.bind (·.pid) with
      | none => .returned false
      | some pid => .probe left existing mode host pid)
  | .probe left existing mode host pid =>
    (s.lock, match mode with
      | .slurm => .readJob left existing
      | .other => .returned false
      | _ => judgeProcess setting s.alive left existing mode host pid)
  | .readJob left existing =>
    (s.lock, match (s.lock.bind (·.jobid)).bind numeral with
      | none => .returned false
      | some job => .accounting left existing job)
  | .accounting left existing job =>
    (s.lock, if s.ended job then .enter (.reclaim left) existing else .returned false)
  | .enter purpose expected =>
    (s.lock, if s.lock.isNone then afterRelease purpose else .compare purpose expected)
  | .compare purpose expected =>
    (s.lock, if s.lock.bind (·.token) = some expected ∧ expected ≠ [] then .unlink purpose .token
      else .returned false)
  | .unlink purpose file =>
    (s.lock.map (·.unlink file), match file.next with
      | some next => .unlink purpose next
      | none => .removeDirectory purpose)
  | .removeDirectory purpose =>
    match s.lock with
    | none => (none, .returned false)
    | some lock => if lock.empty then (none, afterRelease purpose) else (some lock, .returned false)
  | .returned success => (s.lock, .returned success)

def Phase.writes : Phase → Bool
  | .writeToken | .writeHostname | .writePid | .writeMode => true
  | _ => false

def step (s : State) : Action → Option State
  | .advance p =>
    if s.alive p then
      let (lock, phase) := operate setting s p (s.phase p)
      some { s with lock, phase := Function.update s.phase p phase }
    else none
  | .fail p =>
    if s.alive p && (s.phase p).writes then
      some { s with phase := Function.update s.phase p (.cleanUp .token) }
    else none
  | .die p => some { s with alive := Function.update s.alive p false }
  | .jobEnds job => some { s with ended := Function.update s.ended job true }

/-! ## Stages of an acquisition -/

/-- Before the process has made the directory, while it owns it or makes or removes it, and
after. -/
inductive Stage
  | before | holding | after
  deriving DecidableEq, Repr

def Phase.stage : Phase → Stage
  | .attempt _ | .readToken _ | .readMode .. | .readHostname .. | .readPid .. | .probe ..
  | .readJob .. | .accounting .. => .before
  | .enter (.reclaim _) _ | .compare (.reclaim _) _ | .unlink (.reclaim _) _
  | .removeDirectory (.reclaim _) => .before
  | .writeToken | .writeHostname | .writePid | .writeMode | .cleanUp _ | .cleanUpDirectory
  | .owner | .enter .own _ | .compare .own _ | .unlink .own _ | .removeDirectory .own => .holding
  | .returned _ => .after

def State.stage (s : State) (p : Process) : Stage :=
  if s.alive p then (s.phase p).stage else .after

/-- The process has returned from the acquisition and is not back from the release. -/
def Phase.owns : Phase → Bool
  | .owner | .enter .own _ | .compare .own _ | .unlink .own _ | .removeDirectory .own => true
  | _ => false

/-- The process is past its token check, and not past its `rmdir`. -/
def Phase.removes : Phase → Bool
  | .cleanUp _ | .cleanUpDirectory | .unlink .. | .removeDirectory _ => true
  | _ => false

end StorageScaleTest.Dispatch
