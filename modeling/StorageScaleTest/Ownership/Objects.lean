import Mathlib.Logic.Function.Basic

/-!
# Owned objects

The API objects of one attempt, its creation intents, resource journal and ambiguous absences, and
the lifecycle commands that create, reconcile and delete the objects one API call or journal write
at a time. The attempt's lock admits one command at a time.
-/

namespace StorageScaleTest.Ownership

abbrev Text := List Char
abbrev Key := Text
abbrev Uid := Nat
abbrev Nonce := Nat
abbrev RunId := Nat

/-! ## The API server -/

structure ObjectName where
  kind : Text
  namespaceName : Text
  name : Text
  deriving DecidableEq, Repr

structure ClaimIdentity where
  namespaceUid : Uid
  pvUid : Uid
  pvcUid : Uid
  deriving DecidableEq, Repr

/-- `reservation` holds the claim and the holder that a Lease names. -/
structure Object where
  uid : Uid
  ownership : Nonce
  run : RunId
  reservation : Option (ClaimIdentity × RunId × Nonce)
  deriving DecidableEq, Repr

/-- A sent create of the attempt: it can take effect until its intent's ambiguity horizon ends. -/
structure Request where
  object : ObjectName
  claim : Option ClaimIdentity
  deadline : Nat
  deriving DecidableEq, Repr

/-! ## The attempt -/

structure Attempt where
  run : RunId
  nonce : Nonce

structure Identity where
  object : ObjectName
  nonce : Nonce
  deriving DecidableEq, Repr

structure Intent extends Identity where
  mtime : Nat
  deriving DecidableEq, Repr

structure Resource extends Identity where
  uid : Uid
  deriving DecidableEq, Repr

inductive CleanupStep
  | delete (key : Key)
  | release (key : Key)
  deriving DecidableEq, Repr

/-- What a command is run with: `KUBECTL_CREATE_ATTEMPTS` and `KUBECTL_PROCESS_TIMEOUT_SECONDS`. -/
structure Settings where
  attempts : Nat
  processTimeout : Nat
  deriving DecidableEq, Repr

def Settings.ambiguitySeconds (settings : Settings) : Nat := max 30 settings.processTimeout

def absenceRecheckSeconds : Nat := 2

/-- An object to create under a journal key; a Lease has a claim. -/
structure Creation where
  key : Key
  object : ObjectName
  claim : Option ClaimIdentity
  deriving DecidableEq, Repr

structure Reservation where
  key : Key
  lease : ObjectName
  claim : ClaimIdentity
  deriving DecidableEq, Repr

def Reservation.creation (r : Reservation) : Creation :=
  { key := r.key, object := r.lease, claim := some r.claim }

inductive Command
  | createOwnedObject (key : Key) (object : ObjectName)
  | acquirePvcLease (reservation : Reservation)
  | cleanupCreationIntent (key : Key)
  | deleteJournaled (key : Key)
  | releasePvcLease (reservation : Reservation)
  deriving DecidableEq, Repr

/-- What follows a deletion: a failure, a cleanup marker, or the removal of an intent, after which
a Lease is marked as released. -/
inductive Next
  | fail
  | mark (step : CleanupStep)
  | clear (key : Key) (released : Bool)
  deriving DecidableEq, Repr

inductive Phase
  | idle
  | intend (creation : Creation)
  | create (creation : Creation) (attempt : Nat)
  | observe (creation : Creation) (attempt : Nat)
  | retry (creation : Creation) (attempt : Nat)
  | verify (creation : Creation) (expected : Option Uid)
  | inspect (creation : Creation) (claim : ClaimIdentity)
  | journal (creation : Creation) (uid : Uid)
  | clear (key : Key) (released : Bool)
  | reconcile (key : Key) (released : Bool)
  | await (key : Key) (released : Bool) (intent : Intent)
  | recheck (key : Key) (released : Bool) (intent : Intent)
  | record (key : Key) (released : Bool) (intent : Intent)
  | confirm (key : Key) (released : Bool) (intent : Intent) (uid : Uid)
  | erase (target : Resource) (next : Next)
  | absent (target : Resource) (next : Next)
  | delete (target : Resource) (next : Next)
  | mark (step : CleanupStep)
  | discard (key : Key)
  | release (reservation : Reservation)
  | settle (reservation : Reservation) (resource : Resource)
  | certify (reservation : Reservation) (resource : Resource)
  | expunge (reservation : Reservation) (resource : Resource)
  | gone (reservation : Reservation) (resource : Resource)
  deriving DecidableEq, Repr

def Next.phase : Next → Phase
  | .fail => .idle
  | .mark step => .mark step
  | .clear key released => .clear key released

def Command.phase : Command → Phase
  | .createOwnedObject key object => .intend { key, object, claim := none }
  | .acquirePvcLease reservation => .intend reservation.creation
  | .cleanupCreationIntent key => .reconcile key false
  | .deleteJournaled key => .discard key
  | .releasePvcLease reservation => .release reservation

structure State where
  now : Nat
  nextUid : Uid
  objects : ObjectName → Option Object
  requests : List Request
  intents : Key → Option Intent
  resources : Key → Option Resource
  ambiguousAbsences : Key → Option Identity
  steps : CleanupStep → Bool
  settings : Settings
  phase : Phase

/-- How the next call ends: it is answered, or its answer is lost, for a create with a text that
allows a retry or not. -/
inductive Answer
  | ok
  | lost (retryable : Bool)
  deriving DecidableEq, Repr

inductive Action
  | start (command : Command) (settings : Settings)
  | advance (answer : Answer)
  | crash
  | tick
  /-- A sent create reaches the API server. -/
  | deliver (request : Request)
  | lose (request : Request)
  /-- An object of another attempt is created. -/
  | appear (name : ObjectName) (object : Object)
  /-- An object is deleted, by its owner or by a deletion that was sent earlier. -/
  | vanish (name : ObjectName)
  deriving DecidableEq, Repr

variable (own : Attempt)

def State.enter (s : State) (phase : Phase) : State := { s with phase }

def State.receive (s : State) (object : ObjectName) (claim : Option ClaimIdentity) : State :=
  match s.objects object with
  | some _ => s
  | none =>
    { s with
      nextUid := s.nextUid + 1
      objects := Function.update s.objects object (some {
        uid := s.nextUid
        ownership := own.nonce
        run := own.run
        reservation := claim.map (·, own.run, own.nonce) }) }

/-- `kubectl_verify_object_identity` -/
def verifies (o : Object) (nonce : Nonce) (expected : Option Uid) : Bool :=
  o.ownership = nonce && o.run = own.run && expected.all (o.uid = ·)

/-- `kubectl_pvc_lease_observation_matches` -/
def leaseMatches (o : Object) (claim : ClaimIdentity) (expected : Option Uid) : Bool :=
  o.ownership = own.nonce && o.run = own.run && o.reservation = some (claim, own.run, own.nonce)
    && expected.all (o.uid = ·)

/-- The horizon of a create counts from its intent's modification time. -/
def State.deadline (s : State) (key : Key) : Nat :=
  ((s.intents key).elim s.now (·.mtime)) + s.settings.ambiguitySeconds

/-! ## Creating an object -/

/-- `kubectl_attempt_write_creation_intent`; only a Lease is created without a limit of attempts. -/
def writeIntent (s : State) (c : Creation) : State :=
  if c.claim.isNone && s.settings.attempts = 0 then s.enter .idle
  else match s.intents c.key with
    | some _ => s.enter .idle
    | none =>
      { s with
        intents := Function.update s.intents c.key
          (some { object := c.object, nonce := own.nonce, mtime := s.now })
        phase := .create c 1 }

/-- A create whose answer is lost stays in flight. A Lease is only sent once. -/
def sendCreate (s : State) (c : Creation) (attempt : Nat) : Answer → State
  | .ok =>
    (s.receive own c.object c.claim).enter
      (c.claim.elim (.verify c none) fun claim => .inspect c claim)
  | .lost retryable =>
    { s with
      requests := { object := c.object, claim := c.claim, deadline := s.deadline c.key }
        :: s.requests
      phase := c.claim.elim (if retryable then .observe c attempt else .verify c none)
        fun claim => .inspect c claim }

def observeCreate (s : State) (c : Creation) (attempt : Nat) : State :=
  match s.objects c.object with
  | some o => s.enter (.verify c (some o.uid))
  | none => s.enter (if attempt ≥ s.settings.attempts then .idle else .retry c attempt)

def prepareRetry (s : State) (c : Creation) (attempt : Nat) : State :=
  match s.intents c.key with
  | none => s.enter .idle
  | some intent =>
    { s with
      intents := Function.update s.intents c.key (some { intent with mtime := s.now })
      phase := .create c (attempt + 1) }

def verifyCreated (s : State) (c : Creation) (expected : Option Uid) : State :=
  match s.objects c.object with
  | some o =>
    s.enter (if verifies own o own.nonce expected then .journal c o.uid else .idle)
  | none => s.enter .idle

def inspectLease (s : State) (c : Creation) (claim : ClaimIdentity) : State :=
  match s.objects c.object with
  | some o =>
    s.enter (if leaseMatches own o claim none then .journal c o.uid else .clear c.key false)
  | none => s.enter .idle

def unjournaled (c : Creation) (uid : Uid) : Phase :=
  if c.claim.isSome then .idle
  else .erase { object := c.object, nonce := own.nonce, uid } .fail

/-- `kubectl_attempt_journal_resource` -/
def journalResource (s : State) (c : Creation) (uid : Uid) : State :=
  match s.resources c.key with
  | some _ => s.enter (unjournaled own c uid)
  | none =>
    { s with
      resources := Function.update s.resources c.key
        (some { object := c.object, nonce := own.nonce, uid })
      phase := .clear c.key false }

/-- `kubectl_attempt_clear_creation_intent` -/
def clearIntent (s : State) (key : Key) (released : Bool) : State :=
  { s with
    intents := Function.update s.intents key none
    phase := if released then .mark (.release key) else .idle }

/-! ## Reconciling an intent -/

def reconcileIntent (s : State) (key : Key) (released : Bool) : State :=
  match s.intents key with
  | none => s.enter .idle
  | some intent =>
    match s.objects intent.object with
    | none => s.enter (.await key released intent)
    | some o => s.enter (.confirm key released intent o.uid)

/-- The second observation waits until the ambiguity horizon of the intent is over. -/
def awaitHorizon (s : State) (key : Key) (released : Bool) (intent : Intent) : State :=
  if intent.mtime + s.settings.ambiguitySeconds + absenceRecheckSeconds ≤ s.now
  then s.enter (.recheck key released intent) else s

def recheckIntent (s : State) (key : Key) (released : Bool) (intent : Intent) : State :=
  match s.objects intent.object with
  | none => s.enter (.record key released intent)
  | some o => s.enter (.confirm key released intent o.uid)

def recordAbsence (s : State) (key : Key) (released : Bool) (intent : Intent) : State :=
  match s.ambiguousAbsences key with
  | some identity => s.enter (if identity = intent.toIdentity then .clear key released else .idle)
  | none =>
    { s with
      ambiguousAbsences := Function.update s.ambiguousAbsences key (some intent.toIdentity)
      phase := .clear key released }

def confirmIntent (s : State) (key : Key) (released : Bool) (intent : Intent) (uid : Uid) :
    State :=
  match s.objects intent.object with
  | some o =>
    s.enter (if verifies own o intent.nonce (some uid)
      then .erase { intent with uid } (.clear key released) else .idle)
  | none => s.enter .idle

/-! ## Deleting an object -/

/-- `kubectl_delete_owned_object` verifies the identity; when that fails, the object must be
absent. -/
def eraseOwned (s : State) (target : Resource) (next : Next) : Answer → State
  | .ok =>
    match s.objects target.object with
    | some o =>
      s.enter (if verifies own o target.nonce (some target.uid) then .delete target next
        else .absent target next)
    | none => s.enter (.absent target next)
  | .lost _ => s.enter (.absent target next)

def observeAbsent (s : State) (target : Resource) (next : Next) : State :=
  s.enter (if (s.objects target.object).isSome then .idle else next.phase)

/-- The deletion names the object without its UID. -/
def deleteNamed (s : State) (target : Resource) (next : Next) : State :=
  match s.objects target.object with
  | none => s.enter .idle
  | some _ =>
    { s with objects := Function.update s.objects target.object none, phase := next.phase }

def discardJournaled (s : State) (key : Key) : State :=
  if s.steps (.delete key) then s.enter .idle
  else match s.resources key with
    | none => s.enter .idle
    | some resource => s.enter (.erase resource (.mark (.delete key)))

/-! ## Releasing a Lease -/

def Reservation.names (r : Reservation) (identity : Identity) : Bool :=
  identity.object = r.lease && identity.nonce = own.nonce

def releaseLease (s : State) (r : Reservation) : State :=
  if s.steps (.release r.key) then s.enter .idle
  else match s.resources r.key, s.intents r.key with
    | none, none => s.enter (.mark (.release r.key))
    | none, some intent =>
      s.enter (if r.names own intent.toIdentity then .reconcile r.key true else .idle)
    | some resource, none =>
      s.enter (if resource.object.kind = r.lease.kind then .settle r resource else .idle)
    | some resource, some intent =>
      if r.names own resource.toIdentity && intent.toIdentity = resource.toIdentity then
        { s with
          intents := Function.update s.intents r.key none
          phase := .settle r resource }
      else s.enter .idle

def settleLease (s : State) (r : Reservation) (resource : Resource) : State :=
  s.enter (if (s.objects resource.object).isSome then .certify r resource else .gone r resource)

def certifyLease (s : State) (r : Reservation) (resource : Resource) : State :=
  match s.objects resource.object with
  | some o =>
    s.enter (if leaseMatches own o r.claim (some resource.uid) then .expunge r resource else .idle)
  | none => s.enter .idle

/-- The deletion has the UID as its precondition, and its outcome is not looked at. -/
def expungeLease (s : State) (r : Reservation) (resource : Resource) : Answer → State
  | .ok =>
    { s with
      objects := if (s.objects resource.object).any (·.uid = resource.uid)
        then Function.update s.objects resource.object none else s.objects
      phase := .gone r resource }
  | .lost _ => s.enter (.gone r resource)

def observeGone (s : State) (r : Reservation) (resource : Resource) : State :=
  s.enter (if (s.objects resource.object).any (·.uid = resource.uid) then .idle
    else .mark (.release r.key))

/-! ## Steps -/

/-- A call that only reads, or a local write: the command fails with it. -/
def orFail (s : State) (answer : Answer) (result : State) : State :=
  match answer with
  | .ok => result
  | .lost _ => s.enter .idle

def perform (s : State) (answer : Answer) : Phase → State
  | .idle => s
  | .intend c => orFail s answer (writeIntent own s c)
  | .create c attempt => sendCreate own s c attempt answer
  | .observe c attempt => orFail s answer (observeCreate s c attempt)
  | .retry c attempt => orFail s answer (prepareRetry s c attempt)
  | .verify c expected => orFail s answer (verifyCreated own s c expected)
  | .inspect c claim => orFail s answer (inspectLease own s c claim)
  | .journal c uid =>
    match answer with
    | .ok => journalResource own s c uid
    | .lost _ => s.enter (unjournaled own c uid)
  | .clear key released => orFail s answer (clearIntent s key released)
  | .reconcile key released => orFail s answer (reconcileIntent s key released)
  | .await key released intent => awaitHorizon s key released intent
  | .recheck key released intent => orFail s answer (recheckIntent s key released intent)
  | .record key released intent => orFail s answer (recordAbsence s key released intent)
  | .confirm key released intent uid => orFail s answer (confirmIntent own s key released intent uid)
  | .erase target next => eraseOwned own s target next answer
  | .absent target next => orFail s answer (observeAbsent s target next)
  | .delete target next => orFail s answer (deleteNamed s target next)
  | .mark step =>
    orFail s answer { s with steps := Function.update s.steps step true, phase := .idle }
  | .discard key => discardJournaled s key
  | .release r => orFail s answer (releaseLease own s r)
  | .settle r resource => orFail s answer (settleLease s r resource)
  | .certify r resource => orFail s answer (certifyLease own s r resource)
  | .expunge r resource => expungeLease s r resource answer
  | .gone r resource => orFail s answer (observeGone s r resource)

/-- Callers create under a key once: the fixed keys belong to one submission, and a helper's key
carries a random token. -/
def Command.fresh (s : State) : Command → Bool
  | .createOwnedObject key _ => (s.resources key).isNone
  | .acquirePvcLease reservation => (s.resources reservation.key).isNone
  | _ => true

def step (s : State) : Action → Option State
  | .start command settings =>
    if s.phase = .idle ∧ command.fresh s then some { s with settings, phase := command.phase }
    else none
  | .advance answer => some (perform own s answer s.phase)
  | .crash => some (s.enter .idle)
  | .tick => some { s with now := s.now + 1 }
  | .deliver request =>
    if request ∈ s.requests ∧ s.now ≤ request.deadline then
      some { s.receive own request.object request.claim with requests := s.requests.erase request }
    else none
  | .lose request => some { s with requests := s.requests.erase request }
  | .appear name object =>
    if s.objects name = none ∧ object.ownership ≠ own.nonce ∧ object.uid = s.nextUid then
      some { s with
        nextUid := s.nextUid + 1
        objects := Function.update s.objects name (some object) }
    else none
  | .vanish name => some { s with objects := Function.update s.objects name none }

end StorageScaleTest.Ownership
