import EmailWatcher.Basic

-- The admission of the desktop's configuration: each section of code under the coordinator's lock as a
-- function.
namespace Admission

structure EngineError where
  code                     : String
  message                  : String
  retryable                : Option Bool := none
  mailboxOperationRevision : Option Nat := none
  deriving DecidableEq, Repr

def EngineError.host (code message : String) : EngineError where
  code    := code
  message := message

def EngineError.requiresAdmissionRevocation (e : EngineError) : Bool :=
  e.code = "conflict" ∨ e.code = "configuration_error"

-- `ConfigInitializationFailureClass::OutcomeUnknown`, as against a definitive failure.
def EngineError.outcomeUnknown (e : EngineError) : Bool :=
  e.code = "outcome_unknown"

def EngineError.notAdmitted : EngineError :=
  .host "configuration_not_admitted" "Watcher configuration is not admitted"

structure AdmissionToken where
  version  : UInt8
  revision : String
  identity : String
  deriving DecidableEq, Repr

-- What a failed mutation of the configuration may have left behind.
inductive MutationFailure
  | configUnchanged
  | configMayHaveChanged
  deriving DecidableEq, Repr

inductive AdmissionState
  | inspecting
  | mutating
  | missing
  | awaitingAcknowledgement (expectedRevision : String)
  | manualRepairRequired
  | admitted
  deriving DecidableEq, Repr

inductive ConfigAdmissionStatus
  | missing
  | acknowledgementRequired (expectedRevision : String)
  | manualRepairRequired
  | admitted
  deriving DecidableEq, Repr

def AdmissionState.publicStatus : AdmissionState → ConfigAdmissionStatus
  | inspecting | mutating | manualRepairRequired => .manualRepairRequired
  | missing                                      => .missing
  | awaitingAcknowledgement expectedRevision     => .acknowledgementRequired expectedRevision
  | admitted                                     => .admitted

-- Also `AdmissionTransition`, which has the same fields.
structure ConfigAdmissionUpdate where
  generation : Nat
  status     : ConfigAdmissionStatus
  deriving DecidableEq, Repr

inductive NtfyDisclosureStatus
  | missing
  | normalAdmission
  | acknowledgementRequired (expectedRevision : String)
  | manualRepairRequired
  deriving DecidableEq, Repr

section Initialization

structure LocalModelSettings where
  editable : Bool
  endpoint : String
  model    : String
  deriving DecidableEq, Repr

structure EngineSettings where
  localModel           : LocalModelSettings
  notificationsEnabled : Bool
  pollIntervalMinutes  : Nat
  pollingSupported     : Bool
  retentionDays        : Nat
  timezone             : String
  deriving DecidableEq, Repr

structure ConfigInitialization where
  created                      : Bool
  desktopInitializationReceipt : String
  settings                     : EngineSettings
  deriving DecidableEq, Repr

structure ConfigInitializationIntent where
  desktopInitializationReceipt : String
  timezone                     : String
  modelBaseUrl                 : String
  modelName                    : String
  deriving DecidableEq, Repr

-- What `str::trim` takes off: of what Python's `strip` takes off, the separators of information stay.
def trim (text : String) : String :=
  let white (c : Char) : Bool := isSpace c && !(0x1c ≤ c.toNat && c.toNat ≤ 0x1f)
  String.ofList <| (text.toList.dropWhile white).reverse.dropWhile white |>.reverse

-- `text.trim_end_matches('/')`
def trimEndSlashes (text : String) : String :=
  String.ofList <| (text.toList.reverse.dropWhile (· = '/')).reverse

def ConfigInitializationIntent.verify (intent : ConfigInitializationIntent) (settings : EngineSettings)
    (desktopInitializationReceipt : Option String) : Except EngineError Unit :=
  if settings.timezone = trim intent.timezone ∧
    settings.localModel.endpoint = trimEndSlashes intent.modelBaseUrl ∧
    settings.localModel.model = trim intent.modelName ∧
    settings.localModel.editable ∧
    settings.notificationsEnabled ∧
    settings.pollIntervalMinutes = 5 ∧
    settings.retentionDays = 180 ∧
    desktopInitializationReceipt = some intent.desktopInitializationReceipt
  then .ok ()
  else .error <| .host "conflict" "Watcher configuration does not match the requested initialization"

inductive InitializationAdmissionExpectation
  | created        (settings : EngineSettings) (desktopInitializationReceipt : String)
  | outcomeUnknown (intent : ConfigInitializationIntent)
  deriving DecidableEq, Repr

end Initialization

-- A set of workers. Its serial number tells it from every other set.
structure AdmissionWorkers where
  serial : Nat
  token  : Option AdmissionToken
  deriving DecidableEq, Repr

structure AdmissionInner where
  state         : AdmissionState
  workers       : Option AdmissionWorkers
  generation    : Nat
  activeEffects : Nat
  deriving DecidableEq, Repr

-- What has become of the sets of workers: how many have been staged, which have been activated, and which
-- have been revoked.
structure Roster where
  staged    : Nat
  activated : List Nat
  revoked   : List Nat
  deriving DecidableEq, Repr

structure Coordinator where
  inner  : AdmissionInner
  roster : Roster
  deriving DecidableEq, Repr

-- What the coordinator hands to the supervisor.
structure AdmissionCleanup where
  workers : AdmissionWorkers
  update  : ConfigAdmissionUpdate
  deriving DecidableEq, Repr

structure AdmissionAttempt where
  state   : AdmissionState
  workers : Option AdmissionWorkers
  deriving DecidableEq, Repr

-- `u64::MAX`, and `usize::MAX`.
def u64Max : Nat := 2 ^ 64 - 1

namespace Coordinator

def initial : Coordinator where
  inner  := { state := .inspecting, workers := none, generation := 0, activeEffects := 0 }
  roster := { staged := 0, activated := [], revoked := [] }

section Workers

def activate (c : Coordinator) (w : AdmissionWorkers) : Coordinator :=
  { c with roster.activated := w.serial :: c.roster.activated }

def beginRevocation (c : Coordinator) (w : AdmissionWorkers) : Coordinator :=
  { c with roster.revoked := w.serial :: c.roster.revoked }

-- `drop(workers)` begins with the revocation.
def dropWorkers (c : Coordinator) (w : Option AdmissionWorkers) : Coordinator :=
  w.elim c c.beginRevocation

-- A callback has staged a set of workers, or has not.
def stage (c : Coordinator) (r : Except EngineError (Option AdmissionToken)) :
    Coordinator × Except EngineError AdmissionWorkers :=
  match r with
  | .ok token => ({ c with roster.staged := c.roster.staged + 1 }, .ok ⟨c.roster.staged, token⟩)
  | .error e  => (c, .error e)

end Workers

section Permits

def requireAdmitted (c : Coordinator) : Coordinator × Except EngineError Unit :=
  if c.inner.workers.isSome ∧ c.inner.state = .admitted then
    if c.inner.activeEffects < u64Max then
      ({ c with inner.activeEffects := c.inner.activeEffects + 1 }, .ok ())
    else (c, .error <| .host "host_error" "Watcher command admission is unavailable")
  else (c, .error .notAdmitted)

-- `AdmissionPermit::drop`
def dropPermit (c : Coordinator) : Coordinator :=
  { c with inner.activeEffects := c.inner.activeEffects - 1 }

end Permits

def nextGeneration (c : Coordinator) : Except EngineError Coordinator :=
  if c.inner.generation < u64Max then .ok { c with inner.generation := c.inner.generation + 1 }
  else .error <| .host "host_error" "Configuration admission generation is unavailable"

def takeForRevocation (c : Coordinator) : Coordinator × Option AdmissionCleanup :=
  let c := { c with inner.state := .manualRepairRequired }
  match c.inner.workers with
  | none         => (c, none)
  | some workers =>
    let generation := min (c.inner.generation + 1) u64Max
    let c := c.beginRevocation workers
    ({ c with inner.generation := generation, inner.workers := none },
      some ⟨workers, generation, .manualRepairRequired⟩)

-- What the supervisor has not taken. Workers that do not find their place are forgotten, without a drop.
def restoreCleanup (c : Coordinator) (cleanup : AdmissionCleanup) : Coordinator :=
  if c.inner.generation = cleanup.update.generation ∧ c.inner.workers = none then
    { c with inner.workers := some cleanup.workers }
  else c

def tokenIsCurrent (c : Coordinator) (token : AdmissionToken) : Bool :=
  c.inner.state = .admitted ∧ c.inner.workers.bind (·.token) = some token

-- The observer of the engine's errors.
def reportError (c : Coordinator) (token : AdmissionToken) (error : EngineError) :
    Coordinator × Option AdmissionCleanup :=
  if !error.requiresAdmissionRevocation then (c, none)
  else if c.tokenIsCurrent token then c.takeForRevocation
  else (c, none)

section Attempts

-- What the callbacks of `refresh_with` and `acknowledge_with` answer, and what the engine says of the
-- workers that are asked for their revalidation: those that are installed, or those that are staged.
structure Answers where
  inspect    : Except EngineError NtfyDisclosureStatus
  stage      : Except EngineError (Option AdmissionToken)
  revalidate : Except EngineError Unit

def runAdmissionAttempt (c : Coordinator) (inspect : Except EngineError NtfyDisclosureStatus)
    (stage : Except EngineError (Option AdmissionToken)) : Coordinator × AdmissionAttempt :=
  match inspect with
  | .ok .missing => (c, ⟨.missing, none⟩)
  | .ok (.acknowledgementRequired expectedRevision) =>
    (c, ⟨.awaitingAcknowledgement expectedRevision, none⟩)
  | .ok .manualRepairRequired | .error _ => (c, ⟨.manualRepairRequired, none⟩)
  | .ok .normalAdmission =>
    match c.stage stage with
    | (c, .ok workers) => (c, ⟨.admitted, some workers⟩)
    | (c, .error _)    => (c, ⟨.manualRepairRequired, none⟩)

-- Whatever has come of the acknowledgement.
def runAcknowledgementAttempt (c : Coordinator) (_acknowledge : Except EngineError Unit)
    (inspect : Except EngineError NtfyDisclosureStatus)
    (stage : Except EngineError (Option AdmissionToken)) : Coordinator × AdmissionAttempt :=
  c.runAdmissionAttempt inspect stage

def runInitializationAdmissionAttempt (c : Coordinator)
    (inspect : Except EngineError NtfyDisclosureStatus)
    (stage : InitializationAdmissionExpectation → Except EngineError (Option AdmissionToken))
    (expectation : InitializationAdmissionExpectation) :
    Coordinator × AdmissionAttempt × Option EngineError :=
  match inspect with
  | .ok .missing => (c, ⟨.missing, none⟩, none)
  | .ok (.acknowledgementRequired expectedRevision) =>
    (c, ⟨.awaitingAcknowledgement expectedRevision, none⟩, none)
  | .ok .manualRepairRequired => (c, ⟨.manualRepairRequired, none⟩, none)
  | .error e => (c, ⟨.manualRepairRequired, none⟩, some e)
  | .ok .normalAdmission =>
    match c.stage (stage expectation) with
    | (c, .ok workers) => (c, ⟨.admitted, some workers⟩, none)
    | (c, .error e)    => (c, ⟨.manualRepairRequired, none⟩, some e)

-- What the attempt replaces is dropped, as are staged workers that are not valid any more.
def installAttempt (c : Coordinator) (attempt : AdmissionAttempt) (revalidate : Except EngineError Unit) :
    Coordinator × ConfigAdmissionUpdate :=
  let invalid := attempt.state = .admitted ∧ (attempt.workers = none ∨ revalidate ≠ .ok ())
  let (c, attempt) : Coordinator × AdmissionAttempt :=
    if invalid then (c.dropWorkers attempt.workers, ⟨.manualRepairRequired, none⟩) else (c, attempt)
  let c := c.dropWorkers c.inner.workers
  let c := { c with inner.state := attempt.state, inner.workers := attempt.workers }
  let c := match attempt.state, attempt.workers with
    | .admitted, some workers => c.activate workers
    | _,         _            => c
  (c, ⟨c.inner.generation, c.inner.state.publicStatus⟩)

-- What a section leaves to do: hand over a cleanup, emit an update, or neither.
inductive Completion
  | cleanup (cleanup : AdmissionCleanup)
  | emit    (update : ConfigAdmissionUpdate)
  | silent
  deriving DecidableEq, Repr

-- The part that `refresh_with` and `acknowledge_with` share: what is not settled by the workers that are
-- installed is left to `attempt`.
def refreshOr (c : Coordinator) (revalidate : Except EngineError Unit)
    (attempt : Coordinator → Coordinator × AdmissionAttempt) :
    Coordinator × Except EngineError ConfigAdmissionUpdate × Completion :=
  if c.inner.state = .mutating then
    (c, .ok ⟨c.inner.generation, .manualRepairRequired⟩, .silent)
  else if c.inner.state = .admitted ∧ c.inner.workers.isSome then
    if revalidate = .ok () then
      let update : ConfigAdmissionUpdate := ⟨c.inner.generation, .admitted⟩
      (c, .ok update, .emit update)
    else
      let (c, cleanup) := c.takeForRevocation
      let update : ConfigAdmissionUpdate := ⟨c.inner.generation, .manualRepairRequired⟩
      (c, .ok update, cleanup.elim (.emit update) .cleanup)
  else
    match c.nextGeneration with
    | .error e => (c, .error e, .silent)
    | .ok c    =>
      let (c, attempt) := attempt { c with inner.state := .inspecting }
      let (c, update) := c.installAttempt attempt revalidate
      (c, .ok update, .emit update)

def refreshWith (c : Coordinator) (answers : Answers) :
    Coordinator × Except EngineError ConfigAdmissionUpdate × Completion :=
  c.refreshOr answers.revalidate (·.runAdmissionAttempt answers.inspect answers.stage)

def acknowledgeWith (c : Coordinator) (expectedRevision : String) (acknowledge : Except EngineError Unit)
    (answers : Answers) : Coordinator × Except EngineError ConfigAdmissionUpdate × Completion :=
  let revisionMatches := c.inner.state = .awaitingAcknowledgement expectedRevision
  c.refreshOr answers.revalidate fun c =>
    if revisionMatches then c.runAcknowledgementAttempt acknowledge answers.inspect answers.stage
    else c.runAdmissionAttempt answers.inspect answers.stage

-- What the initialization has come to: what is to be admitted, and the failure that leaves it unknown.
def initializationExpectation (intent : ConfigInitializationIntent)
    (outcome : Except EngineError ConfigInitialization) :
    Except EngineError (InitializationAdmissionExpectation × Option EngineError) :=
  match outcome with
  | .ok initialization => do
    if !initialization.created then
      throw <| .host "engine_protocol_error" "Watcher engine did not confirm configuration creation"
    intent.verify initialization.settings (some initialization.desktopInitializationReceipt)
    return (.created initialization.settings initialization.desktopInitializationReceipt, none)
  | .error e =>
    if e.outcomeUnknown then .ok (.outcomeUnknown intent, some e) else .error e

def initializeWith (c : Coordinator) (intent : ConfigInitializationIntent)
    (outcome : Except EngineError ConfigInitialization)
    (inspect : Except EngineError NtfyDisclosureStatus)
    (stage : InitializationAdmissionExpectation → Except EngineError (Option AdmissionToken))
    (revalidate : Except EngineError Unit) :
    Coordinator × Except EngineError ConfigAdmissionUpdate × Completion :=
  if c.inner.state ≠ .missing ∨ c.inner.workers.isSome then
    (c, .error <| .host "configuration_not_admitted"
      "Watcher configuration cannot be initialized in its current state", .silent)
  else
    match c.nextGeneration with
    | .error e => (c, .error e, .silent)
    | .ok c    =>
      match initializationExpectation intent outcome with
      | .error e => (c, .error e, .silent)
      | .ok (expectation, outcomeUnknown) =>
        let c := { c with inner.state := .inspecting }
        let (c, attempt, reconciliationError) :=
          c.runInitializationAdmissionAttempt inspect stage expectation
        let (c, update) := c.installAttempt attempt revalidate
        let reply : Except EngineError ConfigAdmissionUpdate :=
          match reconciliationError, outcomeUnknown with
          | some e, _      => .error e
          | none,   some e => if update.status ≠ .admitted then .error e else .ok update
          | none,   none   => .ok update
        (c, reply, .emit update)

end Attempts

section Mutations

-- The first section of `mutate_with_failure`, which answers with the generation.
def beginMutation (c : Coordinator) : Coordinator × Except EngineError Nat :=
  if c.inner.state ≠ .admitted ∨ c.inner.workers = none then (c, .error .notAdmitted)
  else ({ c with inner.state := .mutating }, .ok c.inner.generation)

-- The second section, once no effect is active.
def takeMutatingWorkers (c : Coordinator) (generation : Nat) :
    Coordinator × Except EngineError AdmissionWorkers :=
  match c.inner.workers with
  | none         => (c, .error .notAdmitted)
  | some workers =>
    if c.inner.generation ≠ generation ∨ c.inner.state ≠ .mutating then (c, .error .notAdmitted)
    else (({ c with inner.workers := none }).beginRevocation workers, .ok workers)

-- Whether a mutation of the generation is still what the coordinator waits for.
def Awaits (c : Coordinator) (generation : Nat) : Prop :=
  c.inner.generation = generation ∧ c.inner.state = .mutating ∧ c.inner.workers = none

instance (c : Coordinator) (generation : Nat) : Decidable (c.Awaits generation) :=
  inferInstanceAs <| Decidable (_ ∧ _ ∧ _)

def failConfigMutation (c : Coordinator) (expectedGeneration : Nat) :
    Coordinator × Except EngineError ConfigAdmissionUpdate :=
  if ¬c.Awaits expectedGeneration then (c, .error .notAdmitted)
  else
    match c.nextGeneration with
    | .error e => (c, .error e)
    | .ok c    =>
      ({ c with inner.state := .manualRepairRequired },
        .ok ⟨c.inner.generation, .manualRepairRequired⟩)

-- The section of `activate_mutation_workers`, after the revalidation. What is not installed is dropped.
def activateMutationWorkers (c : Coordinator) (expectedGeneration : Nat) (staged : AdmissionWorkers) :
    Coordinator × Except EngineError ConfigAdmissionUpdate :=
  if ¬c.Awaits expectedGeneration then (c.dropWorkers staged, .error .notAdmitted)
  else
    match c.nextGeneration with
    | .error e => (c.dropWorkers staged, .error e)
    | .ok c    =>
      let c := { c with inner.state := .admitted, inner.workers := some staged }
      (c.activate staged, .ok ⟨c.inner.generation, .admitted⟩)

end Mutations

end Coordinator

end Admission
