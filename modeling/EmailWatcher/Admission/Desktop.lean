import EmailWatcher.Library.Machine
import EmailWatcher.Admission.Coordinator
import Mathlib.Logic.Function.Basic

-- Any number of threads that share a coordinator, and the supervisor that cleans up after them.
namespace Admission

variable {ι α : Type}

-- What a thread asks of the coordinator, with what its callbacks answer under the lock.
inductive Request
  | requireAdmitted
  | refresh         (answers : Coordinator.Answers)
  | acknowledge     (expectedRevision : String) (outcome : Except EngineError Unit)
                    (answers : Coordinator.Answers)
  | initialization  (intent : ConfigInitializationIntent)
                    (outcome : Except EngineError ConfigInitialization)
                    (inspect : Except EngineError NtfyDisclosureStatus)
                    (stage : InitializationAdmissionExpectation →
                      Except EngineError (Option AdmissionToken))
                    (revalidate : Except EngineError Unit)
  | mutation        (failure : MutationFailure)
  -- The observer of the engine's errors is called.
  | report          (token : AdmissionToken) (error : EngineError)

inductive Reply (α : Type)
  | permit     (n : Nat)
  | transition (update : ConfigAdmissionUpdate)
  | value      (a : α)
  | done
  deriving DecidableEq, Repr

-- Where a call stands between two of its sections.
inductive Call (α : Type)
  -- `mutate_with_failure` waits for the active effects.
  | draining     (failure : MutationFailure) (generation : Nat)
  -- It drops the workers that it has taken.
  | dropping     (failure : MutationFailure) (generation : Nat) (workers : AdmissionWorkers)
  -- `mutate()` is running.
  | mutating     (failure : MutationFailure) (generation : Nat) (priorToken : Option AdmissionToken)
  -- `restage()` is running, after the outcome of the mutation.
  | restaging    (failure : MutationFailure) (generation : Nat) (priorToken : Option AdmissionToken)
                 (outcome : Except EngineError α)
  -- `activate_mutation_workers`, before and after the revalidation.
  | revalidating (generation : Nat) (outcome : Except EngineError α) (staged : AdmissionWorkers)
  | activating   (generation : Nat) (outcome : Except EngineError α) (staged : AdmissionWorkers)
  -- `fail_config_mutation`, and the error that is returned thereafter.
  | failing      (generation : Nat) (error : EngineError)
  -- What all calls do at their end.
  | handing      (cleanup : AdmissionCleanup) (reply : Except EngineError (Reply α))
  | emitting     (update : ConfigAdmissionUpdate) (reply : Except EngineError (Reply α))
  | returning    (reply : Except EngineError (Reply α))

-- What the callbacks of a mutation answer, and what the engine says of the workers that are staged.
structure Answer (α : Type) where
  mutate     : Except EngineError α
  restage    : Except EngineError (Option AdmissionToken)
  revalidate : Except EngineError Unit

structure Desktop (ι α : Type) where
  coordinator : Coordinator
  permits     : List Nat
  granted     : Nat
  calls       : ι → Option (Call α)
  -- The supervisor's channel, and the update that it emits when it has dropped the workers.
  supervising : Bool
  cleanups    : List AdmissionCleanup
  cleaning    : Option ConfigAdmissionUpdate
  emitted     : List ConfigAdmissionUpdate

inductive Act (ι α : Type)
  | call       (i : ι) (request : Request)
  | advance    (i : ι) (answer : Answer α)
  | dropPermit (permit : Nat)
  | supervise
  -- The supervisor's sender is taken away.
  | stop

def Coordinator.Completion.call (reply : Except EngineError (Reply α)) : Coordinator.Completion → Call α
  | .cleanup x  => .handing x reply
  | .emit u     => .emitting u reply
  | .silent     => .returning reply

namespace Desktop

def initial : Desktop ι α where
  coordinator := .initial
  permits     := []
  granted     := 0
  calls _     := none
  supervising := true
  cleanups    := []
  cleaning    := none
  emitted     := []

variable [DecidableEq ι]

def put (d : Desktop ι α) (i : ι) (c : Coordinator) (call : Option (Call α)) : Desktop ι α :=
  { d with coordinator := c, calls := Function.update d.calls i call }

-- The first section of a call.
def enter (d : Desktop ι α) (i : ι) : Request → Desktop ι α
  | .requireAdmitted =>
    match d.coordinator.requireAdmitted with
    | (c, .ok ())   =>
      { d.put i c (some (.returning (.ok (.permit d.granted)))) with
        permits := d.granted :: d.permits, granted := d.granted + 1 }
    | (c, .error e) => d.put i c (some (.returning (.error e)))
  | .refresh answers =>
    let (c, reply, completion) := d.coordinator.refreshWith answers
    d.put i c (some (completion.call (reply.map .transition)))
  | .acknowledge expectedRevision outcome answers =>
    let (c, reply, completion) := d.coordinator.acknowledgeWith expectedRevision outcome answers
    d.put i c (some (completion.call (reply.map .transition)))
  | .initialization intent outcome inspect stage revalidate =>
    let (c, reply, completion) :=
      d.coordinator.initializeWith intent outcome inspect stage revalidate
    d.put i c (some (completion.call (reply.map .transition)))
  | .mutation failure =>
    match d.coordinator.beginMutation with
    | (c, .ok generation) => d.put i c (some (.draining failure generation))
    | (c, .error e)       => d.put i c (some (.returning (.error e)))
  | .report token error =>
    let (c, cleanup) := d.coordinator.reportError token error
    d.put i c (some (cleanup.elim (.returning (.ok .done)) (.handing · (.ok .done))))

-- What a call does next.
def advance (d : Desktop ι α) (i : ι) (answer : Answer α) : Call α → Except Unit (Desktop ι α)
  | .draining failure generation =>
    if d.coordinator.inner.activeEffects ≠ 0 then .error ()
    else
      match d.coordinator.takeMutatingWorkers generation with
      | (c, .ok workers) => .ok <| d.put i c (some (.dropping failure generation workers))
      | (c, .error e)    => .ok <| d.put i c (some (.returning (.error e)))
  | .dropping failure generation workers =>
    .ok <| d.put i (d.coordinator.dropWorkers workers) (some (.mutating failure generation workers.token))
  | .mutating failure generation priorToken =>
    .ok <| d.put i d.coordinator (some (.restaging failure generation priorToken answer.mutate))
  | .restaging failure generation priorToken outcome =>
    match d.coordinator.stage answer.restage with
    | (c, .error e)   => .ok <| d.put i c (some (.failing generation e))
    | (c, .ok staged) =>
      if !outcome.isOk ∧ failure = .configUnchanged ∧ priorToken ≠ staged.token then
        .ok <| d.put i (c.dropWorkers staged) <| some <| .failing generation <|
          .host "conflict" "Watcher configuration changed during config mutation"
      else .ok <| d.put i c (some (.revalidating generation outcome staged))
  | .revalidating generation outcome staged =>
    match answer.revalidate with
    | .ok ()   => .ok <| d.put i d.coordinator (some (.activating generation outcome staged))
    | .error e => .ok <| d.put i (d.coordinator.dropWorkers staged) (some (.failing generation e))
  | .activating generation outcome staged =>
    match d.coordinator.activateMutationWorkers generation staged with
    | (c, .ok update) => .ok <| d.put i c (some (.emitting update (outcome.map .value)))
    | (c, .error e)   => .ok <| d.put i c (some (.failing generation e))
  | .failing generation error =>
    match d.coordinator.failConfigMutation generation with
    | (c, .ok update) => .ok <| d.put i c (some (.emitting update (.error error)))
    | (c, .error e)   => .ok <| d.put i c (some (.returning (.error e)))
  | .handing cleanup reply =>
    if d.supervising then
      .ok { d.put i d.coordinator (some (.returning reply)) with cleanups := d.cleanups ++ [cleanup] }
    else .ok <| d.put i (d.coordinator.restoreCleanup cleanup) (some (.returning reply))
  | .emitting update reply =>
    .ok { d.put i d.coordinator (some (.returning reply)) with emitted := d.emitted ++ [update] }
  | .returning _ =>
    .ok <| d.put i d.coordinator none

-- The supervisor drops the workers of the next cleanup, or emits the update of the last.
def supervise (d : Desktop ι α) : Except Unit (Desktop ι α) :=
  match d.cleaning, d.cleanups with
  | some update, _                   =>
    .ok { d with cleaning := none, emitted := d.emitted ++ [update] }
  | none,        []                  => .error ()
  | none,        cleanup :: cleanups =>
    .ok { d with
      coordinator := d.coordinator.dropWorkers cleanup.workers, cleanups := cleanups,
      cleaning := some cleanup.update }

end Desktop

open Desktop in
def desktop [DecidableEq ι] : Machine (Desktop ι α) (Act ι α) Unit where
  step d
    | .call i request    =>
      match d.calls i with
      | none   => .ok <| d.enter i request
      | some _ => .error ()
    | .advance i answer  =>
      match d.calls i with
      | none      => .error ()
      | some call => d.advance i answer call
    | .dropPermit permit =>
      if permit ∈ d.permits then
        .ok { d with coordinator := d.coordinator.dropPermit, permits := d.permits.erase permit }
      else .error ()
    | .supervise         => d.supervise
    | .stop              => .ok { d with supervising := false }

section Notions

-- The set of workers has been activated, and has not been revoked.
def Coordinator.Live (c : Coordinator) (n : Nat) : Prop :=
  n ∈ c.roster.activated ∧ n ∉ c.roster.revoked

-- `mutate()` is running.
def Call.Mutates : Call α → Prop
  | .mutating .. => True
  | _            => False

-- `mutate_with_failure` has passed its first check, and has not come to its end.
def Call.InMutation : Call α → Prop
  | .draining ..     => True
  | .dropping ..     => True
  | .mutating ..     => True
  | .restaging ..    => True
  | .revalidating .. => True
  | .activating ..   => True
  | .failing ..      => True
  | _                => False

-- The update that is still to be emitted.
def Call.update : Call α → Option ConfigAdmissionUpdate
  | .handing x _  => some x.update
  | .emitting u _ => some u
  | _             => none

-- How many sections and callbacks a call has before it at most.
def Call.remaining : Call α → Nat
  | .draining ..     => 9
  | .dropping ..     => 8
  | .mutating ..     => 7
  | .restaging ..    => 6
  | .revalidating .. => 5
  | .activating ..   => 4
  | .failing ..      => 3
  | .handing ..      => 2
  | .emitting ..     => 2
  | .returning ..    => 1

namespace Desktop

def Mutates (d : Desktop ι α) (i : ι) : Prop :=
  ∃ call, d.calls i = some call ∧ call.Mutates

def InMutation (d : Desktop ι α) (i : ι) : Prop :=
  ∃ call, d.calls i = some call ∧ call.InMutation

-- How much the call of a thread has before it.
def remaining (d : Desktop ι α) (i : ι) : Nat :=
  (d.calls i).elim 0 Call.remaining

-- An update that has been emitted or is still to be.
def Issued (d : Desktop ι α) (u : ConfigAdmissionUpdate) : Prop :=
  u ∈ d.emitted ∨ d.cleaning = some u ∨ (∃ x ∈ d.cleanups, x.update = u) ∨
  ∃ i call, d.calls i = some call ∧ call.update = some u

end Desktop

end Notions

end Admission
