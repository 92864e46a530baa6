import EmailWatcher.Admission.Coordinator
import EmailWatcher.Library.Machine

-- When the mailboxes are checked next, by the schedule and after the checks that the user asks for.
namespace Polls

open Admission (EngineError)

structure CheckResult where
  active               : Bool
  reason               : Option String
  mailboxPollState     : Option String
  recoveryPending      : Option Bool
  recoveryState        : Option String
  recoveryFailureCode  : Option String
  recoveryNextRetryAt  : Option String
  deriving DecidableEq, Repr

inductive ScheduledCheckStatus
  | complete
  | deliveryFailed
  | inactive
  | recoveryPending
  | checkFailed
  deriving DecidableEq, Repr

structure ScheduledCheckEvent where
  mailboxOperationRevision : Option Nat
  status                   : ScheduledCheckStatus
  failedNotifications      : Nat
  mailboxPollState         : Option String
  reason                   : Option String
  recoveryPending          : Option Bool
  recoveryState            : Option String
  recoveryFailureCode      : Option String
  recoveryNextRetryAt      : Option String
  errorCode                : Option String
  errorRetryable           : Option Bool
  deriving DecidableEq, Repr

namespace ScheduledCheckEvent

def fromCheck (check : CheckResult) (failedNotifications mailboxOperationRevision : Nat) : ScheduledCheckEvent :=
  let recoveryPending := check.recoveryPending = some true
  let whenPending (x : Option String) := if recoveryPending then x else none
  {
    mailboxOperationRevision := some mailboxOperationRevision
    status :=
      if recoveryPending then .recoveryPending
      else if !check.active && check.reason.isSome then .inactive
      else if failedNotifications = 0 then .complete
      else .deliveryFailed
    failedNotifications := failedNotifications
    mailboxPollState    := if check.active then check.mailboxPollState else none
    reason              := check.reason
    recoveryPending     := if recoveryPending then some true else none
    recoveryState       := whenPending check.recoveryState
    recoveryFailureCode := whenPending check.recoveryFailureCode
    recoveryNextRetryAt := whenPending check.recoveryNextRetryAt
    errorCode           := none
    errorRetryable      := none
  }

def checkFailed (error : EngineError) : ScheduledCheckEvent where
  mailboxOperationRevision := error.mailboxOperationRevision
  status                   := .checkFailed
  failedNotifications      := 0
  mailboxPollState         := none
  reason                   := none
  recoveryPending          := none
  recoveryState            := none
  recoveryFailureCode      := none
  recoveryNextRetryAt      := none
  errorCode                := some error.code
  errorRetryable           := error.retryable

end ScheduledCheckEvent

section Deadlines

def u64Max : Nat :=
  0xffffffffffffffff

-- `AtomicU64`
def word : Nat :=
  0x10000000000000000

-- `Duration::MAX`, in nanoseconds.
def durationMax : Nat :=
  u64Max * 1000000000 + 999999999

def pendingPoll (event : ScheduledCheckEvent) : Bool :=
  (event.status = .complete ∨ event.status = .deliveryFailed) ∧ event.mailboxPollState = some "pending"

def pollDelay (interval : Nat) (event : ScheduledCheckEvent) : Nat :=
  if pendingPoll event then min interval 5 else interval

-- `next_check_unix_ms`, at a time in nanoseconds since the epoch.
def deadline (now : Int) (intervalMinutes : Nat) : Nat :=
  let seconds := min (intervalMinutes * 60) u64Max
  let millis := min (now.toNat + seconds * 1000000000) durationMax / 1000000
  if millis ≤ u64Max then millis else u64Max

-- Whatever the interval and the time, the deadline is the exact one, or the last one that there is.
theorem deadline_eq (now : Int) (intervalMinutes : Nat) :
    deadline now intervalMinutes = min ((now.toNat + intervalMinutes * 60 * 1000000000) / 1000000) u64Max := by
  have hpos : 0 < u64Max := by decide
  unfold deadline durationMax
  dsimp only
  generalize u64Max = m at hpos
  generalize intervalMinutes * 60 = seconds
  generalize now.toNat = elapsed
  obtain hs | hs := Nat.le_total seconds m
  · rw [Nat.min_eq_left hs]
    obtain ht | ht := Nat.le_total (elapsed + seconds * 1000000000) (m * 1000000000 + 999999999)
    · rw [Nat.min_eq_left ht]
      split <;> omega
    · rw [Nat.min_eq_right ht]
      split <;> omega
  · rw [Nat.min_eq_right hs]
    obtain ht | ht := Nat.le_total (elapsed + m * 1000000000) (m * 1000000000 + 999999999)
    · rw [Nat.min_eq_left ht]
      split <;> omega
    · rw [Nat.min_eq_right ht]
      split <;> omega

end Deadlines

structure PollScheduler where
  enabled         : Bool
  intervalMinutes : Nat
  nextCheck       : Nat
  -- `ManualProgress`
  revision        : Nat
  deadline        : Option Nat
  stopped         : Bool
  cancelled       : Bool
  -- The revision that the scheduled check under way was started at, and the deadlines of the observations that do not
  -- have the lock yet.
  running         : Option Nat
  observing       : List Nat
  -- What has been: the deadline of the last check that finished, or else the first one, the deadlines that were
  -- recorded since the last check started, and the number of all that were recorded.
  base            : Nat
  manual          : List Nat
  recorded        : Nat
  deriving DecidableEq, Repr

inductive Action
  | checkStarted
  | checkFinished   (event : ScheduledCheckEvent) (now : Int)
  | observeManualAt (check : CheckResult) (failed : Nat) (now : Int)
  | record          (observation : Nat)
  | stop
  | cancel
  deriving DecidableEq, Repr

namespace PollScheduler

def initial (enabled : Bool) (intervalMinutes : Nat) (now : Int) : PollScheduler :=
  let first := if enabled then Polls.deadline now intervalMinutes else 0
  {
    enabled         := enabled
    intervalMinutes := intervalMinutes
    nextCheck       := first
    revision        := 0
    deadline        := none
    stopped         := false
    cancelled       := false
    running         := none
    observing       := []
    base            := first
    manual          := []
    recorded        := 0
  }

variable (s : PollScheduler)

def checkStarted : PollScheduler := { s with
  deadline := none
  running  := some s.revision
  manual   := []
}

-- A deadline that was recorded while the check was under way is not overwritten.
def merge (started deadline : Nat) : Nat :=
  match s.deadline with
  | some manual => if s.revision ≠ started then min deadline manual else deadline
  | none        => deadline

def checkFinished (started : Nat) (event : ScheduledCheckEvent) (now : Int) : PollScheduler :=
  let deadline := Polls.deadline now (pollDelay s.intervalMinutes event)
  { s with nextCheck := s.merge started deadline, running := none, base := deadline }

def isStopped : Bool :=
  s.cancelled || s.stopped

-- `observe_manual_at`, up to the lock.
def observeManualAt (check : CheckResult) (failed : Nat) (now : Int) : PollScheduler :=
  let event := ScheduledCheckEvent.fromCheck check failed 0
  if !s.enabled || !check.active || s.isStopped || !pendingPoll event then s
  else { s with observing := Polls.deadline now (pollDelay s.intervalMinutes event) :: s.observing }

-- The section under the lock, which ends with a `fetch_min`. The revision wraps.
def record (k deadline : Nat) : PollScheduler := { s with
  revision  := (s.revision + 1) % word
  deadline  := some (s.deadline.elim deadline (min · deadline))
  nextCheck := min s.nextCheck deadline
  observing := s.observing.eraseIdx k
  manual    := s.manual ++ [deadline]
  recorded  := s.recorded + 1
}

end PollScheduler

def poll : Machine PollScheduler Action Unit where
  step s
    | .checkStarted            => if s.running = none then .ok s.checkStarted else .error ()
    | .checkFinished event now =>
      match s.running with
      | some started => .ok (s.checkFinished started event now)
      | none         => .error ()
    | .observeManualAt check failed now => .ok (s.observeManualAt check failed now)
    | .record k                =>
      match s.observing[k]? with
      | some deadline => .ok (s.record k deadline)
      | none          => .error ()
    | .stop                    => .ok { s with stopped := true }
    | .cancel                  => .ok { s with cancelled := true }

namespace PollScheduler

variable {s s' : PollScheduler} {a : Action}

-- Of the observations since the last check started, the progress knows the number and the earliest deadline.
structure Progress (s : PollScheduler) : Prop where
  revision : s.revision = s.recorded % word
  length   : s.manual.length ≤ s.recorded
  nil      : s.deadline = none ↔ s.manual = []
  earliest : ∀ n, s.deadline.elim n (min n) = s.manual.foldl min n
  started  : ∀ started, s.running = some started → started = (s.recorded - s.manual.length) % word
  next     : s.running = none → s.nextCheck = s.manual.foldl min s.base

theorem Progress.initial (enabled : Bool) (intervalMinutes : Nat) (now : Int) :
    (initial enabled intervalMinutes now).Progress where
  revision := rfl
  length   := Nat.le_refl _
  nil      := iff_of_true rfl rfl
  earliest := fun _ => rfl
  started  := nofun
  next _   := rfl

theorem Progress.checkStarted (h : s.Progress) : s.checkStarted.Progress where
  revision    := h.revision
  length      := Nat.zero_le _
  nil         := iff_of_true rfl rfl
  earliest _  := rfl
  started _ hs := by
    cases hs
    exact h.revision
  next        := nofun

-- The revision tells whether anything was recorded since the check started.
theorem Progress.merge {started : Nat} (h : s.Progress) (hr : s.running = some started) (hlt : s.recorded < word)
    (deadline : Nat) : s.merge started deadline = s.manual.foldl min deadline := by
  rw [PollScheduler.merge, ← h.earliest]
  cases hd : s.deadline
  case none        => rfl
  case some manual =>
    have hne : s.revision ≠ started := by
      have hnil : s.manual ≠ [] := fun hnil => nomatch hd.symm.trans (h.nil.mpr hnil)
      have hpos := List.length_pos_iff.mpr hnil
      have hle := h.length
      rw [h.revision, h.started started hr, Nat.mod_eq_of_lt (by omega), Nat.mod_eq_of_lt (by omega)]
      omega
    simp only [if_pos hne, Option.elim_some]

theorem Progress.checkFinished {started : Nat} {event : ScheduledCheckEvent} {now : Int} (h : s.Progress)
    (hr : s.running = some started) (hlt : s.recorded < word) :
    (s.checkFinished started event now).Progress :=
  ⟨h.revision, h.length, h.nil, h.earliest, nofun, fun _ => h.merge hr hlt _⟩

theorem Progress.record {k deadline : Nat} (h : s.Progress) : (s.record k deadline).Progress where
  revision :=
    (congrArg (fun revision => (revision + 1) % word) h.revision).trans (Nat.mod_add_mod _ _ _)
  length := by
    have hle := h.length
    simp only [PollScheduler.record, List.length_append, List.length_singleton]
    omega
  nil := iff_of_false nofun (List.append_ne_nil_of_right_ne_nil _ (List.cons_ne_nil _ _))
  earliest n := by
    have hn := h.earliest n
    simp only [PollScheduler.record, List.foldl_append, List.foldl_cons, List.foldl_nil, ← hn]
    cases s.deadline
    case none   => rfl
    case some d => exact (Nat.min_assoc n d deadline).symm
  started started hs := by
    have hstarted := h.started started hs
    have hle := h.length
    simp only [PollScheduler.record, List.length_append, List.length_singleton]
    rw [hstarted, Nat.add_sub_add_right]
  next hr := by
    simp only [PollScheduler.record, List.foldl_append, List.foldl_cons, List.foldl_nil]
    rw [h.next hr]

theorem Progress.step (h : s.recorded < word → s.Progress) (hstep : poll.step s a = .ok s')
    (hlt : s'.recorded < word) : s'.Progress := by
  cases a
  case checkStarted            =>
    simp only [poll] at hstep
    split at hstep <;> cases hstep
    exact (h hlt).checkStarted
  case checkFinished event now =>
    simp only [poll] at hstep
    split at hstep <;> cases hstep
    rename_i started hr
    exact (h hlt).checkFinished hr hlt
  case observeManualAt check failed now =>
    cases hstep
    rw [PollScheduler.observeManualAt] at hlt ⊢
    split at hlt
    case isTrue hskip   =>
      rw [if_pos hskip]
      exact h hlt
    case isFalse hskip  =>
      rw [if_neg hskip]
      obtain ⟨hrevision, hlength, hnil, hearliest, hstarted, hnext⟩ := h hlt
      exact ⟨hrevision, hlength, hnil, hearliest, hstarted, hnext⟩
  case record k                =>
    simp only [poll] at hstep
    split at hstep <;> cases hstep
    exact (h (Nat.lt_of_succ_lt hlt)).record
  case stop                    =>
    cases hstep
    obtain ⟨hrevision, hlength, hnil, hearliest, hstarted, hnext⟩ := h hlt
    exact ⟨hrevision, hlength, hnil, hearliest, hstarted, hnext⟩
  case cancel                  =>
    cases hstep
    obtain ⟨hrevision, hlength, hnil, hearliest, hstarted, hnext⟩ := h hlt
    exact ⟨hrevision, hlength, hnil, hearliest, hstarted, hnext⟩

theorem progress_run {enabled : Bool} {intervalMinutes : Nat} {now : Int} (as : List Action)
    (h : (poll.run (initial enabled intervalMinutes now) as).recorded < word) :
    (poll.run (initial enabled intervalMinutes now) as).Progress :=
  Machine.invariant (m := poll) (I := fun s => s.recorded < word → s.Progress) (fun _ _ _ => Progress.step)
    (fun _ => .initial enabled intervalMinutes now) as h

-- Does an observation ask for a deadline? It is pending, and is made of an active mailbox by a scheduler at work.
def Observes (s : PollScheduler) (check : CheckResult) (failed : Nat) : Prop :=
  s.enabled ∧ check.active ∧ ¬s.isStopped ∧ pendingPoll (.fromCheck check failed 0)

-- An observation that is on its way stays so until it is recorded, and then counts until a check starts.
structure Keeps (a : Action) (s s' : PollScheduler) : Prop where
  observing : (∀ k, a ≠ .record k) → s.observing <:+ s'.observing
  manual    : a ≠ .checkStarted → s.manual <+: s'.manual
  base      : (∀ event now, a ≠ .checkFinished event now) → s'.base = s.base

structure Honoured (s : PollScheduler) : Prop where
  next     : s.recorded < word → s.running = none → s.nextCheck = s.manual.foldl min s.base
  ignored  : ∀ check failed now, ¬s.Observes check failed → poll.step s (.observeManualAt check failed now) = .ok s
  observed : ∀ check failed now, s.Observes check failed → poll.step s (.observeManualAt check failed now) =
    .ok { s with observing := Polls.deadline now (min s.intervalMinutes 5) :: s.observing }
  recorded : ∀ k deadline, s.observing[k]? = some deadline → ∃ s', poll.step s (.record k) = .ok s' ∧
    s'.observing = s.observing.eraseIdx k ∧ s'.manual = s.manual ++ [deadline] ∧
    s'.nextCheck = min s.nextCheck deadline
  started  : ∀ s', poll.step s .checkStarted = .ok s' → s'.manual = []
  finished : ∀ event now s', poll.step s (.checkFinished event now) = .ok s' →
    s'.base = Polls.deadline now (pollDelay s.intervalMinutes event)
  kept     : ∀ a s', poll.step s a = .ok s' → Keeps a s s'

theorem observeManualAt_of_not (check : CheckResult) (failed : Nat) (now : Int) (h : ¬s.Observes check failed) :
    s.observeManualAt check failed now = s := by
  refine if_pos ?_
  by_contra hnone
  simp only [Bool.or_eq_true, Bool.not_eq_true', not_or, Bool.not_eq_false] at hnone
  exact h ⟨hnone.left.left.left, hnone.left.left.right, by simp [hnone.left.right], hnone.right⟩

theorem observeManualAt_of_observes (check : CheckResult) (failed : Nat) (now : Int) (h : s.Observes check failed) :
    s.observeManualAt check failed now =
      { s with observing := Polls.deadline now (min s.intervalMinutes 5) :: s.observing } := by
  obtain ⟨henabled, hactive, hstopped, hpending⟩ := h
  simp [observeManualAt, henabled, hactive, hstopped, hpending, pollDelay]

theorem keeps_step (h : poll.step s a = .ok s') : Keeps a s s' := by
  cases a <;> simp only [poll] at h
  case checkStarted    =>
    split at h <;> cases h
    exact ⟨fun _ => List.suffix_rfl, fun ha => absurd rfl ha, fun _ => rfl⟩
  case checkFinished event now =>
    split at h <;> cases h
    exact ⟨fun _ => List.suffix_rfl, fun _ => List.prefix_rfl, fun ha => absurd rfl (ha event now)⟩
  case observeManualAt =>
    cases h
    rw [observeManualAt]
    split
    case isTrue  => exact ⟨fun _ => List.suffix_rfl, fun _ => List.prefix_rfl, fun _ => rfl⟩
    case isFalse => exact ⟨fun _ => List.suffix_cons _ _, fun _ => List.prefix_rfl, fun _ => rfl⟩
  case record k        =>
    split at h <;> cases h
    exact ⟨fun ha => absurd rfl (ha k), fun _ => List.prefix_append _ _, fun _ => rfl⟩
  case stop            =>
    cases h
    exact ⟨fun _ => List.suffix_rfl, fun _ => List.prefix_rfl, fun _ => rfl⟩
  case cancel          =>
    cases h
    exact ⟨fun _ => List.suffix_rfl, fun _ => List.prefix_rfl, fun _ => rfl⟩

theorem Progress.honoured (h : s.recorded < word → s.Progress) : s.Honoured where
  next hlt                        := (h hlt).next
  ignored check failed now hnone  := congrArg Except.ok (observeManualAt_of_not check failed now hnone)
  observed check failed now hsome := congrArg Except.ok (observeManualAt_of_observes check failed now hsome)
  recorded k deadline hk          := ⟨s.record k deadline, by simp [poll, hk], rfl, rfl, rfl⟩
  started s' hs                   := by
    simp only [poll] at hs
    split at hs <;> cases hs
    rfl
  finished event now s' hs        := by
    simp only [poll] at hs
    split at hs <;> cases hs
    rfl
  kept a s'                       := keeps_step

-- However the checks and the observations fall together.
theorem deadlines_honoured (enabled : Bool) (intervalMinutes : Nat) (now : Int) (as : List Action) :
    Honoured (poll.run (initial enabled intervalMinutes now) as) ∧
    ∀ (interval : Nat) (now' : Int), Polls.deadline now' interval =
      min ((now'.toNat + interval * 60 * 1000000000) / 1000000) u64Max :=
  ⟨Progress.honoured (progress_run as), fun interval now' => deadline_eq now' interval⟩

end PollScheduler

end Polls
