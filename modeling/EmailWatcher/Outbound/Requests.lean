import EmailWatcher.Outbound.Store
import EmailWatcher.Library.Script
import EmailWatcher.Library.Story

-- The monthly request, and what an operator makes of one whose fate is not known.
namespace Outbound

open Script

section Programs

inductive Event
  -- `sender.send` is called.
  | invoked  (dedupeKey : String)
  -- Gmail has accepted the message.
  | accepted (dedupeKey : String)
  | released (dedupeKey : String)
  | recorded (dedupeKey : String)
  deriving DecidableEq, Repr

-- The store, and what has happened so far.
structure Outbox where
  store : Store
  story : List Event

abbrev Program (α : Type) := Script Outbox Failure α

-- What happens when a call returns.
def Operation.events {α : Type} : Operation α → Store → List Event
  | status _,                    _
  | reserve _ _ _ _,             _
  | markAmbiguous _ _ _,         _ => []
  | reconcileSent _ dedupeKey _, s
  | record _ dedupeKey _ _ _,    s =>
    if s.sends.get dedupeKey = none then [.recorded dedupeKey] else []
  | release dedupeKey,           _ => [.released dedupeKey]

def call {α : Type} (fault : Option Failure) (o : Operation α) : Program α :=
  step
    (fun s =>
      match o.perform fault s.store with
      | (.ok _, store)    => ⟨store, s.story ++ o.events s.store⟩
      | (.error _, store) => { s with store })
    (fun s =>
      match (o.perform fault s.store).fst with
      | .ok a    => ret a
      | .error e => raise e)

def happens (e : Event) : Program Unit :=
  step (fun s => { s with story := s.story ++ [e] }) fun _ => ret ()

-- What becomes of a message that is handed to Gmail.
structure Delivery where
  accepted : Bool
  answer   : Except Failure String

-- `sender.send`: the call may fail before Gmail has accepted the message, and after.
def send (d : Delivery) (dedupeKey : String) : Program String := do
  happens (.invoked dedupeKey)
  if d.accepted then
    happens (.accepted dedupeKey)
  done d.answer

def monthNames : List String :=
  ["January", "February", "March", "April", "May", "June", "July", "August", "September", "October",
    "November", "December"]

structure MonthlyEmail where
  periodKey : String
  subject   : String
  body      : String
  deriving DecidableEq, Repr

-- The year and the month of a date.
structure Date where
  year  : Nat
  month : Nat
  valid : 1 ≤ year ∧ 1 ≤ month ∧ month ≤ 12

def previousMonthEmail (today : Date) : Except Failure MonthlyEmail := do
  let previousYear := if today.month > 1 then today.year else today.year - 1
  let previousMonth := if today.month > 1 then today.month - 1 else 12
  if previousYear = 0 then
    throw <| valueError "year 0 is out of range"
  let monthZero := if previousMonth < 10 then "0" else ""
  let monthName := monthNames.getD (previousMonth - 1) ""
  let periodLabel := s!"{monthName} {previousYear}"
  return {
    periodKey := s!"{previousYear}-{monthZero}{previousMonth}"
    subject   := s!"Firefly Hours for {periodLabel}"
    body      :=
      "Hi Maria,\n\n" ++
      "I hope you're doing well. When you have a chance, could you please send me " ++
      s!"the Firefly hours for {periodLabel}? Once I receive them, I'll prepare " ++
      "your invoice.\n\n" ++
      "Thank you,\n" ++
      "Juan Canfield\n" ++
      "Effingham Office Maids\n"
  }

-- The calls of the store in the two commands.
inductive Site
  | status
  | reserve
  | reread
  | record
  | mark
  | resolve

-- What one run of a command meets: the time of each call, the failures of the database, what comes of
-- the token, and what becomes of the message.
structure Circumstances where
  today    : Date
  now      : Site → Instant
  fault    : Site → Option Failure
  token    : Except Failure Unit
  delivery : Delivery

-- What a run prints.
inductive Output
  | dryRun      (recipient subject body : String)
  | alreadySent (period : String)
  | sent        (recipient subject : String)
  | confirmedSent   (dedupeKey gmailMessageId : String)
  | confirmedUnsent (dedupeKey : String)
  deriving DecidableEq, Repr

-- `test_to or ...`, where the empty text counts as none.
def given (testTo : Option String) : Option String :=
  testTo.filter (· ≠ "")

-- A failure once the send has begun leaves it open whether the message has been accepted.
def sendAndRecord (c : Circumstances) (dedupeKey recipient subject : String) : Program Unit :=
  let attempt : Program Unit := do
    let messageId ← send c.delivery dedupeKey
    call (c.fault .record) (.record (c.now .record) dedupeKey recipient subject messageId)
  attempt.handle fun e => do
    call (c.fault .mark) (.markAmbiguous (c.now .mark) dedupeKey e.type)
    raise e

-- What `_send_hours` does while it holds the lock.
def sendOnce (c : Circumstances) (period dedupeKey recipient subject : String) : Program Output := do
  match ← call (c.fault .status) (.status dedupeKey) with
  | some "sent" => return .alreadySent period
  | some status =>
    raise <| sendError s!"Outbound send {dedupeKey} is {status} and requires manual reconciliation"
  | none =>
    done c.token
    if ← call (c.fault .reserve) (.reserve (c.now .reserve) dedupeKey recipient subject) then
      sendAndRecord c dedupeKey recipient subject
      return .sent recipient subject
    else
      match ← call (c.fault .reread) (.status dedupeKey) with
      | some "sent" => return .alreadySent period
      | status      =>
        let state := status.getD "blocked"
        raise <| sendError <| s!"Outbound send {dedupeKey} is {state} and requires " ++
          "manual reconciliation"

-- `_send_hours`. A run for a test takes no lock, and asks nothing of the store.
def sendHours (c : Circumstances) (monthlyHoursRecipient : String) (testTo : Option String)
    (dryRun : Bool) : Program Output := do
  let recipient := (given testTo).getD monthlyHoursRecipient
  require (recipient ≠ "" ∧ '@' ∈ recipient.toList) <|
    configError "monthly_hours_recipient must be configured"
  let content ← done (previousMonthEmail c.today)
  let dedupeKey := s!"monthly-hours:{content.periodKey}"
  let subject := if (given testTo).isSome then s!"[TEST] {content.subject}" else content.subject
  if dryRun then
    return .dryRun recipient subject content.body
  else if (given testTo).isSome then
    done c.token
    discard <| send c.delivery dedupeKey
    return .sent recipient subject
  else
    sendOnce c content.periodKey dedupeKey recipient subject

-- `_outbound_resolve`
def outboundResolve (c : Circumstances) (dedupeKey : String) (confirmSent : Option String)
    (confirmUnsent : Bool) : Program Output := do
  require (confirmSent.isSome ≠ confirmUnsent) <|
    runtimeError "Exactly one outbound resolution confirmation is required"
  match confirmSent with
  | some confirmed =>
    let gmailMessageId := strip confirmed
    call (c.fault .resolve) (.reconcileSent (c.now .resolve) dedupeKey gmailMessageId)
    return .confirmedSent dedupeKey gmailMessageId
  | none =>
    call (c.fault .resolve) (.release dedupeKey)
    return .confirmedUnsent dedupeKey

end Programs
end Outbound
