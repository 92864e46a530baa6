import EmailWatcher.Basic
import EmailWatcher.Library.Session
import EmailWatcher.Library.Table

-- The record of what has been sent, and of what may have been sent.
namespace Outbound

open Session

section Schema

-- A row of `outbound_sends`.
structure Send where
  dedupeKey      : String
  recipient      : String
  subject        : String
  gmailMessageId : String
  sentAt         : Instant
  deriving DecidableEq, Repr

instance : Keyed Send String where
  key := Send.dedupeKey

inductive ReservationStatus
  | reserved
  | ambiguous
  deriving DecidableEq, Repr

def ReservationStatus.text : ReservationStatus → String
  | reserved  => "reserved"
  | ambiguous => "ambiguous"

-- A row of `outbound_reservations`.
structure Reservation where
  dedupeKey  : String
  recipient  : String
  subject    : String
  status     : ReservationStatus
  reservedAt : Instant
  updatedAt  : Instant
  lastError  : Option String := none
  deriving DecidableEq, Repr

instance : Keyed Reservation String where
  key := Reservation.dedupeKey

structure Store where
  sends        : Table Send
  reservations : Table Reservation

-- An exception with the name of its type.
structure Failure where
  type    : String
  message : String
  deriving DecidableEq, Repr

def runtimeError (message : String) : Failure :=
  ⟨"RuntimeError", message⟩

def sendError (message : String) : Failure :=
  ⟨"SendError", message⟩

def configError (message : String) : Failure :=
  ⟨"ConfigError", message⟩

def valueError (message : String) : Failure :=
  ⟨"ValueError", message⟩

abbrev Statement (α : Type) := Session Store Failure α

end Schema

section Operations

def insertSend (r : Send) : Statement Unit := do
  let s ← query id
  let sends ← find (s.sends.insert r)
    ⟨"IntegrityError", "UNIQUE constraint failed: outbound_sends.dedupe_key"⟩
  write fun s => { s with sends }

-- The number of rows that are deleted.
def deleteReservation (dedupeKey : String) : Statement Nat := do
  let s ← query id
  write fun s => { s with reservations := s.reservations.delete (·.dedupeKey = dedupeKey) }
  return s.reservations.rows.countP (·.dedupeKey = dedupeKey)

def outboundStatus (dedupeKey : String) : Statement (Option String) := do
  let s ← query id
  let sent := (s.sends.get dedupeKey).map fun _ => "sent"
  return sent.or <| (s.reservations.get dedupeKey).map (·.status.text)

def reserveOutbound (now : Instant) (dedupeKey recipient subject : String) : Statement Bool := do
  let s ← query id
  if (s.sends.get dedupeKey).isSome then
    return false
  let row : Reservation := ⟨dedupeKey, recipient, subject, .reserved, now, now, none⟩
  write fun s => { s with reservations := s.reservations.insertOrIgnore row }
  return (s.reservations.get dedupeKey).isNone

def Reservation.markAmbiguous (now : Instant) (error : String) (r : Reservation) : Reservation :=
  { r with status := .ambiguous, updatedAt := now, lastError := some (takeChars 500 error) }

def markOutboundAmbiguous (now : Instant) (dedupeKey error : String) : Statement Unit := do
  let s ← query id
  let p (r : Reservation) : Bool := r.dedupeKey = dedupeKey && r.status = .reserved
  write fun s => { s with
    reservations := s.reservations.update p (·.markAmbiguous now error) }
  require (s.reservations.rows.countP p = 1) <|
    runtimeError "Outbound reservation is not in the reserved state"

def reconcileOutboundSent (now : Instant) (dedupeKey gmailMessageId : String) : Statement Unit := do
  let messageId := strip gmailMessageId
  require (messageId ≠ "") <| runtimeError "A non-empty Gmail message ID is required"
  let s ← query id
  match s.sends.get dedupeKey with
  | some completed =>
    require (completed.gmailMessageId = messageId) <|
      runtimeError "Completed outbound send has a different Gmail message ID"
  | none => do
    let reservation ← find (s.reservations.get dedupeKey) <|
      runtimeError "Outbound send has no unresolved reservation"
    insertSend ⟨dedupeKey, reservation.recipient, reservation.subject, messageId, now⟩
    discard <| deleteReservation dedupeKey

def releaseOutbound (dedupeKey : String) : Statement Unit := do
  let s ← query id
  require (s.sends.get dedupeKey = none) <|
    runtimeError "Cannot release a completed outbound send"
  let rowcount ← deleteReservation dedupeKey
  require (rowcount = 1) <| runtimeError "Outbound send has no unresolved reservation"

def Reservation.matches (recipient subject : String) (r : Reservation) : Bool :=
  r.status = .reserved && r.recipient = recipient && r.subject = subject

def recordOutbound (now : Instant) (dedupeKey recipient subject gmailMessageId : String) :
    Statement Unit := do
  let s ← query id
  require ((s.reservations.get dedupeKey).any (·.matches recipient subject)) <|
    runtimeError "Outbound send has no matching active reservation"
  insertSend ⟨dedupeKey, recipient, subject, gmailMessageId, now⟩
  discard <| deleteReservation dedupeKey

-- A call of the store, and what it returns.
inductive Operation : Type → Type
  | status        (dedupeKey : String) : Operation (Option String)
  | reserve       (now : Instant) (dedupeKey recipient subject : String) : Operation Bool
  | markAmbiguous (now : Instant) (dedupeKey error : String) : Operation Unit
  | reconcileSent (now : Instant) (dedupeKey gmailMessageId : String) : Operation Unit
  | release       (dedupeKey : String) : Operation Unit
  | record        (now : Instant) (dedupeKey recipient subject gmailMessageId : String) :
    Operation Unit

namespace Operation

variable {α : Type}

def statement : Operation α → Statement α
  | status dedupeKey                         => outboundStatus dedupeKey
  | reserve now dedupeKey recipient subject  => reserveOutbound now dedupeKey recipient subject
  | markAmbiguous now dedupeKey error        => markOutboundAmbiguous now dedupeKey error
  | reconcileSent now dedupeKey id           => reconcileOutboundSent now dedupeKey id
  | release dedupeKey                        => releaseOutbound dedupeKey
  | record now dedupeKey recipient subject id => recordOutbound now dedupeKey recipient subject id

-- A call is a transaction. The database may fail up to its end.
def perform (fault : Option Failure) (o : Operation α) : Store → Except Failure α × Store :=
  Session.commit do
    let a ← o.statement
    lift <| fault.elim (.ok a) .error

end Operation

end Operations

end Outbound
