import EmailWatcher.Deployment.Manager
import EmailWatcher.Library.Transaction

-- What is kept of the output of the user manager while it is read from a pipe.
namespace Deployment

open Octets (newline)

inductive Mode
  | environment
  | units
  | all
  deriving DecidableEq

def maxManagerBytes : Nat := 64 * 1024

-- `_MANAGER_ENVIRONMENT_KEYS`, as a line begins with them.
def environmentPrefixes : List Octets :=
  (["HOME=", "XDG_CONFIG_HOME=", "XDG_DATA_HOME="] : List String).map fun key => (key : Octets)

-- `_ManagerCapture`, with the records of its scratch file. Its deadline is not reached.
structure Capture where
  mode         : Mode
  names        : List Text
  output       : Octets
  pending      : Octets
  skipLine     : Bool
  selectedLine : Bool
  scratch      : List Octets

namespace Capture

def initial (mode : Mode) (names : List Text) : Capture where
  mode         := mode
  names        := names
  output       := []
  pending      := []
  skipLine     := false
  selectedLine := false
  scratch      := []

def tooMuch : Failure :=
  .deployment "The user manager returned too much deployment metadata"

-- `_check_size`
def checkSize (size : Nat) : Except Failure Unit :=
  if size > maxManagerBytes then .error tooMuch else .ok ()

variable (c : Capture)

-- `_retain`
def retain (value : Octets) : Except Failure Capture := do
  checkSize (c.output.length + value.length)
  return { c with output := c.output ++ value }

def isSelected (line : Octets) : Bool :=
  environmentPrefixes.any fun key => key.isPrefixOf line

-- Whether a line that begins so may be selected yet.
def mayBeSelected (line : Octets) : Bool :=
  environmentPrefixes.any fun key => line.isPrefixOf key

-- One piece of a line.
def piece (piece : Octets) : Except Failure Capture := do
  if c.skipLine then return c
  let pending := c.pending ++ piece
  let selected := c.selectedLine || isSelected pending
  let skip := !selected && !mayBeSelected pending
  if selected then checkSize (c.output.length + pending.length)
  return { c with pending := if skip then [] else pending, selectedLine := selected, skipLine := skip }

def endLine : Except Failure Capture := do
  let c ← if c.selectedLine then c.retain (c.pending ++ [newline]) else pure c
  return { c with pending := [], skipLine := false, selectedLine := false }

-- The loop of `_environment`: a line ends behind every piece but the last.
def pieces : Capture → List Octets → Except Failure Capture
  | c, []      => .ok c
  | c, [p]     => c.piece p
  | c, p :: ps => do pieces (← (← c.piece p).endLine) ps

-- `_environment`
def environment (chunk : Octets) : Except Failure Capture :=
  c.pieces (chunk.splitOn newline)

-- `_record`
def record (block : Octets) : Except Failure Capture := do
  checkSize block.length
  return if block = [] then c else { c with scratch := c.scratch ++ [block] }

end Capture

-- `bytes.partition(b"\n\n")`
def partition : Octets → Option (Octets × Octets)
  | []      => none
  | b :: bs =>
    if b = newline ∧ bs.head? = some newline then some ([], bs.tail)
    else (partition bs).map fun x => (b :: x.fst, x.snd)

theorem partition_eq {bytes : Octets} {x : Octets × Octets} (h : partition bytes = some x) :
    bytes = x.fst ++ newline :: newline :: x.snd := by
  induction bytes generalizing x
  case nil          => cases h
  case cons b bs ih =>
    rw [partition] at h
    split at h
    case isTrue hb  =>
      cases h
      obtain ⟨rfl, hb⟩ := hb
      rw [List.nil_append, List.eq_cons_of_mem_head? hb]
      rfl
    case isFalse    =>
      obtain ⟨y, hy, rfl⟩ := Option.map_eq_some_iff.mp h
      exact congrArg (b :: ·) (ih hy)

theorem partition_length {bytes : Octets} {x : Octets × Octets} (h : partition bytes = some x) :
    x.snd.length < bytes.length := by
  have hlength := congrArg List.length (partition_eq h)
  simp only [List.length_append, List.length_cons] at hlength
  omega

-- `value.rstrip(b"\n")`
def rstrip (bytes : Octets) : Octets :=
  bytes.rdropWhile (· = newline)

namespace Capture

-- The loop of `feed` over the blocks that have ended.
def blocks (c : Capture) : Except Failure Capture :=
  match _h : partition c.pending with
  | none   => .ok c
  | some x => do
    blocks { ← c.record x.fst with pending := x.snd }
termination_by c.pending.length
decreasing_by exact partition_length _h

def feed (c : Capture) (chunk : Octets) : Except Failure Capture :=
  match c.mode with
  | .environment => c.environment chunk
  | .units       => do
    let c ← blocks { c with pending := c.pending ++ chunk }
    checkSize (rstrip c.pending).length
    return c
  | .all         => c.retain chunk

-- One of the `_records`.
def readRecord (names : List Text) (block : Octets) : Except Failure Record :=
  match Octets.decodeStrict block with
  | none      => .error .unicode
  | some text => managerRecord text names

def idField : Text :=
  ("Id" : String)

def namesField : Text :=
  ("Names" : String)

-- The first loop of `_graph`: the roots that have been found, and what they depend on.
def roots (names : List Text) (x : List Text × List Text) (block : Octets) : Except Failure (List Text × List Text) := do
  let record ← readRecord names block
  let name := (record.get idField).getD []
  if name ∉ names then return x
  if name ∈ x.fst then throw incomplete
  let words ← activationFields.mapM fun field => managerWords ((record.get field).getD [])
  return (name :: x.fst, x.snd ++ words.flatten)

-- The second loop of `_graph`.
def select (dependencies : List Text) (c : Capture) (block : Octets) : Except Failure Capture := do
  let record ← readRecord c.names block
  let name := (record.get idField).getD []
  let aliases ← managerWords ((record.get namesField).getD [])
  if name ∈ c.names ∨ name ∈ dependencies ∨ ∃ other ∈ aliases, other ∈ dependencies then
    c.retain (block ++ [newline, newline])
  else return c

-- `_graph`
def graph (c : Capture) : Except Failure Capture := do
  let x ← c.scratch.foldlM (roots c.names) ([], [])
  c.scratch.foldlM (select x.snd) c

def finish (c : Capture) : Except Failure Text := do
  let c ←
    match c.mode with
    | .environment => if c.selectedLine then c.retain c.pending else pure c
    | .units       => do (← c.record (rstrip c.pending)).graph
    | .all         => pure c
  match Octets.decodeStrict c.output with
  | none      => .error .unicode
  | some text => .ok text

-- The output of the manager arrives in chunks.
def read (mode : Mode) (names : List Text) (chunks : List Octets) : Except Failure Text := do
  (← chunks.foldlM feed (initial mode names)).finish

end Capture

end Deployment
