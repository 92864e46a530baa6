import EmailWatcher.Library.Octets

-- What the user manager says of its units, and how it is read.
namespace Deployment

inductive Failure
  -- `DeploymentError`
  | deployment (message : String)
  -- `UnicodeDecodeError`
  | unicode
  deriving DecidableEq

section Words

-- `" \t\r\n\v\f"`
def isBlank (c : CodePoint) : Bool :=
  c.val = 0x20 || (0x09 ≤ c.val && c.val ≤ 0x0d)

def doubleQuote : CodePoint :=
  '"'

def singleQuote : CodePoint :=
  '\''

def backslash : CodePoint :=
  '\\'

def lineFeed : CodePoint :=
  '\n'

-- `[^\s'"\\]`
def isBare (c : CodePoint) : Bool :=
  !isBlank c && c ≠ singleQuote && c ≠ doubleQuote && c ≠ backslash

-- A character that may not stand in quotes by itself.
def isBarred (c : CodePoint) : Bool :=
  c.val ≤ 0x1f || c.val = 0x7f || c.val = 0x24 || c.val = 0x60

-- What stands before the closing quotation mark, and what is behind it.
def quotedBody : Bool → Text → Text → Option (Text × Text)
  | _,     _,    []      => none
  | true,  body, c :: cs => if c = lineFeed then none else quotedBody false (body ++ [c]) cs
  | false, body, c :: cs =>
    if c = doubleQuote then some (body, cs)
    else if c = backslash then quotedBody true (body ++ [c]) cs
    else if isBarred c then none
    else quotedBody false (body ++ [c]) cs

inductive Word
  | quoted (body : Text)
  | bare   (token : Text)

-- A match of the pattern at this place.
def wordAt (raw : Text) : Option (Word × Text) :=
  match raw with
  | []      => none
  | c :: cs =>
    if c = doubleQuote then (quotedBody false [] cs).map fun x => (.quoted x.fst, x.snd)
    else if isBare c then some (.bare (raw.takeWhile isBare), raw.dropWhile isBare)
    else none

theorem quotedBody_length {escaped : Bool} {body raw : Text} {x : Text × Text} (h : quotedBody escaped body raw = some x) :
    x.snd.length < raw.length := by
  induction raw generalizing escaped body
  case nil          => cases escaped <;> cases h
  case cons c cs ih =>
    cases escaped
    case true  =>
      rw [quotedBody] at h
      split at h
      · cases h
      · exact (ih h).trans (Nat.lt_succ_self _)
    case false =>
      rw [quotedBody] at h
      split at h
      · cases h
        exact Nat.lt_succ_self _
      · split at h
        · exact (ih h).trans (Nat.lt_succ_self _)
        · split at h
          · cases h
          · exact (ih h).trans (Nat.lt_succ_self _)

theorem wordAt_length {raw : Text} {x : Word × Text} (h : wordAt raw = some x) : x.snd.length < raw.length := by
  cases raw
  case nil       => cases h
  case cons c cs =>
    rw [wordAt] at h
    split at h
    · obtain ⟨y, hy, rfl⟩ := Option.map_eq_some_iff.mp h
      exact (quotedBody_length hy).trans (Nat.lt_succ_self _)
    · split at h
      case isTrue hbare =>
        cases h
        rw [List.dropWhile_cons_of_pos hbare]
        exact Nat.lt_succ_of_le (List.dropWhile_suffix _).length_le
      case isFalse      => cases h

def isOctal (c : CodePoint) : Bool :=
  0x30 ≤ c.val && c.val ≤ 0x37

def hexDigit (c : CodePoint) : Option Nat :=
  if 0x30 ≤ c.val ∧ c.val ≤ 0x39 then some (c.val - 0x30)
  else if 0x61 ≤ c.val ∧ c.val ≤ 0x66 then some (c.val - 0x57)
  else if 0x41 ≤ c.val ∧ c.val ≤ 0x46 then some (c.val - 0x37)
  else none

-- What one letter stands for behind a backslash.
def letterEscape (c : CodePoint) : Option Nat :=
  if c.val = 0x61 then some 7
  else if c.val = 0x62 then some 8
  else if c.val = 0x66 then some 12
  else if c.val = 0x6e then some 10
  else if c.val = 0x72 then some 13
  else if c.val = 0x74 then some 9
  else if c.val = 0x76 then some 11
  else if c = backslash ∨ c = doubleQuote ∨ c.val = 0x24 ∨ c.val = 0x60 then some c.val
  else none

-- The bytes of a body, unless a backslash begins no escape.
def unescaped : Text → Option Octets
  | []      => some []
  | c :: cs =>
    if c ≠ backslash then (unescaped cs).map (Octets.utf8Char c ++ ·)
    else
      match cs with
      | []      => none
      | e :: cs =>
        match letterEscape e with
        | some n => (unescaped cs).map (Octets.octet n :: ·)
        | none   =>
          match cs with
          | a :: b :: cs =>
            if isOctal e && e.val ≤ 0x33 && isOctal a && isOctal b then
              (unescaped cs).map (Octets.octet ((e.val - 0x30) * 64 + (a.val - 0x30) * 8 + (b.val - 0x30)) :: ·)
            else
              match hexDigit a, hexDigit b with
              | some m, some n =>
                if e.val = 0x78 then (unescaped cs).map (Octets.octet (m * 16 + n) :: ·) else none
              | _,      _      => none
          | _            => none

def Word.decode : Word → Except Failure Text
  | bare token  => .ok token
  | quoted body =>
    match unescaped body with
    | none       => .error (.deployment "Invalid manager path escape")
    | some bytes =>
      match Octets.decodeStrict bytes with
      | none      => .error (.deployment "Invalid manager path encoding")
      | some text => .ok text

-- The matches one after the other, behind the words that have come and the gap since the last one.
def wordsFrom (words : List Text) (gap raw : Text) : Except Failure (List Text) :=
  match _h : wordAt raw with
  | some (word, rest) => do
    if gap.any (!isBlank ·) || words ≠ [] && gap = [] then throw (.deployment "Invalid manager word separator")
    wordsFrom (words ++ [← word.decode]) [] rest
  | none              =>
    match raw with
    | []      =>
      if gap.any (!isBlank ·) then .error (.deployment "Invalid manager path encoding") else .ok words
    | c :: cs => wordsFrom words (gap ++ [c]) cs
termination_by raw.length
decreasing_by
  · exact wordAt_length _h
  · exact Nat.lt_succ_self _

-- `_manager_words`
def managerWords (raw : Text) : Except Failure (List Text) :=
  wordsFrom [] [] raw

end Words

section Records

abbrev Record := List (Text × Text)

def Record.get (record : Record) (key : Text) : Option Text :=
  (record.find? (·.fst = key)).map Prod.snd

def activationFields : List Text :=
  (["Requires", "Requisite", "Wants", "BindsTo", "Upholds", "OnSuccess", "OnFailure", "Triggers"] : List String).map
    fun field => (field : Text)

def managerFields : List Text :=
  (["Names", "Transient"] : List String).map (fun field => (field : Text)) ++ activationFields ++
    (["Id", "LoadState", "ActiveState", "FragmentPath", "DropInPaths", "NeedDaemonReload", "MainPID", "ControlPID", "Unit",
      "ExecStart"] : List String).map fun field => (field : Text)

def serviceFields : List Text :=
  (["MainPID", "ControlPID", "ExecStart"] : List String).map fun field => (field : Text)

def unitField : Text :=
  ("Unit" : String)

def execStart : Text :=
  ("ExecStart" : String)

def activityStates : List Text :=
  (["active", "inactive", "failed", "activating", "deactivating", "reloading", "maintenance", "refreshing"]
    : List String).map fun state => (state : Text)

def equals : CodePoint :=
  '='

def invalid : Failure :=
  .deployment "Invalid user-manager deployment metadata"

def incomplete : Failure :=
  .deployment "Incomplete or duplicate user-manager unit metadata"

def isCommandArray (value : Text) : Bool :=
  (("\x7b path=" : String) : Text).isPrefixOf value && ((" \x7d" : String) : Text).isSuffixOf value

-- One line of a block.
def Record.line (record : Record) (line : Text) : Except Failure Record := do
  let key := line.takeWhile (· ≠ equals)
  let value := (line.dropWhile (· ≠ equals)).tail
  if equals ∉ line ∨ key ∉ managerFields then throw invalid
  if key = execStart ∧ value ≠ [] ∧ !isCommandArray value then
    throw (.deployment "Invalid manager command-array metadata")
  match record.get key with
  | none       => return record ++ [(key, value)]
  | some known =>
    if key ≠ execStart ∨ value = [] ∨ known = [] then throw invalid
    return record.map fun x => if x.fst = key then (x.fst, x.snd ++ lineFeed :: value) else x

-- Whether a service is absent, so that nothing is said of its command.
def Record.absent (record : Record) : Bool :=
  (record.get ("Id" : String)).any (fun name => ((".service" : String) : Text).isSuffixOf name) &&
  (record.get execStart).isNone &&
  record.get ("LoadState" : String) = some ("not-found" : String) &&
  record.get ("ActiveState" : String) = some ("inactive" : String) &&
  record.get ("MainPID" : String) = some ("0" : String) &&
  record.get ("ControlPID" : String) = some ("0" : String)

def isDecimal (value : Text) : Bool :=
  value ≠ [] && value.all fun c => 0x30 ≤ c.val && c.val ≤ 0x39

def decimal (value : Text) : Nat :=
  value.foldl (fun n c => n * 10 + (c.val - 0x30)) 0

-- The fields that a unit of that name has to have.
def requiredFields (name : Option Text) : List Text :=
  (managerFields.filter fun field => field ∉ unitField :: serviceFields) ++
    if name.any fun name => ((".timer" : String) : Text).isSuffixOf name then [unitField]
    else if name.any fun name => ((".service" : String) : Text).isSuffixOf name then serviceFields
    else []

-- `_manager_record`
def managerRecord (block : Text) (names : List Text) : Except Failure Record := do
  let record ← (block.splitOn lineFeed).foldlM Record.line []
  let record := if record.absent then record ++ [(execStart, [])] else record
  let name := record.get ("Id" : String)
  let allowed := name.any fun name => name ∈ names ||
    ((".target" : String) : Text).isSuffixOf name || ((".slice" : String) : Text).isSuffixOf name
  let required := requiredFields name
  if !allowed ∨ ¬(required ⊆ record.map Prod.fst ∧ record.map Prod.fst ⊆ required) then throw incomplete
  if !(record.get ("ActiveState" : String)).any (· ∈ activityStates) then
    throw (.deployment "Invalid user-manager activity state")
  if !(record.get ("Transient" : String)).any (· ∈ [(("yes" : String) : Text), ("no" : String)]) then
    throw (.deployment "Invalid user-manager transient state")
  if !(record.get ("NeedDaemonReload" : String)).any (· ∈ [(("yes" : String) : Text), ("no" : String)]) then
    throw (.deployment "Invalid user-manager reload state")
  if [(("MainPID" : String) : Text), ("ControlPID" : String)].any fun key =>
      (record.get key).any fun value => !isDecimal value || value.length > 10 || decimal value > 4294967295 then
    throw (.deployment "Invalid user-manager process identity")
  return record

end Records

end Deployment
