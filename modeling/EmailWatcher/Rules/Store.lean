import EmailWatcher.Library.Session
import EmailWatcher.Rules.Schema

namespace Rules

open Session RuleError

abbrev Statement (α : Type) := Session Store RuleError α

def maxAutomationRules : Nat := 100

section Statements

-- `_next_automation_rules_revision`
def nextAutomationRulesRevision : Statement Nat := do
  let s ← query id
  let current ← find s.revision <| runtime "automation rule-set authority is missing"
  write ({ · with revision := some (current + 1) })
  return current + 1

def insertRule (r : Rule) : Statement Unit := do
  let s ← query id
  require r.check <| integrity "CHECK constraint failed: automation_rules"
  let rules ← find (s.rules.insert r) <|
    integrity "UNIQUE constraint failed: automation_rules.rule_id"
  write ({ · with rules := rules })

-- An `UPDATE` of the live rule that is still at the given version.
def updateRule (ruleId : String) (version : Nat) (g : Rule → Rule)
    (hg : ∀ r, (g r).ruleId = r.ruleId := by as_aux_lemma => intros; rfl) : Statement Unit := do
  let current (r : Rule) : Bool := r.ruleId = ruleId && r.currentVersion = version && !r.deleted
  let rows ← query (·.rules.rows.filter current)
  write fun s => { s with rules := s.rules.update current g hg }
  require (rows.length = 1) <| stale "automation rule version is stale"

def insertVersion (v : Version) : Statement Unit := do
  let s ← query id
  require v.check <| integrity "CHECK constraint failed: automation_rule_versions"
  require (∀ v' ∈ s.versions.rows, v'.globalRevision ≠ v.globalRevision) <|
    integrity "UNIQUE constraint failed: automation_rule_versions.global_revision"
  let versions ← find (s.versions.insert v) <|
    integrity "UNIQUE constraint failed: automation_rule_versions.version"
  write ({ · with versions := versions })

def insertSelection (x : Selection) : Statement Unit := do
  let s ← query id
  require x.check <| integrity "CHECK constraint failed: automation_rule_selections"
  let selections ← find (s.selections.insert x) <|
    integrity "UNIQUE constraint failed: automation_rule_selections.version"
  write ({ · with selections := selections })

end Statements

variable [Codec]

section Definitions

-- `canonical_rule_definition`
def canonicalRuleDefinition (d : RuleDefinition) : Except RuleError String :=
  let raw := Codec.encodeRuleDefinition d
  if raw.utf8ByteSize ≤ maxRuleDefinitionBytes then .ok raw
  else .error <| .validation "canonical definition exceeds 16384 bytes"

-- The definition of a version, as far as its digest and its text are what was accepted.
def Version.storedDefinition (v : Version) : Except RuleError RuleDefinition := do
  let encoded := v.definitionJson.getD ""
  if some (Codec.sha256 encoded) ≠ v.definitionSha256 then
    throw <| .validation "stored definition digest does not match"
  else
    let d ← (Codec.parseRuleDefinition encoded).mapError .validation
    let canonical ← canonicalRuleDefinition d
    if canonical ≠ encoded then
      throw <| .validation "stored definition is not canonical"
    else
      return d

structure RuleDetail where
  ruleId     : String
  version    : Nat
  enabled    : Bool
  system     : Bool
  definition : Option RuleDefinition
  selection  : Option Codec.Capability

def readSelection : Option Selection → Except RuleError (Option Codec.Capability)
  | none   => .ok none
  | some x =>
    match Codec.decodeSelection x.selectionJson with
    | some c => .ok (some c)
    | none   => .error <| .connect "acknowledged manifest features are invalid"

-- `_automation_rule_detail`. A definition that cannot be read is left out; a selection has to be
-- readable.
def automationRuleDetail (r : Rule) (v : Version) (x : Option Selection) :
    Except RuleError RuleDetail := do
  let selection ← readSelection x
  return {
    ruleId     := r.ruleId
    version    := r.currentVersion
    enabled    := r.enabled
    system     := r.system
    definition := if v.kind = .definition then v.storedDefinition.toOption else none
    selection  := selection
  }

-- The current version of a rule that is in the table.
def Store.currentVersion (s : Store) (r : Rule) : Option Version :=
  s.versions.get (r.ruleId, r.currentVersion)

def Store.currentSelection (s : Store) (r : Rule) : Option Selection :=
  s.selections.get (r.ruleId, r.currentVersion)

-- `automation_rule`
def Store.automationRule (s : Store) (ruleId : String) : Except RuleError RuleDetail :=
  match (s.rules.get ruleId).filter (! ·.deleted) with
  | none   => throw <| .notFound ruleId
  | some r =>
    match s.currentVersion r with
    | none   => throw <| .notFound ruleId
    | some v => automationRuleDetail r v (s.currentSelection r)

end Definitions

section Put

-- The arguments of `put_automation_rule`, the id that is drawn for a rule that comes without one, and
-- what `mail_accounts` holds of the mailboxes.
structure PutRequest where
  definition              : String
  ruleId                  : Option String
  expectedVersion         : Option Nat
  expectedAccountIdentity : Option String
  selection               : Option Codec.Capability
  uuid                    : String
  mailboxIdentity         : Option String → String → Option String
  now                     : Instant

-- `_automation_rule_scope_identity`
def automationRuleScopeIdentity (r : PutRequest) (d : RuleDefinition) :
    Statement (Option String) :=
  match d.scope.accountId with
  | none           => do
    require (r.expectedAccountIdentity = none) <|
      value "mailbox identity is only valid for account-scoped rules"
    return none
  | some accountId => do
    let identity ← find r.expectedAccountIdentity <|
      identityChanged "account-scoped rule requires a mailbox identity"
    require (r.mailboxIdentity d.scope.provider accountId = some identity) <|
      identityChanged "mailbox identity changed"
    return some identity

-- `rule_id or str(uuid.uuid4())`
def PutRequest.identity (r : PutRequest) : String :=
  (r.ruleId.filter (· ≠ "")).getD r.uuid

-- The rows of a new rule or of a new version of an old one: the version, and whether it is enabled.
def admitVersion (r : PutRequest) (existing : Option Rule) : Statement (Nat × Bool × Nat) :=
  match existing with
  | none     => do
    require (r.expectedVersion = none) <| notFound r.identity
    let s ← query id
    require ((s.rules.rows.filter (! ·.deleted)).length < maxAutomationRules) <|
      limitExceeded "automation rule limit exceeded"
    let revision ← nextAutomationRulesRevision
    insertRule {
      ruleId         := r.identity
      currentVersion := 1
      enabled        := true
      system         := false
      deleted        := false
      createdAt      := r.now
    }
    return (1, true, revision)
  | some old => do
    require (!old.deleted) <| notFound r.identity
    require (r.expectedVersion = some old.currentVersion) <|
      stale "automation rule version is stale"
    require (!old.system) <| systemProtected "system automation rule is protected"
    let revision ← nextAutomationRulesRevision
    updateRule r.identity old.currentVersion
      fun x => { x with currentVersion := old.currentVersion + 1 }
    return (old.currentVersion + 1, old.enabled, revision)

def putStatements (r : PutRequest) : Statement Unit := do
  let parsed ← lift <| (Codec.parseRuleDefinition r.definition).mapError .validation
  let encoded ← lift <| canonicalRuleDefinition parsed
  require (validUuidV4 r.identity) <| value "automation rule id must be a lower-case UUIDv4"
  let existing ← query (·.rules.get r.identity)
  let scope ← automationRuleScopeIdentity r parsed
  let (version, enabled, revision) ← admitVersion r existing
  insertVersion {
    ruleId                  := r.identity
    version                 := version
    kind                    := .definition
    definitionJson          := some encoded
    definitionSha256        := some (Codec.sha256 encoded)
    enabled                 := enabled
    scopeMailboxIdentityKey := scope
    globalRevision          := revision
  }
  match r.selection with
  | none           => return
  | some selection => do
    require (Codec.validCapabilityParameters selection parsed.action.parameters) <|
      connect "capability parameters are invalid"
    insertSelection {
      ruleId        := r.identity
      version       := version
      selectionJson := Codec.encodeSelection selection
    }

end Put

section Changes

-- The live rule at the expected version, as `set_automation_rule_enabled` and
-- `delete_automation_rule` require it.
def requireCurrent (ruleId : String) (expectedVersion : Nat) (row : Option Rule) :
    Statement Rule := do
  let r ← find (row.filter (! ·.deleted)) <| notFound ruleId
  require (expectedVersion = r.currentVersion) <| stale "automation rule version is stale"
  require (!r.system) <| systemProtected "system automation rule is protected"
  return r

-- Whether a new version has been stored.
def setEnabledStatements (ruleId : String) (expectedVersion : Nat) (enabled : Bool) :
    Statement Bool := do
  let s ← query id
  let row := (s.rules.get ruleId).filter fun r => (s.currentVersion r).isSome
  let r ← requireCurrent ruleId expectedVersion row
  let v ← find (s.currentVersion r) <| notFound ruleId
  require (v.kind = .definition) <| runtime "live automation rule is not a definition"
  let _ ← lift v.storedDefinition
  if r.enabled = enabled then
    return false
  else
    let version := r.currentVersion + 1
    let revision ← nextAutomationRulesRevision
    updateRule ruleId r.currentVersion
      fun x => { x with currentVersion := version, enabled := enabled }
    insertVersion { v with
      version        := version
      enabled        := enabled
      globalRevision := revision
    }
    match s.currentSelection r with
    | none   => return true
    | some x => do
      insertSelection { x with version := version }
      return true

def deleteStatements (ruleId : String) (expectedVersion : Nat) : Statement Nat := do
  let row ← query (·.rules.get ruleId)
  let r ← requireCurrent ruleId expectedVersion row
  let version := r.currentVersion + 1
  let revision ← nextAutomationRulesRevision
  updateRule ruleId r.currentVersion
    fun x => { x with currentVersion := version, enabled := false, deleted := true }
  insertVersion {
    ruleId                  := ruleId
    version                 := version
    kind                    := .deleted
    definitionJson          := none
    definitionSha256        := none
    enabled                 := false
    scopeMailboxIdentityKey := none
    globalRevision          := revision
  }
  return version

end Changes

inductive Action
  | putAutomationRule (r : PutRequest)
  | setAutomationRuleEnabled (ruleId : String) (expectedVersion : Nat) (enabled : Bool)
  | deleteAutomationRule (ruleId : String) (expectedVersion : Nat)

-- The statements of the transaction of an action.
def Action.statements : Action → Statement Unit
  | putAutomationRule r                                     => putStatements r
  | setAutomationRuleEnabled ruleId expectedVersion enabled =>
    discard <| setEnabledStatements ruleId expectedVersion enabled
  | deleteAutomationRule ruleId expectedVersion             =>
    discard <| deleteStatements ruleId expectedVersion

-- The rule that an action reads back on a connection of its own, after its transaction.
def Action.returned : Action → Option String
  | putAutomationRule r                 => some r.identity
  | setAutomationRuleEnabled ruleId _ _ => some ruleId
  | deleteAutomationRule _ _            => none

-- An action ends its transaction before it reads back what it has stored.
def transact (s : Store) (a : Action) : Except RuleError Unit × Store :=
  match a.statements.commit s with
  | (.error e, s') => (.error e, s')
  | (.ok _,    s') =>
    match a.returned with
    | none        => (.ok (), s')
    | some ruleId => (discard <| s'.automationRule ruleId, s')

def run (s : Store) (as : List Action) : Store :=
  as.foldl (fun s a => (transact s a).snd) s

end Rules
