import EmailWatcher.Basic
import EmailWatcher.Library.Table

-- The rules that say which attachments are handed to which capability, with all of their versions.
namespace Rules

inductive Category
  | invoice
  | scheduling
  | customerRequest
  | automatedNotice
  | informational
  | other
  deriving DecidableEq, Repr

inductive Priority
  | urgent
  | high
  | normal
  | low
  deriving DecidableEq, Repr

-- A condition with one of the operators that its field allows.
inductive Condition
  | senderEquals       (address : String)
  | senderDomainEquals (domain : String)
  | senderNameEquals   (text : String)
  | senderNameContains (text : String)
  | subjectContains    (text : String)
  | subjectStartsWith  (text : String)
  | categoryIn         (categories : List Category)
  | priorityIn         (priorities : List Priority)
  | actionRequired     (value : Bool)
  | mediaTypeEquals    (mediaType : String)
  | filenameGlob       (pattern : String)
  | byteSizeAtMost     (size : Nat)
  | countAtLeast       (count : Nat)
  | countAtMost        (count : Nat)
  deriving DecidableEq, Repr

structure Scope where
  provider  : Option String
  accountId : Option String
  deriving DecidableEq, Repr

structure CapabilityRef where
  id      : String
  version : String
  deriving DecidableEq, Repr

structure ProviderRef where
  appId      : String
  version    : String
  instanceId : String
  deriving DecidableEq, Repr

inductive ParameterValue
  | text    (value : String)
  | integer (value : Int)
  | boolean (value : Bool)
  deriving DecidableEq, Repr

structure ConnectInvokeAction where
  capability : CapabilityRef
  provider   : ProviderRef
  parameters : List (String × ParameterValue)
  deriving DecidableEq, Repr

structure RuleDefinition where
  name        : String
  scope       : Scope
  conditions  : List Condition
  action      : ConnectInvokeAction
  confirmEach : Bool
  deriving DecidableEq, Repr

-- A row of `automation_rules`.
structure Rule where
  ruleId         : String
  currentVersion : Nat
  enabled        : Bool
  system         : Bool
  deleted        : Bool
  createdAt      : Instant
  deriving DecidableEq, Repr

instance : Keyed Rule String where
  key := Rule.ruleId

def Rule.check (r : Rule) : Bool :=
  r.ruleId.toList.length = 36 && 1 ≤ r.currentVersion

inductive VersionKind
  | definition
  | deleted
  deriving DecidableEq, Repr

-- A row of `automation_rule_versions`.
structure Version where
  ruleId                  : String
  version                 : Nat
  kind                    : VersionKind
  definitionJson          : Option String
  definitionSha256        : Option String
  enabled                 : Bool
  scopeMailboxIdentityKey : Option String
  globalRevision          : Nat
  deriving DecidableEq, Repr

instance : Keyed Version (String × Nat) where
  key v := (v.ruleId, v.version)

def maxRuleDefinitionBytes : Nat := 16 * 1024

def Version.check (v : Version) : Bool :=
  v.ruleId.toList.length = 36 && 1 ≤ v.version && 1 ≤ v.globalRevision &&
  v.scopeMailboxIdentityKey.all (·.toList.length = 64) &&
  match v.kind with
  | .deleted    => v.definitionJson = none && v.definitionSha256 = none
  | .definition =>
    v.definitionJson.any
      (fun json => 1 ≤ json.utf8ByteSize && json.utf8ByteSize ≤ maxRuleDefinitionBytes) &&
    v.definitionSha256.all (·.toList.length = 64)

-- A row of `automation_rule_selections`.
structure Selection where
  ruleId        : String
  version       : Nat
  selectionJson : String
  deriving DecidableEq, Repr

instance : Keyed Selection (String × Nat) where
  key x := (x.ruleId, x.version)

def Selection.check (x : Selection) : Bool :=
  2 ≤ x.selectionJson.toList.length && x.selectionJson.toList.length ≤ 65536

@[ext]
structure Store where
  -- The row of `automation_rule_set`, if it is there.
  revision   : Option Nat
  rules      : Table Rule
  versions   : Table Version
  selections : Table Selection

instance : EmptyCollection Store where
  emptyCollection := {
    revision   := some 0
    rules      := ∅
    versions   := ∅
    selections := ∅
  }

def Store.versionsOf (s : Store) (ruleId : String) : List Version :=
  s.versions.rows.filter (·.ruleId = ruleId)

inductive RuleError
  | store           (e : StoreError)
  -- `AutomationRuleNotFound`
  | notFound        (ruleId : String)
  -- `AutomationRuleStale`
  | stale           (message : String)
  -- `AutomationRuleLimitExceeded`
  | limitExceeded   (message : String)
  -- `AutomationRuleSystemProtected`
  | systemProtected (message : String)
  -- `RuleValidationError`
  | validation      (reason : String)
  -- `MailboxIdentityChanged`
  | identityChanged (message : String)
  -- `ConnectError`
  | connect         (message : String)
  deriving DecidableEq, Repr

namespace RuleError

def value (message : String) : RuleError :=
  .store (.value message)

def runtime (message : String) : RuleError :=
  .store (.runtime message)

def integrity (message : String) : RuleError :=
  .store (.integrity message)

end RuleError

-- The digest, the strict parser and the canonical encoding of definitions, and what the store asks of
-- the shared client about the capability that a rule selects.
class Codec where
  -- `hashlib.sha256(text).hexdigest()`
  sha256 : String → String
  -- `parse_rule_definition(json.loads(text))`
  parseRuleDefinition : String → Except String RuleDefinition
  -- The text that `canonical_rule_definition` encodes
  encodeRuleDefinition : RuleDefinition → String
  -- `connect.DiscoveredCapability`
  Capability : Type
  -- `encode_selection`
  encodeSelection : Capability → String
  -- `decode_selection`
  decodeSelection : String → Option Capability
  -- Whether `connect.validate_capability_parameters` accepts the parameters
  validCapabilityParameters : Capability → List (String × ParameterValue) → Bool

end Rules
