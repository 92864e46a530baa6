import EmailWatcher.Library.Limit
import EmailWatcher.Rules.Schema
import Mathlib.Data.List.Infix
import Mathlib.Data.List.Nodup
import Mathlib.Data.List.Sort

-- Which rules fire for an analyzed message, and for which of its attachments.
namespace Rules.Matching

-- `str.casefold`.
class Casefold where
  casefold : String → String

section Glob

inductive GlobMember
  | one   (c : Char)
  | range (first last : Char)
  deriving DecidableEq, Repr

namespace GlobMember

def admits (c : Char) : GlobMember → Bool
  | one c'           => c = c'
  | range first last => first ≤ c && c ≤ last

def isEmpty : GlobMember → Bool
  | one _            => false
  | range first last => last < first

end GlobMember

inductive GlobToken
  | star
  | any
  | set  (negated : Bool) (members : List GlobMember)
  | char (c : Char)

def GlobToken.admits (c : Char) : GlobToken → Bool
  | star                => true
  | any                 => true
  | set negated members => negated != members.any (·.admits c)
  | char c'             => c = c'

def globMembers : List Char → List GlobMember
  | c :: '-' :: d :: cs => .range c d :: globMembers cs
  | c :: cs             => .one c :: globMembers cs
  | []                  => []

-- The set of the regular expression: an exclamation mark that the removal of empty ranges has brought to
-- its front negates it, and what was a range from it becomes a hyphen and its end.
def globSetOf : List GlobMember → GlobToken
  | .one '!' :: members     => .set true members
  | .range '!' d :: members => .set true (.one '-' :: .one d :: members)
  | members                 => .set false members

-- What stands between brackets, and what comes after them. A bracket that closes at once is a member.
def globSet (cs : List Char) : Option (GlobToken × List Char) :=
  let negated := cs.head? = some '!'
  let cs := if negated then cs.tail else cs
  let first := cs.takeWhile (· = ']') |>.take 1
  let (stuff, rest) := (cs.drop first.length).span (· ≠ ']')
  let members := (globMembers (first ++ stuff)).filter (!·.isEmpty)
  if rest.isEmpty then none
  else some (if negated then .set true members else globSetOf members, rest.tail)

-- Every token takes at least one of the characters, so that their number is fuel enough.
def globTokens : Nat → List Char → List GlobToken
  | _,        []        => []
  | 0,        _         => []
  | fuel + 1, '*' :: cs => .star :: globTokens fuel cs
  | fuel + 1, '?' :: cs => .any :: globTokens fuel cs
  | fuel + 1, '[' :: cs =>
    match globSet cs with
    | some (token, rest) => token :: globTokens fuel rest
    | none               => .char '[' :: globTokens fuel cs
  | fuel + 1, c :: cs   => .char c :: globTokens fuel cs

def globMatches : List GlobToken → List Char → Bool
  | [],              cs      => cs.isEmpty
  | .star :: tokens, cs      => cs.tails.any (globMatches tokens)
  | token :: tokens, c :: cs => token.admits c && globMatches tokens cs
  | _ :: _,          []      => false

def fnmatchcase (name pattern : String) : Bool :=
  globMatches (globTokens pattern.toList.length pattern.toList) name.toList

end Glob

-- `text.rsplit(separator, 1)[-1]`.
def afterLast (separator : Char) (text : String) : String :=
  String.ofList (text.toList.reverse.takeWhile (· ≠ separator)).reverse

inductive ConditionField
  | sender
  | senderName
  | subject
  | category
  | priority
  | actionRequired
  | mediaType
  | filename
  | byteSize
  | count
  deriving DecidableEq, Repr

inductive ConditionOp
  | equals
  | domainEquals
  | contains
  | startsWith
  | in
  | glob
  | lte
  | gte
  deriving DecidableEq, Repr

def allowedOps : ConditionField → List ConditionOp
  | .sender         => [.equals, .domainEquals]
  | .senderName     => [.equals, .contains]
  | .subject        => [.contains, .startsWith]
  | .category       => [.equals, .in]
  | .priority       => [.equals, .in]
  | .actionRequired => [.equals]
  | .mediaType      => [.equals]
  | .filename       => [.glob]
  | .byteSize       => [.lte]
  | .count          => [.gte, .lte]

inductive Operand
  | text    (value : String)
  | integer (value : Int)
  | boolean (value : Bool)
  | texts   (values : List String)
  deriving DecidableEq, Repr

-- The kind of value that a condition is admitted with. Lengths and spellings are checked as well, but
-- do not matter to a match.
def validOperand (op : ConditionOp) : ConditionField → Operand → Bool
  | .category,       .texts _   => op = .in
  | .category,       .text _    => op = .equals
  | .priority,       .texts _   => op = .in
  | .priority,       .text _    => op = .equals
  | .actionRequired, .boolean _ => true
  | .byteSize,       .integer _ => true
  | .count,          .integer _ => true
  | .sender,         .text _    => true
  | .senderName,     .text _    => true
  | .subject,        .text _    => true
  | .mediaType,      .text _    => true
  | .filename,       .text _    => true
  | _,               _          => false

structure Condition where
  field   : ConditionField
  op      : ConditionOp
  value   : Operand
  allowed : op ∈ allowedOps field
  valid   : validOperand op field value = true

def attachmentFields : List ConditionField :=
  [.mediaType, .filename, .byteSize]

structure RuleDefinition where
  scope       : Scope
  conditions  : List Condition
  action      : ConnectInvokeAction
  confirmEach : Bool

structure MatchRule where
  ruleId                  : String
  version                 : Nat
  scopeMailboxIdentityKey : Option String
  definition              : RuleDefinition

structure MatchedFire where
  ruleId      : String
  ruleVersion : Nat
  partId      : String
  action      : ConnectInvokeAction
  confirmEach : Bool
  deriving DecidableEq

-- What conditions read of the result of the analysis, which has all of its fields.
structure Analysis where
  category       : String
  priority       : String
  actionRequired : Bool

structure Message where
  provider           : String
  accountId          : String
  mailboxIdentityKey : String
  sender             : String
  senderName         : Option String
  subject            : String
  result             : Analysis

structure AttachmentDescriptor where
  partId        : String
  filename      : String
  mediaType     : String
  byteSize      : Nat
  position      : Int
  byteSizeKnown : Bool
  deriving DecidableEq

structure AutomationFanoutLimit where
  message : String
  deriving DecidableEq

def maxAutomationAttachments : Nat := 1000

def maxAutomationFiresPerMessage : Nat := 1000

-- The comparisons with a value. Python refuses those of a value of another kind, which no condition is
-- admitted with.
namespace Operand

-- `value in candidate`.
def isIn (candidate : String) : Operand → Bool
  | text value => decide (value.toList <:+: candidate.toList)
  | _          => false

-- `candidate.startswith(value)`.
def starts (candidate : String) : Operand → Bool
  | text value => value.toList.isPrefixOf candidate.toList
  | _          => false

-- `candidate in value`.
def contains (candidate : String) : Operand → Bool
  | texts values => candidate ∈ values
  | _            => false

-- `value <= candidate`, and `candidate <= value`.
def atMost (candidate : Int) : Operand → Bool
  | integer value => value ≤ candidate
  | _             => false

def atLeast (candidate : Int) : Operand → Bool
  | integer value => candidate ≤ value
  | _             => false

-- `fnmatch.fnmatchcase(name, value)`.
def globs (name : String) : Operand → Bool
  | text value => fnmatchcase name value
  | _          => false

end Operand

section Code

variable [Casefold]

open Casefold

def messageCondition (c : Condition) (m : Message) (attachmentCount : Nat) : Bool :=
  match c.field with
  | .sender =>
    if c.op = .equals then .text m.sender = c.value
    else .text (casefold (afterLast '@' m.sender)) = c.value
  | .senderName =>
    let candidate := casefold (m.senderName.getD "")
    if c.op = .equals then .text candidate = c.value else c.value.isIn candidate
  | .subject =>
    let candidate := casefold m.subject
    if c.op = .startsWith then c.value.starts candidate else c.value.isIn candidate
  | .category =>
    if c.op = .in then c.value.contains m.result.category else .text m.result.category = c.value
  | .priority =>
    if c.op = .in then c.value.contains m.result.priority else .text m.result.priority = c.value
  | .actionRequired => .boolean m.result.actionRequired = c.value
  | .count =>
    if c.op = .gte then c.value.atMost attachmentCount else c.value.atLeast attachmentCount
  -- `AssertionError`: the conditions on attachments are sorted out before.
  | .mediaType | .filename | .byteSize => false

def attachmentCondition (c : Condition) (a : AttachmentDescriptor) : Bool :=
  match c.field with
  | .mediaType => .text a.mediaType = c.value
  | .filename  =>
    let separated := String.ofList (a.filename.toList.map fun x => if x = '\\' then '/' else x)
    c.value.globs (casefold (afterLast '/' separated))
  | .byteSize  => a.byteSizeKnown && c.value.atLeast a.byteSize
  | _          => false

-- `sorted(attachments, key=lambda item: (item.position, item.part_id))`.
def AttachmentDescriptor.before (a b : AttachmentDescriptor) : Bool :=
  a.position < b.position || (a.position = b.position && a.partId ≤ b.partId)

def orderedAttachments (attachments : List AttachmentDescriptor) : List AttachmentDescriptor :=
  attachments.mergeSort AttachmentDescriptor.before

def MatchRule.inScope (rule : MatchRule) (m : Message) : Bool :=
  let scope := rule.definition.scope
  if scope.provider.isSome && scope.provider != some m.provider then false
  else if scope.accountId.isSome then
    scope.accountId = some m.accountId && rule.scopeMailboxIdentityKey = some m.mailboxIdentityKey
  else true

def MatchRule.fire (rule : MatchRule) (a : AttachmentDescriptor) : MatchedFire where
  ruleId      := rule.ruleId
  ruleVersion := rule.version
  partId      := a.partId
  action      := rule.definition.action
  confirmEach := rule.definition.confirmEach

def matchAttachment (rule : MatchRule) (conditions : List Condition) (matched : List MatchedFire)
    (a : AttachmentDescriptor) : Except AutomationFanoutLimit (List MatchedFire) :=
  if !conditions.all (attachmentCondition · a) then .ok matched
  else if maxAutomationFiresPerMessage ≤ matched.length then .error ⟨"automation fire limit exceeded"⟩
  else .ok <| matched ++ [rule.fire a]

def matchRule (m : Message) (ordered : List AttachmentDescriptor) (matched : List MatchedFire)
    (rule : MatchRule) : Except AutomationFanoutLimit (List MatchedFire) :=
  if !rule.inScope m then .ok matched
  else
    let messageConditions := rule.definition.conditions.filter (·.field ∉ attachmentFields)
    if !messageConditions.all (messageCondition · m ordered.length) then .ok matched
    else
      let attachmentConditions := rule.definition.conditions.filter (·.field ∈ attachmentFields)
      ordered.foldlM (matchAttachment rule attachmentConditions) matched

def matchRules (rules : List MatchRule) (m : Message) (attachments : List AttachmentDescriptor) :
    Except AutomationFanoutLimit (List MatchedFire) :=
  if maxAutomationAttachments < attachments.length then
    .error ⟨"automation attachment limit exceeded"⟩
  else
    rules.foldlM (matchRule m (orderedAttachments attachments)) []

end Code

section Order

variable {attachments others : List AttachmentDescriptor}

theorem orderedAttachments_perm :
    (orderedAttachments attachments).Perm attachments :=
  List.mergeSort_perm attachments _

theorem orderedAttachments_pairwise :
    (orderedAttachments attachments).Pairwise (·.before ·) := by
  refine List.pairwise_mergeSort (fun a b c hab hbc => ?_) (fun a b => ?_) attachments
  · simp only [AttachmentDescriptor.before, Bool.or_eq_true, Bool.and_eq_true, decide_eq_true_eq] at *
    rcases hab with hab | ⟨hab, hpab⟩ <;> rcases hbc with hbc | ⟨hbc, hpbc⟩
    · exact .inl (hab.trans hbc)
    · exact .inl (hbc ▸ hab)
    · exact .inl (hab ▸ hbc)
    · exact .inr ⟨hab.trans hbc, hpab.trans hpbc⟩
  · simp only [AttachmentDescriptor.before, Bool.or_eq_true, Bool.and_eq_true, decide_eq_true_eq]
    rcases lt_trichotomy a.position b.position with h | h | h
    · exact .inl (.inl h)
    · exact (le_total a.partId b.partId).imp (fun hp => .inr ⟨h, hp⟩) fun hp => .inr ⟨h.symm, hp⟩
    · exact .inr (.inl h)

-- Attachments that have their own places are put into one order, wherever they come from.
theorem orderedAttachments_eq (hp : others.Perm attachments)
    (hn : (attachments.map fun a => (a.position, a.partId)).Nodup) :
    orderedAttachments others = orderedAttachments attachments := by
  have hperm : (orderedAttachments others).Perm (orderedAttachments attachments) :=
    (orderedAttachments_perm.trans hp).trans orderedAttachments_perm.symm
  refine hperm.eq_of_pairwise (fun a b ha hb hab hba => ?_) orderedAttachments_pairwise
    orderedAttachments_pairwise
  have ha : a ∈ attachments := orderedAttachments_perm.mem_iff.mp (hperm.mem_iff.mp ha)
  have hb : b ∈ attachments := orderedAttachments_perm.mem_iff.mp hb
  refine List.inj_on_of_nodup_map hn ha hb ?_
  simp only [AttachmentDescriptor.before, Bool.or_eq_true, Bool.and_eq_true, decide_eq_true_eq] at hab hba
  rcases hab with hab | ⟨hab, hpab⟩
  · rcases hba with hba | ⟨hba, -⟩ <;> omega
  · rcases hba with hba | ⟨-, hpba⟩
    · omega
    · rw [hab, le_antisymm hpab hpba]

end Order

section Specification

variable [Casefold]

open Casefold

-- What a condition asks of a message with so many attachments, and of one of them.
def Condition.Holds (m : Message) (attachmentCount : Nat) (a : AttachmentDescriptor) (c : Condition) : Prop :=
  match c.field, c.op, c.value with
  | .sender,         .equals,       .text value    => m.sender = value
  | .sender,         .domainEquals, .text value    => casefold (afterLast '@' m.sender) = value
  | .senderName,     .equals,       .text value    => casefold (m.senderName.getD "") = value
  | .senderName,     .contains,     .text value    =>
    value.toList <:+: (casefold (m.senderName.getD "")).toList
  | .subject,        .contains,     .text value    => value.toList <:+: (casefold m.subject).toList
  | .subject,        .startsWith,   .text value    => value.toList <+: (casefold m.subject).toList
  | .category,       .equals,       .text value    => m.result.category = value
  | .category,       .in,           .texts values  => m.result.category ∈ values
  | .priority,       .equals,       .text value    => m.result.priority = value
  | .priority,       .in,           .texts values  => m.result.priority ∈ values
  | .actionRequired, .equals,       .boolean value => m.result.actionRequired = value
  | .mediaType,      .equals,       .text value    => a.mediaType = value
  | .filename,       .glob,         .text value    =>
    let separated := String.ofList (a.filename.toList.map fun x => if x = '\\' then '/' else x)
    fnmatchcase (casefold (afterLast '/' separated)) value
  | .byteSize,       .lte,          .integer value => a.byteSizeKnown ∧ a.byteSize ≤ value
  | .count,          .gte,          .integer value => value ≤ attachmentCount
  | .count,          .lte,          .integer value => attachmentCount ≤ value
  | _,               _,             _              => False

structure MatchRule.Fires (m : Message) (attachmentCount : Nat) (rule : MatchRule) (a : AttachmentDescriptor) :
    Prop where
  provider   : ∀ p, rule.definition.scope.provider = some p → p = m.provider
  account    : ∀ i, rule.definition.scope.accountId = some i →
    i = m.accountId ∧ rule.scopeMailboxIdentityKey = some m.mailboxIdentityKey
  conditions : ∀ c ∈ rule.definition.conditions, c.Holds m attachmentCount a

end Specification

section Proofs

variable [Casefold] {m : Message} {n : Nat} {a : AttachmentDescriptor} {c : Condition} {rule : MatchRule}

theorem condition_iff :
    c.Holds m n a ↔
    if c.field ∈ attachmentFields then attachmentCondition c a = true else messageCondition c m n = true := by
  obtain ⟨field, op, value, hallowed, hvalid⟩ := c
  cases field <;> cases value <;> simp [validOperand] at hvalid <;>
    simp [allowedOps] at hallowed <;>
    (try rcases hallowed with rfl | rfl) <;>
    simp_all [Condition.Holds, attachmentFields, attachmentCondition, messageCondition, Operand.isIn,
      Operand.starts, Operand.contains, Operand.atMost, Operand.atLeast, Operand.globs]

omit [Casefold] in
theorem inScope_iff :
    rule.inScope m = true ↔
    (∀ p, rule.definition.scope.provider = some p → p = m.provider) ∧
    ∀ i, rule.definition.scope.accountId = some i →
      i = m.accountId ∧ rule.scopeMailboxIdentityKey = some m.mailboxIdentityKey := by
  obtain ⟨_, _, _, ⟨⟨provider, accountId⟩, _, _, _⟩⟩ := rule
  cases provider <;> cases accountId <;> simp [MatchRule.inScope]

-- The conditions that are looked at one kind after the other are all of them.
theorem conditions_iff {cs : List Condition} :
    (∀ c ∈ cs, c.Holds m n a) ↔
    (cs.filter (·.field ∉ attachmentFields)).all (messageCondition · m n) = true ∧
    (cs.filter (·.field ∈ attachmentFields)).all (attachmentCondition · a) = true := by
  simp only [List.all_eq_true, List.mem_filter, decide_eq_true_eq, and_imp, condition_iff]
  constructor
  case mp =>
    intro h
    refine ⟨fun c hc hf => ?_, fun c hc hf => ?_⟩
    · simpa [hf] using h c hc
    · simpa [hf] using h c hc
  case mpr =>
    rintro ⟨hm, ha⟩ c hc
    split
    case isTrue hf  => exact ha c hc hf
    case isFalse hf => exact hm c hc hf

theorem fires_iff :
    rule.Fires m n a ↔
    rule.inScope m = true ∧
    (rule.definition.conditions.filter (·.field ∉ attachmentFields)).all (messageCondition · m n) = true ∧
    (rule.definition.conditions.filter (·.field ∈ attachmentFields)).all (attachmentCondition · a) = true := by
  rw [inScope_iff, ← conditions_iff]
  exact ⟨fun h => ⟨⟨h.provider, h.account⟩, h.conditions⟩, fun h => ⟨h.left.left, h.left.right, h.right⟩⟩

instance : Decidable (rule.Fires m n a) :=
  decidable_of_iff _ fires_iff.symm

-- The fires of a rule, for attachments in their order.
def MatchRule.fires (m : Message) (ordered : List AttachmentDescriptor) (rule : MatchRule) :
    List MatchedFire :=
  (ordered.filter fun a => rule.Fires m ordered.length a).map rule.fire

def specification (rules : List MatchRule) (m : Message) (ordered : List AttachmentDescriptor) :
    List MatchedFire :=
  rules.flatMap (·.fires m ordered)

def fanoutLimit : AutomationFanoutLimit :=
  ⟨"automation fire limit exceeded"⟩

theorem matchAttachment_eq {conditions : List Condition} {matched : List MatchedFire}
    (h : matched.length ≤ maxAutomationFiresPerMessage) :
    matchAttachment rule conditions matched a =
      Limit.within maxAutomationFiresPerMessage fanoutLimit
        (matched ++ if conditions.all (attachmentCondition · a) then [rule.fire a] else []) := by
  unfold matchAttachment Limit.within fanoutLimit
  cases conditions.all (attachmentCondition · a)
  case false => simp [h]
  case true  => grind

omit [Casefold] in
theorem flatMap_ite {α β : Type} (p : α → Bool) (f : α → β) (l : List α) :
    l.flatMap (fun a => if p a then [f a] else []) = (l.filter p).map f := by
  induction l
  case nil         => rfl
  case cons a l ih => cases h : p a <;> simp [h, ih]

theorem matchRule_eq {ordered : List AttachmentDescriptor} {matched : List MatchedFire}
    (h : matched.length ≤ maxAutomationFiresPerMessage) :
    matchRule m ordered matched rule =
      Limit.within maxAutomationFiresPerMessage fanoutLimit (matched ++ rule.fires m ordered) := by
  have hnone (hn : ∀ a, ¬rule.Fires m ordered.length a) :
      Except.ok matched =
        Limit.within maxAutomationFiresPerMessage fanoutLimit (matched ++ rule.fires m ordered) := by
    simp [MatchRule.fires, hn, Limit.within, h]
  unfold matchRule
  split
  case isTrue hscope => exact hnone fun a hf => by simp [(fires_iff.mp hf).left] at hscope
  case isFalse hscope =>
    dsimp only
    split
    case isTrue hmessage =>
      refine hnone fun a hf => ?_
      rw [(fires_iff.mp hf).right.left] at hmessage
      cases hmessage
    case isFalse hmessage =>
      have hscope : rule.inScope m = true := by simpa using hscope
      have hmessage : (rule.definition.conditions.filter (·.field ∉ attachmentFields)).all
          (messageCondition · m ordered.length) = true := by
        simpa only [Bool.not_eq_true', Bool.not_eq_false] using hmessage
      refine (Limit.foldlM_within (f := matchAttachment rule _) (fun _ _ h => matchAttachment_eq h) h ordered).trans ?_
      rw [MatchRule.fires, flatMap_ite]
      congr 4
      ext a
      simp only [fires_iff, hscope, hmessage, true_and, Bool.decide_eq_true]

theorem match_rules_exact (rules : List MatchRule) (m : Message) (attachments : List AttachmentDescriptor) :
    ∃ ordered, ordered.Perm attachments ∧ ordered.Pairwise (·.before ·) ∧
      (∀ fires, matchRules rules m attachments = .ok fires → fires = specification rules m ordered) ∧
      ((∃ e, matchRules rules m attachments = .error e) ↔
        maxAutomationAttachments < attachments.length ∨
        maxAutomationFiresPerMessage < (specification rules m ordered).length) ∧
      ∀ others, others.Perm attachments → (attachments.map fun a => (a.position, a.partId)).Nodup →
        matchRules rules m others = matchRules rules m attachments := by
  refine ⟨orderedAttachments attachments, orderedAttachments_perm, orderedAttachments_pairwise, ?_⟩
  have hloop : rules.foldlM (matchRule m (orderedAttachments attachments)) [] =
      Limit.within maxAutomationFiresPerMessage fanoutLimit
        (specification rules m (orderedAttachments attachments)) :=
    Limit.foldlM_within (f := matchRule m _) (fun _ _ h => matchRule_eq h) (Nat.zero_le _) rules
  refine ⟨fun fires h => ?_, ?_, fun others hp hn => ?_⟩
  · unfold matchRules at h
    split at h
    case isTrue => cases h
    case isFalse =>
      rw [hloop] at h
      exact (Limit.within_eq_ok.mp h).right
  · unfold matchRules
    split
    case isTrue hmax  => simp [hmax]
    case isFalse hmax =>
      rw [hloop, Limit.within_eq_error]
      simp [hmax]
  · rw [matchRules, matchRules, hp.length_eq, orderedAttachments_eq hp hn]

end Proofs

end Rules.Matching
