import Mathlib.Data.List.Basic
import Mathlib.Data.List.Nodup
import Mathlib.Data.List.Pairwise
import Mathlib.Order.Basic

-- The parts of a message, and the numbers of the sections by which a mail server names them.
namespace Sections

-- What a part has inside: nothing, further parts, or the body of an embedded message.
inductive Content (α : Type)
  | single
  | multipart (parts : List α)
  | message   (body : α)

-- Where a part stands: which of the parts inside is entered, one after the other. A body is part 0 of its message.
abbrev Path := List Nat

-- One part stands before another one, and neither is inside of the other.
inductive Before : Path → Path → Prop
  | here    {i j : Nat} {p q : Path} : i < j → Before (i :: p) (j :: q)
  | further {i : Nat} {p q : Path}   : Before p q → Before (i :: p) (i :: q)

theorem Before.apart {p q : Path} (h : Before p q) : ¬p <+: q ∧ ¬q <+: p := by
  induction h
  case here i j p q h     =>
    simp only [List.cons_prefix_cons]
    omega
  case further i p q _ ih =>
    simp only [List.cons_prefix_cons, true_and]
    exact ih

theorem Before.asymm {p q : Path} (h : Before p q) : ¬Before q p := by
  induction h
  case here i j p q h     =>
    intro h'
    cases h'
    case here h' => exact absurd h' (Nat.lt_asymm h)
    case further => exact Nat.lt_irrefl _ h
  case further i p q _ ih =>
    intro h'
    cases h'
    case here h'    => exact Nat.lt_irrefl _ h'
    case further h' => exact ih h'

theorem nodup_of_before {ps : List Path} (h : ps.Pairwise Before) : ps.Nodup :=
  h.imp fun {p q} (hbefore : Before p q) (heq : p = q) => hbefore.apart.left (heq ▸ List.prefix_rfl)

-- Paths have only one order in which they stand.
theorem eq_of_before {ps qs : List Path} (hp : ps.Pairwise Before) (hq : qs.Pairwise Before)
    (h : ∀ p, p ∈ ps ↔ p ∈ qs) : ps = qs := by
  have hperm : ps.Perm qs := (List.perm_ext_iff_of_nodup (nodup_of_before hp) (nodup_of_before hq)).mpr @h
  exact hperm.eq_of_pairwise (fun p q _ _ hpq hqp => absurd hqp hpq.asymm) hp hq

section Numbers

variable {α : Type} (content : α → Content α)

def parts (a : α) : List α :=
  match content a with
  | .single          => []
  | .multipart parts => parts
  | .message body    => [body]

-- The part at a path
def at? : α → Path → Option α
  | a, []     => some a
  | a, i :: p => (parts content a)[i]?.bind fun b => at? b p

-- The part with a number in a message with this body. A body that has no parts is the first part itself.
def numbered (body : α) (n : Nat) : Option (Path × α) :=
  match content body with
  | .multipart parts => if n = 0 then none else parts[n - 1]?.map fun a => ([n - 1], a)
  | _                => if n = 1 then some ([], body) else none

-- Where the part stands to which numbers lead from a part that has a number itself.
def inside : α → List Nat → Option Path
  | _, []      => some []
  | a, n :: ns =>
    match content a with
    | .single       => none
    | .multipart _  => (numbered content a n).bind fun x => (inside x.snd ns).map (x.fst ++ ·)
    | .message body => (numbered content body n).bind fun x => (inside x.snd ns).map fun p => 0 :: (x.fst ++ p)

-- Where the part stands that the numbers of a section name in a message with this body. Without numbers it is the
-- whole body.
def resolve (body : α) : List Nat → Option Path
  | []      => some []
  | n :: ns => (numbered content body n).bind fun x => (inside content x.snd ns).map (x.fst ++ ·)

end Numbers

-- A part at which a walk stops, with the numbers that lead to it.
structure Stop (α : Type) where
  path    : Path
  numbers : List Nat
  part    : α

namespace Stop

variable {α : Type}

def under (i : Nat) (numbers : List Nat) (s : Stop α) : Stop α where
  path    := i :: s.path
  numbers := numbers ++ s.numbers
  part    := s.part

end Stop

section Walk

variable {α : Type} (content : α → Content α) (stops : α → Bool)

def isMultipart (a : α) : Bool :=
  match content a with
  | .multipart _ => true
  | _            => false

-- The numbers that lead to the body of an embedded message: one that has parts is not numbered itself.
def bodyNumbers (body : α) : List Nat :=
  if isMultipart content body then [] else [1]

-- The stops in some parts, from the given one on.
def walkParts (walk : α → List (Stop α)) : Nat → List α → List (Stop α)
  | _, []      => []
  | i, a :: as => (walk a).map (Stop.under i [i + 1]) ++ walkParts walk (i + 1) as

-- The stops in a part, so many levels deep.
def walk : Nat → α → List (Stop α)
  | 0,        _ => []
  | room + 1, a =>
    if stops a then [⟨[], [], a⟩]
    else
      match content a with
      | .single          => []
      | .multipart parts => walkParts (walk room) 0 parts
      | .message body    => (walk room body).map (Stop.under 0 (bodyNumbers content body))

-- No part that a part stands in is a stop.
def Reached : α → Path → Prop
  | _, []     => True
  | a, i :: p => stops a = false ∧ ∃ b, (parts content a)[i]? = some b ∧ Reached b p

-- A part has no number if it has parts and is the body of an embedded message.
def Unnumbered (root : α) (p : Path) : Prop :=
  ∃ q a b, p = q ++ [0] ∧ at? content root q = some a ∧ content a = .message b ∧ isMultipart content b

variable {content stops} {w : α → List (Stop α)} {as : List α} {a b : α} {s : Stop α} {i room n : Nat} {ns : List Nat}
  {p : Path}

theorem mem_walkParts : s ∈ walkParts w i as ↔
    ∃ k a, as[k]? = some a ∧ ∃ s' ∈ w a, s = s'.under (i + k) [i + k + 1] := by
  induction as generalizing i
  case nil          => simp [walkParts]
  case cons a as ih =>
    rw [walkParts, List.mem_append, List.mem_map, ih]
    constructor
    case mp  =>
      rintro (⟨s', hs', rfl⟩ | ⟨k, b, hb, s', hs', rfl⟩)
      · exact ⟨0, a, rfl, s', hs', rfl⟩
      · exact ⟨k + 1, b, hb, s', hs', by rw [Nat.add_right_comm, Nat.add_assoc]⟩
    case mpr =>
      rintro ⟨k, b, hb, s', hs', rfl⟩
      cases k
      case zero   =>
        obtain rfl : a = b := Option.some.inj hb
        exact .inl ⟨s', hs', rfl⟩
      case succ k =>
        have hk : i + (k + 1) = i + 1 + k := by omega
        exact .inr ⟨k, b, hb, s', hs', hk ▸ rfl⟩

theorem walk_stop (h : stops a) : walk content stops (room + 1) a = [⟨[], [], a⟩] := by
  rw [walk, if_pos h]

theorem walk_pass (h : stops a = false) : walk content stops (room + 1) a =
    match content a with
    | .single          => []
    | .multipart parts => walkParts (walk content stops room) 0 parts
    | .message body    => (walk content stops room body).map (Stop.under 0 (bodyNumbers content body)) := by
  rw [walk, if_neg (by simp [h])]

-- Where a walk may stop
theorem mem_walk : s ∈ walk content stops (room + 1) a ↔
    stops a ∧ s = ⟨[], [], a⟩ ∨ stops a = false ∧ ∃ i b ns, (parts content a)[i]? = some b ∧
      (content a = .message b ∧ ns = bodyNumbers content b ∨ isMultipart content a ∧ ns = [i + 1]) ∧
      ∃ s' ∈ walk content stops room b, s = s'.under i ns := by
  cases hstops : stops a
  case true  => simp [walk_stop hstops]
  case false =>
    rw [walk_pass hstops]
    cases ha : content a
    case single          => simp [parts, ha]
    case multipart parts => simp [Sections.parts, isMultipart, ha, mem_walkParts]
    case message body    =>
      simp only [parts, isMultipart, ha, List.mem_map]
      constructor
      case mp  =>
        rintro ⟨s', hs', rfl⟩
        exact .inr ⟨trivial, 0, body, _, rfl, .inl ⟨rfl, rfl⟩, s', hs', rfl⟩
      case mpr =>
        rintro (⟨h, -⟩ | ⟨-, i, b, ns, hb, ⟨hbody, rfl⟩ | ⟨h, -⟩, s', hs', rfl⟩)
        · cases h
        · obtain rfl := Content.message.inj hbody
          obtain ⟨hi, -⟩ := List.getElem?_eq_some_iff.mp hb
          obtain rfl : i = 0 := Nat.lt_one_iff.mp hi
          exact ⟨s', hs', rfl⟩
        · cases h

theorem at?_cons (h : (parts content a)[i]? = some b) : at? content a (i :: p) = at? content b p := by
  rw [at?, h, Option.bind_some]

-- Every stop is reached.
theorem reached_of_mem (h : s ∈ walk content stops room a) :
    at? content a s.path = some s.part ∧ stops s.part ∧ Reached content stops a s.path := by
  induction room generalizing a s
  case zero         => cases h
  case succ room ih =>
    obtain ⟨hstops, rfl⟩ | ⟨hstops, i, b, ns, hb, -, s', hs', rfl⟩ := mem_walk.mp h
    case inl => exact ⟨rfl, hstops, trivial⟩
    case inr =>
      obtain ⟨hat, hstop, hreached⟩ := ih hs'
      exact ⟨(at?_cons hb).trans hat, hstop, hstops, b, hb, hreached⟩

theorem exists_numbers (h : (parts content a)[i]? = some b) : ∃ ns,
    content a = .message b ∧ ns = bodyNumbers content b ∨ isMultipart content a ∧ ns = [i + 1] := by
  cases ha : content a
  case single          => simp [parts, ha] at h
  case multipart parts => exact ⟨_, .inr ⟨by rw [isMultipart, ha], rfl⟩⟩
  case message body    =>
    obtain rfl : body = b := by
      rw [parts, ha] at h
      exact (List.mem_singleton.mp (List.mem_of_getElem? h)).symm
    exact ⟨_, .inl ⟨rfl, rfl⟩⟩

-- A walk that is deep enough stops wherever a stop is reached.
theorem mem_of_reached (h : Reached content stops a p) (hb : at? content a p = some b) (hstop : stops b)
    (hroom : p.length < room) : ∃ s ∈ walk content stops room a, s.path = p := by
  induction room generalizing a p
  case zero         => cases hroom
  case succ room ih =>
    cases p
    case nil      =>
      obtain rfl := Option.some.inj hb
      exact ⟨_, mem_walk.mpr (.inl ⟨hstop, rfl⟩), rfl⟩
    case cons i p =>
      obtain ⟨hstops, c, hc, hreached⟩ := h
      obtain ⟨ns, hns⟩ := exists_numbers hc
      rw [at?_cons hc] at hb
      obtain ⟨s, hs, rfl⟩ := ih hreached hb (Nat.lt_of_succ_lt_succ hroom)
      exact ⟨_, mem_walk.mpr (.inr ⟨hstops, i, c, ns, hc, hns, s, hs, rfl⟩), rfl⟩

-- What holds of any two stops in a part, and of any two in different parts.
theorem walkParts_pairwise {R : Stop α → Stop α → Prop}
    (hin : ∀ a ∈ as, ∀ i, (w a).Pairwise fun s t => R (s.under i [i + 1]) (t.under i [i + 1]))
    (hout : ∀ s t i j, i < j → R (Stop.under i [i + 1] s) (Stop.under j [j + 1] t)) :
    (walkParts w i as).Pairwise R := by
  induction as generalizing i
  case nil          => exact List.Pairwise.nil
  case cons a as ih =>
    rw [walkParts, List.pairwise_append]
    refine ⟨List.pairwise_map.mpr (hin a List.mem_cons_self i), ih fun b hb => hin b (List.mem_cons_of_mem _ hb), ?_⟩
    intro s hs t ht
    obtain ⟨s', -, rfl⟩ := List.mem_map.mp hs
    obtain ⟨k, b, -, t', -, rfl⟩ := mem_walkParts.mp ht
    exact hout _ _ _ _ (by omega)

theorem walk_pairwise {R : Stop α → Stop α → Prop}
    (hin : ∀ s t i ns, R s t → R (Stop.under i ns s) (Stop.under i ns t))
    (hout : ∀ s t i j, i < j → R (Stop.under i [i + 1] s) (Stop.under j [j + 1] t)) :
    (walk content stops room a).Pairwise R := by
  induction room generalizing a
  case zero         => exact List.Pairwise.nil
  case succ room ih =>
    cases hstops : stops a
    case true  =>
      rw [walk_stop hstops]
      exact List.pairwise_singleton _ _
    case false =>
      rw [walk_pass hstops]
      cases content a
      case single          => exact List.Pairwise.nil
      case multipart parts => exact walkParts_pairwise (fun b _ i => ih.imp (hin _ _ _ _)) hout
      case message body    => exact List.pairwise_map.mpr (ih.imp (hin _ _ _ _))

-- The stops come in the order in which they stand.
theorem walk_before : (walk content stops room a).Pairwise fun s t => Before s.path t.path :=
  walk_pairwise (fun _ _ _ _ => .further) fun _ _ _ _ => .here

-- No two stops have the same numbers.
theorem walk_numbers : (walk content stops room a).Pairwise fun s t => s.numbers ≠ t.numbers := by
  refine walk_pairwise ?_ ?_
  · exact fun s t i ns h heq => h (List.append_cancel_left heq)
  · intro s t i j hij heq
    have hhead := (List.cons.inj heq).left
    omega

theorem unnumbered_nil : ¬Unnumbered content a [] := by
  rintro ⟨q, -, -, h, -⟩
  simp at h

theorem unnumbered_cons (h : (parts content a)[i]? = some b) : Unnumbered content a (i :: p) ↔
    (p = [] ∧ content a = .message b ∧ isMultipart content b) ∨ Unnumbered content b p := by
  constructor
  case mp  =>
    rintro ⟨q, c, d, hp, hc, hd, hmultipart⟩
    cases q
    case nil      =>
      obtain ⟨rfl, rfl⟩ := List.cons.inj hp
      obtain rfl := Option.some.inj hc
      obtain rfl : d = b := by
        rw [parts, hd] at h
        exact Option.some.inj h
      exact .inl ⟨rfl, hd, hmultipart⟩
    case cons j q =>
      obtain ⟨rfl, rfl⟩ := List.cons.inj hp
      exact .inr ⟨q, c, d, rfl, (at?_cons h).symm.trans hc, hd, hmultipart⟩
  case mpr =>
    rintro (⟨rfl, hbody, hmultipart⟩ | ⟨q, c, d, rfl, hc, hd, hmultipart⟩)
    · obtain rfl : i = 0 := by
        rw [parts, hbody] at h
        obtain ⟨hi, -⟩ := List.getElem?_eq_some_iff.mp h
        exact Nat.lt_one_iff.mp hi
      exact ⟨[], a, b, rfl, rfl, hbody, hmultipart⟩
    · exact ⟨i :: q, c, d, rfl, (at?_cons h).trans hc, hd, hmultipart⟩

-- A part that has parts is numbered by itself only where it is a stop.
theorem numbers_eq_nil (h : s ∈ walk content stops room a) (ha : isMultipart content a) :
    s.numbers = [] ↔ s.path = [] := by
  cases room
  case zero      => cases h
  case succ room =>
    obtain ⟨-, rfl⟩ | ⟨-, i, b, ns, -, ⟨hbody, -⟩ | ⟨-, rfl⟩, s', -, rfl⟩ := mem_walk.mp h
    · exact iff_of_true rfl rfl
    · simp [isMultipart, hbody] at ha
    · exact iff_of_false (List.cons_ne_nil _ _) (List.cons_ne_nil _ _)

theorem isMultipart_iff : isMultipart content a ↔ ∃ parts, content a = .multipart parts := by
  rw [isMultipart]
  cases content a <;> simp

theorem inside_multipart {parts : List α} (ha : content a = .multipart parts) (hb : parts[i]? = some b) :
    inside content a ((i + 1) :: ns) = (inside content b ns).map (i :: ·) := by
  simp only [inside, numbered, ha, Nat.add_one_ne_zero, if_false, Nat.add_sub_cancel, hb, Option.map_some,
    Option.bind_some, List.singleton_append]

theorem inside_message (ha : content a = .message b) : inside content a (n :: ns) =
    (numbered content b n).bind fun x => (inside content x.snd ns).map fun p => 0 :: (x.fst ++ p) := by
  rw [inside, ha]

theorem inside_message_multipart (ha : content a = .message b) (hb : isMultipart content b) :
    inside content a (n :: ns) = (inside content b (n :: ns)).map (0 :: ·) := by
  obtain ⟨parts, hparts⟩ := isMultipart_iff.mp hb
  rw [inside_message ha, inside, hparts]
  cases numbered content b n
  case none   => rfl
  case some x =>
    simp only [Option.bind_some, Option.map_map]
    rfl

theorem numbered_single (hb : isMultipart content b = false) : numbered content b 1 = some ([], b) := by
  rw [numbered]
  cases hcontent : content b
  case multipart parts => simp [isMultipart, hcontent] at hb
  all_goals rfl

theorem inside_message_single (ha : content a = .message b) (hb : isMultipart content b = false) :
    inside content a (1 :: ns) = (inside content b ns).map (0 :: ·) := by
  rw [inside_message ha, numbered_single hb]
  rfl

theorem map_cons_eq {o : Option Path} : o.map (i :: ·) = some (i :: p) ↔ o = some p := by
  cases o <;> simp

-- The numbers of a stop lead to it, unless it has no number.
theorem inside_numbers (h : s ∈ walk content stops room a) :
    inside content a s.numbers = some s.path ↔ ¬Unnumbered content a s.path := by
  induction room generalizing a s
  case zero         => cases h
  case succ room ih =>
    obtain ⟨-, rfl⟩ | ⟨-, i, b, ns, hb, ⟨hbody, rfl⟩ | ⟨hmultipart, rfl⟩, s', hs', rfl⟩ := mem_walk.mp h
    · exact iff_of_true rfl unnumbered_nil
    · obtain rfl : i = 0 := by
        rw [parts, hbody] at hb
        obtain ⟨hi, -⟩ := List.getElem?_eq_some_iff.mp hb
        exact Nat.lt_one_iff.mp hi
      change inside content a (bodyNumbers content b ++ s'.numbers) = some (0 :: s'.path) ↔
        ¬Unnumbered content a (0 :: s'.path)
      rw [unnumbered_cons hb, not_or, ← ih hs', bodyNumbers]
      cases hb' : isMultipart content b
      case true  =>
        simp only [if_true, List.nil_append, and_true]
        cases hnumbers : s'.numbers
        case nil       =>
          -- the body itself is the stop
          have hpath := (numbers_eq_nil hs' hb').mp hnumbers
          refine iff_of_false (fun h => ?_) fun h => h.left ⟨hpath, hbody⟩
          cases h
        case cons n ns =>
          have hpath : s'.path ≠ [] := by
            intro hpath
            rw [(numbers_eq_nil hs' hb').mpr hpath] at hnumbers
            cases hnumbers
          rw [inside_message_multipart hbody hb', map_cons_eq]
          exact (and_iff_right fun h => hpath h.left).symm
      case false =>
        simp only [Bool.false_eq_true, if_false, and_false, not_false_eq_true, true_and, List.singleton_append]
        rw [inside_message_single hbody hb', map_cons_eq]
    · obtain ⟨parts, hparts⟩ := isMultipart_iff.mp hmultipart
      have hget : parts[i]? = some b := by rwa [Sections.parts, hparts] at hb
      change inside content a ((i + 1) :: s'.numbers) = some (i :: s'.path) ↔ ¬Unnumbered content a (i :: s'.path)
      rw [unnumbered_cons hb, not_or, ← ih hs', inside_multipart hparts hget, map_cons_eq]
      exact (and_iff_right fun h => by cases hparts.symm.trans h.right.left).symm

-- The numbers of the body of the whole message come before those of its parts.
theorem resolve_bodyNumbers : resolve content a (bodyNumbers content a ++ ns) = inside content a ns := by
  rw [bodyNumbers]
  cases ha : isMultipart content a
  case true  =>
    obtain ⟨parts, hparts⟩ := isMultipart_iff.mp ha
    cases ns
    case nil       => rfl
    case cons n ns =>
      simp only [if_true, List.nil_append]
      rw [resolve, inside, hparts]
  case false =>
    simp only [Bool.false_eq_true, if_false, List.singleton_append]
    rw [resolve, numbered_single ha]
    simp

-- The section of a stop names it, unless it has no number.
theorem resolve_numbers (h : s ∈ walk content stops room a) :
    resolve content a (bodyNumbers content a ++ s.numbers) = some s.path ↔ ¬Unnumbered content a s.path := by
  rw [resolve_bodyNumbers]
  exact inside_numbers h

-- Two stops are the same, or neither stands in the other one and they have different numbers.
theorem eq_or_apart {t : Stop α} (hs : s ∈ walk content stops room a) (ht : t ∈ walk content stops room a) :
    s = t ∨ (¬s.path <+: t.path ∧ ¬t.path <+: s.path) ∧ s.numbers ≠ t.numbers := by
  have hpairwise : (walk content stops room a).Pairwise fun s t =>
      s = t ∨ (¬s.path <+: t.path ∧ ¬t.path <+: s.path) ∧ s.numbers ≠ t.numbers :=
    (walk_before.and walk_numbers).imp fun h => .inr ⟨h.left.apart, h.right⟩
  have hsymm : Std.Symm fun s t : Stop α =>
      s = t ∨ (¬s.path <+: t.path ∧ ¬t.path <+: s.path) ∧ s.numbers ≠ t.numbers :=
    ⟨fun s t h => h.imp Eq.symm fun h => ⟨h.left.symm, h.right.symm⟩⟩
  exact hpairwise.forall_of_forall (fun _ _ => .inl rfl) hs ht

-- Only parts that have parts are without a number.
theorem Unnumbered.at? (h : Unnumbered content a p) : ∃ b, at? content a p = some b ∧ isMultipart content b := by
  induction p generalizing a
  case nil         => exact absurd h unnumbered_nil
  case cons i p ih =>
    cases hb : (parts content a)[i]?
    case none   =>
      obtain ⟨q, c, d, hp, hc, hd, -⟩ := h
      cases q
      case nil      =>
        obtain ⟨rfl, rfl⟩ := List.cons.inj hp
        obtain rfl := Option.some.inj hc
        rw [parts, hd] at hb
        cases hb
      case cons j q =>
        obtain ⟨rfl, rfl⟩ := List.cons.inj hp
        rw [Sections.at?, hb] at hc
        cases hc
    case some b =>
      rw [at?_cons hb]
      obtain ⟨rfl, -, hmultipart⟩ | h := (unnumbered_cons hb).mp h
      · exact ⟨b, rfl, hmultipart⟩
      · exact ih h

end Walk

end Sections
