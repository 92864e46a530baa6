import EmailWatcher.Library.Machine
import EmailWatcher.Library.Table
import Mathlib.Data.List.Perm.Basic
import Mathlib.Data.List.Sort
import Mathlib.Logic.Function.Basic

-- How those who work for the engine are told to stop, and waited for.
namespace Cancellation

-- `AtomicU64`
def word : Nat :=
  0x10000000000000000

structure CancellationRegistration (π : Type) where
  id          : Option Nat
  participant : π
  deriving DecidableEq, Repr

-- Where a call is. What lies between two of these is one look at the flag or one section under the lock.
inductive Call (π : Type)
  -- `register`, with its number, before it has the lock; and where it found the flag set.
  | registering (id : Nat) (participant : π)
  | refused     (participant : π)
  -- `cancel`, before the lock; and the participants that it still has to call.
  | cancelling
  | calling     (participants : List π)
  -- `wait_for_registrations`, which may be woken at any time.
  | waiting
  deriving DecidableEq, Repr

structure CancellationToken (ι π : Type) where
  nextId        : Nat
  participants  : Table (Nat × π)
  cancelled     : Bool
  -- What the threads are at, and the registrations that were returned and have not been dropped.
  call          : ι → Option (Call π)
  registrations : List (CancellationRegistration π)
  -- What has been: the calls of `register`, the participants whose `cancel_and_wait` ran to completion, whether a
  -- `cancel` has taken its snapshot, whether one has returned, and whether a wait has returned after one had begun.
  registered    : Nat
  done          : List π
  snapshot      : Bool
  returned      : Bool
  waited        : Bool

inductive Action (ι π : Type)
  | register (thread : ι) (participant : π)
  | cancel   (thread : ι)
  | wait     (thread : ι)
  | proceed  (thread : ι)
  | drop     (registration : Nat)

section Source

variable {ι π : Type} [DecidableEq ι]

namespace CancellationToken

def initial : CancellationToken ι π where
  nextId        := 0
  participants  := ∅
  cancelled     := false
  call _        := none
  registrations := []
  registered    := 0
  done          := []
  snapshot      := false
  returned      := false
  waited        := false

variable (s : CancellationToken ι π)

def goto (t : ι) (c : Option (Call π)) : CancellationToken ι π := { s with
  call := Function.update s.call t c
}

-- `values`, in the order of the numbers.
def values : List π :=
  (s.participants.rows.insertionSort (·.fst ≤ ·.fst)).map Prod.snd

-- `fetch_add` wraps around.
def register (t : ι) (participant : π) : CancellationToken ι π := { s with
  nextId     := (s.nextId + 1) % word
  call       := Function.update s.call t (some (.registering s.nextId participant))
  registered := s.registered + 1
}

def cancel (t : ι) : CancellationToken ι π :=
  { s.goto t (some .cancelling) with cancelled := true }

def proceed (t : ι) : Call π → CancellationToken ι π
  | .registering id participant =>
    if s.cancelled then s.goto t (some (.refused participant))
    -- What follows the insertion touches nothing that is shared.
    else { s.goto t none with
      participants  := s.participants.put (id, participant)
      registrations := ⟨some id, participant⟩ :: s.registrations
    }
  | .refused participant        => { s.goto t none with
      registrations := ⟨none, participant⟩ :: s.registrations
      done          := participant :: s.done
    }
  | .cancelling                 => { s.goto t (some (.calling s.values)) with snapshot := true }
  | .calling (p :: rest)        => { s.goto t (some (.calling rest)) with done := p :: s.done }
  | .calling []                 => { s.goto t none with returned := true }
  | .waiting                    =>
    if s.participants.rows = [] then { s.goto t none with waited := s.waited || s.cancelled } else s

-- `Drop::drop`
def drop (k : Nat) (r : CancellationRegistration π) : CancellationToken ι π := { s with
  participants  := r.id.elim s.participants fun id => s.participants.delete (·.fst = id)
  registrations := s.registrations.eraseIdx k
}

end CancellationToken

def token : Machine (CancellationToken ι π) (Action ι π) Unit where
  step s
    | .register t participant => if (s.call t).isNone then .ok (s.register t participant) else .error ()
    | .cancel t               => if (s.call t).isNone then .ok (s.cancel t) else .error ()
    | .wait t                 => if (s.call t).isNone then .ok (s.goto t (some .waiting)) else .error ()
    | .proceed t              =>
      match s.call t with
      | some c => .ok (s.proceed t c)
      | none   => .error ()
    | .drop k                 =>
      match s.registrations[k]? with
      | some r => .ok (s.drop k r)
      | none   => .error ()

end Source

namespace CancellationToken

variable {ι π : Type} [DecidableEq ι] {s s' : CancellationToken ι π} {a : Action ι π} {t : ι} {c : Call π}

omit [DecidableEq ι] in
theorem mem_values {p : π} : p ∈ s.values ↔ ∃ x ∈ s.participants, x.snd = p := by
  simp [values, Table.mem_rows]

section Flag

-- What a call of `cancel` in the given place still has to see to.
def Awaits (s : CancellationToken ι π) : Call π → Prop
  | .cancelling   => s.cancelled
  | .calling rest => s.cancelled ∧ ∀ x ∈ s.participants, x.snd ∈ s.done ∨ x.snd ∈ rest
  | _             => True

-- Once the flag is set nobody enters, and those who are in are seen to.
structure Flagged (s : CancellationToken ι π) : Prop where
  awaits   : ∀ t c, s.call t = some c → s.Awaits c
  snapshot : s.snapshot → s.cancelled
  returned : s.returned → s.cancelled ∧ ∀ x ∈ s.participants, x.snd ∈ s.done
  waited   : s.waited → s.cancelled ∧ s.participants.rows = []
  refused  : ∀ r ∈ s.registrations, r.id = none → r.participant ∈ s.done

-- What is in the registry of a flagged token may only leave it, and what is done stays done.
structure Shrinks (s s' : CancellationToken ι π) : Prop where
  cancelled    : s.cancelled → s'.cancelled
  participants : s.cancelled → ∀ x ∈ s'.participants, x ∈ s.participants
  done         : ∀ p ∈ s.done, p ∈ s'.done

theorem shrinks_step (h : token.step s a = .ok s') : s.Shrinks s' := by
  cases a
  case register t p =>
    simp only [token] at h
    split at h <;> cases h
    exact ⟨id, fun _ _ => id, fun _ => id⟩
  case cancel t     =>
    simp only [token] at h
    split at h <;> cases h
    exact ⟨fun _ => rfl, fun _ _ => id, fun _ => id⟩
  case wait t       =>
    simp only [token] at h
    split at h <;> cases h
    exact ⟨id, fun _ _ => id, fun _ => id⟩
  case drop k       =>
    simp only [token] at h
    split at h <;> cases h
    rename_i r hr
    refine ⟨id, fun _ x hx => ?_, fun _ => id⟩
    cases hid : r.id <;> simp only [drop, hid] at hx
    case none   => exact hx
    case some i => exact (Table.mem_delete.mp hx).left
  case proceed t    =>
    simp only [token] at h
    split at h <;> cases h
    rename_i c hc
    cases c
    case registering id p =>
      rw [proceed]
      split
      case isTrue      => exact ⟨fun h => h, fun _ _ hx => hx, fun _ hp => hp⟩
      case isFalse hnc => exact ⟨fun h => h, fun hc' => absurd hc' hnc, fun _ hp => hp⟩
    case refused p        => exact ⟨id, fun _ _ => id, fun _ => List.mem_cons_of_mem _⟩
    case cancelling       => exact ⟨id, fun _ _ => id, fun _ => id⟩
    case calling rest     =>
      cases rest
      case nil         => exact ⟨id, fun _ _ => id, fun _ => id⟩
      case cons p rest => exact ⟨id, fun _ _ => id, fun _ => List.mem_cons_of_mem _⟩
    case waiting          =>
      rw [proceed]
      split <;> exact ⟨id, fun _ _ => id, fun _ => id⟩

omit [DecidableEq ι] in
theorem Awaits.shrink (h : s.Awaits c) (hs : s.Shrinks s') : s'.Awaits c := by
  cases c
  case cancelling   => exact hs.cancelled h
  case calling rest =>
    obtain ⟨hc, hrest⟩ := h
    refine ⟨hs.cancelled hc, fun x hx => ?_⟩
    obtain hdone | hmem := hrest x (hs.participants hc x hx)
    · exact .inl (hs.done _ hdone)
    · exact .inr hmem
  all_goals trivial

omit [DecidableEq ι] in
-- Only the thread that acts gets to another place.
theorem Flagged.awaits_of (h : s.Flagged) (hs : s.Shrinks s') (hothers : ∀ t', t' ≠ t → s'.call t' = s.call t')
    (ht : ∀ c, s'.call t = some c → s'.Awaits c) (t' : ι) (c : Call π) (hc : s'.call t' = some c) :
    s'.Awaits c := by
  by_cases htt : t' = t
  · subst htt
    exact ht c hc
  · exact (h.awaits t' c (hothers t' htt ▸ hc)).shrink hs

theorem Flagged.proceed (h : s.Flagged) (hc : s.call t = some c) (hs : s.Shrinks (s.proceed t c)) :
    (s.proceed t c).Flagged := by
  have hreturned : s.returned → (s.proceed t c).cancelled ∧
      ∀ x ∈ (s.proceed t c).participants, x.snd ∈ (s.proceed t c).done := fun hr =>
    have ⟨hcancelled, hdone⟩ := h.returned hr
    ⟨hs.cancelled hcancelled, fun x hx => hs.done _ (hdone x (hs.participants hcancelled x hx))⟩
  have hawait := h.awaits t c hc
  cases c
  case registering id p =>
    rw [CancellationToken.proceed] at hs hreturned ⊢
    split at hs <;> rename_i hcancelled
    · rw [if_pos hcancelled] at hreturned ⊢
      refine ⟨h.awaits_of hs (t := t) (fun t' htt => Function.update_of_ne htt _ _) fun c hc => ?_, h.snapshot,
        hreturned, h.waited, h.refused⟩
      cases (Function.update_self t _ _).symm.trans hc
      trivial
    · rw [if_neg hcancelled] at hreturned ⊢
      refine ⟨h.awaits_of hs (t := t) (fun t' htt => Function.update_of_ne htt _ _) fun c hc => ?_, h.snapshot,
        hreturned, fun hw => absurd (h.waited hw).left hcancelled, fun r hr hid => ?_⟩
      · cases (Function.update_self t _ _).symm.trans hc
      · obtain rfl | hr := List.mem_cons.mp hr
        · cases hid
        · exact h.refused r hr hid
  case refused p =>
    refine ⟨h.awaits_of hs (t := t) (fun t' htt => Function.update_of_ne htt _ _) fun c hc => ?_, h.snapshot,
      hreturned, h.waited, fun r hr hid => ?_⟩
    · cases (Function.update_self t _ _).symm.trans hc
    · obtain rfl | hr := List.mem_cons.mp hr
      · exact List.mem_cons_self
      · exact hs.done _ (h.refused r hr hid)
  case cancelling =>
    refine ⟨h.awaits_of hs (t := t) (fun t' htt => Function.update_of_ne htt _ _) fun c hc => ?_, fun _ => hawait,
      hreturned, h.waited, h.refused⟩
    cases (Function.update_self t _ _).symm.trans hc
    exact ⟨hawait, fun x hx => .inr (mem_values.mpr ⟨x, hx, rfl⟩)⟩
  case calling rest =>
    obtain ⟨hcancelled, hrest⟩ := hawait
    cases rest
    case nil =>
      refine ⟨h.awaits_of hs (t := t) (fun t' htt => Function.update_of_ne htt _ _) fun c hc => ?_, h.snapshot,
        fun _ => ⟨hcancelled, fun x hx => (hrest x hx).resolve_right List.not_mem_nil⟩, h.waited, h.refused⟩
      cases (Function.update_self t _ _).symm.trans hc
    case cons p rest =>
      refine ⟨h.awaits_of hs (t := t) (fun t' htt => Function.update_of_ne htt _ _) fun c hc => ?_, h.snapshot,
        hreturned, h.waited, fun r hr hid => hs.done _ (h.refused r hr hid)⟩
      cases (Function.update_self t _ _).symm.trans hc
      refine ⟨hcancelled, fun x hx => ?_⟩
      obtain hdone | hmem := hrest x hx
      · exact .inl (hs.done _ hdone)
      · obtain heq | hmem := List.mem_cons.mp hmem
        · exact .inl (heq ▸ List.mem_cons_self)
        · exact .inr hmem
  case waiting =>
    rw [CancellationToken.proceed] at hs hreturned ⊢
    split at hs <;> rename_i hempty
    · rw [if_pos hempty] at hreturned ⊢
      refine ⟨h.awaits_of hs (t := t) (fun t' htt => Function.update_of_ne htt _ _) fun c hc => ?_, h.snapshot,
        hreturned, fun hw => ?_, h.refused⟩
      · cases (Function.update_self t _ _).symm.trans hc
      · obtain hw | hcancelled := Bool.or_eq_true_iff.mp hw
        · exact h.waited hw
        · exact ⟨hcancelled, hempty⟩
    · rw [if_neg hempty]
      exact h

theorem Flagged.step (h : s.Flagged) (hstep : token.step s a = .ok s') : s'.Flagged := by
  have hs := shrinks_step hstep
  cases a
  case register t p =>
    simp only [token] at hstep
    split at hstep <;> cases hstep
    refine ⟨h.awaits_of hs (t := t) (fun t' htt => Function.update_of_ne htt _ _) fun c hc => ?_, h.snapshot,
      h.returned, h.waited, h.refused⟩
    cases (Function.update_self t _ _).symm.trans hc
    trivial
  case cancel t     =>
    simp only [token] at hstep
    split at hstep <;> cases hstep
    refine ⟨h.awaits_of hs (t := t) (fun t' htt => Function.update_of_ne htt _ _) fun c hc => ?_, fun _ => rfl,
      fun hr => ⟨rfl, (h.returned hr).right⟩, fun hw => ⟨rfl, (h.waited hw).right⟩, h.refused⟩
    cases (Function.update_self t _ _).symm.trans hc
    rfl
  case wait t       =>
    simp only [token] at hstep
    split at hstep <;> cases hstep
    refine ⟨h.awaits_of hs (t := t) (fun t' htt => Function.update_of_ne htt _ _) fun c hc => ?_, h.snapshot,
      h.returned, h.waited, h.refused⟩
    cases (Function.update_self t _ _).symm.trans hc
    trivial
  case proceed t    =>
    simp only [token] at hstep
    split at hstep <;> cases hstep
    rename_i c hc
    exact h.proceed hc hs
  case drop k       =>
    simp only [token] at hstep
    split at hstep <;> cases hstep
    rename_i r hr
    refine ⟨fun t' c hc => (h.awaits t' c hc).shrink hs, h.snapshot, fun hr => ?_, fun hw => ?_, fun r' hr' => ?_⟩
    · obtain ⟨hcancelled, hdone⟩ := h.returned hr
      exact ⟨hcancelled, fun x hx => hdone x (hs.participants hcancelled x hx)⟩
    · obtain ⟨hcancelled, hempty⟩ := h.waited hw
      refine ⟨hcancelled, List.eq_nil_iff_forall_not_mem.mpr fun x hx => ?_⟩
      have hmem := hs.participants hcancelled x hx
      rw [← Table.mem_rows, hempty] at hmem
      exact List.not_mem_nil hmem
    · exact h.refused r' (List.mem_of_mem_eraseIdx hr')

end Flag

section Numbers

-- A number is that of one call or of one registration, and the registry holds the registrations.
structure Numbered (s : CancellationToken ι π) : Prop where
  next    : s.nextId = s.registered % word
  calling : ∀ t id p, s.call t = some (.registering id p) → id < s.registered ∧
    (∀ t' p', s.call t' = some (.registering id p') → t' = t) ∧ some id ∉ s.registrations.map (·.id)
  live    : ∀ r ∈ s.registrations, ∀ id, r.id = some id → id < s.registered
  nodup   : (s.registrations.filterMap (·.id)).Nodup
  entries : ∀ id p, (id, p) ∈ s.participants ↔ ⟨some id, p⟩ ∈ s.registrations

-- A thread that gets to a place without a number changes no number.
theorem Numbered.move {c : Option (Call π)} (h : s.Numbered) (hc : ∀ id p, c ≠ some (.registering id p))
    (hcall : s'.call = Function.update s.call t c) (hnext : s'.nextId = s.nextId)
    (hregistered : s'.registered = s.registered) (hregistrations : s'.registrations = s.registrations)
    (hparticipants : s'.participants = s.participants) : s'.Numbered := by
  have hcall : ∀ t' id p, s'.call t' = some (.registering id p) → s.call t' = some (.registering id p) := by
    intro t' id p ht'
    rw [hcall] at ht'
    by_cases htt : t' = t
    · subst htt
      exact absurd ((Function.update_self t' _ _).symm.trans ht') (hc id p)
    · exact (Function.update_of_ne htt _ _).symm.trans ht'
  refine ⟨?_, fun t' id p ht' => ?_, ?_, ?_, ?_⟩
  · rw [hnext, hregistered]
    exact h.next
  · obtain ⟨hlt, hinj, hfresh⟩ := h.calling t' id p (hcall t' id p ht')
    exact ⟨hregistered ▸ hlt, fun t'' p' ht'' => hinj t'' p' (hcall t'' id p' ht''), hregistrations ▸ hfresh⟩
  · rw [hregistered, hregistrations]
    exact h.live
  · rw [hregistrations]
    exact h.nodup
  · rw [hparticipants, hregistrations]
    exact h.entries

theorem Numbered.register {p : π} (h : s.Numbered) (hlt : s.registered < word) : (s.register t p).Numbered := by
  have hnext : s.nextId = s.registered := h.next.trans (Nat.mod_eq_of_lt hlt)
  have hcall : ∀ t' id p', (s.register t p).call t' = some (.registering id p') →
      (t' = t ∧ id = s.registered) ∨ s.call t' = some (.registering id p') := by
    intro t' id p' ht'
    by_cases htt : t' = t
    · subst htt
      cases (Function.update_self t' _ _).symm.trans ht'
      exact .inl ⟨rfl, hnext⟩
    · exact .inr ((Function.update_of_ne htt _ _).symm.trans ht')
  have hfresh : some s.registered ∉ s.registrations.map (·.id) := by
    intro hmem
    obtain ⟨r, hr, hid⟩ := List.mem_map.mp hmem
    exact absurd (h.live r hr _ hid) (Nat.lt_irrefl _)
  refine ⟨?_, fun t' id p' ht' => ?_, fun r hr id hid => Nat.lt_succ_of_lt (h.live r hr id hid), h.nodup, h.entries⟩
  · change (s.nextId + 1) % word = (s.registered + 1) % word
    rw [hnext]
  · obtain ⟨rfl, rfl⟩ | ht' := hcall t' id p' ht'
    · refine ⟨Nat.lt_succ_self _, fun t'' p'' ht'' => ?_, hfresh⟩
      obtain ⟨rfl, -⟩ | ht'' := hcall t'' _ p'' ht''
      · rfl
      · exact absurd (h.calling t'' _ p'' ht'').left (Nat.lt_irrefl _)
    · obtain ⟨hid, hinj, hnew⟩ := h.calling t' id p' ht'
      refine ⟨Nat.lt_succ_of_lt hid, fun t'' p'' ht'' => ?_, hnew⟩
      obtain ⟨-, rfl⟩ | ht'' := hcall t'' id p'' ht''
      · exact absurd hid (Nat.lt_irrefl _)
      · exact hinj t'' p'' ht''

theorem Numbered.enter {id : Nat} {p : π} (h : s.Numbered) (hc : s.call t = some (.registering id p)) :
    ({ s.goto t none with
      participants  := s.participants.put (id, p)
      registrations := ⟨some id, p⟩ :: s.registrations
    } : CancellationToken ι π).Numbered := by
  obtain ⟨hlt, hinj, hfresh⟩ := h.calling t id p hc
  have hgone : (s.goto t none).Numbered := h.move (c := none) nofun rfl rfl rfl rfl rfl
  obtain ⟨hnext, hcalling, -, -, -⟩ := hgone
  have hnotin : ∀ p', (id, p') ∉ s.participants := fun p' hx =>
    hfresh (List.mem_map.mpr ⟨_, (h.entries id p').mp hx, rfl⟩)
  refine ⟨hnext, fun t' id' p' ht' => ?_, fun r hr i hi => ?_, ?_, fun i p' => ?_⟩
  · obtain ⟨hlt', hinj', hfresh'⟩ := hcalling t' id' p' ht'
    refine ⟨hlt', hinj', fun hmem => ?_⟩
    obtain heq | hmem := List.mem_cons.mp hmem
    · -- Only the thread itself had that number.
      cases heq
      have htt : t' ≠ t := by
        rintro rfl
        cases (Function.update_self t' _ _).symm.trans ht'
      exact htt (hinj t' p' ((Function.update_of_ne htt _ _).symm.trans ht'))
    · exact hfresh' hmem
  · obtain rfl | hr := List.mem_cons.mp hr
    · cases hi
      exact hlt
    · exact h.live r hr i hi
  · rw [List.filterMap_cons_some (by rfl), List.nodup_cons]
    refine ⟨fun hmem => hfresh ?_, h.nodup⟩
    obtain ⟨r, hr, hid⟩ := List.mem_filterMap.mp hmem
    exact List.mem_map.mpr ⟨r, hr, hid⟩
  · rw [Table.mem_put, List.mem_cons, h.entries]
    constructor
    · rintro (heq | ⟨hmem, -⟩)
      · cases heq
        exact .inl rfl
      · exact .inr hmem
    · rintro (heq | hmem)
      · cases heq
        exact .inl rfl
      · refine .inr ⟨hmem, ?_⟩
        rintro rfl
        exact hnotin p' ((h.entries _ p').mpr hmem)

omit [DecidableEq ι] in
theorem Numbered.drop {k : Nat} {r : CancellationRegistration π} (h : s.Numbered)
    (hr : s.registrations[k]? = some r) : (s.drop k r).Numbered := by
  have hsub := List.eraseIdx_sublist s.registrations k
  have hperm : (r :: s.registrations.eraseIdx k).Perm s.registrations := by
    obtain ⟨hk, rfl⟩ := List.getElem?_eq_some_iff.mp hr
    exact List.getElem_cons_eraseIdx_perm hk
  refine ⟨h.next, fun t id p ht => ?_, fun r' hr' => h.live r' (hsub.subset hr'), h.nodup.sublist (hsub.filterMap _),
    fun i p => ?_⟩
  · obtain ⟨hlt, hinj, hfresh⟩ := h.calling t id p ht
    exact ⟨hlt, hinj, fun hmem => hfresh ((hsub.map _).subset hmem)⟩
  · have hmem : (⟨some i, p⟩ : CancellationRegistration π) ∈ s.registrations ↔
        ⟨some i, p⟩ = r ∨ ⟨some i, p⟩ ∈ s.registrations.eraseIdx k := by
      rw [← hperm.mem_iff, List.mem_cons]
    cases hid : r.id <;> simp only [CancellationToken.drop, hid, Option.elim_none, Option.elim_some]
    case none   =>
      rw [h.entries, hmem]
      refine or_iff_right ?_
      rintro rfl
      cases hid
    case some j =>
      rw [Table.mem_delete, h.entries, hmem, decide_eq_false_iff_not]
      constructor
      · rintro ⟨heq | hrest, hij⟩
        · exact absurd (Option.some.inj ((congrArg CancellationRegistration.id heq).trans hid)) hij
        · exact hrest
      · refine fun hrest => ⟨.inr hrest, ?_⟩
        rintro rfl
        -- Another registration with that number is left.
        have hnodup := (hperm.filterMap (·.id)).nodup_iff.mpr h.nodup
        rw [List.filterMap_cons_some hid, List.nodup_cons] at hnodup
        exact hnodup.left (List.mem_filterMap.mpr ⟨_, hrest, rfl⟩)

theorem Numbered.proceed (h : s.Numbered) (hc : s.call t = some c) : (s.proceed t c).Numbered := by
  have hgone : (s.goto t none).Numbered := h.move (c := none) nofun rfl rfl rfl rfl rfl
  cases c
  case registering id p =>
    rw [CancellationToken.proceed]
    split
    · exact h.move (c := some (.refused p)) nofun rfl rfl rfl rfl rfl
    · exact h.enter hc
  case refused p        =>
    obtain ⟨hnext, hcalling, hlive, hnodup, hentries⟩ := hgone
    refine ⟨hnext, fun t' id p' ht' => ?_, fun r hr i hi => ?_, hnodup, fun i p' => (hentries i p').trans ?_⟩
    · obtain ⟨hlt, hinj, hfresh⟩ := hcalling t' id p' ht'
      exact ⟨hlt, hinj, fun hmem => hfresh ((List.mem_cons.mp hmem).resolve_left nofun)⟩
    · obtain rfl | hr := List.mem_cons.mp hr
      · cases hi
      · exact hlive r hr i hi
    · refine ⟨List.mem_cons_of_mem _, fun hmem => (List.mem_cons.mp hmem).resolve_left fun heq => ?_⟩
      cases heq
  case cancelling       => exact h.move (c := some (.calling s.values)) nofun rfl rfl rfl rfl rfl
  case calling rest     =>
    cases rest
    case nil         => exact h.move (c := none) nofun rfl rfl rfl rfl rfl
    case cons p rest => exact h.move (c := some (.calling rest)) nofun rfl rfl rfl rfl rfl
  case waiting          =>
    rw [CancellationToken.proceed]
    split
    · exact h.move (c := none) nofun rfl rfl rfl rfl rfl
    · exact h

theorem registered_proceed : (s.proceed t c).registered = s.registered := by
  cases c
  case registering id p =>
    rw [CancellationToken.proceed]
    split <;> rfl
  case refused p        => rfl
  case cancelling       => rfl
  case calling rest     => cases rest <;> rfl
  case waiting          =>
    rw [CancellationToken.proceed]
    split <;> rfl

-- As long as the numbers last.
theorem numbered_step (h : s.registered ≤ word → s.Numbered) (hstep : token.step s a = .ok s')
    (hle : s'.registered ≤ word) : s'.Numbered := by
  cases a
  case register t p =>
    simp only [token] at hstep
    split at hstep <;> cases hstep
    exact (h (Nat.le_of_succ_le hle)).register hle
  case cancel t     =>
    simp only [token] at hstep
    split at hstep <;> cases hstep
    exact (h hle).move (c := some .cancelling) nofun rfl rfl rfl rfl rfl
  case wait t       =>
    simp only [token] at hstep
    split at hstep <;> cases hstep
    exact (h hle).move (c := some .waiting) nofun rfl rfl rfl rfl rfl
  case proceed t    =>
    simp only [token] at hstep
    split at hstep <;> cases hstep
    rename_i c hc
    have hregistered : (s.proceed t c).registered = s.registered := registered_proceed
    exact (h (hregistered ▸ hle)).proceed hc
  case drop k       =>
    simp only [token] at hstep
    split at hstep <;> cases hstep
    rename_i r hr
    exact (h hle).drop hr

end Numbers

section Runs

omit [DecidableEq ι] in
theorem flagged_initial : (initial : CancellationToken ι π).Flagged :=
  ⟨nofun, nofun, nofun, nofun, nofun⟩

omit [DecidableEq ι] in
theorem numbered_initial : (initial : CancellationToken ι π).Numbered where
  next         := rfl
  calling      := nofun
  live         := nofun
  nodup        := List.nodup_nil
  entries _ _  := iff_of_false (Table.not_mem_empty _) List.not_mem_nil

theorem flagged_run (as : List (Action ι π)) : (token.run initial as).Flagged :=
  Machine.invariant (fun _ _ _ => Flagged.step) flagged_initial as

-- Up to as many calls of `register` as there are numbers.
theorem numbered_run (as : List (Action ι π)) (h : (token.run initial as).registered ≤ word) :
    (token.run initial as).Numbered := by
  exact Machine.invariant (m := token) (I := fun s : CancellationToken ι π => s.registered ≤ word → s.Numbered)
    (fun _ _ _ => numbered_step) (fun _ => numbered_initial) as h

theorem shrinks_run (s : CancellationToken ι π) (as : List (Action ι π)) : s.Shrinks (token.run s as) := by
  refine Machine.invariant (m := token) (I := s.Shrinks) ?_ ⟨id, fun _ _ => id, fun _ => id⟩ as
  intro s₁ a s₂ h hstep
  have hs := shrinks_step hstep
  exact ⟨fun hc => hs.cancelled (h.cancelled hc),
    fun hc x hx => h.participants hc x (hs.participants (h.cancelled hc) x hx), fun p hp => hs.done p (h.done p hp)⟩

end Runs

-- Whatever the threads do and in whatever order, as long as the numbers last.
theorem cancellation_misses_none (as : List (Action ι π)) :
    let s := token.run initial as
    (s.registered ≤ word →
      (s.returned → ∀ r ∈ s.registrations, r.participant ∈ s.done) ∧
      (s.registrations.filterMap (·.id)).Nodup ∧
      ∀ k r, s.registrations[k]? = some r →
        ∀ id p, (id, p) ∈ s.participants ↔ (id, p) ∈ (s.drop k r).participants ∨ r = ⟨some id, p⟩) ∧
    (s.snapshot → ∀ bs, ∀ x ∈ (token.run s bs).participants, x ∈ s.participants) ∧
    (s.waited → ∀ bs, (token.run s bs).participants.rows = []) := by
  intro s
  have hflagged : s.Flagged := flagged_run as
  refine ⟨fun hle => ?_, fun hsnapshot bs => ?_, fun hwaited bs => ?_⟩
  · have hnumbered : s.Numbered := numbered_run as hle
    refine ⟨fun hreturned r hr => ?_, hnumbered.nodup, fun k r hr id p => ?_⟩
    · cases hid : r.id
      case none    => exact hflagged.refused r hr hid
      case some id =>
        have hmem : (id, r.participant) ∈ s.participants := (hnumbered.entries id _).mpr (hid ▸ hr)
        exact (hflagged.returned hreturned).right _ hmem
    · have hperm : (r :: s.registrations.eraseIdx k).Perm s.registrations := by
        obtain ⟨hk, rfl⟩ := List.getElem?_eq_some_iff.mp hr
        exact List.getElem_cons_eraseIdx_perm hk
      rw [hnumbered.entries, (hnumbered.drop hr).entries, ← hperm.mem_iff, List.mem_cons, or_comm, eq_comm]
      rfl
  · exact (shrinks_run s bs).participants (hflagged.snapshot hsnapshot)
  · obtain ⟨hcancelled, hempty⟩ := hflagged.waited hwaited
    refine List.eq_nil_iff_forall_not_mem.mpr fun x hx => ?_
    have hmem := (shrinks_run s bs).participants hcancelled x hx
    rw [← Table.mem_rows, hempty] at hmem
    exact List.not_mem_nil hmem

namespace Sample

-- Two participants register, and one thread cancels them both.
def bothCancelled : List (Action Bool Bool) :=
  [.register false false, .register true true, .proceed false, .proceed true, .cancel false,
    .proceed false, .proceed false, .proceed false, .proceed false]

-- They leave, and the other thread has waited for that.
def bothLeft : List (Action Bool Bool) :=
  [.wait true, .drop 0, .proceed true, .drop 0, .proceed true]

end Sample

open Sample in
theorem cancellation_misses_none_both :
    let s := token.run (initial : CancellationToken Bool Bool) bothCancelled
    let s' := token.run (initial : CancellationToken Bool Bool) (bothCancelled ++ bothLeft)
    (s.returned ∧ s.registrations.length = 2 ∧ ∀ r ∈ s.registrations, r.participant ∈ s.done) ∧
    s'.waited ∧ ∀ bs, (token.run s' bs).participants.rows = [] := by
  intro s s'
  have hmissed := (cancellation_misses_none (ι := Bool) (π := Bool) bothCancelled).left (by decide)
  have hwaited := (cancellation_misses_none (ι := Bool) (π := Bool) (bothCancelled ++ bothLeft)).right.right
  exact ⟨⟨rfl, rfl, hmissed.left rfl⟩, rfl, hwaited rfl⟩

namespace Sample

-- The first of two participants is registered, and stays so.
def held (n : Nat) : CancellationToken Unit Bool := { initial with
  nextId        := (n + 1) % word
  participants  := Table.put ∅ (0, false)
  registrations := [⟨some 0, false⟩]
  registered    := n + 1
}

-- The other comes and goes.
def turn : List (Action Unit Bool) :=
  [.register () true, .proceed (), .drop 0]

-- It comes once more, and all are cancelled.
def last : List (Action Unit Bool) :=
  [.register () true, .proceed (), .cancel (), .proceed (), .proceed (), .proceed ()]

theorem run_first : token.run initial [.register () false, .proceed ()] = held 0 := by
  have hrun : token.run initial [.register () false, .proceed ()] = (⟨1, Table.put ∅ (0, false), false,
      Function.update (Function.update (fun _ => none) () (some (.registering 0 false))) () none,
      [⟨some 0, false⟩], 1, [], false, false, false⟩ : CancellationToken Unit Bool) := rfl
  rw [hrun, Function.update_idem, Function.update_eq_self_iff.mpr rfl]
  rfl

theorem run_turn {n : Nat} (h : n + 1 < word) : token.run (held n) turn = held (n + 1) := by
  have hid : (Table.put ∅ (0, false) : Table (Nat × Bool)).get ((n + 1) % word) = none := by
    have hne : 0 ≠ (n + 1) % word := by
      rw [Nat.mod_eq_of_lt h]
      exact (Nat.succ_ne_zero n).symm
    rw [Table.get_put]
    exact if_neg hne
  have hdelete : ((Table.put ∅ (0, false)).put ((n + 1) % word, true)).delete (·.fst = (n + 1) % word) =
      (Table.put ∅ (0, false) : Table (Nat × Bool)) :=
    Table.delete_put hid fun _ => rfl
  have hrun : token.run (held n) turn = (⟨((n + 1) % word + 1) % word,
      ((Table.put ∅ (0, false)).put ((n + 1) % word, true)).delete (·.fst = (n + 1) % word), false,
      Function.update (Function.update (fun _ => none) () (some (.registering ((n + 1) % word) true))) () none,
      [⟨some 0, false⟩], n + 2, [], false, false, false⟩ : CancellationToken Unit Bool) := rfl
  rw [hrun, hdelete, Nat.mod_add_mod, Function.update_idem, Function.update_eq_self_iff.mpr rfl]
  rfl

theorem run_turns {k n : Nat} (h : n + k < word) : token.run (held n) (List.replicate k turn).flatten = held (n + k) := by
  induction k generalizing n
  case zero      => rfl
  case succ k ih =>
    rw [List.replicate_succ, List.flatten_cons, Machine.run_append, run_turn (by omega), ih (by omega)]
    congr 1
    omega

end Sample

open Sample in
-- The number of the first participant is given out again, and its place with it.
theorem participant_missed :
    ¬∀ as : List (Action Unit Bool),
      let s := token.run initial as
      s.returned → ∀ r ∈ s.registrations, r.participant ∈ s.done := by
  intro h
  have hmissed := h ([.register () false, .proceed ()] ++ (List.replicate (word - 1) turn).flatten ++ last)
  rw [Machine.run_append, Machine.run_append, run_first, run_turns (by decide), Nat.zero_add] at hmissed
  have hmem : ⟨some 0, false⟩ ∈ (token.run (held (word - 1)) last).registrations :=
    List.mem_cons_of_mem _ List.mem_cons_self
  exact absurd (hmissed rfl _ hmem) (by decide)

end CancellationToken

end Cancellation
