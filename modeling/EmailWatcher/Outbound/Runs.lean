import EmailWatcher.Outbound.Requests

-- Runs of the two commands one after another, any of which may be cut short by the death of its process.
namespace Outbound

open Script Session

section Changes

-- What a call makes of the tables, and what happens by it.
inductive Change (s s' : Store) : List Event → Prop
  | kept (sends : s'.sends = s.sends)
      (held : ∀ k, (s'.reservations.get k).isSome = (s.reservations.get k).isSome) : Change s s' []
  | reserved (r : Reservation) (unsent : s.sends.get r.dedupeKey = none)
      (free : s.reservations.get r.dedupeKey = none) (sends : s'.sends = s.sends)
      (get : ∀ k, s'.reservations.get k =
        if r.dedupeKey = k then some r else s.reservations.get k) : Change s s' []
  | released (k : String) (sends : s'.sends = s.sends)
      (get : ∀ j, s'.reservations.get j = if j = k then none else s.reservations.get j) :
      Change s s' [.released k]
  | recorded (r : Send) (unsent : s.sends.get r.dedupeKey = none)
      (sends : ∀ k, s'.sends.get k = if r.dedupeKey = k then some r else s.sends.get k)
      (get : ∀ j, s'.reservations.get j =
        if j = r.dedupeKey then none else s.reservations.get j) :
      Change s s' [.recorded r.dedupeKey]

variable {α : Type} {s s' : Store} {a : α} {b : Bool} {u : Unit} {now : Instant}
  {k recipient subject id error : String} {status : Option String} {row : Send}

theorem outboundStatus_returns :
    (outboundStatus k).Returns s status s' ↔
    s' = s ∧ status = ((s.sends.get k).map fun _ => "sent").or
      ((s.reservations.get k).map (·.status.text)) := by
  simp [outboundStatus, eq_comm, and_comm]

theorem deleteReservation_get {n : Nat} (h : (deleteReservation k).Returns s n s') (j : String) :
    s'.sends = s.sends ∧
    s'.reservations.get j = if j = k then none else s.reservations.get j := by
  simp only [deleteReservation, returns_query_bind, returns_write_bind, returns_pure] at h
  obtain ⟨-, rfl⟩ := h
  exact ⟨rfl, Table.get_delete_key fun r => rfl⟩

theorem insertSend_returns (h : (insertSend row).Returns s u s') :
    s'.reservations = s.reservations ∧ s.sends.get row.dedupeKey = none ∧
    ∀ k, s'.sends.get k = if row.dedupeKey = k then some row else s.sends.get k := by
  simp only [insertSend, returns_query_bind, returns_find_bind, returns_write] at h
  obtain ⟨sends, hins, rfl⟩ := h
  exact ⟨rfl, (Table.insert_eq_some.mp hins).left, Table.get_insert hins⟩

-- A reservation that is granted is new, and is there afterwards.
theorem reserveOutbound_returns (h : (reserveOutbound now k recipient subject).Returns s b s') :
    Change s s' [] ∧
    (b = true → s.sends.get k = none ∧ s.reservations.get k = none ∧
      (s'.reservations.get k).isSome) := by
  simp only [reserveOutbound, returns_query_bind] at h
  split at h
  case isTrue =>
    simp only [returns_pure] at h
    obtain ⟨rfl, rfl⟩ := h
    exact ⟨.kept rfl fun _ => rfl, by simp⟩
  case isFalse hs =>
    simp only [returns_write_bind, returns_pure] at h
    obtain ⟨rfl, rfl⟩ := h
    have hs : s.sends.get k = none := by simpa using hs
    cases hr : s.reservations.get k
    case none =>
      refine ⟨.reserved ⟨k, recipient, subject, .reserved, now, now, none⟩ hs hr rfl fun j => ?_, ?_⟩
      · exact Table.get_insert (Table.insertOrIgnore_of_none hr) j
      · simp [hs, Keyed.key]
    case some r =>
      refine ⟨.kept rfl fun j => ?_, by simp [hr]⟩
      rw [Table.insertOrIgnore_of_some hr]

theorem markOutboundAmbiguous_returns (h : (markOutboundAmbiguous now k error).Returns s u s') :
    Change s s' [] := by
  simp only [markOutboundAmbiguous, returns_query_bind, returns_write_bind, returns_require] at h
  obtain ⟨-, rfl⟩ := h
  refine .kept rfl fun j => ?_
  rw [Table.get_update, Option.isSome_map]

theorem record_change (hi : ∃ s₁ u, (insertSend row).Returns s u s₁ ∧
    ∃ n, (deleteReservation row.dedupeKey).Returns s₁ n s') :
    Change s s' [.recorded row.dedupeKey] := by
  obtain ⟨s₁, _, hi, n, hd⟩ := hi
  obtain ⟨hr, hn, hs⟩ := insertSend_returns hi
  refine .recorded row hn (fun j => ?_) fun j => ?_
  · rw [(deleteReservation_get hd j).left, hs]
  · rw [(deleteReservation_get hd j).right, hr]

theorem reconcileOutboundSent_returns (h : (reconcileOutboundSent now k id).Returns s u s') :
    Change s s' (if s.sends.get k = none then [.recorded k] else []) := by
  simp only [reconcileOutboundSent, returns_require_bind, returns_query_bind, id_eq] at h
  obtain ⟨-, h⟩ := h
  cases hs : s.sends.get k
  case some row =>
    simp only [hs, returns_require] at h
    obtain ⟨-, rfl⟩ := h
    exact .kept rfl fun _ => rfl
  case none =>
    simp only [hs, returns_find_bind] at h
    obtain ⟨r, -, h⟩ := h
    simp only [returns_bind, returns_discard] at h
    obtain ⟨u, s₁, hi, hd⟩ := h
    exact record_change ⟨s₁, u, hi, hd⟩

theorem releaseOutbound_returns (h : (releaseOutbound k).Returns s u s') :
    Change s s' [.released k] := by
  simp only [releaseOutbound, returns_query_bind, returns_require_bind] at h
  simp only [returns_bind, returns_require] at h
  obtain ⟨-, n, s₁, hd, -, rfl⟩ := h
  exact .released k (deleteReservation_get hd k).left fun j => (deleteReservation_get hd j).right

theorem recordOutbound_returns (h : (recordOutbound now k recipient subject id).Returns s u s') :
    Change s s' (if s.sends.get k = none then [.recorded k] else []) := by
  simp only [recordOutbound, returns_query_bind, returns_require_bind] at h
  simp only [returns_bind, returns_discard] at h
  obtain ⟨-, u, s₁, hi, hd⟩ := h
  rw [if_pos (insertSend_returns hi).right.left]
  exact record_change ⟨s₁, u, hi, hd⟩

namespace Operation

variable {o : Operation α} {fault : Option Failure} {e : Failure}

theorem returns_of_perform (h : o.perform fault s = (.ok a, s')) : o.statement.Returns s a s' := by
  simp only [perform, commit_eq_ok, returns_bind, returns_lift] at h
  obtain ⟨a', s₁, h, hf, rfl⟩ := h
  cases fault <;> cases hf
  exact h

theorem perform_of_error (h : (o.perform fault s).fst = .error e) : (o.perform fault s).snd = s :=
  snd_commit_of_error h

theorem change_of_perform (h : o.perform fault s = (.ok a, s')) : Change s s' (o.events s) := by
  have h := returns_of_perform h
  cases o
  case status =>
    obtain ⟨rfl, -⟩ := outboundStatus_returns.mp h
    exact .kept rfl fun _ => rfl
  case reserve       => exact (reserveOutbound_returns h).left
  case markAmbiguous => exact markOutboundAmbiguous_returns h
  case reconcileSent => exact reconcileOutboundSent_returns h
  case release       => exact releaseOutbound_returns h
  case record        => exact recordOutbound_returns h

end Operation

end Changes

section Soundness

-- What is to be true of the tables and of what has happened.
structure Disciplined (o : Outbox) : Prop where
  -- A request is not sent again before an operator has released it.
  separated : ∀ k, Story.Separated (.invoked k) (.released k) o.story
  -- What is recorded is not sent again.
  final     : ∀ k, Story.Final (.recorded k) (.invoked k) o.story
  recorded  : ∀ k, .recorded k ∈ o.story ↔ (o.store.sends.get k).isSome
  exclusive : ∀ k, o.store.sends.get k = none ∨ o.store.reservations.get k = none

-- A request that may have been sent is known to the store.
structure Sound (o : Outbox) : Prop extends Disciplined o where
  held : ∀ k, Story.Pending (.invoked k) (.released k) o.story →
    (o.store.reservations.get k).isSome ∨ (o.store.sends.get k).isSome

variable {o : Outbox} {s : Store} {k : String} {e : Event}

-- What happens that is neither a send, nor a release, nor a record.
theorem Sound.change (h : Sound o) {es : List Event} (hc : Change o.store s es) :
    Sound ⟨s, o.story ++ es⟩ := by
  cases hc
  case kept hsends hheld =>
    rw [List.append_nil]
    refine ⟨⟨h.separated, h.final, ?_, ?_⟩, ?_⟩
    · simpa only [hsends] using h.recorded
    · intro k
      rw [hsends]
      rcases h.exclusive k with hx | hx
      · exact .inl hx
      · exact .inr <| by simpa [hx] using hheld k
    · intro k hp
      simpa only [hheld, hsends] using h.held k hp
  case reserved r hunsent hfree hsends hget =>
    rw [List.append_nil]
    refine ⟨⟨h.separated, h.final, ?_, ?_⟩, ?_⟩
    · simpa only [hsends] using h.recorded
    · intro k
      rw [hsends, hget]
      split
      case isTrue hk => exact .inl (hk ▸ hunsent)
      case isFalse   => exact h.exclusive k
    · intro k hp
      rw [hsends, hget]
      split
      case isTrue  => exact .inl rfl
      case isFalse => exact h.held k hp
  case released j hsends hget =>
    refine ⟨⟨?_, ?_, ?_, ?_⟩, ?_⟩
    · exact fun k => (h.separated k).concat nofun
    · exact fun k => (h.final k).concat nofun
    · intro k
      simpa [hsends] using h.recorded k
    · intro k
      rw [hsends, hget]
      split
      case isTrue  => exact .inr rfl
      case isFalse => exact h.exclusive k
    · intro k hp
      rcases hp.of_concat with he | ⟨hp, hne⟩
      · cases he
      rw [hsends, hget, if_neg fun hk => hne (by rw [hk])]
      exact h.held k hp
  case recorded r hunsent hsends hget =>
    refine ⟨⟨?_, ?_, ?_, ?_⟩, ?_⟩
    · exact fun k => (h.separated k).concat nofun
    · exact fun k => (h.final k).concat nofun
    · intro k
      simp only [List.mem_append, List.mem_singleton, h.recorded, hsends, Event.recorded.injEq]
      split
      case isTrue hk  => simp [hk]
      case isFalse hk => simp [Ne.symm hk]
    · intro k
      rw [hsends, hget]
      split
      case isTrue hk  => simp [hk]
      case isFalse hk =>
        rw [if_neg (Ne.symm hk)]
        exact h.exclusive k
    · intro k hp
      rcases hp.of_concat with he | ⟨hp, -⟩
      · cases he
      rw [hsends, hget]
      by_cases hk : r.dedupeKey = k
      · rw [if_pos hk]
        exact .inr rfl
      · rw [if_neg hk, if_neg (Ne.symm hk)]
        exact h.held k hp

-- A request that has been reserved just now.
structure Ready (k : String) (o : Outbox) : Prop extends Sound o where
  reserved : (o.store.reservations.get k).isSome
  fresh    : ¬Story.Pending (.invoked k) (.released k) o.story

theorem Ready.invoked (h : Ready k o) : Sound ⟨o.store, o.story ++ [.invoked k]⟩ := by
  have hunsent : o.store.sends.get k = none := by
    refine (h.exclusive k).resolve_right fun hr => ?_
    simpa [hr] using h.reserved
  refine ⟨⟨fun j => (h.separated j).concat fun he => ?_, fun j => (h.final j).concat fun he => ?_,
    fun j => ?_, h.exclusive⟩, fun j hp => ?_⟩
  · cases he
    exact h.fresh
  · cases he
    rw [h.recorded, hunsent]
    nofun
  · simpa using h.recorded j
  · rcases hp.of_concat with he | ⟨hp, -⟩
    · cases he
      exact .inl h.reserved
    · exact h.held j hp

theorem Sound.accepted (h : Sound o) : Sound ⟨o.store, o.story ++ [.accepted k]⟩ := by
  refine ⟨⟨fun j => (h.separated j).concat nofun, fun j => (h.final j).concat nofun,
    fun j => ?_, h.exclusive⟩, fun j hp => ?_⟩
  · simpa using h.recorded j
  · rcases hp.of_concat with he | ⟨hp, -⟩
    · cases he
    · exact h.held j hp

end Soundness

section Safety

-- The lock keeps every other process out.
def Alone : Outbox → Outbox → Prop :=
  fun _ _ => False

variable {α : Type} {s : Outbox} {k : String} {fault : Option Failure} {x : Except Failure α}

theorem stable_alone {A : Outbox → Prop} : Stable Alone A :=
  nofun

theorem eq_of_alone {s' : Outbox} (h : Relation.ReflTransGen Alone s s') : s' = s := by
  induction h
  case refl          => rfl
  case tail _ h _    => exact h.elim

theorem call_safe {o : Operation α} {Q : Except Failure α → Outbox → Prop} (h : Sound s)
    (hok : ∀ a store, o.perform fault s.store = (.ok a, store) →
      Sound ⟨store, s.story ++ o.events s.store⟩ → Q (.ok a) ⟨store, s.story ++ o.events s.store⟩)
    (herr : ∀ e, Q (.error e) s) : Safe Sound Alone Q (call fault o) s := by
  intro s' hs
  rw [eq_of_alone hs]
  refine ⟨h, ?_⟩
  dsimp only
  cases hp : o.perform fault s.store
  case mk r store =>
    cases r
    case ok a =>
      have hs := h.change (Operation.change_of_perform hp)
      exact Safe.of_pure (A := (· = _)) stable_alone (fun _ he => he ▸ hok a store hp hs) rfl
    case error e =>
      obtain rfl : store = s.store := by
        have := Operation.perform_of_error (e := e) (congrArg Prod.fst hp)
        rwa [hp] at this
      exact Safe.of_raise (A := (· = _)) stable_alone (fun _ he => he ▸ herr e) rfl

theorem call_sound {o : Operation α} (h : Sound s) :
    Safe Sound Alone (fun _ s => Sound s) (call fault o) s :=
  call_safe h (fun _ _ _ hs => hs) fun _ => h

theorem done_sound (h : Sound s) : Safe Sound Alone (fun _ s => Sound s) (done x) s := by
  cases x
  case ok a    => exact Safe.of_pure stable_alone (fun _ h => h) h
  case error e => exact Safe.of_raise stable_alone (fun _ h => h) h

theorem happens_safe {e : Event} {Q : Except Failure Unit → Outbox → Prop} (h : Sound s)
    (hq : Q (.ok ()) ⟨s.store, s.story ++ [e]⟩) : Safe Sound Alone Q (happens e) s := by
  intro s' hs
  rw [eq_of_alone hs]
  exact ⟨h, Safe.of_pure (A := (· = _)) stable_alone (fun _ he => he ▸ hq) rfl⟩

theorem send_sound {d : Delivery} (h : Ready k s) :
    Safe Sound Alone (fun _ s => Sound s) (send d k) s := by
  refine Safe.bind (Q := fun _ s => Sound s) (happens_safe h.toSound h.invoked) ?_ fun _ _ h => h
  intro _ s h
  split
  · refine Safe.bind (Q := fun _ s => Sound s) (happens_safe h h.accepted) ?_ fun _ _ h => h
    exact fun _ _ h => done_sound h
  · exact done_sound h

-- A reservation is granted only where no request has been sent since the last release.
theorem reserve_safe {now : Instant} {recipient subject : String} (h : Sound s) :
    Safe Sound Alone (fun r s => Sound s ∧ (r = .ok true → Ready k s))
      (call fault (.reserve now k recipient subject)) s := by
  refine call_safe h (fun a store hp hs => ⟨hs, fun ha => ?_⟩) fun e => ⟨h, nofun⟩
  obtain rfl := Except.ok.inj ha
  obtain ⟨hsends, hfree, hheld⟩ := (reserveOutbound_returns (Operation.returns_of_perform hp)).right rfl
  refine ⟨hs, hheld, fun hp => ?_⟩
  rw [Operation.events, List.append_nil] at hp
  simpa [hsends, hfree] using h.held k hp

theorem require_sound {p : Prop} [Decidable p] {e : Failure} (h : Sound s) :
    Safe Sound Alone (fun _ s => Sound s) (require p e) s := by
  unfold Script.require
  split
  · exact Safe.of_pure stable_alone (fun _ h => h) h
  · exact Safe.of_raise stable_alone (fun _ h => h) h

theorem sendAndRecord_sound {c : Circumstances} {recipient subject : String} (h : Ready k s) :
    Safe Sound Alone (fun _ s => Sound s) (sendAndRecord c k recipient subject) s := by
  refine Safe.handle (Q := fun _ s => Sound s) ?_ (fun _ _ h => h) ?_
  · exact Safe.bind (send_sound h) (fun _ _ h => call_sound h) fun _ _ h => h
  · intro e s h
    refine Safe.bind (call_sound h) ?_ fun _ _ h => h
    exact fun _ _ h => Safe.of_raise stable_alone (fun _ h => h) h

theorem sendOnce_sound {c : Circumstances} {period recipient subject : String} (h : Sound s) :
    Safe Sound Alone (fun _ s => Sound s) (sendOnce c period k recipient subject) s := by
  refine Safe.bind (call_sound h) ?_ fun _ _ h => h
  intro status s h
  split
  · exact Safe.of_pure stable_alone (fun _ h => h) h
  · exact Safe.of_raise stable_alone (fun _ h => h) h
  refine Safe.bind (done_sound h) ?_ fun _ _ h => h
  intro _ s h
  refine Safe.bind (reserve_safe h) ?_ fun _ _ h => h.left
  rintro reserved s ⟨h, hready⟩
  cases reserved
  case true =>
    refine Safe.bind (sendAndRecord_sound (hready rfl)) ?_ fun _ _ h => h
    exact fun _ _ h => Safe.of_pure stable_alone (fun _ h => h) h
  case false =>
    refine Safe.bind (call_sound h) ?_ fun _ _ h => h
    intro status s h
    split
    · exact Safe.of_pure stable_alone (fun _ h => h) h
    · exact Safe.of_raise stable_alone (fun _ h => h) h

theorem sendHours_sound {c : Circumstances} {recipient : String} {testTo : Option String} {dryRun : Bool}
    (ht : given testTo = none) (h : Sound s) :
    Safe Sound Alone (fun _ s => Sound s) (sendHours c recipient testTo dryRun) s := by
  simp only [sendHours, ht]
  refine Safe.bind (require_sound h) ?_ fun _ _ h => h
  intro _ s h
  refine Safe.bind (done_sound h) ?_ fun _ _ h => h
  intro content s h
  split
  · exact Safe.of_pure stable_alone (fun _ h => h) h
  · exact sendOnce_sound h

theorem outboundResolve_sound {c : Circumstances} {confirmSent : Option String} {confirmUnsent : Bool}
    (h : Sound s) :
    Safe Sound Alone (fun _ s => Sound s) (outboundResolve c k confirmSent confirmUnsent) s := by
  refine Safe.bind (require_sound h) ?_ fun _ _ h => h
  intro _ s h
  cases confirmSent <;> refine Safe.bind (call_sound h) ?_ fun _ _ h => h
  all_goals exact fun _ _ h => Safe.of_pure stable_alone (fun _ h => h) h

end Safety

section Growth

-- What has happened stays so, and what is recorded is neither changed nor removed.
structure Grows (o o' : Outbox) : Prop where
  story : o.story <+: o'.story
  sends : ∀ k r, o.store.sends.get k = some r → o'.store.sends.get k = some r

variable {α : Type} {o o₁ o₂ o₃ : Outbox} {s s' : Store} {es : List Event} {k : String}

theorem Grows.refl : Grows o o :=
  ⟨List.prefix_rfl, fun _ _ h => h⟩

theorem Grows.trans (h₁ : Grows o₁ o₂) (h₂ : Grows o₂ o₃) : Grows o₁ o₃ :=
  ⟨h₁.story.trans h₂.story, fun k r h => h₂.sends k r (h₁.sends k r h)⟩

theorem Change.sends_kept (h : Change s s' es) {r : Send} (hr : s.sends.get k = some r) :
    s'.sends.get k = some r := by
  cases h
  case kept hs _           => rw [hs, hr]
  case reserved hs _       => rw [hs, hr]
  case released hs _       => rw [hs, hr]
  case recorded r' hn hs _ =>
    rw [hs, if_neg, hr]
    rintro rfl
    rw [hn] at hr
    cases hr

theorem call_follows {fault : Option Failure} {op : Operation α} : Follows Grows (call fault op) := by
  intro o
  cases hp : op.perform fault o.store
  case mk r store =>
    cases r
    case ok a =>
      simp only [hp]
      refine ⟨⟨List.prefix_append _ _, fun k r h => ?_⟩, trivial⟩
      exact (Operation.change_of_perform hp).sends_kept h
    case error e =>
      have hs : store = o.store := by
        simpa [hp] using Operation.perform_of_error (e := e) (congrArg Prod.fst hp)
      simp only [hp, hs]
      exact ⟨.refl, trivial⟩

theorem happens_follows {e : Event} : Follows Grows (happens e) :=
  fun _ => ⟨⟨List.prefix_append _ _, fun _ _ h => h⟩, trivial⟩

theorem done_follows {x : Except Failure α} : Follows Grows (done x : Program α) := by
  cases x <;> trivial

theorem require_follows {p : Prop} [Decidable p] {e : Failure} :
    Follows Grows (Script.require p e : Program Unit) := by
  unfold Script.require
  split <;> trivial

theorem send_follows {d : Delivery} : Follows Grows (send d k) := by
  refine .bind happens_follows fun _ => ?_
  split
  · exact .bind happens_follows fun _ => done_follows
  · exact done_follows

theorem sendAndRecord_follows {c : Circumstances} {recipient subject : String} :
    Follows Grows (sendAndRecord c k recipient subject) :=
  .handle (.bind send_follows fun _ => call_follows) fun _ => .bind call_follows fun _ => .raise

theorem sendOnce_follows {c : Circumstances} {period recipient subject : String} :
    Follows Grows (sendOnce c period k recipient subject) := by
  refine .bind call_follows fun status => ?_
  split
  · exact .pure
  · exact .raise
  refine .bind done_follows fun _ => .bind call_follows fun reserved => ?_
  cases reserved
  case true  => exact .bind sendAndRecord_follows fun _ => .pure
  case false =>
    refine .bind call_follows fun status => ?_
    split
    · exact .pure
    · exact .raise

theorem sendHours_follows {c : Circumstances} {recipient : String} {testTo : Option String}
    {dryRun : Bool} : Follows Grows (sendHours c recipient testTo dryRun) := by
  refine .bind require_follows fun _ => .bind done_follows fun content => ?_
  cases dryRun
  case true  => exact .pure
  case false =>
    cases given testTo
    case none   => exact sendOnce_follows
    case some _ =>
      exact .bind done_follows fun _ => .bind (.bind send_follows fun _ => .pure) fun _ => .pure

theorem outboundResolve_follows {c : Circumstances} {confirmSent : Option String}
    {confirmUnsent : Bool} : Follows Grows (outboundResolve c k confirmSent confirmUnsent) := by
  refine .bind require_follows fun _ => ?_
  cases confirmSent
  · exact .bind call_follows fun _ => .pure
  · exact .bind call_follows fun _ => .pure

end Growth

section Runs

inductive Command
  -- a run that is not a test
  | sendHours (c : Circumstances) (monthlyHoursRecipient : String) (testTo : Option String)
      (noTest : given testTo = none) (dryRun : Bool)
  | resolve   (c : Circumstances) (dedupeKey : String) (confirmSent : Option String)
      (confirmUnsent : Bool)

def Command.program : Command → Program Output
  | sendHours c recipient testTo _ dryRun             => Outbound.sendHours c recipient testTo dryRun
  | resolve c dedupeKey confirmSent confirmUnsent => outboundResolve c dedupeKey confirmSent confirmUnsent

-- One process at a time holds the lock. A process that does not get it does nothing, and the lock of a
-- process that dies is free.
abbrev office : Machine (World Outbox Failure Output) (Move Command Empty) Unit :=
  world Command.program Empty.elim

def Outbox.initial (store : Store) : Outbox where
  store := store
  story := store.sends.rows.map fun r => .recorded r.dedupeKey

-- The outbox after a run from the given tables.
def after (store : Store) (as : List (Move Command Empty)) : Outbox :=
  (office.run ⟨.initial store, none⟩ as).state

-- No request is known both as sent and as unresolved.
def Store.Exclusive (s : Store) : Prop :=
  ∀ k, s.sends.get k = none ∨ s.reservations.get k = none

variable {store : Store}

theorem Outbox.initial_sound (h : store.Exclusive) : Sound (.initial store) := by
  have hmem (k : String) (e : Event) (he : e ∈ (Outbox.initial store).story) :
      e ≠ .invoked k := by
    obtain ⟨r, -, rfl⟩ := List.mem_map.mp he
    nofun
  have hinvoked (k : String) : .invoked k ∉ (Outbox.initial store).story := fun he => hmem k _ he rfl
  refine ⟨⟨?_, ?_, ?_, h⟩, ?_⟩
  · exact fun k => Story.separated_of_not_mem (hinvoked k)
  · exact fun k => Story.final_of_not_mem (hinvoked k)
  · intro k
    simp only [initial, List.mem_map, Event.recorded.injEq, Option.isSome_iff_exists,
      Table.get_eq_some]
    exact Iff.rfl
  · exact fun k hp => (Story.not_pending_of_not_mem (hinvoked k) hp).elim

theorem Command.program_sound {o : Outbox} (c : Command) (h : Sound o) :
    Safe Sound Alone (fun _ s => Sound s) c.program o := by
  cases c
  case sendHours _ _ _ ht _ => exact sendHours_sound ht h
  case resolve              => exact outboundResolve_sound h

theorem Command.program_follows (c : Command) : Follows Grows c.program := by
  cases c
  case sendHours => exact sendHours_follows
  case resolve   => exact outboundResolve_follows

theorem after_sound (h : store.Exclusive) (as : List (Move Command Empty)) :
    Sound (after store as) := by
  have hg : office.Guarded (Admits (fun _ => True) fun _ => Empty.elim) ⟨.initial store, none⟩ as := by
    refine Machine.Guarded.of_forall fun w a => ?_
    cases a
    case interfere x => exact x.elim
    all_goals trivial
  have hs := World.sound_run (E := Alone) (fun c _ h => Command.program_sound c h) (fun _ h => h)
    (fun _ h _ => h) stable_alone (fun _ => nofun) (Outbox.initial_sound h) hg
  exact World.Sound.invariant (fun _ h => h) hs

theorem after_append_grows (as bs : List (Move Command Empty)) :
    Grows (after store as) (after store (as ++ bs)) := by
  have hrun (w : World Outbox Failure Output) (hw : ∀ x, w.process = some x → Follows Grows x)
      (as : List (Move Command Empty)) : Grows w.state (office.run w as).state ∧
      ∀ x, (office.run w as).process = some x → Follows Grows x :=
    World.follows_run (fun _ => Grows.refl) (fun _ _ _ => Grows.trans) Command.program_follows
      (fun _ => nofun) hw as
  rw [after, after, Machine.run_append]
  exact (hrun _ (hrun ⟨.initial store, none⟩ nofun as).right bs).left

-- Whatever processes die, and whatever the sender and the database do, no request is sent twice unless
-- an operator has released it.
theorem request_sent_once (h : store.Exclusive) (as bs : List (Move Command Empty)) :
    Disciplined (after store as) ∧ Grows (after store as) (after store (as ++ bs)) ∧
    ∀ {α : Type} (op : Operation α) (fault : Option Failure) (s : Store) (e : Failure),
      (op.perform fault s).fst = .error e → (op.perform fault s).snd = s :=
  ⟨(after_sound h as).toDisciplined, after_append_grows as bs,
    fun _ _ _ _ he => Operation.perform_of_error he⟩

end Runs

namespace Sample

def january : Circumstances where
  today    := ⟨2026, 1, by decide⟩
  now _    := 0
  fault _  := none
  token    := .ok ()
  delivery := ⟨true, .ok "m"⟩

def timeout : Circumstances :=
  { january with delivery := ⟨true, .error ⟨"TimeoutError", ""⟩⟩ }

def attempt (c : Circumstances) : List (Move Command Empty) :=
  .start (.sendHours c "a@b" none rfl false) :: List.replicate 9 .step

def key : String := "monthly-hours:2025-12"

def release : List (Move Command Empty) :=
  .start (.resolve january key none true) :: List.replicate 2 .step

def noMail : Store :=
  ⟨∅, ∅⟩

end Sample

open Sample in
-- Gmail has accepted a message, but the answer is lost. The next run refuses to send, and so does the
-- one after the release that an operator has made in error.
theorem request_sent_once_sample :
    (after noMail (attempt timeout ++ attempt january ++ release ++ attempt january ++ attempt january)).story =
      [.invoked key, .accepted key, .released key, .invoked key, .accepted key, .recorded key] ∧
    Disciplined (after noMail (attempt timeout ++ attempt january ++ release ++ attempt january)) ∧
    Grows (after noMail (attempt timeout ++ attempt january ++ release ++ attempt january))
      (after noMail (attempt timeout ++ attempt january ++ release ++ attempt january ++ attempt january)) := by
  have hempty : noMail.Exclusive := fun _ => .inl rfl
  have h := request_sent_once hempty
    (attempt timeout ++ attempt january ++ release ++ attempt january) (attempt january)
  exact ⟨by decide +kernel, h.left, h.right.left⟩

end Outbound
