import EmailWatcher.Library.Transaction
import EmailWatcher.SourceLocks.Views

-- No two threads are at the mail of one message, whichever locks they have chosen.
namespace SourceLocks

open Script

variable [Codec] {ι : Type} [DecidableEq ι]

section Locking

variable {α : Type} {i : ι} {c : Circumstances} {v v' : Local} {s : State ι} {l : Lock}
  {ls : List Lock} {message : String} {body : Program ι α} {Q : Except Failure α → State ι → Prop}

namespace Local

def take (v : Local) (l : Lock) : Local :=
  { v with locks := insert l v.locks }

def give (v : Local) (l : Lock) : Local :=
  { v with locks := v.locks \ {l} }

end Local

omit [Codec] [DecidableEq ι] in
theorem frame_give {o : Option ι} (h : s.owner l = none ∨ s.owner l = some i)
    (ho : o = none ∨ o = some i) : Frame i s (s.give l o) := by
  refine ⟨fun j hj l' => ?_, fun _ _ => rfl, fun _ _ => rfl, fun _ _ => rfl, .inl rfl⟩
  by_cases hl : l' = l
  · subst hl
    simp only [State.give, Function.update_self]
    rcases h with h | h <;> rcases ho with rfl | rfl <;> simp [h, Ne.symm hj]
  · simp [State.give, hl]

omit [DecidableEq ι] in
theorem acquire_obeys (hv : l ∉ v.locks → (v.take l).Valid) (h : At i v s) :
    Obeying i (fun r s => (r = .ok () → l ∉ v.locks ∧ At i (v.take l) s) ∧ (r ≠ .ok () → At i v s))
      (acquire i c l message) s := by
  refine Obeys.of_step At.stable (fun s hs => ?_) h
  split
  case isTrue hfree =>
    have hl : l ∉ v.locks := fun hl => by
      have := (hs.view.locks l).mpr hl
      simp [hfree.left] at this
    obtain ⟨hallowed, hs'⟩ := hs.step (u := v.take l) (t := s.give l (some i))
      (frame_give (.inl hfree.left) (.inr rfl)) (hv hl)
      ⟨fun l' => by
        by_cases hl' : l' = l
        · simp [State.give, Local.take, hl']
        · simp [State.give, Local.take, hl', hs.view.locks], hs.view.selection, hs.view.context,
        hs.view.bodies, hs.view.ready⟩
    exact ⟨hallowed, Obeys.of_pure At.stable (fun _ h => ⟨fun _ => ⟨hl, h⟩, fun hr => absurd rfl hr⟩) hs'⟩
  case isFalse =>
    obtain ⟨hallowed, -⟩ := hs.step (t := s) ⟨fun _ _ _ => .rfl, fun _ _ => rfl, fun _ _ => rfl,
      fun _ _ => rfl, .inl rfl⟩ hs.valid hs.view
    exact ⟨hallowed, Obeys.of_raise At.stable (fun _ h => ⟨nofun, fun _ => h⟩) hs⟩

theorem release_obeys (hv : (v.give l).Valid) (h : At i v s) :
    Obeying i (fun r s => r = .ok () ∧ At i (v.give l) s) (release i l) s := by
  refine step_obeys h hv fun s hs => ?_
  have hview (s' : State ι) (ho : ∀ l', s'.owner l' = some i ↔ s.owner l' = some i ∧ l' ≠ l)
      (hs' : s'.selection = s.selection ∧ s'.context = s.context ∧ s'.bodies = s.bodies ∧
        s'.protocol = s.protocol) : View i (v.give l) s' := by
    refine ⟨fun l' => ?_, ?_, ?_, ?_, ?_⟩
    · rw [ho, hs.view.locks]
      rfl
    · rw [hs'.left]
      exact hs.view.selection
    · rw [hs'.right.left]
      exact hs.view.context
    · rw [hs'.right.right.left]
      exact hs.view.bodies
    · rw [hs'.right.right.right]
      exact hs.view.ready
  split
  case isTrue hi =>
    refine ⟨frame_give (.inr hi) (.inl rfl), hview _ (fun l' => ?_) ⟨rfl, rfl, rfl, rfl⟩⟩
    by_cases hl : l' = l <;> simp [State.give, hl]
  case isFalse hi =>
    refine ⟨⟨fun _ _ _ => .rfl, fun _ _ => rfl, fun _ _ => rfl, fun _ _ => rfl, .inl rfl⟩,
      hview _ (fun l' => ?_) ⟨rfl, rfl, rfl, rfl⟩⟩
    refine ⟨fun h => ⟨h, ?_⟩, And.left⟩
    rintro rfl
    exact hi h

theorem withLock_obeys {X : Except Failure α → State ι → Prop} (hv : l ∉ v.locks → (v.take l).Valid)
    (h : At i v s) (hfail : ∀ e s, At i v s → Q (.error e) s)
    (hbody : ∀ s, l ∉ v.locks → At i (v.take l) s → Obeying i X body s)
    (hexit : ∀ r s, X r s →
      ∃ v', At i v' s ∧ (v'.give l).Valid ∧ ∀ s, At i (v'.give l) s → Q r s) :
    Obeying i Q (withLock i c l message body) s := by
  refine Obeys.bind (acquire_obeys hv h) ?_ fun e s h => hfail e s (h.right nofun)
  intro _ s h
  obtain ⟨hl, h⟩ := h.left rfl
  refine Obeys.ensure (hbody s hl h) fun r s hq => ?_
  obtain ⟨v', h, hv', hend⟩ := hexit r s hq
  exact (release_obeys hv' h).mono fun _ _ h => ⟨h.left, hend _ h.right⟩

-- A thread that is in no body, and holds no other locks.
def AtMost (i : ι) (B : Set Lock) (s : State ι) : Prop :=
  ∃ M, M ⊆ B ∧ At i (.plain M none none) s

-- A thread that is in no body takes locks, and gives them back.
theorem withLocks_obeys {K B : Set Lock} {ready : Option Bool} (h : At i (.plain K none ready) s)
    (hg : ready = some false → .selection ∈ K) (hK : K ⊆ B)
    (hbody : ∀ s, At i (.plain (K ∪ {l | l ∈ ls}) none ready) s →
      Obeying i (fun _ s => AtMost i (B ∪ {l | l ∈ ls}) s) body s) :
    Obeying i (fun _ s => AtMost i B s) (withLocks i c body ls) s := by
  induction ls generalizing K B s
  case nil => simpa [withLocks] using hbody s (by simpa using h)
  case cons l ls ih =>
    refine withLock_obeys (X := fun _ s => AtMost i (insert l B) s) ?_ h ?_ ?_ ?_
    · exact fun _ => Local.valid_plain (fun hr => .inr (hg hr)) nofun
    · exact fun _ s h => ⟨K, hK, h.forget rfl⟩
    · intro s _ h
      refine ih (K := insert l K) h (fun hr => .inr (hg hr)) (Set.insert_subset_insert hK) ?_
      intro s h
      have hset (K : Set Lock) : insert l K ∪ {x | x ∈ ls} = K ∪ {x | x ∈ l :: ls} := by
        ext x
        simp only [Set.mem_union, Set.mem_insert_iff, Set.mem_ofPred_eq, List.mem_cons]
        tauto
      rw [hset] at h ⊢
      exact hbody s h
    · rintro r s ⟨M, hM, h⟩
      refine ⟨_, h, Local.valid_bare, fun s h => ⟨M \ {l}, ?_, h⟩⟩
      intro x hx
      exact (hM hx.left).resolve_left hx.right

end Locking

section Bodies

variable {α : Type} {i : ι} {c : Circumstances} {v v' : Local} {s : State ι} {f : Frozen}
  {body : Program ι α}

-- The views that a thread has between two of its tasks: at work on nothing, in the body of a unit that it
-- is to preserve, and in a body that is yielded `True`.
inductive Boundary : Local → Prop
  | idle    : Boundary .idle
  | refused : Boundary (.plain {.selection} none (some false))
  | inside  {v : Local} (h : v.bodies ≠ []) : Boundary v

-- What a body is to do: it leaves things as it has found them.
def Returns (i : ι) (body : Program ι α) : Prop :=
  ∀ v s, Boundary v → At i v s → Obeying i (fun _ s => At i v s) body s

-- The same, as long as the thread is recorded to be in a body for the set.
def ReturnsWithin (i : ι) (ids : List String) (body : Program ι α) : Prop :=
  ∀ v s ready, v.bodies.head? = some ⟨ids, ready⟩ → At i v s → Obeying i (fun _ s => At i v s) body s

omit [DecidableEq ι] in
theorem Returns.within (h : Returns i body) (ids : List String) : ReturnsWithin i ids body := by
  intro v s ready hv hs
  refine h v s (.inside fun hnil => ?_) hs
  rw [hnil] at hv
  cases hv

def Local.hold (v : Local) (f : Frozen) : Local :=
  { v with selection := some f, bodies := f :: v.bodies }

omit [Codec] in
theorem frame_local {f : Option Frozen} {c : Option (List Nat)} {b : List Frozen} :
    Frame i s { s with
      selection := Function.update s.selection i f
      context   := Function.update s.context i c
      bodies    := Function.update s.bodies i b } where
  owner _ _ _    := .rfl
  selection _ hj := by simp [hj]
  context _ hj   := by simp [hj]
  bodies _ hj    := by simp [hj]
  protocol       := .inl rfl

theorem selection_mem_locks (hf : f.ready = false) : .selection ∈ f.locks := by
  simp [Frozen.locks, hf]

theorem enter_obeys (hv : (v.hold f).Valid) (h : At i v s) :
    Obeying i (fun r s => r = .ok () ∧ At i (v.hold f) s) (enter i f) s := by
  refine step_obeys h hv fun s hs =>
    ⟨?_, hs.view.locks, by simp [Local.hold], hs.view.context, ?_, ?_⟩
  · simpa using frame_local (i := i) (s := s) (f := some f) (c := s.context i)
  · simp [Local.hold, hs.view.bodies]
  · exact hs.view.ready

theorem leave_obeys (hv : v.Valid) (hs : v.selection = none) (h : At i (v.hold f) s) :
    Obeying i (fun r s => r = .ok () ∧ At i v s) (leave i) s := by
  refine step_obeys h hv fun s h => ⟨?_, h.view.locks, by simp [hs], h.view.context, ?_, ?_⟩
  · simpa using frame_local (i := i) (s := s) (f := none) (c := s.context i)
  · simp [h.view.bodies, Local.hold]
  · exact h.view.ready

-- The locks of a frozen set are held, and no others.
theorem hold_obeys {ctx : Option (List Nat)} (hbody : ReturnsWithin i f.ids body)
    (h : At i (.plain f.locks ctx (some f.ready)) s) :
    Obeying i (fun _ s => At i (.plain f.locks ctx (some f.ready)) s) (hold i f body) s := by
  have hv : (Local.hold (.plain f.locks ctx (some f.ready)) f).Valid := by
    refine ⟨fun hr => selection_mem_locks (Option.some.inj hr), h.valid.context, ?_, rfl, ?_⟩
    · intro f' hf
      obtain rfl : f' = f := by simpa [Local.hold, Local.plain] using hf
      exact ⟨rfl, subset_rfl⟩
    · intro f' hf
      obtain rfl : f = f' := by simpa [Local.hold, Local.plain] using hf
      exact subset_rfl
  refine Obeys.bind (enter_obeys hv h) ?_ fun _ _ h => absurd h.left nofun
  rintro _ s' ⟨-, h'⟩
  refine Obeys.ensure (hbody _ _ f.ready rfl h') fun _ _ h'' => ?_
  exact leave_obeys h.valid rfl h''

theorem enterNested_obeys (hv : Local.Valid { v with bodies := f :: v.bodies }) (h : At i v s) :
    Obeying i (fun r s => r = .ok () ∧ At i { v with bodies := f :: v.bodies } s)
      (enterNested i f) s := by
  refine step_obeys h hv fun s hs =>
    ⟨?_, hs.view.locks, hs.view.selection, hs.view.context, ?_, ?_⟩
  · simpa using frame_local (i := i) (s := s) (f := s.selection i) (c := s.context i)
  · simp [hs.view.bodies]
  · exact hs.view.ready

theorem leaveNested_obeys (hv : v.Valid) (h : At i { v with bodies := f :: v.bodies } s) :
    Obeying i (fun r s => r = .ok () ∧ At i v s) (leaveNested i) s := by
  refine step_obeys h hv fun s hs =>
    ⟨?_, hs.view.locks, hs.view.selection, hs.view.context, ?_, ?_⟩
  · simpa using frame_local (i := i) (s := s) (f := s.selection i) (c := s.context i)
  · simp [hs.view.bodies]
  · exact hs.view.ready

theorem setContext_obeys {ctx : Option (List Nat)} (hv : Local.Valid { v with context := ctx })
    (h : At i v s) :
    Obeying i (fun r s => r = .ok () ∧ At i { v with context := ctx } s) (setContext i ctx) s := by
  refine step_obeys h hv fun s hs =>
    ⟨?_, hs.view.locks, hs.view.selection, by simp, hs.view.bodies, hs.view.ready⟩
  simpa using frame_local (i := i) (s := s) (f := s.selection i) (b := s.bodies i) (c := ctx)

theorem sourceLockStripes_eq_ok {ids : List String} {ns : List Nat} :
    sourceLockStripes ids = .ok ns ↔ "" ∉ ids ∧ ns = (ids.map sourceLockStripe).dedup := by
  unfold sourceLockStripes
  split
  case isTrue h  => simp [h]
  case isFalse h => simp [h, eq_comm]

theorem stripe_mem_locks {ids : List String} {n : Nat} :
    .stripe n ∈ Frozen.locks ⟨ids, true⟩ ↔ n ∈ (ids.map sourceLockStripe).dedup := by
  simp [Frozen.locks, eq_comm]

-- A set within a frozen one stands for no other locks.
theorem locks_subset_of_within {ids : List String} {held : Frozen} (h : within ids held = .ok true) :
    Frozen.locks ⟨ids, held.ready⟩ ⊆ held.locks := by
  obtain ⟨outer, ready⟩ := held
  cases ready
  case false =>
    have hsub : ids ⊆ outer := by simpa [within, pure, Except.pure] using h
    rintro l (rfl | ⟨m, hm, rfl⟩)
    · exact .inl rfl
    · exact .inr ⟨m, hsub hm, rfl⟩
  case true =>
    simp only [within, if_true, Transaction.bind_eq_ok, Transaction.pure_eq_ok,
      decide_eq_true_eq] at h
    obtain ⟨ns, hin, ms, hout, hsub⟩ := h
    obtain ⟨-, rfl⟩ := sourceLockStripes_eq_ok.mp hin
    obtain ⟨-, rfl⟩ := sourceLockStripes_eq_ok.mp hout
    rintro l ⟨m, hm, rfl⟩
    refine stripe_mem_locks.mpr (hsub ?_)
    exact List.mem_dedup.mpr (List.mem_map_of_mem hm)

-- A nested use takes no lock at all.
theorem nested_obeys {ids : List String} {held : Frozen} {b : Bool} (hbody : ReturnsWithin i ids body)
    (hs : v.selection = some held) (hw : within ids held = .ok b) (hb : b = true) (h : At i v s) :
    Obeying i (fun _ s => At i v s)
      (do enterNested i ⟨ids, held.ready⟩; body.ensure (leaveNested i)) s := by
  subst hb
  have hlast : v.bodies.getLast? = some held := h.valid.selection.symm.trans hs
  have hmem := h.valid.bodies held (List.mem_of_getLast? hlast)
  have hnext (f : Frozen) : (f :: v.bodies).getLast? = some held := by
    rw [List.getLast?_cons, hlast]
    rfl
  have hv : Local.Valid { v with bodies := ⟨ids, held.ready⟩ :: v.bodies } := by
    refine ⟨h.valid.guarded, h.valid.context, ?_, hs.trans (hnext _).symm, ?_⟩
    · intro f hf
      obtain rfl | hf := List.mem_cons.mp hf
      · exact ⟨hmem.left, (locks_subset_of_within hw).trans hmem.right⟩
      · exact h.valid.bodies f hf
    · intro f hf
      rw [hnext] at hf
      exact h.valid.outer f (hlast.trans hf)
  refine Obeys.bind (enterNested_obeys hv h) ?_ fun _ _ h => absurd h.left nofun
  rintro _ s' ⟨-, h'⟩
  refine Obeys.ensure (hbody _ _ held.ready rfl h') fun _ _ h'' => ?_
  exact leaveNested_obeys h.valid h''

-- A thread does not get a lock that it holds already.
theorem withLock_self {l : Lock} {message : String} (hl : l ∈ v.locks) (h : At i v s) :
    Obeying i (fun _ s => At i v s) (withLock i c l message body) s :=
  withLock_obeys (X := fun _ _ => False) (fun hn => absurd hl hn) h (fun _ _ h => h)
    (fun _ hn _ => absurd hl hn) fun _ _ h => h.elim

theorem sourceLocks_obeys {ids : List String} (h : At i (.plain {.selection} none (some true)) s)
    (hbody : ∀ ctx s, At i (.plain (insert .selection (Frozen.locks ⟨ids, true⟩)) ctx (some true)) s →
      Obeying i (fun _ s => At i (.plain (Frozen.locks ⟨ids, true⟩) ctx (some true)) s) body s) :
    Obeying i (fun _ s => AtMost i {.selection} s) (sourceLocks i c ids body) s := by
  have hend (s : State ι) (h : At i (.plain {.selection} none (some true)) s) :
      AtMost i {.selection} s := ⟨_, subset_rfl, h.forget rfl⟩
  refine Obeys.bind (require_obeys h) ?_ fun _ s h => hend s h.right
  rintro _ s ⟨-, h⟩
  refine Obeys.bind (done_obeys h) ?_ fun _ s h => hend s h.right
  rintro ns s ⟨hns, h⟩
  obtain ⟨-, rfl⟩ := sourceLockStripes_eq_ok.mp hns.symm
  refine Obeys.bind (read_obeys (fun _ hv => hv.context) h) ?_ fun _ s h => absurd h.left nofun
  rintro ctx s ⟨hctx, h⟩
  obtain rfl : ctx = none := Except.ok.inj hctx
  have hmem (n : Nat) : n ∈ (ids.map sourceLockStripe).dedup.mergeSort ↔
      .stripe n ∈ Frozen.locks ⟨ids, true⟩ := by
    rw [List.mem_mergeSort, stripe_mem_locks]
  dsimp only
  split
  case h_1 hnil =>
    have hempty : Frozen.locks ⟨ids, true⟩ = ∅ := by
      refine Set.eq_empty_of_forall_notMem ?_
      rintro l ⟨m, hm, rfl⟩
      have : sourceLockStripe m ∈ (ids.map sourceLockStripe).dedup.mergeSort :=
        (hmem _).mpr ⟨m, hm, rfl⟩
      simp [hnil] at this
    rw [hempty] at hbody
    refine (hbody none s (by simpa using h)).mono fun _ s h => ?_
    exact ⟨_, Set.empty_subset _, h.forget rfl⟩
  case h_2 first others hcons =>
    refine Obeys.bind (require_obeys h) ?_ fun _ s h => hend s h.right
    rintro _ s ⟨-, h⟩
    have hlocks : ({l | l ∈ (first :: others).map Lock.stripe} : Set Lock) =
        Frozen.locks ⟨ids, true⟩ := by
      ext l
      rw [← hcons, Set.mem_ofPred_eq, List.mem_map]
      constructor
      · rintro ⟨n, hn, rfl⟩
        exact (hmem n).mp hn
      · rintro ⟨m, hm, rfl⟩
        exact ⟨_, (hmem _).mpr ⟨m, hm, rfl⟩, rfl⟩
    refine withLocks_obeys h nofun subset_rfl fun s h => ?_
    rw [hlocks] at h ⊢
    have hcontext (K : Set Lock) (hK : Frozen.locks ⟨ids, true⟩ ⊆ K) :
        (Local.plain K (some (ids.map sourceLockStripe).dedup) (some true)).Valid := by
      refine Local.valid_plain nofun fun ns hns n hn => ?_
      cases hns
      exact hK (stripe_mem_locks.mpr hn)
    refine Obeys.bind (setContext_obeys (hcontext _ Set.subset_union_right) h) ?_
      fun _ _ h => absurd h.left nofun
    rintro _ s ⟨-, h⟩
    refine Obeys.ensure (hbody _ s h) fun _ s h => ?_
    refine (setContext_obeys Local.valid_qualified h).mono fun _ s h => ⟨h.left, ?_⟩
    exact ⟨_, Set.subset_union_right, h.right.forget rfl⟩

-- A use of a thread that is in no body, once the guard is its own.
theorem guarded_obeys {messageIds : List String} {legacyLimit : Option Nat}
    {body : Bool → Program ι α} (hin : ReturnsWithin i messageIds (body true))
    (hout : Returns i (body false)) (h : At i (.plain {.selection} none none) s) :
    Obeying i (fun _ s => AtMost i {.selection} s)
      (do
        let ready ← protocolReady
        requireSelectedProtocol ready legacyLimit
        if ready then
          sourceLocks i c messageIds do
            release i .selection
            hold i ⟨messageIds, true⟩ (body true)
        else if cleanupHeld ready messageIds.length (legacyLimit.getD 0) then
          body false
        else
          withLocks i c (hold i ⟨messageIds, false⟩ (body true))
            (messageIds.mergeSort.map fun m => .legacy (Codec.sourceLockName m))) s := by
  refine Obeys.bind (protocolReady_obeys h) ?_ fun _ s h => ⟨_, subset_rfl, h.left⟩
  rintro ready s ⟨h, hready⟩
  have h := (hready ready rfl).known rfl fun _ => rfl
  refine Obeys.bind (require_obeys h) ?_ fun _ s h => ⟨_, subset_rfl, h.right.forget rfl⟩
  rintro _ s ⟨-, h⟩
  cases ready
  case true =>
    refine sourceLocks_obeys h fun ctx s h => ?_
    have hgive : (Local.plain (insert .selection (Frozen.locks ⟨messageIds, true⟩)) ctx (some true)).give
        .selection = .plain (Frozen.locks ⟨messageIds, true⟩) ctx (some true) := by
      rw [Local.give, Local.plain, Set.insert_sdiff_self_of_notMem (by simp [Frozen.locks])]
      rfl
    have hv : (Local.plain (Frozen.locks ⟨messageIds, true⟩) ctx (some true)).Valid := by
      refine Local.valid_plain nofun fun ns hns n hn => ?_
      exact (h.valid.context ns hns n hn).resolve_left nofun
    refine Obeys.bind (release_obeys (hgive ▸ hv) h) ?_ fun _ _ h => absurd h.left nofun
    rintro _ s ⟨-, h⟩
    exact hold_obeys hin (hgive ▸ h)
  case false =>
    by_cases hheld : cleanupHeld false messageIds.length (legacyLimit.getD 0)
    case pos =>
      simp only [hheld, if_true]
      refine (hout _ s .refused h).mono fun _ s h => ⟨_, subset_rfl, h.forget rfl⟩
    case neg =>
      simp only [hheld, Bool.false_eq_true, if_false]
      have hlocks (ls : List Lock)
          (hls : ls = messageIds.mergeSort.map fun m => .legacy (Codec.sourceLockName m)) :
          {.selection} ∪ {l | l ∈ ls} = Frozen.locks ⟨messageIds, false⟩ := by
        subst hls
        ext l
        simp [Frozen.locks, eq_comm]
      have h : At i (.plain {.selection} none (some false)) s := h
      refine withLocks_obeys h (fun _ => rfl) subset_rfl fun s h => ?_
      rw [hlocks _ rfl] at h ⊢
      exact (hold_obeys hin h).mono fun _ s h => ⟨_, subset_rfl, h.forget rfl⟩

theorem use_obeys {message : String} (h : At i .idle s)
    (hbody : ∀ s, At i (.plain {.selection} none none) s →
      Obeying i (fun _ s => AtMost i {.selection} s) body s) :
    Obeying i (fun _ s => At i .idle s) (withLock i c .selection message body) s := by
  have htake : Local.idle.take .selection = .plain {.selection} none none := by
    simp [Local.take, Local.idle, Local.plain]
  refine withLock_obeys (X := fun _ s => AtMost i {.selection} s) (fun _ => ?_) h (fun _ _ h => h) ?_ ?_
  · exact htake ▸ Local.valid_bare
  · exact fun s _ h => hbody s (htake ▸ h)
  · rintro r s ⟨M, hM, h⟩
    have hgive : (Local.plain M none none).give .selection = .idle := by
      rw [Local.give, Local.plain, Set.sdiff_eq_empty.mpr hM]
      rfl
    exact ⟨_, h, hgive ▸ Local.valid_idle, fun s h => hgive ▸ h⟩

-- A body that is yielded `True` is run only while its set is recorded as the innermost of its thread,
-- so that nothing has to be known of what it does elsewhere.
theorem selectedSourceLocks_obeys {messageIds : List String} {legacyLimit : Option Nat}
    {body : Bool → Program ι α} (hb : Boundary v) (hin : ReturnsWithin i messageIds.dedup (body true))
    (hout : Returns i (body false)) (h : At i v s) :
    Obeying i (fun _ s => At i v s) (selectedSourceLocks i c messageIds legacyLimit body) s := by
  refine Obeys.bind (require_obeys h) ?_ fun _ s h => h.right
  rintro _ s ⟨-, h⟩
  refine Obeys.bind (read_obeys (fun _ hv => hv.selection) h) ?_ fun _ s h => absurd h.left nofun
  rintro selection s ⟨hselection, h⟩
  obtain rfl : selection = v.selection := Except.ok.inj hselection
  split
  case h_1 held hs =>
    refine Obeys.bind (require_obeys h) ?_ fun _ s h => h.right
    rintro _ s ⟨-, h⟩
    refine Obeys.bind (done_obeys h) ?_ fun _ s h => h.right
    rintro subset s ⟨hw, h⟩
    refine Obeys.bind (require_obeys h) ?_ fun _ s h => h.right
    rintro _ s ⟨hsub, h⟩
    exact nested_obeys hin hs hw.symm (hsub rfl) h
  case h_2 hs =>
    refine Obeys.bind (require_obeys h) ?_ fun _ s h => h.right
    rintro _ s ⟨-, h⟩
    cases hb
    case refused => exact withLock_self rfl h
    case inside hne =>
      rw [h.valid.selection, List.getLast?_eq_none_iff] at hs
      exact absurd hs hne
    case idle => exact use_obeys h fun s h => guarded_obeys hin hout h

theorem drain_obeys {names : List String} (h : At i (.plain {.selection} none none) s) :
    Obeying i (fun _ s => At i (.plain {.selection} none none) s) (drain i c names) s := by
  induction names generalizing s
  case nil => exact Obeys.of_pure At.stable (fun _ h => h) h
  case cons name names ih =>
    refine Obeys.bind (require_obeys h) ?_ fun _ s h => h.right
    rintro _ s ⟨-, h⟩
    refine Obeys.bind (Q := fun _ s => At i (.plain {.selection} none none) s) ?_ (fun _ _ h => ih h)
      fun _ _ h => h
    have hgive : ((Local.plain {.selection} none none).take (.legacy name)).give (.legacy name) =
        .plain {.selection} none none := by
      rw [Local.give, Local.take, Local.plain, Set.insert_sdiff_self_of_notMem (by simp)]
    refine withLock_obeys (fun _ => ?_) h (fun _ _ h => h) (fun s _ h => pure_obeys h) ?_
    · exact (Local.valid_bare : (Local.plain (insert (.legacy name) {.selection}) none none).Valid)
    · exact fun _ s h => ⟨_, h.right, hgive ▸ Local.valid_bare, fun s h => hgive ▸ h⟩

omit [DecidableEq ι] in
-- The protocol is recorded by who holds the guard.
theorem record_obeys (h : At i (.plain {.selection} none none) s) :
    Obeying i (fun _ s => At i (.plain {.selection} none none) s) record s := by
  refine (step_obeys h h.valid fun s hs => ⟨?_, ?_⟩).mono fun _ _ h => h.right
  · refine ⟨fun _ _ _ => .rfl, fun _ _ => rfl, fun _ _ => rfl, fun _ _ => rfl, .inr ⟨?_, rfl⟩⟩
    exact (hs.view.locks _).mpr rfl
  · exact ⟨hs.view.locks, hs.view.selection, hs.view.context, hs.view.bodies, nofun⟩

theorem qualifyProtocol_obeys (hb : Boundary v) (h : At i v s) :
    Obeying i (fun _ s => At i v s) (qualifyProtocol i c) s := by
  refine Obeys.bind (protocolReady_obeys h) ?_ fun _ s h => h.left
  rintro ready s ⟨h, hready⟩
  have hagrees := (hready ready rfl).agrees
  cases ready
  case true  => exact (done_obeys h).mono fun _ _ h => h.right
  case false =>
    refine Obeys.bind (require_obeys h) ?_ fun _ s h => h.right
    rintro _ s ⟨-, h⟩
    cases hb
    case refused => exact withLock_self rfl h
    case inside hne =>
      -- Within a body that has been yielded `True`, the guard is the thread's own.
      obtain ⟨f, hf⟩ := List.exists_mem_of_ne_nil _ hne
      have hf := (h.valid.bodies f hf).left
      exact withLock_self (h.valid.guarded (by rw [hf, ← hagrees _ hf])) h
    case idle =>
      refine use_obeys h fun s h => ?_
      have hend (s : State ι) (h : At i (.plain {.selection} none none) s) :
          AtMost i {.selection} s := ⟨_, subset_rfl, h⟩
      refine Obeys.bind (done_obeys h) ?_ fun _ s h => hend s h.right
      rintro _ s ⟨-, h⟩
      refine Obeys.bind (drain_obeys h) ?_ fun _ s h => hend s h
      intro _ s h
      refine Obeys.bind (done_obeys h) ?_ fun _ s h => hend s h.right
      rintro _ s ⟨-, h⟩
      exact (record_obeys h).mono fun _ s h => hend s h

-- Whatever a thread does, it leaves things as it has found them.
theorem Task.program_returns (t : Task) : Returns i (t.program i) := by
  induction t
  case pause =>
    intro v s _ h
    exact (read_obeys (fun _ _ => rfl) h).mono fun _ _ h => h.right
  case fail => exact fun v s _ h => raise_obeys h
  case seq t u iht ihu =>
    intro v s hb h
    exact Obeys.bind (iht v s hb h) (fun _ s h => ihu v s hb h) fun _ _ h => h
  case attempt t u iht ihu =>
    intro v s hb h
    exact Obeys.handle (iht v s hb h) (fun _ _ h => h) fun _ s h => ihu v s hb h
  case use c messageIds legacyLimit t u iht ihu =>
    intro v s hb h
    exact selectedSourceLocks_obeys hb (iht.within _) ihu h
  case qualify c => exact fun v s hb h => qualifyProtocol_obeys hb h

end Bodies

section Runs

variable {protocol : Option String} {i : ι} {s : State ι}

theorem drop_obeys (h : Sound s) :
    Allowed Sound Respects i s (s.drop i) ∧ Sound (s.drop i) ∧ View i .idle (s.drop i) := by
  obtain ⟨v, hv, hview⟩ := h i
  have hidle : View i .idle (s.drop i) := by
    refine ⟨fun l => ?_, by simp [State.drop, Local.idle, Local.plain],
      by simp [State.drop, Local.idle, Local.plain], by simp [State.drop, Local.idle, Local.plain], nofun⟩
    by_cases hl : s.owner l = some i <;> simp [State.drop, Local.idle, Local.plain, hl]
  have hframe : Frame i s (s.drop i) := by
    refine ⟨fun j hj l => ?_, fun j hj => by simp [State.drop, hj], fun j hj => by simp [State.drop, hj],
      fun j hj => by simp [State.drop, hj], .inl rfl⟩
    by_cases hl : s.owner l = some i <;> simp [State.drop, hl, Ne.symm hj]
  obtain ⟨hallowed, hat⟩ := At.step ⟨h, hv, hview⟩ hframe Local.valid_idle hidle
  exact ⟨hallowed, hat.sound, hidle⟩

omit [DecidableEq ι] in
theorem initial_sound : Sound (State.initial protocol : State ι) :=
  fun _ => ⟨.idle, Local.valid_idle, by simp [State.initial, Local.idle, Local.plain], rfl, rfl, rfl,
    nofun⟩

-- What holds of the bodies that threads are in.
structure Exclusive (s : State ι) : Prop where
  -- No two threads are in bodies for a common message.
  disjoint : ∀ i j, i ≠ j → ∀ f ∈ s.bodies i, ∀ g ∈ s.bodies j, ∀ m ∈ f.ids, m ∉ g.ids
  -- Once the protocol is recorded, no body is at work on the locks of old.
  drained  : s.protocol = some sourceLockProtocol → ∀ i, ∀ f ∈ s.bodies i, f.ready = true
  -- Within a body, no lock is held but those of its outermost set.
  frozen   : ∀ i f, (s.bodies i).getLast? = some f → ∀ l, s.owner l = some i → l ∈ f.locks

omit [DecidableEq ι] in
theorem Sound.exclusive (h : Sound s) : Exclusive s where
  disjoint i j hij f hf g hg m hmf hmg := by
    obtain ⟨v, hv, hvs⟩ := h i
    obtain ⟨w, hw, hws⟩ := h j
    rw [hvs.bodies] at hf
    rw [hws.bodies] at hg
    obtain ⟨hfr, hfl⟩ := hv.bodies f hf
    obtain ⟨hgr, hgl⟩ := hw.bodies g hg
    have hsame (l : Lock) (hl : l ∈ f.locks) (hl' : l ∈ g.locks) : False := by
      have hi := (hvs.locks l).mpr (hfl hl)
      have hj := (hws.locks l).mpr (hgl hl')
      exact hij (Option.some.inj (hi.symm.trans hj))
    have hready : f.ready = true ↔ g.ready = true :=
      (hvs.ready _ hfr).symm.trans (hws.ready _ hgr)
    cases hf' : f.ready
    case false =>
      have hg' : g.ready = false := by simpa [hf'] using hready
      exact hsame .selection (selection_mem_locks hf') (selection_mem_locks hg')
    case true =>
      have hg' : g.ready = true := by simpa [hf'] using hready
      refine hsame (.stripe (sourceLockStripe m)) ?_ ?_
      · simpa [Frozen.locks, hf'] using ⟨m, hmf, rfl⟩
      · simpa [Frozen.locks, hg'] using ⟨m, hmg, rfl⟩
  drained hp i f hf := by
    obtain ⟨v, hv, hvs⟩ := h i
    rw [hvs.bodies] at hf
    exact (hvs.ready _ (hv.bodies f hf).left).mp hp
  frozen i f hf l hl := by
    obtain ⟨v, hv, hvs⟩ := h i
    rw [hvs.bodies] at hf
    exact hv.outer f hf ((hvs.locks l).mp hl)

theorem after_sound (protocol : Option String) (as : List (Turn ι Task)) : Sound (after protocol as) := by
  refine (Crowd.sound_run (S := Sound) (R := Respects) (W := fun i s => Sound s ∧ View i .idle s)
    ?_ ?_ ?_ ?_ as).state
  · exact fun i s s' h hr => ⟨hr.sound, h.right.respects Local.valid_idle hr⟩
  · intro i t s hs h
    refine (Task.program_returns t _ s .idle ⟨hs, Local.valid_idle, h.right⟩).mono fun _ _ h => ?_
    exact ⟨h.sound, h.view⟩
  · exact fun i s h => drop_obeys h
  · refine ⟨initial_sound, fun i _ => ⟨initial_sound, ?_⟩, nofun⟩
    exact ⟨by simp [State.initial, Local.idle, Local.plain], rfl, rfl, rfl, nofun⟩

end Runs

end SourceLocks
