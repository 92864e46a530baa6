import EmailWatcher.Reconcile.State

namespace Reconcile

open Transaction State

variable {s s' : State} {a : Action} {as bs : List Action} {id k : String} {g : Nat}
variable {p q : Progress} {d : Derivation} {τ : Instant}

namespace State

-- The coverage generation, zero before there is one.
def counter (s : State) : Nat :=
  s.ensureGeneration.generation

theorem counter_of_eq (h : s'.generation = s.generation) : s'.counter = s.counter := by
  simp [counter, ensureGeneration, h]

theorem counter_eq {row : Generation} (h : s.generation = some row) :
    s.counter = row.generation := by
  simp [counter, ensureGeneration, h]

@[simp]
theorem counter_bumpCoverageGeneration {n : Nat} {clear : Bool} :
    (s.bumpCoverageGeneration n clear).counter = s.counter + n :=
  rfl

theorem current_eq_true (h : s.current p) :
    ∃ row, s.progress = some row ∧ row.generation = p.generation := by
  simp only [current, Option.any_eq_true, Bool.and_eq_true, decide_eq_true_eq] at h
  obtain ⟨row, hr, hg, _⟩ := h
  exact ⟨row, hr, hg⟩

theorem pass_eq_ok : s.pass id = .ok p ↔ (s.passes.get id).map (·.progress) = some p := by
  simp [pass]

-- What an action leaves alone that does not concern the generation or the threads.
structure SameThreads (s s' : State) : Prop where
  generation : s'.generation = s.generation
  coverage   : s'.coverage = s.coverage
  follow     : s'.follow = s.follow
  watermarks : s'.watermarks = s.watermarks

-- What a pass has to do with the progress row before and after it is started or resumed.
structure Loads (s : State) (id : String) (p : Progress) (s' : State) : Prop extends
    SameThreads s s' where
  counter  : p.generation = s.counter
  progress : s'.progress = some p
  passes   : s'.passes = s.passes.put ⟨id, p⟩
  catchup  : s'.catchup = s.catchup ∨ ∃ row, s.progress = some row ∧ row.generation ≠ s.counter

theorem startProgress_eq_ok {now : Instant} {days : Nat} {payload : String}
    (h : s.startProgress g now days payload = .ok (s', p)) :
    p.generation = g ∧ s' = { s with progress := some p } := by
  simp only [startProgress, bind_eq_ok, pure_eq_ok, Prod.mk.injEq] at h
  obtain ⟨_, _, hs, hp⟩ := h
  subst hp
  exact ⟨rfl, hs.symm⟩

theorem discardStale_cases (s : State) (g : Nat) :
    (s.discardStale g = s ∧ ∀ row, s.progress = some row → row.generation = g) ∨
    (s.discardStale g = { s with progress := none, items := ∅, catchup := ∅ } ∧
      ∃ row, s.progress = some row ∧ row.generation ≠ g) := by
  unfold discardStale
  split
  case isTrue h =>
    simp only [Option.any_eq_true, decide_eq_true_eq] at h
    exact .inr ⟨rfl, h⟩
  case isFalse h =>
    refine .inl ⟨rfl, fun row hr => ?_⟩
    simpa [hr] using h

theorem loadOrStart_eq_ok {now : Instant} {days : Nat} {payload : String}
    (h : s.loadOrStart id now days payload = .ok s') : ∃ p, Loads s id p s' := by
  simp only [loadOrStart, bind_eq_ok, find_eq_ok] at h
  obtain ⟨row, hrow, h⟩ := h
  have hc := counter_eq hrow
  obtain ⟨hd, hg⟩ | ⟨hd, hstale⟩ := discardStale_cases s row.generation
  case inl =>
    rw [hd] at h
    split at h
    case h_1 p hp =>
      cases pure_eq_ok.mp h
      exact ⟨p, ⟨rfl, rfl, rfl, rfl⟩, (hg p hp).trans hc.symm, hp, rfl, .inl rfl⟩
    case h_2 =>
      simp only [bind_eq_ok, Prod.exists, pure_eq_ok] at h
      obtain ⟨s₁, p, hs, h⟩ := h
      obtain ⟨hp, hs⟩ := startProgress_eq_ok hs
      subst hs h
      exact ⟨p, ⟨rfl, rfl, rfl, rfl⟩, hp.trans hc.symm, rfl, rfl, .inl rfl⟩
  case inr =>
    simp only [hd, bind_eq_ok, Prod.exists, pure_eq_ok] at h
    obtain ⟨s₁, p, hs, h⟩ := h
    obtain ⟨hp, hs⟩ := startProgress_eq_ok hs
    subst hs h
    exact ⟨p, ⟨rfl, rfl, rfl, rfl⟩, hp.trans hc.symm, rfl, rfl, .inr (hc ▸ hstale)⟩

theorem save_eq_ok {payload : String} (h : s.save id payload = .ok s') :
    ∃ p row, s.pass id = .ok p ∧ s.progress = some row ∧ row.generation = p.generation ∧
      s' = ({ s with progress := some (row.saved payload) } : State).hold id (p.saved payload) := by
  simp only [save, bind_eq_ok, require_eq_ok, pure_eq_ok] at h
  obtain ⟨p, hp, _, hc, h⟩ := h
  obtain ⟨row, hr, hg⟩ := current_eq_true hc
  exact ⟨p, row, hp, hr, hg, by rw [← h, hr]; rfl⟩

theorem nextInterval_eq_ok {now : Instant} {payload : String}
    (h : s.nextInterval id now payload = .ok s') :
    ∃ p row q, s.pass id = .ok p ∧ s.progress = some row ∧ row.generation = p.generation ∧
      q.generation = p.generation ∧
      s' = ({ s with items := ∅, progress := some q } : State).hold id q := by
  simp only [nextInterval, bind_eq_ok, require_eq_ok, pure_eq_ok, Prod.exists] at h
  obtain ⟨p, hp, _, hc, s₁, q, hs, h⟩ := h
  obtain ⟨row, hr, hg⟩ := current_eq_true hc
  obtain ⟨hq, hs⟩ := startProgress_eq_ok hs
  subst hs
  exact ⟨p, row, q, hp, hr, hg, hq, h.symm⟩

-- What has been checked when a pass completes.
structure Completable (s : State) (p : Progress) : Prop where
  progress : ∃ row, s.progress = some row ∧ row.generation = p.generation
  caughtUp : ∀ k c, s.catchup.get (p.generation, k) = some c → s.followed k →
    ∃ w, s.watermarks.get k = some w ∧ c.target ≤ w.syncedThrough

theorem complete_eq_ok {recordedAt : Instant} (h : s.complete id recordedAt = .ok s') :
    ∃ p, s.pass id = .ok p ∧ Completable s p ∧ s' = { s with
      coverage := s.certify p recordedAt
      items    := s.items.delete (·.generation = p.generation)
      catchup  := s.catchup.delete (·.generation = p.generation)
      progress := none
    } := by
  simp only [complete, bind_eq_ok, require_eq_ok, pure_eq_ok] at h
  obtain ⟨p, hp, _, hn, _, hc, _, _, h⟩ := h
  refine ⟨p, hp, ⟨current_eq_true hc, fun k c hk hf => ?_⟩, h.symm⟩
  simp only [catchupPending, Bool.not_eq_true', List.any_eq_false, Bool.and_eq_true,
    decide_eq_true_eq, not_and] at hn
  have hkey : (c.generation, c.threadKey) = (p.generation, k) := Table.key_of_get hk
  obtain ⟨hg, ht⟩ := Prod.mk.inj hkey
  have := hn c (Table.mem_of_get hk) ⟨hg, ht ▸ hf⟩
  rw [ht] at this
  cases hw : s.watermarks.get k
  case none   => simp [hw] at this
  case some w => exact ⟨w, rfl, by simpa [hw] using this⟩

theorem watermark_eq_ok {aliases aliases' : Nat} (h : s.watermark id k aliases aliases' = .ok s') :
    ∃ p, s.pass id = .ok p ∧ (s' = s ∨ (s.followed k ∧
      s' = { s with watermarks := s.watermarks.put ⟨k, s.syncedThrough p k⟩ })) := by
  simp only [watermark, bind_eq_ok] at h
  obtain ⟨p, hp, h⟩ := h
  refine ⟨p, hp, ?_⟩
  split at h
  case isTrue hf =>
    simp only [Bool.and_eq_true] at hf
    exact .inr ⟨hf.left, (pure_eq_ok.mp h).symm⟩
  case isFalse => exact .inl (pure_eq_ok.mp h).symm

section Derivation

-- What updating the followed threads leaves alone.
structure SameProgress (s s' : State) : Prop where
  generation : s'.generation = s.generation
  coverage   : s'.coverage = s.coverage
  progress   : s'.progress = s.progress
  watermarks : s'.watermarks = s.watermarks
  passes     : s'.passes = s.passes

theorem SameProgress.refl (s : State) : SameProgress s s :=
  ⟨rfl, rfl, rfl, rfl, rfl⟩

theorem SameProgress.trans {s₁ s₂ s₃ : State} (h₁ : SameProgress s₁ s₂) (h₂ : SameProgress s₂ s₃) :
    SameProgress s₁ s₃ where
  generation := h₂.generation.trans h₁.generation
  coverage   := h₂.coverage.trans h₁.coverage
  progress   := h₂.progress.trans h₁.progress
  watermarks := h₂.watermarks.trans h₁.watermarks
  passes     := h₂.passes.trans h₁.passes

-- Targets only get later.
def KeepsTargets (s s' : State) : Prop :=
  ∀ key c, s.catchup.get key = some c → ∃ c', s'.catchup.get key = some c' ∧ c.target ≤ c'.target

theorem KeepsTargets.refl (s : State) : KeepsTargets s s :=
  fun _ c h => ⟨c, h, le_refl _⟩

theorem KeepsTargets.trans {s₁ s₂ s₃ : State} (h₁ : KeepsTargets s₁ s₂) (h₂ : KeepsTargets s₂ s₃) :
    KeepsTargets s₁ s₃ := by
  intro key c hc
  obtain ⟨c₂, hc₂, hle₂⟩ := h₁ key c hc
  obtain ⟨c₃, hc₃, hle₃⟩ := h₂ key c₂ hc₂
  exact ⟨c₃, hc₃, hle₂.trans hle₃⟩

theorem recordFollowTransition_same (s : State) (k : String) (now : Instant) :
    SameProgress s (s.recordFollowTransition k now) ∧
    (s.recordFollowTransition k now).follow = s.follow ∧
    KeepsTargets s (s.recordFollowTransition k now) := by
  unfold recordFollowTransition
  split
  case h_1 => exact ⟨.refl s, rfl, .refl s⟩
  case h_2 p hp =>
    refine ⟨⟨rfl, rfl, rfl, rfl, rfl⟩, rfl, fun key c hc => ?_⟩
    rw [Table.get_put]
    by_cases hk : (p.generation, k) = key
    case neg => exact ⟨c, (if_neg hk).trans hc, le_refl _⟩
    case pos =>
      subst hk
      exact ⟨_, if_pos rfl, by simp [hc]⟩

-- The moment of a transition is recorded for the progress at hand.
theorem catchup_recordFollowTransition (h : s.progress = some p) (k : String) (now : Instant) :
    ∃ c, (s.recordFollowTransition k now).catchup.get (p.generation, k) = some c ∧
      now ≤ c.target := by
  simp only [recordFollowTransition, h, Table.get_put]
  refine ⟨_, if_pos rfl, ?_⟩
  split <;> simp

theorem followed_put {f : Follow} :
    ({ s with follow := s.follow.put f } : State).followed k =
    if f.threadKey = k then f.followed else s.followed k := by
  simp only [followed, Table.get_put]
  by_cases h : f.threadKey = k
  case pos => simp [h, Keyed.key]
  case neg => simp [h, Keyed.key]

theorem updateFollow_same (s : State) (q : Group) :
    SameProgress s (s.updateFollow q) ∧ KeepsTargets s (s.updateFollow q) := by
  simp only [updateFollow]
  split
  case isTrue =>
    obtain ⟨hs, _, hk⟩ := recordFollowTransition_same
      { s with follow := s.follow.put ⟨q.threadKey, q.followed⟩ } q.threadKey q.now
    exact ⟨⟨hs.generation, hs.coverage, hs.progress, hs.watermarks, hs.passes⟩, hk⟩
  case isFalse => exact ⟨⟨rfl, rfl, rfl, rfl, rfl⟩, .refl s⟩

theorem followed_updateFollow (s : State) (q : Group) :
    (s.updateFollow q).followed k = if q.threadKey = k then q.followed else s.followed k := by
  have hf : (s.updateFollow q).follow = s.follow.put ⟨q.threadKey, q.followed⟩ := by
    simp only [updateFollow]
    split
    case isTrue  => exact (recordFollowTransition_same _ _ _).right.left
    case isFalse => rfl
  have hp := followed_put (s := s) (k := k) (f := ⟨q.threadKey, q.followed⟩)
  simpa [followed, hf] using hp

theorem updateFollows_same (s : State) (groups : List Group) :
    SameProgress s (groups.foldl updateFollow s) ∧
    KeepsTargets s (groups.foldl updateFollow s) := by
  induction groups generalizing s
  case nil => exact ⟨.refl s, .refl s⟩
  case cons q groups ih =>
    obtain ⟨hs, hk⟩ := updateFollow_same s q
    obtain ⟨hs', hk'⟩ := ih (s.updateFollow q)
    exact ⟨hs.trans hs', hk.trans hk'⟩

theorem followed_updateFollows {groups : List Group} (h : k ∉ groups.map (·.threadKey)) :
    (groups.foldl updateFollow s).followed k = s.followed k := by
  induction groups generalizing s
  case nil => rfl
  case cons q groups ih =>
    simp only [List.map_cons, List.mem_cons, not_or] at h
    rw [List.foldl_cons, ih h.right, followed_updateFollow, if_neg (Ne.symm h.left)]

-- A thread that gets followed while there is progress owes it a target.
theorem catchup_updateFollows {groups : List Group} {q : Group}
    (hn : (groups.map (·.threadKey)).Nodup) (hm : q ∈ groups) (hq : q.followed)
    (hb : s.followed q.threadKey = false) (hp : s.progress = some p) :
    ∃ c, (groups.foldl updateFollow s).catchup.get (p.generation, q.threadKey) = some c ∧
      q.now ≤ c.target := by
  obtain ⟨l₁, l₂, rfl⟩ := List.append_of_mem hm
  simp only [List.map_append, List.map_cons] at hn
  have hk : q.threadKey ∉ l₁.map (·.threadKey) := by
    intro h
    exact (List.disjoint_of_nodup_append hn) h (by simp)
  have hb₁ := followed_updateFollows (s := s) hk
  obtain ⟨hs₁, _⟩ := updateFollows_same s l₁
  rw [List.foldl_append, List.foldl_cons]
  generalize l₁.foldl updateFollow s = s₁ at hb₁ hs₁
  have hc : ∃ c, (s₁.updateFollow q).catchup.get (p.generation, q.threadKey) = some c ∧
      q.now ≤ c.target := by
    simp only [updateFollow]
    rw [if_pos (by simp [hq, hb₁, hb])]
    refine catchup_recordFollowTransition ?_ _ _
    exact hs₁.progress.trans hp
  obtain ⟨c, hc, hle⟩ := hc
  obtain ⟨c', hc', hle'⟩ := (updateFollows_same (s₁.updateFollow q) l₂).right _ c hc
  exact ⟨c', hc', hle.trans hle'⟩

theorem followed_dropThreads (s : State) (d : Derivation) :
    (s.dropThreads d).followed k =
    (s.followed k && !(d.covers k && k ∉ d.groups.map (·.threadKey))) := by
  simp only [followed, dropThreads, Table.get_delete]
  cases hf : s.follow.get k
  case none => rfl
  case some f =>
    have hk : f.threadKey = k := Table.key_of_get hf
    subst hk
    simp only [Option.filter]
    split
    case isTrue h  => rw [h, Bool.and_true]
    case isFalse h => rw [Bool.eq_false_iff.mpr h, Bool.and_false, Option.any_none]

-- The state in which the groups of a derivation are stored.
def prepared (s : State) (d : Derivation) : State :=
  let s := { s with messages := d.messages }
  (if d.inputs = 0 then s else s.bumpCoverageGeneration d.inputs false).dropThreads d

theorem recomputeDerived_eq (s : State) (d : Derivation) :
    s.recomputeDerived d =
    let s := d.groups.foldl updateFollow (s.prepared d)
    { s with
      watermarks := s.watermarks.delete fun w => d.covers w.threadKey && !s.followed w.threadKey
    } :=
  rfl

theorem prepared_same (s : State) (d : Derivation) :
    (s.prepared d).counter = s.counter + d.inputs ∧ (s.prepared d).coverage = s.coverage ∧
    (s.prepared d).progress = s.progress ∧ (s.prepared d).passes = s.passes ∧
    (s.prepared d).watermarks = s.watermarks ∧
    (s.prepared d).catchup = (s.dropThreads d).catchup ∧
    (s.prepared d).follow = (s.dropThreads d).follow := by
  unfold prepared
  split
  case isTrue h => exact ⟨by rw [h]; rfl, rfl, rfl, rfl, rfl, rfl, rfl⟩
  case isFalse  => exact ⟨rfl, rfl, rfl, rfl, rfl, rfl, rfl⟩

-- All that a derivation does to the coverage of a mailbox.
structure Recomputes (s : State) (d : Derivation) (s' : State) : Prop where
  counter  : s'.counter = s.counter + d.inputs
  coverage : s'.coverage = s.coverage
  progress : s'.progress = s.progress
  passes   : s'.passes = s.passes
  catchup  : ∀ g k c, s.catchup.get (g, k) = some c → s'.followed k →
    ∃ c', s'.catchup.get (g, k) = some c' ∧ c.target ≤ c'.target
  kept     : ∀ k w, s.watermarks.get k = some w → s'.followed k → s'.watermarks.get k = some w
  old      : ∀ k w, s'.watermarks.get k = some w → s.watermarks.get k = some w
  recorded : ∀ q ∈ d.groups, q.followed → s.followed q.threadKey = false → ∀ p,
    s.progress = some p → ∃ c, s'.catchup.get (p.generation, q.threadKey) = some c ∧
      q.now ≤ c.target

theorem recomputeDerived_recomputes (s : State) (d : Derivation) :
    Recomputes s d (s.recomputeDerived d) := by
  obtain ⟨hn, hcov, hprog, hpass, hwm, hcat, hfol⟩ := prepared_same s d
  obtain ⟨hs, hk⟩ := updateFollows_same (s.prepared d) d.groups
  have hf (k : String) : (s.prepared d).followed k = (s.dropThreads d).followed k := by
    simp [followed, hfol]
  rw [recomputeDerived_eq]
  have hw : (d.groups.foldl updateFollow (s.prepared d)).watermarks = s.watermarks :=
    hs.watermarks.trans hwm
  refine {
    counter  := (counter_of_eq hs.generation).trans hn
    coverage := hs.coverage.trans hcov
    progress := hs.progress.trans hprog
    passes   := hs.passes.trans hpass
    catchup  := ?catchup
    kept     := ?kept
    old      := ?old
    recorded := ?recorded
  }
  case kept =>
    intro k w hw' hfk
    have hk : w.threadKey = k := Table.key_of_get hw'
    have hfk : (d.groups.foldl updateFollow (s.prepared d)).followed k := hfk
    refine Table.get_delete_eq_some.mpr ⟨by rw [hw]; exact hw', ?_⟩
    simp [hk, hfk]
  case old =>
    intro k w hw'
    exact hw ▸ (Table.get_delete_eq_some.mp hw').left
  case catchup =>
    intro g k c hc hfk
    refine hk (g, k) c ?_
    have hfk : (d.groups.foldl updateFollow (s.prepared d)).followed k := hfk
    have hkey : (c.generation, c.threadKey) = (g, k) := Table.key_of_get hc
    rw [hcat]
    refine Table.get_delete_eq_some.mpr ⟨hc, ?_⟩
    rw [(Prod.mk.inj hkey).right]
    by_contra hgone
    simp only [Bool.not_eq_false, Bool.and_eq_true, decide_eq_true_eq] at hgone
    rw [followed_updateFollows hgone.right.right, hf, followed_dropThreads] at hfk
    simp [hgone.right] at hfk
  case recorded =>
    intro q hm hq hb p hp
    have hb : (s.prepared d).followed q.threadKey = false := by
      rw [hf, followed_dropThreads, hb, Bool.false_and]
    exact catchup_updateFollows d.nodup hm hq hb (hprog.trans hp)

end Derivation

end State

-- Nothing about coverage changes.
structure Quiet (s s' : State) : Prop where
  counter    : s'.counter = s.counter
  coverage   : s'.coverage = s.coverage
  progress   : s'.progress = s.progress
  catchup    : s'.catchup = s.catchup
  follow     : s'.follow = s.follow
  watermarks : s'.watermarks = s.watermarks
  passes     : s'.passes = s.passes

-- A new generation begins.
structure Bumps (s : State) (clear : Bool) (s' : State) : Prop where
  counter    : s'.counter = s.counter + 1
  coverage   : s'.coverage = s.coverage
  progress   : s'.progress = s.progress
  watermarks : s'.watermarks = if clear then ∅ else s.watermarks
  passes     : s'.passes = s.passes

-- A pass writes its progress.
structure Writes (s : State) (id : String) (p : Progress) (s' : State) : Prop extends
    SameThreads s s' where
  held     : s.pass id = .ok p
  progress : ∃ row row', s.progress = some row ∧ s'.progress = some row' ∧
    row.generation = p.generation ∧ row'.generation = p.generation
  catchup  : s'.catchup = s.catchup
  passes   : ∃ q, q.generation = p.generation ∧ s'.passes = s.passes.put ⟨id, q⟩

-- All that an action can do.
inductive Effect (s : State) (a : Action) (s' : State) : Prop
  | quiet : Quiet s s' → Effect s a s'
  | bumps {clear : Bool} :
    (∃ active days folder, a = .observe active days folder ∧ clear =
      clearsWatermarks s.ensureGeneration active days (folder.or s.ensureGeneration.sentFolder)) ∨
    (a = .gap ∧ clear = true) →
    Bumps s clear s' → Effect s a s'
  | recomputes {d : Derivation} :
    a = .recomputeDerived d → Recomputes s d s' → Effect s a s'
  | loads {id : String} {p : Progress} {now : Instant} {days : Nat} {payload : String} :
    a = .loadOrStart id now days payload → Loads s id p s' → Effect s a s'
  | writes {id : String} {p : Progress} : Writes s id p s' → Effect s a s'
  | marks {id k : String} {p : Progress} {aliases aliases' : Nat} :
    a = .watermark id k aliases aliases' → s.pass id = .ok p → s.followed k →
    s' = { s with watermarks := s.watermarks.put ⟨k, s.syncedThrough p k⟩ } → Effect s a s'
  | completes {id : String} {p : Progress} {recordedAt : Instant} :
    a = .complete id recordedAt → s.pass id = .ok p → Completable s p → s' = { s with
      coverage := s.certify p recordedAt
      items    := s.items.delete (·.generation = p.generation)
      catchup  := s.catchup.delete (·.generation = p.generation)
      progress := none
    } → Effect s a s'

theorem step_effect (h : step s a = .ok s') : Effect s a s' := by
  cases a <;> simp only [step, Except.ok.injEq] at h
  case observe active days folder =>
    simp only [State.observe] at h
    split at h
    case isTrue =>
      cases pure_eq_ok.mp h
      exact .quiet ⟨rfl, rfl, rfl, rfl, rfl, rfl, rfl⟩
    case isFalse =>
      obtain ⟨_, _, h⟩ := bind_eq_ok.mp h
      cases pure_eq_ok.mp h
      exact .bumps (.inl ⟨active, days, folder, rfl, rfl⟩) ⟨rfl, rfl, rfl, rfl, rfl⟩
  case gap =>
    subst h
    exact .bumps (.inr ⟨rfl, rfl⟩) ⟨rfl, rfl, rfl, rfl, rfl⟩
  case recomputeDerived d => exact .recomputes rfl <| h ▸ recomputeDerived_recomputes s d
  case record =>
    subst h
    exact .quiet ⟨rfl, rfl, rfl, rfl, rfl, rfl, rfl⟩
  case loadOrStart =>
    obtain ⟨p, hl⟩ := loadOrStart_eq_ok h
    exact .loads rfl hl
  case save =>
    obtain ⟨p, row, hp, hr, hg, h⟩ := save_eq_ok h
    subst h
    refine .writes ⟨⟨rfl, rfl, rfl, rfl⟩, hp, ⟨row, _, hr, rfl, hg, hg⟩, rfl, ?_⟩
    exact ⟨p.saved _, rfl, rfl⟩
  case putItems =>
    simp only [State.putItems, bind_eq_ok, pure_eq_ok] at h
    obtain ⟨p, _, h⟩ := h
    subst h
    exact .quiet ⟨rfl, rfl, rfl, rfl, rfl, rfl, rfl⟩
  case finishItem =>
    simp only [State.finishItem, bind_eq_ok, pure_eq_ok] at h
    obtain ⟨p, _, h⟩ := h
    subst h
    exact .quiet ⟨rfl, rfl, rfl, rfl, rfl, rfl, rfl⟩
  case watermark =>
    obtain ⟨p, hp, rfl | ⟨hf, h⟩⟩ := watermark_eq_ok h
    case inl => exact .quiet ⟨rfl, rfl, rfl, rfl, rfl, rfl, rfl⟩
    case inr => exact .marks rfl hp hf h
  case nextInterval =>
    obtain ⟨p, row, q, hp, hr, hg, hq, h⟩ := nextInterval_eq_ok h
    subst h
    exact .writes ⟨⟨rfl, rfl, rfl, rfl⟩, hp, ⟨row, q, hr, rfl, hg, hq⟩, rfl, q, hq, rfl⟩
  case complete =>
    obtain ⟨p, hp, hc, h⟩ := complete_eq_ok h
    exact .completes rfl hp hc h

theorem Effect.counter_le (h : Effect s a s') : s.counter ≤ s'.counter := by
  cases h
  case quiet h         => exact h.counter.ge
  case bumps h         => exact h.counter ▸ Nat.le_succ _
  case recomputes h    => exact h.counter ▸ Nat.le_add_right _ _
  case loads h         => exact (counter_of_eq h.generation).ge
  case writes h        => exact (counter_of_eq h.generation).ge
  case marks h         => exact h ▸ le_refl _
  case completes h     => exact h ▸ le_refl _

theorem run_counter_le (s : State) (as : List Action) : s.counter ≤ (machine.run s as).counter := by
  refine Machine.invariant (m := machine) (I := fun s' => s.counter ≤ s'.counter) ?_ le_rfl as
  exact fun _ _ _ hle h => hle.trans (step_effect h).counter_le

-- Nothing that is stored or held belongs to a generation that has not begun.
structure Bounded (s : State) : Prop where
  progress : ∀ p, s.progress = some p → p.generation ≤ s.counter
  coverage : ∀ c, s.coverage = some c → c.generation ≤ s.counter
  passes   : ∀ id p, s.pass id = .ok p → p.generation ≤ s.counter

theorem Bounded.of_eq (h : Bounded s) (hle : s.counter ≤ s'.counter)
    (hc : s'.coverage = s.coverage) (hr : s'.progress = s.progress) (hp : s'.passes = s.passes) :
    Bounded s' where
  progress p h'  := (h.progress p (hr ▸ h')).trans hle
  coverage c h'  := (h.coverage c (hc ▸ h')).trans hle
  passes id p h' := by
    refine (h.passes id p ?_).trans hle
    simpa only [State.pass, hp] using h'

theorem pass_put {id' : String} {q : Progress} (hs : s'.passes = s.passes.put ⟨id, q⟩)
    (h : s'.pass id' = .ok p) : (id' = id ∧ p = q) ∨ (id' ≠ id ∧ s.pass id' = .ok p) := by
  simp only [pass_eq_ok, hs, Table.get_put] at h ⊢
  by_cases hk : id = id'
  case pos => simp_all [Keyed.key]
  case neg => simp_all [Keyed.key, eq_comm]

theorem certify_cases {c : Coverage} {recordedAt : Instant} (h : s.certify p recordedAt = some c) :
    c.generation = p.generation ∨ s.coverage = some c := by
  unfold certify at h
  split at h
  case h_1 => exact .inl <| Option.some.inj h ▸ rfl
  case h_2 hc =>
    split at h
    case isTrue  => exact .inl <| Option.some.inj h ▸ rfl
    case isFalse => exact .inr <| hc.trans h

theorem Effect.bounded (h : Effect s a s') (hb : Bounded s) : Bounded s' := by
  have hle := h.counter_le
  cases h
  case quiet h      => exact hb.of_eq hle h.coverage h.progress h.passes
  case bumps h      => exact hb.of_eq hle h.coverage h.progress h.passes
  case recomputes h => exact hb.of_eq hle h.coverage h.progress h.passes
  case marks h      => exact h ▸ hb.of_eq le_rfl rfl rfl rfl
  case loads p _ _ _ _ h =>
    have hp : p.generation ≤ s'.counter := h.counter.le.trans hle
    refine ⟨fun q hq => ?_, fun c hc => (hb.coverage c (h.coverage ▸ hc)).trans hle,
      fun id q hq => ?_⟩
    · cases h.progress.symm.trans hq
      exact hp
    · obtain ⟨_, rfl⟩ | ⟨_, hq⟩ := pass_put h.passes hq
      case inl => exact hp
      case inr => exact (hb.passes _ _ hq).trans hle
  case writes p h =>
    have hp : p.generation ≤ s'.counter := (hb.passes _ _ h.held).trans hle
    obtain ⟨_, row', _, hr', _, hg'⟩ := h.progress
    obtain ⟨q', hq', hpass⟩ := h.passes
    refine ⟨fun q hq => ?_, fun c hc => (hb.coverage c (h.coverage ▸ hc)).trans hle,
      fun id q hq => ?_⟩
    · cases hr'.symm.trans hq
      exact hg' ▸ hp
    · obtain ⟨_, rfl⟩ | ⟨_, hq⟩ := pass_put hpass hq
      case inl => exact hq' ▸ hp
      case inr => exact (hb.passes _ _ hq).trans hle
  case completes p _ _ hp _ h =>
    subst h
    refine ⟨by simp, fun c hc => ?_, hb.passes⟩
    obtain hg | hc := certify_cases hc
    case inl => exact hg ▸ hb.passes _ _ hp
    case inr => exact hb.coverage c hc

theorem Bounded.empty : Bounded ∅ where
  progress _ h := by cases h
  coverage _ h := by cases h
  passes _ _ h := by cases pass_eq_ok.mp h

theorem run_bounded (as : List Action) : Bounded (machine.run ∅ as) := by
  refine Machine.invariant (m := machine) ?_ Bounded.empty as
  exact fun _ _ _ hb h => (step_effect h).bounded hb

section Catchup

-- As long as generation `g` lasts, progress belongs to it.
structure Lasts (g : Nat) (s : State) : Prop where
  reached  : g ≤ s.counter
  progress : s.counter = g → ∀ row, s.progress = some row → row.generation = g

theorem Effect.lasts (h : Effect s a s') (hl : Lasts g s) : Lasts g s' := by
  have hle := h.counter_le
  refine ⟨hl.reached.trans hle, fun heq row hr => ?_⟩
  have hs : s.counter = g := by have := hl.reached; omega
  cases h
  case quiet h      => exact hl.progress hs row (h.progress ▸ hr)
  case bumps h      => exact hl.progress hs row (h.progress ▸ hr)
  case recomputes h => exact hl.progress hs row (h.progress ▸ hr)
  case marks h      => exact hl.progress hs row (by rw [h] at hr; exact hr)
  case completes h  => rw [h] at hr; cases hr
  case loads h =>
    cases h.progress.symm.trans hr
    exact h.counter.trans hs
  case writes h =>
    obtain ⟨row₀, row', hr₀, hr', hg₀, hg'⟩ := h.progress
    cases hr'.symm.trans hr
    exact (hg'.trans hg₀.symm).trans <| hl.progress hs row₀ hr₀

-- The thread has been synced through `τ`, or the progress of generation `g` is told to do so.
def Owed (g : Nat) (k : String) (τ : Instant) (s : State) : Prop :=
  s.counter = g →
    (∃ c, s.catchup.get (g, k) = some c ∧ τ ≤ c.target) ∨
    (∃ w, s.watermarks.get k = some w ∧ τ ≤ w.syncedThrough)

theorem Owed.complete (h : Owed g k τ s) (hl : Lasts g s) (hg : s.counter = g)
    (hc : Completable s p) (hf : s.followed k) :
    ∃ w, s.watermarks.get k = some w ∧ τ ≤ w.syncedThrough := by
  obtain ⟨row, hr, hp⟩ := hc.progress
  have hp : p.generation = g := hp.symm.trans <| hl.progress hg row hr
  obtain ⟨c, hk, hle⟩ | hw := h hg
  case inr => exact hw
  case inl =>
    obtain ⟨w, hw, hle'⟩ := hc.caughtUp k c (hp ▸ hk) hf
    exact ⟨w, hw, hle.trans hle'⟩

-- Nothing that happens while the thread is followed and the generation lasts takes the debt back.
theorem Effect.owed (h : Effect s a s') (hl : Lasts g s) (ho : Owed g k τ s)
    (hf : s.followed k) (hf' : s'.followed k) : Owed g k τ s' := by
  intro heq
  have hle := h.counter_le
  have hs : s.counter = g := by have := hl.reached; omega
  cases h
  case quiet h => rw [h.catchup, h.watermarks]; exact ho hs
  case bumps h => have := h.counter; omega
  case recomputes h =>
    obtain ⟨c, hc, hle⟩ | ⟨w, hw, hle⟩ := ho hs
    case inl =>
      obtain ⟨c', hc', hle'⟩ := h.catchup g k c hc hf'
      exact .inl ⟨c', hc', hle.trans hle'⟩
    case inr => exact .inr ⟨w, h.kept k w hw hf', hle⟩
  case loads h =>
    rw [h.watermarks]
    obtain hc | ⟨row, hr, hne⟩ := h.catchup
    case inl => rw [hc]; exact ho hs
    case inr => exact absurd ((hl.progress hs row hr).trans hs.symm) hne
  case writes h => rw [h.catchup, h.watermarks]; exact ho hs
  case marks k' p _ _ _ _ _ h =>
    subst h
    obtain hc | ⟨w, hw, hle⟩ := ho hs
    case inl => exact .inl hc
    case inr =>
      refine .inr ?_
      rw [Table.get_put]
      by_cases hk : k' = k
      case neg => exact ⟨w, (if_neg hk).trans hw, hle⟩
      case pos =>
        subst hk
        refine ⟨_, if_pos rfl, hle.trans ?_⟩
        simp [syncedThrough, hw]
  case completes hc h =>
    have hw := ho.complete hl hs hc hf
    subst h
    exact .inr hw

theorem run_owed (hl : Lasts g s) (ho : Owed g k τ s)
    (hp : machine.Always (fun s => s.followed k) s as) :
    Lasts g (machine.run s as) ∧ Owed g k τ (machine.run s as) := by
  let R (s s' : State) : Prop := Lasts g s ∧ Owed g k τ s → Lasts g s' ∧ Owed g k τ s'
  have hR : R s (machine.run s as) := by
    refine Machine.relation (I := fun _ => True) (C := fun _ _ => True) ?_ ?_ ?_ ?_ trivial
      Machine.guarded_true hp
    · exact fun _ h => h
    · exact fun _ _ _ h₁ h₂ h => h₂ (h₁ h)
    · exact fun _ _ _ _ _ _ => trivial
    · rintro s a s' _ _ hf hf' h ⟨hl, ho⟩
      exact ⟨(step_effect h).lasts hl, (step_effect h).owed hl ho hf hf'⟩
  exact hR ⟨hl, ho⟩

theorem run_lasts (hl : Lasts g s) (as : List Action) : Lasts g (machine.run s as) :=
  Machine.invariant (m := machine) (fun _ _ _ hl h => (step_effect h).lasts hl) hl as

end Catchup

section History

-- Pass `id` has loaded its progress in a step of the run, in generation `g`.
def Loaded (as : List Action) (id : String) (g : Nat) : Prop :=
  ∃ before now days payload after s',
    as = before ++ .loadOrStart id now days payload :: after ∧
    step (machine.run ∅ before) (.loadOrStart id now days payload) = .ok s' ∧ s'.counter = g

-- A pass of generation `g` has completed in a step of the run.
def Completed (as : List Action) (g : Nat) : Prop :=
  ∃ before id recordedAt after p s',
    as = before ++ .complete id recordedAt :: after ∧ Loaded before id g ∧
    (machine.run ∅ before).pass id = .ok p ∧ p.generation = g ∧
    step (machine.run ∅ before) (.complete id recordedAt) = .ok s'

theorem Loaded.append (h : Loaded as id g) (bs : List Action) : Loaded (as ++ bs) id g := by
  obtain ⟨before, now, days, payload, after, s', heq, h⟩ := h
  exact ⟨before, now, days, payload, after ++ bs, s', by simp [heq], h⟩

theorem Completed.append (h : Completed as g) (bs : List Action) : Completed (as ++ bs) g := by
  obtain ⟨before, id, recordedAt, after, p, s', heq, h⟩ := h
  exact ⟨before, id, recordedAt, after ++ bs, p, s', by simp [heq], h⟩

-- Every pass has loaded what it holds, and every certificate is from a pass that has completed.
structure Explained (as : List Action) (s : State) : Prop where
  passes   : ∀ id p, s.pass id = .ok p → Loaded as id p.generation
  coverage : ∀ c, s.coverage = some c → Completed as c.generation

theorem Explained.append (h : Explained as s) (bs : List Action) : Explained (as ++ bs) s where
  passes id p hp := (h.passes id p hp).append bs
  coverage c hc  := (h.coverage c hc).append bs

theorem Explained.of_eq (h : Explained as s) (hp : s'.passes = s.passes)
    (hc : s'.coverage = s.coverage) : Explained as s' where
  passes id p h'  := h.passes id p <| by simpa only [State.pass, hp] using h'
  coverage c h'   := h.coverage c (hc ▸ h')

theorem step_explained (he : Explained as (machine.run ∅ as))
    (h : step (machine.run ∅ as) a = .ok s') : Explained (as ++ [a]) s' := by
  have he' := he.append [a]
  cases step_effect h
  case quiet h      => exact he'.of_eq h.passes h.coverage
  case bumps h      => exact he'.of_eq h.passes h.coverage
  case recomputes h => exact he'.of_eq h.passes h.coverage
  case marks h      => exact h ▸ he'.of_eq rfl rfl
  case loads id p now days payload ha hl =>
    refine ⟨fun id' q hq => ?_, fun c hc => he'.coverage c (hl.coverage ▸ hc)⟩
    obtain ⟨rfl, rfl⟩ | ⟨_, hq⟩ := pass_put hl.passes hq
    case inr => exact he'.passes id' q hq
    case inl =>
      subst ha
      refine ⟨as, now, days, payload, [], s', rfl, h, ?_⟩
      exact (counter_of_eq hl.generation).trans hl.counter.symm
  case writes id p hw =>
    obtain ⟨q', hq', hpass⟩ := hw.passes
    refine ⟨fun id' q hq => ?_, fun c hc => he'.coverage c (hw.coverage ▸ hc)⟩
    obtain ⟨rfl, rfl⟩ | ⟨_, hq⟩ := pass_put hpass hq
    case inl => exact hq' ▸ he'.passes id' p hw.held
    case inr => exact he'.passes id' q hq
  case completes id p recordedAt ha hp _ heq =>
    refine ⟨fun id' q hq => he'.passes id' q (by rw [heq] at hq; exact hq), fun c hc => ?_⟩
    have hc : (machine.run ∅ as).certify p recordedAt = some c := by
      rw [heq] at hc
      exact hc
    obtain hg | hc := certify_cases hc
    case inr => exact he'.coverage c hc
    case inl =>
      subst ha
      exact ⟨as, id, recordedAt, [], p, s', rfl, hg ▸ he.passes id p hp, hp, hg.symm, h⟩

theorem run_explained (as : List Action) : Explained as (machine.run ∅ as) := by
  refine Machine.history (m := machine) (C := fun _ _ => True) ?_ ?_ ?_ Machine.guarded_true
  · constructor
    case passes   => intro _ _ h; cases pass_eq_ok.mp h
    case coverage => intro _ h; cases h
  · exact fun _ _ _ he _ h => step_explained he h
  · exact fun _ a he => he.append [a]

end History

-- The run with its parts before, during and after the pass `id` that has certified the coverage.
structure Certified (as before : List Action) (load : Action) (during : List Action) (id : String)
    (recordedAt : Instant) (after : List Action) : Prop where
  run       : as = before ++ load :: (during ++ .complete id recordedAt :: after)
  starts    : ∃ now days payload, load = .loadOrStart id now days payload
  loaded    : ∃ s', step (machine.run ∅ before) load = .ok s'
  completed : ∃ p s', (machine.run ∅ (before ++ load :: during)).pass id = .ok p ∧
    p.generation = (machine.run ∅ as).counter ∧
    step (machine.run ∅ (before ++ load :: during)) (.complete id recordedAt) = .ok s'
  -- The generation has not been bumped since the pass has loaded its progress.
  lasts     : (machine.run ∅ (before ++ [load])).counter = (machine.run ∅ as).counter

-- A thread gets followed in a derivation, and the progress at hand is told about it.
structure Transition (s : State) (d : Derivation) (q : Group) : Prop where
  group    : q ∈ d.groups
  followed : q.followed
  before   : s.followed q.threadKey = false
  progress : s.progress.isSome

-- At the end of the pass, a thread that got followed during it is synced through that moment,
-- provided that `stays` holds of the rest of the pass.
def CaughtUp (before : List Action) (load : Action) (during : List Action)
    (stays : State → List Action → String → Prop) : Prop :=
  ∀ bs d cs q, during = bs ++ .recomputeDerived d :: cs →
    Transition (machine.run ∅ (before ++ load :: bs)) d q →
    stays (machine.run ∅ (before ++ load :: bs ++ [.recomputeDerived d])) cs q.threadKey →
    ∃ w, (machine.run ∅ (before ++ load :: during)).watermarks.get q.threadKey = some w ∧
      q.now ≤ w.syncedThrough

theorem Completed.certified (h : Completed as (machine.run ∅ as).counter) :
    ∃ before load during id recordedAt after,
      Certified as before load during id recordedAt after := by
  obtain ⟨pre, id, recordedAt, after, p, s', heq, hl, hp, hg, hok⟩ := h
  obtain ⟨before, now, days, payload, during, s₁, hpre, hok₁, hc⟩ := hl
  have hpre' : pre = before ++ .loadOrStart id now days payload :: during := hpre
  refine ⟨before, .loadOrStart id now days payload, during, id, recordedAt, after, ?_⟩
  refine {
    run       := by simp [heq, hpre]
    starts    := ⟨now, days, payload, rfl⟩
    loaded    := ⟨s₁, hok₁⟩
    completed := ⟨p, s', hpre' ▸ hp, hg, hpre' ▸ hok⟩
    lasts     := ?_
  }
  rw [Machine.run_concat, Machine.next_of_ok hok₁, hc]

theorem Certified.caughtUp {before during after : List Action} {load : Action} {recordedAt : Instant}
    (h : Certified as before load during id recordedAt after) :
    CaughtUp before load during fun s cs k => machine.Always (fun s => s.followed k) s cs := by
  rintro bs d cs q rfl ht hs
  obtain ⟨now, days, payload, hload⟩ := h.starts
  obtain ⟨s₁, hok₁⟩ := h.loaded
  obtain ⟨p, s', hp, hg, hok⟩ := h.completed
  -- The generation is the same in all states from the load on.
  have hafter : machine.run ∅ (before ++ [load]) = s₁ := by
    rw [Machine.run_concat, Machine.next_of_ok hok₁]
  have hl₁ : Lasts (machine.run ∅ as).counter s₁ := by
    have hc := h.lasts
    rw [hafter] at hc
    subst hload
    refine ⟨hc.ge, fun _ row hr => ?_⟩
    obtain ⟨p₁, hld⟩ := loadOrStart_eq_ok hok₁
    cases hld.progress.symm.trans hr
    exact (hld.counter.trans (counter_of_eq hld.generation).symm).trans hc
  have hle : (machine.run ∅ (before ++ load :: (bs ++ .recomputeDerived d :: cs))).counter ≤
      (machine.run ∅ as).counter := by
    have := run_counter_le (machine.run ∅ (before ++ load :: (bs ++ .recomputeDerived d :: cs)))
      (.complete id recordedAt :: after)
    rwa [← Machine.run_append, List.append_assoc, List.cons_append, ← h.run] at this
  generalize (machine.run ∅ as).counter = g at hl₁ hle
  have hbs : machine.run ∅ (before ++ load :: bs) = machine.run s₁ bs := by
    rw [List.append_cons, Machine.run_append, hafter]
  have hcs : machine.run ∅ (before ++ load :: (bs ++ .recomputeDerived d :: cs)) =
      machine.run ((machine.run s₁ bs).recomputeDerived d) cs := by
    rw [List.append_cons, Machine.run_append, hafter, Machine.run_append]
    rfl
  have hds : machine.run ∅ (before ++ load :: bs ++ [.recomputeDerived d]) =
      (machine.run s₁ bs).recomputeDerived d := by
    rw [Machine.run_concat, hbs]
    rfl
  rw [hds] at hs
  rw [hbs] at ht
  rw [hcs] at hok hle ⊢
  have hl₂ := run_lasts hl₁ bs
  have hr := recomputeDerived_recomputes (machine.run s₁ bs) d
  have hl₃ := (Effect.recomputes rfl hr).lasts hl₂
  have ho : Owed g q.threadKey q.now ((machine.run s₁ bs).recomputeDerived d) := by
    intro hc
    have hcb : (machine.run s₁ bs).counter = g := by
      have := hl₂.reached
      have := hr.counter
      omega
    obtain ⟨row, hrow⟩ := Option.isSome_iff_exists.mp ht.progress
    have hrec := hr.recorded q ht.group ht.followed ht.before row hrow
    rw [hl₂.progress hcb row hrow] at hrec
    exact .inl hrec
  obtain ⟨hl₄, ho₄⟩ := run_owed hl₃ ho hs
  obtain ⟨_, _, hc, _⟩ := complete_eq_ok hok
  exact ho₄.complete hl₄ (Nat.le_antisymm hle hl₄.reached) hc hs.last

theorem coverageCurrent_eq_true {now : Instant} {days : Option Nat}
    (h : s.coverageCurrent now days = .ok true) :
    (∃ c, s.coverage = some c ∧ c.generation = s.counter) ∧ s.progress = none ∧
    (∀ k, s.followed k → (s.watermarks.get k).isSome) ∧
    ∃ days', s.pending (now - (days' : Nat) * day) now = [] ∧
      (days.or (s.generation.bind (·.retentionDays)) = some days') := by
  unfold coverageCurrent at h
  split at h
  case h_1 => simp at h
  case h_2 g hg =>
    split at h
    case isTrue => simp at h
    case isFalse hc =>
      split at h
      case isTrue => simp at h
      case isFalse hp =>
        split at h
        case isTrue => simp at h
        case isFalse hw =>
          simp only [bind_eq_ok, find_eq_ok, pure_eq_ok, decide_eq_true_eq] at h
          obtain ⟨days', hd, hb⟩ := h
          refine ⟨?_, by simpa using hp, fun k hf => ?_, days', hb, by simpa [hg] using hd⟩
          case refine_1 =>
            rw [counter_eq hg]
            simpa [Option.map_eq_some_iff] using hc
          case refine_2 =>
            simp only [followed, Option.any_eq_true] at hf
            obtain ⟨f, hf, hfol⟩ := hf
            have hk : f.threadKey = k := Table.key_of_get hf
            simp only [List.any_eq_true, Bool.and_eq_true, not_exists, not_and] at hw
            have := hw f (Table.mem_of_get hf) hfol
            simpa [hk, Option.isSome_iff_ne_none] using this

theorem pending_eq_nil {cutoff now : Instant} (h : s.pending cutoff now = []) {m : Message}
    (hm : m ∈ s.messages) (hf : m.threadKey.any s.followed) (ha : m.contentAvailable)
    (he : Message.expired cutoff now m = false) : m.hasBody ∨ m.bodyUnavailable := by
  simp only [pending, List.map_eq_nil_iff, List.filter_eq_nil_iff] at h
  have := h m hm
  simp only [hf, ha, he, Bool.true_and, Bool.and_eq_true, Bool.not_eq_true', Bool.not_false,
    and_true, not_and, Bool.not_eq_false] at this
  cases hb : m.hasBody
  case true  => exact .inl rfl
  case false => exact .inr (this hb)

-- What the coverage of a mailbox stands for after any run.
structure CoverageSound (as : List Action) : Prop where
  monotone : ∀ bs, (machine.run ∅ as).counter ≤ (machine.run ∅ (as ++ bs)).counter
  bounded  : ∀ c, (machine.run ∅ as).coverage = some c → c.generation ≤ (machine.run ∅ as).counter
  current  : ∀ now days, (machine.run ∅ as).coverageCurrent now days = .ok true →
    (∃ before load during id recordedAt after,
      Certified as before load during id recordedAt after ∧
      CaughtUp before load during fun s cs k => machine.Always (fun s => s.followed k) s cs) ∧
    (machine.run ∅ as).progress = none ∧
    (∀ k, (machine.run ∅ as).followed k → ((machine.run ∅ as).watermarks.get k).isSome) ∧
    ∃ days', days.or ((machine.run ∅ as).generation.bind (·.retentionDays)) = some days' ∧
      ∀ m ∈ (machine.run ∅ as).messages, m.threadKey.any (machine.run ∅ as).followed →
        m.contentAvailable → Message.expired (now - days' * day) now m = false →
        m.hasBody ∨ m.bodyUnavailable

theorem coverage_sound (as : List Action) : CoverageSound as where
  monotone bs := Machine.run_append ▸ run_counter_le _ bs
  bounded     := (run_bounded as).coverage
  current     := by
    intro now days h
    obtain ⟨⟨c, hc, hg⟩, hp, hw, days', hb, hd⟩ := coverageCurrent_eq_true h
    obtain ⟨before, load, during, id, recordedAt, after, hcert⟩ :=
      (hg ▸ (run_explained as).coverage c hc).certified
    refine ⟨⟨before, load, during, id, recordedAt, after, hcert, hcert.caughtUp⟩, hp, hw, ?_⟩
    exact ⟨days', hd, fun m hm hf ha he => pending_eq_nil hb hm hf ha he⟩

namespace Sample

def thread : String := "imap-thread:5b0f9a52-58d4-4a5c-9d0e-3f5f0f6f1a01"

-- The thread `thread` gets followed, or is no longer.
def derives (followed : Bool) (now : Instant) : Derivation where
  inputs   := 0
  full     := false
  messages := ∅
  changed  := [thread]
  groups   := [⟨thread, followed, now⟩]
  nodup    := by simp

def loads : Action :=
  .loadOrStart "pass" Instant.second 30 "\x7b\x7d"

-- A thread is followed for a while during the only pass.
def unfollowed : List Action := [
  .observe true 30 none,
  loads,
  .recomputeDerived (derives true (2 * Instant.second)),
  .recomputeDerived (derives false (3 * Instant.second)),
  .complete "pass" (4 * Instant.second)
]

end Sample

-- A thread that is not followed any more has lost its watermark.
open Sample in
theorem not_caughtUp_unfollowed :
    ¬∀ as now days, (machine.run ∅ as).coverageCurrent now days = .ok true →
      ∃ before load during id recordedAt after,
        Certified as before load during id recordedAt after ∧
        CaughtUp before load during fun _ _ _ => True := by
  intro h
  obtain ⟨before, load, during, id, recordedAt, after, hc, hup⟩ :=
    h unfollowed (5 * Instant.second) none (by decide +kernel)
  obtain ⟨now, days, payload, hload⟩ := hc.starts
  have hrun := hc.run
  subst hload
  -- There is one place only where the run can be cut.
  match before, during with
  | [], _ => simp [unfollowed] at hrun
  | x :: y :: before, _ =>
    have hm : Action.loadOrStart id now days payload ∈ unfollowed.drop 2 := by simp [hrun]
    simp [unfollowed] at hm
  | [x], [] => simp [unfollowed] at hrun
  | [x], [y] => simp [unfollowed] at hrun
  | [x], y :: z :: u :: during =>
    have hlen := congrArg List.length hrun
    simp [unfollowed] at hlen
  | [x], [y, z] =>
    simp only [unfollowed, List.cons_append, List.nil_append, List.cons.injEq] at hrun
    obtain ⟨rfl, hload, rfl, rfl, _⟩ := hrun
    rw [← hload] at hup
    have hw := hup [] (derives true (2 * Instant.second)) _ ⟨thread, true, 2 * Instant.second⟩ rfl
      ⟨by simp [derives], rfl, by decide +kernel, by decide +kernel⟩ trivial
    have hnone : (machine.run ∅ (unfollowed.take 4)).watermarks.get thread = none := by
      decide +kernel
    obtain ⟨w, hw, _⟩ := hw
    exact absurd (hw.symm.trans hnone) (by simp)

end Reconcile
