import EmailWatcher.Reconcile.Coverage

namespace Reconcile

open Transaction State

-- A write to `thread_watermarks`, with the pass that made it.
structure Write where
  threadKey  : String
  generation : Nat
  startedAt  : Instant
  deriving DecidableEq, Repr

-- What an observer notes down: the generation that the last clearing of watermarks has set, the
-- passes that have loaded their progress since, and all writes of watermarks.
structure Log where
  clearedAt : Nat
  loaded    : List String
  writes    : List Write
  deriving DecidableEq, Repr

instance : EmptyCollection Log where
  emptyCollection := ⟨0, [], []⟩

-- The write that an action makes.
def written (s : State) : Action → Option Write
  | .watermark id k aliases aliases' =>
    if s.followed k && aliases = aliases' then
      (s.passes.get id).map fun pass => ⟨k, pass.progress.generation, pass.progress.startedAt⟩
    else
      none
  | _ => none

-- The actions that begin a generation without watermarks.
def clears (s : State) : Action → Bool
  | .gap => true
  | .observe active days folder =>
    clearsWatermarks s.ensureGeneration active days (folder.or s.ensureGeneration.sentFolder)
  | _ => false

def Log.update (log : Log) (s : State) (a : Action) (s' : State) : Log where
  clearedAt := if clears s a then s'.counter else log.clearedAt
  loaded    := if clears s a then [] else
    match a with
    | .loadOrStart id _ _ _ => id :: log.loaded
    | _                     => log.loaded
  writes    := (written s a).toList ++ log.writes

def observed : Machine (State × Log) Action StoreError :=
  machine.monitor Log.update

-- A pass marks a thread only if it has loaded its progress after the last clearing.
def loadedSinceCleared (x : State × Log) : Action → Bool
  | .watermark id k aliases aliases' =>
    (written x.fst (.watermark id k aliases aliases')).isNone || id ∈ x.snd.loaded
  | _ => true

variable {s s' : State} {a : Action} {log : Log} {id k : String} {p : Progress}

structure LogValid (s : State) (log : Log) : Prop where
  cleared : log.clearedAt ≤ s.counter
  loaded  : ∀ id ∈ log.loaded, ∀ p, s.pass id = .ok p → log.clearedAt ≤ p.generation
  rows    : ∀ k w, s.watermarks.get k = some w →
    ∃ x ∈ log.writes, x.threadKey = k ∧ x.startedAt = w.syncedThrough ∧ log.clearedAt ≤ x.generation

theorem clears_of_unchanged {active : Bool} {days : Nat} {folder : Option String}
    (h : s.ensureGeneration.entitlementActive = some active ∧
      s.ensureGeneration.retentionDays = some days ∧
      s.ensureGeneration.sentFolder = folder.or s.ensureGeneration.sentFolder) :
    clears s (.observe active days folder) = false := by
  obtain ⟨ha, hd, hf⟩ := h
  simp only [clears, clearsWatermarks, ha, hd, ← hf]
  cases active <;> simp

-- An action that neither clears nor loads nor marks.
theorem LogValid.keep (hv : LogValid s log) (hle : s.counter ≤ s'.counter)
    (hp : ∀ id p', s'.pass id = .ok p' → ∃ p, s.pass id = .ok p ∧ p'.generation = p.generation)
    (hw : ∀ k w, s'.watermarks.get k = some w → s.watermarks.get k = some w) : LogValid s' log where
  cleared := hv.cleared.trans hle
  loaded id hm p' h := by
    obtain ⟨p, hp, hg⟩ := hp id p' h
    exact hg ▸ hv.loaded id hm p hp
  rows k w h := hv.rows k w (hw k w h)

theorem LogValid.quiet (hv : LogValid s log) (h : Quiet s s') : LogValid s' log := by
  refine hv.keep h.counter.ge (fun id p hp => ⟨p, ?_, rfl⟩) fun k w hw => h.watermarks ▸ hw
  simpa only [State.pass, h.passes] using hp

theorem LogValid.clear (hw : s'.watermarks = ∅) (writes : List Write) :
    LogValid s' ⟨s'.counter, [], writes⟩ where
  cleared := le_rfl
  loaded  := by simp
  rows    := by simp [hw]

theorem LogValid.write {p : Progress} (hv : LogValid s log) (hw : Writes s id p s') :
    LogValid s' log := by
  refine hv.keep (counter_of_eq hw.generation).ge ?_ fun k w h => hw.watermarks ▸ h
  intro id' p' hp'
  obtain ⟨q, hq, hpass⟩ := hw.passes
  obtain ⟨rfl, rfl⟩ | ⟨_, hp'⟩ := pass_put hpass hp'
  case inl => exact ⟨p, hw.held, hq⟩
  case inr => exact ⟨p', hp', rfl⟩

theorem LogValid.load {now : Instant} {days : Nat} {payload : String} (hv : LogValid s log)
    (hl : Loads s id p s') :
    LogValid s' (log.update s (.loadOrStart id now days payload) s') where
  cleared := hv.cleared.trans (counter_of_eq hl.generation).ge
  loaded  := by
    intro id' hm p' hp'
    obtain ⟨rfl, rfl⟩ | ⟨hne, hp'⟩ := pass_put hl.passes hp'
    case inl => exact hv.cleared.trans hl.counter.ge
    case inr =>
      obtain rfl | hm := List.mem_cons.mp hm
      case inl => exact absurd rfl hne
      case inr => exact hv.loaded id' hm p' hp'
  rows    := by
    rw [hl.watermarks]
    exact hv.rows

-- The row is the one that the pass has written, or the one that was there before.
theorem LogValid.mark (hv : LogValid s log) (hl : log.clearedAt ≤ p.generation) :
    LogValid { s with watermarks := s.watermarks.put ⟨k, s.syncedThrough p k⟩ }
      { log with writes := ⟨k, p.generation, p.startedAt⟩ :: log.writes } where
  cleared := hv.cleared
  loaded  := hv.loaded
  rows    := by
    intro k' w hw
    have hold (k' : String) (w : Watermark) (hw : s.watermarks.get k' = some w) :
        ∃ x ∈ ⟨k, p.generation, p.startedAt⟩ :: log.writes, x.threadKey = k' ∧
          x.startedAt = w.syncedThrough ∧ log.clearedAt ≤ x.generation := by
      obtain ⟨x, hx, h⟩ := hv.rows k' w hw
      exact ⟨x, List.mem_cons_of_mem _ hx, h⟩
    rw [Table.get_put] at hw
    by_cases hk : k = k'
    case neg => exact hold k' w <| (if_neg hk).symm.trans hw
    case pos =>
      subst hk
      cases Option.some.inj <| (if_pos rfl).symm.trans hw
      have hnew (h : s.syncedThrough p k = p.startedAt) :
          ∃ x ∈ ⟨k, p.generation, p.startedAt⟩ :: log.writes, x.threadKey = k ∧
            x.startedAt = s.syncedThrough p k ∧ log.clearedAt ≤ x.generation :=
        ⟨⟨k, p.generation, p.startedAt⟩, List.mem_cons_self, rfl, h.symm, hl⟩
      cases hw₀ : s.watermarks.get k
      case none => exact hnew (by simp [syncedThrough, hw₀])
      case some w₀ =>
        have hmax : s.syncedThrough p k = max w₀.syncedThrough p.startedAt := by
          simp [syncedThrough, hw₀]
        obtain hle | hle := le_total w₀.syncedThrough p.startedAt
        case inl => exact hnew (hmax.trans (max_eq_right hle))
        case inr =>
          have h := hold k w₀ hw₀
          rwa [← max_eq_left hle, ← hmax] at h

theorem LogValid.step (hv : LogValid s log) (hg : loadedSinceCleared (s, log) a)
    (h : step s a = .ok s') : LogValid s' (log.update s a s') := by
  cases a <;> simp only [Reconcile.step, Except.ok.injEq] at h
  case gap =>
    subst h
    exact .clear rfl _
  case observe active days folder =>
    simp only [State.observe] at h
    split at h
    case isTrue hn =>
      cases pure_eq_ok.mp h
      simp only [Log.update, clears_of_unchanged hn]
      exact hv.quiet ⟨rfl, rfl, rfl, rfl, rfl, rfl, rfl⟩
    case isFalse =>
      obtain ⟨_, _, h⟩ := bind_eq_ok.mp h
      cases pure_eq_ok.mp h
      cases hc : clears s (.observe active days folder) <;> simp only [Log.update, hc]
      case true =>
        refine .clear ?_ _
        simp only [clears] at hc
        simp [bumpCoverageGeneration, hc]
      case false =>
        refine hv.keep (Nat.le_succ _) (fun _ p hp => ⟨p, hp, rfl⟩) fun k w hw => ?_
        simp only [clears] at hc
        simpa [bumpCoverageGeneration, hc] using hw
  case recomputeDerived d =>
    subst h
    have hr := recomputeDerived_recomputes s d
    refine hv.keep (Effect.recomputes rfl hr).counter_le (fun id p hp => ⟨p, ?_, rfl⟩) hr.old
    simpa only [State.pass, hr.passes] using hp
  case record =>
    subst h
    exact hv.quiet ⟨rfl, rfl, rfl, rfl, rfl, rfl, rfl⟩
  case loadOrStart =>
    obtain ⟨p, hl⟩ := loadOrStart_eq_ok h
    exact hv.load hl
  case save =>
    obtain ⟨p, row, hp, hr, hg, h⟩ := save_eq_ok h
    subst h
    refine hv.write ⟨⟨rfl, rfl, rfl, rfl⟩, hp, ⟨row, _, hr, rfl, hg, hg⟩, rfl, ?_⟩
    exact ⟨p.saved _, rfl, rfl⟩
  case putItems =>
    simp only [State.putItems, bind_eq_ok, pure_eq_ok] at h
    obtain ⟨p, _, h⟩ := h
    subst h
    exact hv.quiet ⟨rfl, rfl, rfl, rfl, rfl, rfl, rfl⟩
  case finishItem =>
    simp only [State.finishItem, bind_eq_ok, pure_eq_ok] at h
    obtain ⟨p, _, h⟩ := h
    subst h
    exact hv.quiet ⟨rfl, rfl, rfl, rfl, rfl, rfl, rfl⟩
  case nextInterval =>
    obtain ⟨p, row, q, hp, hr, hg, hq, h⟩ := nextInterval_eq_ok h
    subst h
    exact hv.write ⟨⟨rfl, rfl, rfl, rfl⟩, hp, ⟨row, q, hr, rfl, hg, hq⟩, rfl, q, hq, rfl⟩
  case complete =>
    obtain ⟨p, hp, hc, h⟩ := complete_eq_ok h
    subst h
    exact hv.keep le_rfl (fun _ p hp => ⟨p, hp, rfl⟩) fun _ _ hw => hw
  case watermark id k aliases aliases' =>
    simp only [State.watermark, bind_eq_ok] at h
    obtain ⟨p, hp, h⟩ := h
    have hget := pass_eq_ok.mp hp
    split at h
    case isFalse hf =>
      cases pure_eq_ok.mp h
      simp only [Log.update, clears, written, hf]
      exact hv
    case isTrue hf =>
      cases pure_eq_ok.mp h
      have hw : written s (.watermark id k aliases aliases') =
          some ⟨k, p.generation, p.startedAt⟩ := by
        obtain ⟨q, hq, hqp⟩ := Option.map_eq_some_iff.mp hget
        simp [written, hf, hq, hqp]
      have hm : id ∈ log.loaded := by
        simpa [loadedSinceCleared, hw] using hg
      simp only [Log.update, hw]
      exact hv.mark <| hv.loaded id hm p hp

theorem LogValid.empty : LogValid ∅ ∅ where
  cleared := le_rfl
  loaded  := by
    intro _ h
    cases h
  rows    := by
    intro _ _ h
    cases h

-- Every watermark is the start of a pass that belongs to a generation since the last clearing.
theorem watermarks_not_resurrected (as : List Action)
    (h : observed.Guarded (fun x a => loadedSinceCleared x a) (∅, ∅) as) :
    ∀ k w, (machine.run ∅ as).watermarks.get k = some w →
      ∃ x ∈ (observed.run (∅, ∅) as).snd.writes, x.threadKey = k ∧ x.startedAt = w.syncedThrough ∧
        (observed.run (∅, ∅) as).snd.clearedAt ≤ x.generation := by
  have hv : LogValid (observed.run (∅, ∅) as).fst (observed.run (∅, ∅) as).snd := by
    refine Machine.guarded_invariant (m := observed) (I := fun x => LogValid x.fst x.snd) ?_
      LogValid.empty h
    intro x a y hv hg hok
    obtain ⟨s', hs, hy⟩ := map_eq_ok.mp hok
    exact hy ▸ hv.step hg hs
  have hs : (observed.run (∅, ∅) as).fst = machine.run ∅ as := Machine.fst_run_monitor (∅, ∅) as
  rw [← hs]
  exact hv.rows

namespace Sample

def marks : Action :=
  .watermark "pass" thread 0 0

-- The pass that syncs a followed thread.
def synced : List Action := [
  .observe true 30 none,
  .recomputeDerived (derives true 0),
  loads,
  marks
]

-- The same, with a gap before the pass is through.
def gapped : List Action := [
  .observe true 30 none,
  .recomputeDerived (derives true 0),
  loads,
  .gap,
  marks
]

end Sample

open Sample in
theorem watermarks_not_resurrected_synced :
    observed.Guarded (fun x a => loadedSinceCleared x a) (∅, ∅) synced ∧
    ∃ x ∈ (observed.run (∅, ∅) synced).snd.writes, x.threadKey = thread ∧
      x.startedAt = Instant.second ∧ (observed.run (∅, ∅) synced).snd.clearedAt ≤ x.generation :=
  have h : observed.Guarded (fun x a => loadedSinceCleared x a) (∅, ∅) synced := by decide +kernel
  ⟨h, watermarks_not_resurrected synced h thread ⟨thread, Instant.second⟩ (by decide +kernel)⟩

open Sample in
theorem watermarks_resurrected_gapped :
    ¬∀ as k w, (machine.run ∅ as).watermarks.get k = some w →
      ∃ x ∈ (observed.run (∅, ∅) as).snd.writes, x.threadKey = k ∧ x.startedAt = w.syncedThrough ∧
        (observed.run (∅, ∅) as).snd.clearedAt ≤ x.generation := by
  intro h
  obtain ⟨x, hx, _, _, hle⟩ := h gapped thread ⟨thread, Instant.second⟩ (by decide +kernel)
  have hw : (observed.run (∅, ∅) gapped).snd.writes = [⟨thread, 1, Instant.second⟩] := by
    decide +kernel
  have hc : (observed.run (∅, ∅) gapped).snd.clearedAt = 2 := by decide +kernel
  rw [hw, List.mem_singleton] at hx
  rw [hc, hx] at hle
  simp at hle

end Reconcile
