import EmailWatcher.Admission.Desktop

-- What the sections under the lock do to a coordinator that is in order.
namespace Admission

namespace Coordinator

variable {c c' : Coordinator} {w : AdmissionWorkers} {n : Nat}

-- A set of workers that has been staged, and neither activated nor revoked.
def Fresh (c : Coordinator) (n : Nat) : Prop :=
  n < c.roster.staged ∧ n ∉ c.roster.activated ∧ n ∉ c.roster.revoked

structure Sound (c : Coordinator) : Prop where
  admitted  : c.inner.state = .admitted → c.inner.workers.isSome
  installed : c.inner.workers.isSome → c.inner.state = .admitted ∨ c.inner.state = .mutating
  live      : ∀ n, c.Live n → ∃ w, c.inner.workers = some w ∧ w.serial = n
  activated : ∀ n ∈ c.roster.activated, n < c.roster.staged
  revoked   : ∀ n ∈ c.roster.revoked, n < c.roster.staged
  serial    : ∀ w, c.inner.workers = some w → w.serial < c.roster.staged

namespace Sound

theorem initial : initial.Sound where
  admitted  := by simp [Coordinator.initial]
  installed := by simp [Coordinator.initial]
  live      := by simp [Coordinator.initial, Live]
  activated := by simp [Coordinator.initial]
  revoked   := by simp [Coordinator.initial]
  serial    := by simp [Coordinator.initial]

theorem workers_none (h : c.Sound) (ha : c.inner.state ≠ .admitted) (hm : c.inner.state ≠ .mutating) :
    c.inner.workers = none := by
  rw [← Option.not_isSome_iff_eq_none]
  intro hw
  obtain h | h := h.installed hw
  · exact ha h
  · exact hm h

-- Without workers, no set is live.
theorem not_live (h : c.Sound) (hw : c.inner.workers = none) : ¬c.Live n := by
  intro hn
  obtain ⟨w, hw', -⟩ := h.live n hn
  simp [hw] at hw'

theorem live_unique (h : c.Sound) {m : Nat} (hn : c.Live n) (hm : c.Live m) : n = m := by
  obtain ⟨w, hw, rfl⟩ := h.live n hn
  obtain ⟨v, hv, rfl⟩ := h.live m hm
  cases hw.symm.trans hv
  rfl

-- The state and the number of effects can be exchanged where there are workers before and after, or none.
theorem with_state (h : c.Sound) {s : AdmissionState} {g e : Nat}
    (hs : c.inner.workers.isSome ↔ s = .admitted ∨ s = .mutating ∧ c.inner.workers.isSome) :
    ({ c with inner.state := s, inner.generation := g, inner.activeEffects := e } : Coordinator).Sound where
  admitted ha := hs.mpr (.inl ha)
  installed hw := (hs.mp hw).imp id And.left
  live      := h.live
  activated := h.activated
  revoked   := h.revoked
  serial    := h.serial

theorem beginRevocation (h : c.Sound) (hw : w.serial < c.roster.staged) : (c.beginRevocation w).Sound where
  admitted  := h.admitted
  installed := h.installed
  live n hn := h.live n ⟨hn.left, fun hr => hn.right (List.mem_cons_of_mem _ hr)⟩
  activated := h.activated
  revoked n hn := by
    obtain rfl | hn := List.mem_cons.mp hn
    · exact hw
    · exact h.revoked n hn
  serial    := h.serial

-- The workers are revoked and taken away.
theorem revoke (h : c.Sound) (hw : c.inner.workers = some w) {s : AdmissionState} (g : Nat)
    (hs : s ≠ .admitted) :
    ({ c.beginRevocation w with
      inner.state := s, inner.workers := none, inner.generation := g } : Coordinator).Sound where
  admitted ha := absurd ha hs
  installed := nofun
  live n hn := by
    obtain ⟨v, hv, rfl⟩ := h.live n ⟨hn.left, fun hr => hn.right (List.mem_cons_of_mem _ hr)⟩
    cases hw.symm.trans hv
    exact absurd List.mem_cons_self hn.right
  activated := h.activated
  revoked n hn := by
    obtain rfl | hn := List.mem_cons.mp hn
    · exact h.serial w hw
    · exact h.revoked n hn
  serial    := nofun

-- Where there are no workers, no other state than the admitted asks for them.
theorem without (h : c.Sound) (hw : c.inner.workers = none) {s : AdmissionState} (g e : Nat)
    (hs : s ≠ .admitted) :
    ({ c with inner := { state := s, workers := none, generation := g, activeEffects := e } } :
      Coordinator).Sound where
  admitted ha := absurd ha hs
  installed := nofun
  live _ hn := absurd hn (h.not_live hw)
  activated := h.activated
  revoked   := h.revoked
  serial    := nofun

-- Fresh workers are installed and activated.
theorem install (h : c.Sound) (hw : c.inner.workers = none) (hf : c.Fresh w.serial) (g : Nat) :
    (({ c with inner.state := .admitted, inner.workers := some w, inner.generation := g } :
      Coordinator).activate w).Sound where
  admitted _ := rfl
  installed _ := .inl rfl
  live n hn := by
    obtain ⟨ha, hr⟩ := hn
    obtain rfl | ha := List.mem_cons.mp ha
    · exact ⟨w, rfl, rfl⟩
    · exact absurd ⟨ha, hr⟩ (h.not_live hw)
  activated n hn := by
    obtain rfl | hn := List.mem_cons.mp hn
    · exact hf.left
    · exact h.activated n hn
  revoked   := h.revoked
  serial _ hv := by
    cases hv
    exact hf.left

theorem staged (h : c.Sound) :
    ({ c with roster.staged := c.roster.staged + 1 } : Coordinator).Sound where
  admitted  := h.admitted
  installed := h.installed
  live      := h.live
  activated n hn := Nat.lt_succ_of_lt (h.activated n hn)
  revoked n hn := Nat.lt_succ_of_lt (h.revoked n hn)
  serial w hw := Nat.lt_succ_of_lt (h.serial w hw)

-- What is staged next is fresh.
theorem fresh_staged (h : c.Sound) :
    ({ c with roster.staged := c.roster.staged + 1 } : Coordinator).Fresh c.roster.staged :=
  ⟨Nat.lt_succ_self _, fun hn => Nat.lt_irrefl _ (h.activated _ hn),
    fun hn => Nat.lt_irrefl _ (h.revoked _ hn)⟩

end Sound

section Stage

theorem stage_cases (c : Coordinator) (r : Except EngineError (Option AdmissionToken)) :
    (∃ e, c.stage r = (c, .error e)) ∨
    ∃ token, c.stage r =
      ({ c with roster.staged := c.roster.staged + 1 }, .ok ⟨c.roster.staged, token⟩) := by
  cases r
  case error e  => exact .inl ⟨e, rfl⟩
  case ok token => exact .inr ⟨token, rfl⟩

-- What comes of an attempt: workers only if it is to be admitted, and then fresh ones.
structure Attempted (c c' : Coordinator) (attempt : AdmissionAttempt) : Prop where
  sound   : c'.Sound
  inner   : c'.inner = c.inner
  revoked : c'.roster.revoked = c.roster.revoked
  state   : attempt.state ≠ .mutating
  workers : ∀ w, attempt.workers = some w → attempt.state = .admitted ∧ c'.Fresh w.serial

theorem Attempted.of_none (h : c.Sound) {s : AdmissionState} (hs : s ≠ .mutating) :
    Attempted c c ⟨s, none⟩ where
  sound   := h
  inner   := rfl
  revoked := rfl
  state   := hs
  workers := nofun

theorem Attempted.of_staged (h : c.Sound) (token : Option AdmissionToken) :
    Attempted c { c with roster.staged := c.roster.staged + 1 }
      ⟨.admitted, some ⟨c.roster.staged, token⟩⟩ where
  sound   := h.staged
  inner   := rfl
  revoked := rfl
  state   := by simp
  workers := by
    rintro w hw
    cases hw
    exact ⟨rfl, h.fresh_staged⟩

theorem runAdmissionAttempt_attempted (h : c.Sound) (inspect : Except EngineError NtfyDisclosureStatus)
    (stage : Except EngineError (Option AdmissionToken)) :
    Attempted c (c.runAdmissionAttempt inspect stage).fst (c.runAdmissionAttempt inspect stage).snd := by
  rcases inspect with e | (_ | _ | revision | _)
  case ok.normalAdmission =>
    obtain ⟨e, hs⟩ | ⟨token, hs⟩ := stage_cases c stage <;> simp only [runAdmissionAttempt, hs]
    · exact .of_none h (by simp)
    · exact .of_staged h token
  all_goals exact .of_none h (by simp)

theorem runInitializationAdmissionAttempt_attempted (h : c.Sound)
    (inspect : Except EngineError NtfyDisclosureStatus)
    (stage : InitializationAdmissionExpectation → Except EngineError (Option AdmissionToken))
    (expectation : InitializationAdmissionExpectation) :
    Attempted c (c.runInitializationAdmissionAttempt inspect stage expectation).fst
      (c.runInitializationAdmissionAttempt inspect stage expectation).snd.fst := by
  rcases inspect with e | (_ | _ | revision | _)
  case ok.normalAdmission =>
    obtain ⟨e, hs⟩ | ⟨token, hs⟩ := stage_cases c (stage expectation) <;>
      simp only [runInitializationAdmissionAttempt, hs]
    · exact .of_none h (by simp)
    · exact .of_staged h token
  all_goals exact .of_none h (by simp)

end Stage

-- It goes on to the next generation, without a mutation before or after.
structure Passes (c c' : Coordinator) : Prop where
  sound      : c'.Sound
  effects    : c'.inner.activeEffects = c.inner.activeEffects
  before     : c.inner.state ≠ .mutating
  after      : c'.inner.state ≠ .mutating
  generation : c.inner.generation < c'.inner.generation
  revoked    : c.roster.revoked ⊆ c'.roster.revoked

-- What a section that is not part of a mutation does: it leaves the coordinator as it is, and at most says
-- again that it is admitted, or it goes on to the next generation.
inductive Settles (c c' : Coordinator) : Completion → Prop
  | silent (h : c' = c) : Settles c c' .silent
  | again  (h : c' = c) (ha : c.inner.state = .admitted) :
    Settles c c' (.emit ⟨c.inner.generation, .admitted⟩)
  | passes (h : c.Passes c') : Settles c c' .silent
  | emits  (h : c.Passes c') : Settles c c' (.emit ⟨c'.inner.generation, c'.inner.state.publicStatus⟩)
  | revokes (x : AdmissionCleanup) (h : c.Passes c') (hw : x.workers.serial ∈ c'.roster.revoked)
    (hu : x.update = ⟨c'.inner.generation, c'.inner.state.publicStatus⟩) : Settles c c' (.cleanup x)

theorem nextGeneration_eq (h : c.inner.generation < u64Max) :
    c.nextGeneration = .ok { c with inner.generation := c.inner.generation + 1 } := by
  rw [nextGeneration, if_pos h]

theorem takeForRevocation_settles (h : c.Sound) (ha : c.inner.state = .admitted)
    (hg : c.inner.generation < u64Max) :
    ∃ x, c.takeForRevocation.snd = some x ∧ Settles c c.takeForRevocation.fst (.cleanup x) := by
  obtain ⟨w, hw⟩ := Option.isSome_iff_exists.mp (h.admitted ha)
  have hmin : min (c.inner.generation + 1) u64Max = c.inner.generation + 1 := by omega
  simp only [takeForRevocation, hw, hmin]
  refine ⟨_, rfl, .revokes _ ?_ List.mem_cons_self rfl⟩
  exact {
    sound      := h.revoke hw _ nofun
    effects    := rfl
    before     := by simp [ha]
    after      := nofun
    generation := Nat.lt_succ_self _
    revoked    := List.subset_cons_self _ _
  }

theorem reportError_settles (h : c.Sound) (hg : c.inner.generation < u64Max) (token : AdmissionToken)
    (error : EngineError) :
    Settles c (c.reportError token error).fst
      ((c.reportError token error).snd.elim .silent .cleanup) := by
  simp only [reportError]
  split
  · exact .silent rfl
  · split
    case isTrue hcurrent =>
      simp only [tokenIsCurrent, Bool.decide_and, Bool.and_eq_true, decide_eq_true_eq] at hcurrent
      obtain ⟨x, hx, hs⟩ := takeForRevocation_settles h hcurrent.left hg
      rw [hx]
      exact hs
    case isFalse => exact .silent rfl

section Attempts

variable {attempt : AdmissionAttempt}

-- What is installed: the attempt, unless it is to be admitted and is not valid.
theorem installAttempt_cases (h : c.Sound) (hnone : c.inner.workers = none)
    (hs : attempt.state ≠ .mutating)
    (hw : ∀ w, attempt.workers = some w → attempt.state = .admitted ∧ c.Fresh w.serial)
    (revalidate : Except EngineError Unit) :
    (c.installAttempt attempt revalidate).fst.Sound ∧
    (c.installAttempt attempt revalidate).fst.inner.generation = c.inner.generation ∧
    (c.installAttempt attempt revalidate).fst.inner.activeEffects = c.inner.activeEffects ∧
    (c.installAttempt attempt revalidate).fst.inner.state ≠ .mutating ∧
    c.roster.revoked ⊆ (c.installAttempt attempt revalidate).fst.roster.revoked := by
  obtain ⟨state, workers⟩ := attempt
  cases workers
  case none =>
    by_cases ha : state = .admitted
    · simp only [installAttempt, ha, true_and, true_or, if_true, dropWorkers, hnone, Option.elim]
      exact ⟨h.without hnone _ _ nofun, nofun, fun _ hn => hn⟩
    · simp only [installAttempt, ha, false_and, if_false, dropWorkers, hnone, Option.elim]
      exact ⟨h.without hnone _ _ ha, trivial, trivial, hs, fun _ hn => hn⟩
  case some w =>
    obtain ⟨ha, hf⟩ := hw w rfl
    cases ha
    by_cases hr : revalidate = .ok ()
    · simp only [installAttempt, hr, not_true_eq_false, ne_eq, reduceCtorEq, or_self, and_false, if_false,
        dropWorkers, hnone, Option.elim]
      exact ⟨h.install hnone hf _, rfl, rfl, nofun, fun _ hn => hn⟩
    · simp only [installAttempt, hr, not_false_eq_true, ne_eq, or_true, and_self, if_true, dropWorkers,
        Option.elim, beginRevocation, hnone]
      exact ⟨(h.beginRevocation hf.left).without hnone _ _ nofun, trivial, trivial, nofun,
        List.subset_cons_self _ _⟩

-- What is installed in the next generation is emitted with it.
theorem installAttempt_passes {s : AdmissionState} (hnone : c.inner.workers = none)
    (hm : c.inner.state ≠ .mutating)
    (h : Attempted { c with inner.state := s, inner.generation := c.inner.generation + 1 } c' attempt)
    (revalidate : Except EngineError Unit) :
    Settles c (c'.installAttempt attempt revalidate).fst
      (.emit (c'.installAttempt attempt revalidate).snd) := by
  have hnone' : c'.inner.workers = none := by rw [h.inner, hnone]
  obtain ⟨hsound, hgen, heff, hstate, hrevoked⟩ :=
    installAttempt_cases h.sound hnone' h.state h.workers revalidate
  refine .emits {
    sound      := hsound
    effects    := by rw [heff, h.inner]
    before     := hm
    after      := hstate
    generation := ?_
    revoked    := ?_
  }
  · rw [hgen, h.inner]
    exact Nat.lt_succ_self _
  · rw [h.revoked] at hrevoked
    exact hrevoked

theorem refreshOr_settles (h : c.Sound) (hg : c.inner.generation < u64Max)
    (revalidate : Except EngineError Unit) {run : Coordinator → Coordinator × AdmissionAttempt}
    (hrun : ∀ c : Coordinator, c.Sound → Attempted c (run c).fst (run c).snd) :
    Settles c (c.refreshOr revalidate run).fst (c.refreshOr revalidate run).snd.snd := by
  by_cases hm : c.inner.state = .mutating
  · simp only [refreshOr, hm, if_true]
    exact .silent rfl
  · by_cases ha : c.inner.state = .admitted
    · have hw := h.admitted ha
      by_cases hr : revalidate = .ok ()
      · simp only [refreshOr, ha, reduceCtorEq, if_false, hw, and_self, if_true, hr]
        exact .again rfl ha
      · obtain ⟨x, hx, hs⟩ := takeForRevocation_settles h ha hg
        simp only [refreshOr, ha, reduceCtorEq, if_false, hw, and_self, if_true, hr]
        rw [hx]
        exact hs
    · have hnone := h.workers_none ha hm
      simp only [refreshOr, hm, if_false, ha, false_and, nextGeneration_eq hg]
      exact installAttempt_passes hnone hm (hrun _ (h.with_state (by simp [hnone]))) revalidate

theorem refreshWith_settles (h : c.Sound) (hg : c.inner.generation < u64Max) (answers : Answers) :
    Settles c (c.refreshWith answers).fst (c.refreshWith answers).snd.snd :=
  refreshOr_settles h hg _ fun _ h => runAdmissionAttempt_attempted h _ _

theorem acknowledgeWith_settles (h : c.Sound) (hg : c.inner.generation < u64Max)
    (expectedRevision : String) (acknowledge : Except EngineError Unit) (answers : Answers) :
    Settles c (c.acknowledgeWith expectedRevision acknowledge answers).fst
      (c.acknowledgeWith expectedRevision acknowledge answers).snd.snd := by
  refine refreshOr_settles h hg _ fun c' h => ?_
  split <;> exact runAdmissionAttempt_attempted h _ _

theorem initializeWith_settles (h : c.Sound) (hg : c.inner.generation < u64Max)
    (intent : ConfigInitializationIntent) (outcome : Except EngineError ConfigInitialization)
    (inspect : Except EngineError NtfyDisclosureStatus)
    (stage : InitializationAdmissionExpectation → Except EngineError (Option AdmissionToken))
    (revalidate : Except EngineError Unit) :
    Settles c (c.initializeWith intent outcome inspect stage revalidate).fst
      (c.initializeWith intent outcome inspect stage revalidate).snd.snd := by
  by_cases hs : c.inner.state ≠ .missing ∨ c.inner.workers.isSome
  · simp only [initializeWith, hs, if_true]
    exact .silent rfl
  · have hmissing : c.inner.state = .missing := not_not.mp fun hn => hs (.inl hn)
    have hm : c.inner.state ≠ .mutating := by simp [hmissing]
    have hnone := h.workers_none (by simp [hmissing]) hm
    simp only [initializeWith, hs, if_false, nextGeneration_eq hg]
    cases initializationExpectation intent outcome
    case error e =>
      exact .passes {
        sound      := h.with_state (by simp [hmissing, hnone])
        effects    := rfl
        before     := hm
        after      := hm
        generation := Nat.lt_succ_self _
        revoked    := fun _ hn => hn
      }
    case ok expectation =>
      exact installAttempt_passes hnone hm
        (runInitializationAdmissionAttempt_attempted (h.with_state (by simp [hnone])) inspect stage _)
        revalidate

end Attempts

section Mutations

theorem beginMutation_cases (c : Coordinator) :
    (∃ e, c.beginMutation = (c, .error e)) ∨
    c.inner.state = .admitted ∧ c.inner.workers.isSome ∧
    c.beginMutation = ({ c with inner.state := .mutating }, .ok c.inner.generation) := by
  by_cases h : c.inner.state ≠ .admitted ∨ c.inner.workers = none
  · exact .inl ⟨.notAdmitted, by rw [beginMutation, if_pos h]⟩
  · have hs : c.inner.state = .admitted := not_not.mp fun hn => h (.inl hn)
    have hw : c.inner.workers.isSome := Option.isSome_iff_ne_none.mpr fun hn => h (.inr hn)
    exact .inr ⟨hs, hw, by rw [beginMutation, if_neg h]⟩

theorem takeMutatingWorkers_eq (hs : c.inner.state = .mutating) (hw : c.inner.workers = some w) :
    c.takeMutatingWorkers c.inner.generation =
      (({ c with inner.workers := none } : Coordinator).beginRevocation w, .ok w) := by
  simp [takeMutatingWorkers, hw, hs]

theorem failConfigMutation_eq {g : Nat} (h : c.Awaits g) (hg : c.inner.generation < u64Max) :
    c.failConfigMutation g =
      ({ c with inner.state := .manualRepairRequired, inner.generation := c.inner.generation + 1 },
        .ok ⟨c.inner.generation + 1, .manualRepairRequired⟩) := by
  simp [failConfigMutation, h, nextGeneration_eq hg]

theorem activateMutationWorkers_eq {g : Nat} (h : c.Awaits g) (hg : c.inner.generation < u64Max) :
    c.activateMutationWorkers g w =
      (({ c with inner.state := .admitted, inner.workers := some w,
                 inner.generation := c.inner.generation + 1 } : Coordinator).activate w,
        .ok ⟨c.inner.generation + 1, .admitted⟩) := by
  simp [activateMutationWorkers, h, nextGeneration_eq hg]

theorem requireAdmitted_cases (c : Coordinator) :
    (∃ e, c.requireAdmitted = (c, .error e)) ∨
    c.inner.state = .admitted ∧ c.inner.workers.isSome ∧
    c.requireAdmitted = ({ c with inner.activeEffects := c.inner.activeEffects + 1 }, .ok ()) := by
  simp only [requireAdmitted]
  split
  case isTrue h =>
    split
    · exact .inr ⟨h.right, h.left, rfl⟩
    · exact .inl ⟨_, rfl⟩
  case isFalse => exact .inl ⟨_, rfl⟩

end Mutations

end Coordinator

end Admission
