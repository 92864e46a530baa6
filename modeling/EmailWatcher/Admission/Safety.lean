import EmailWatcher.Admission.Steps

-- What holds of the desktop in every state of every run, and of every step.
namespace Admission

open Coordinator

variable {ι α : Type}

section Statement

-- The generation has not come to its maximum, and the supervisor is running.
def Desktop.Within (d : Desktop ι α) (_ : Act ι α) : Prop :=
  d.coordinator.inner.generation < u64Max ∧ d.supervising

instance (d : Desktop ι α) (a : Act ι α) : Decidable (d.Within a) :=
  inferInstanceAs <| Decidable (_ ∧ _)

variable [DecidableEq ι]

-- What holds of a state.
structure Desktop.Safe (d : Desktop ι α) : Prop where
  -- The active effects are the live permits.
  effects  : d.coordinator.inner.activeEffects = d.permits.length ∧ d.permits.Nodup
  -- One set of workers at most has been activated and not revoked.
  live     : ∀ n m, d.coordinator.Live n → d.coordinator.Live m → n = m
  -- `mutate()` runs alone.
  mutates  : ∀ i, d.Mutates i →
    d.permits = [] ∧ (∀ n, ¬d.coordinator.Live n) ∧ ∀ j, d.Mutates j → j = i
  -- Only a mutation that has not ended leaves the coordinator mutating, and it can go on until it ends,
  -- whatever its callbacks answer, unless it waits for a permit.
  mutating : d.coordinator.inner.state = .mutating → ∃ i, d.InMutation i
  proceeds : ∀ i call, d.calls i = some call → call.InMutation →
    (d.permits = [] ∨ ∀ failure generation, call ≠ .draining failure generation) →
    ∀ answer, ∃ d', desktop.step d (.advance i answer) = .ok d' ∧ d'.remaining i < d.remaining i
  emitted  : ∀ u ∈ d.emitted, ∀ v ∈ d.emitted, u.generation = v.generation → u.status = v.status

-- The coordinator is admitted, with workers that have not been activated before, or in need of repair.
def Coordinator.Renewed (c c' : Coordinator) : Prop :=
  (c'.inner.state = .admitted ∧ ∃ w, c'.inner.workers = some w ∧
    w.serial ∉ c.roster.activated ∧ c'.Live w.serial) ∨
  c'.inner.state = .manualRepairRequired

-- What holds of a step.
structure Desktop.SafeStep (d : Desktop ι α) (a : Act ι α) (d' : Desktop ι α) : Prop where
  generation : d.coordinator.inner.generation ≤ d'.coordinator.inner.generation
  granted    : ∀ p ∈ d'.permits, p ∉ d.permits →
    d.coordinator.inner.state = .admitted ∧ d.coordinator.inner.workers.isSome
  -- A report with another token than that of the current workers.
  reported   : ∀ i token error, a = .call i (.report token error) →
    d.coordinator.inner.workers.bind (·.token) ≠ some token →
    d' = { d with calls := Function.update d.calls i (some (.returning (.ok .done))) }
  -- Nobody else takes part in a mutation, and it does not end in the midst of it.
  others     : ∀ i, d.InMutation i → (∀ answer, a ≠ .advance i answer) → d'.calls i = d.calls i
  ends       : ∀ i, d.InMutation i → ¬d'.InMutation i → d.coordinator.Renewed d'.coordinator

end Statement

variable [DecidableEq ι] {c : Coordinator} {d d' : Desktop ι α} {i j : ι} {call : Call α} {a : Act ι α}

section Generations

theorem Coordinator.Settles.generation_le {c' : Coordinator} {done : Completion} (h : Settles c c' done) :
    c.inner.generation ≤ c'.inner.generation := by
  cases h
  case silent hc          => exact hc ▸ Nat.le_refl _
  case again hc _         => exact hc ▸ Nat.le_refl _
  case passes hp          => exact Nat.le_of_lt hp.generation
  case emits hp           => exact Nat.le_of_lt hp.generation
  case revokes x hp hw hu => exact Nat.le_of_lt hp.generation

theorem Desktop.Sound.enter_generation_le (h : d.Sound) (hg : d.coordinator.inner.generation < u64Max)
    (request : Request) :
    d.coordinator.inner.generation ≤ (d.enter i request).coordinator.inner.generation := by
  cases request
  case requireAdmitted =>
    obtain ⟨e, he⟩ | ⟨-, -, hok⟩ := requireAdmitted_cases d.coordinator
    · simp only [Desktop.enter, he]
      exact Nat.le_refl _
    · simp only [Desktop.enter, hok]
      exact Nat.le_refl _
  case refresh answers => exact (refreshWith_settles h.coordinator hg answers).generation_le
  case acknowledge revision outcome answers =>
    exact (acknowledgeWith_settles h.coordinator hg revision outcome answers).generation_le
  case initialization intent outcome inspect stage revalidate =>
    exact (initializeWith_settles h.coordinator hg intent outcome inspect stage revalidate).generation_le
  case mutation failure =>
    obtain ⟨e, he⟩ | ⟨-, -, hok⟩ := beginMutation_cases d.coordinator
    · simp only [Desktop.enter, he]
      exact Nat.le_refl _
    · simp only [Desktop.enter, hok]
      exact Nat.le_refl _
  case report token error => exact (reportError_settles h.coordinator hg token error).generation_le

end Generations

section Mutations

-- A mutation that does not wait for a permit goes on, until it ends as it should.
theorem Desktop.Sound.advance_mutation (h : d.Sound) (hg : d.coordinator.inner.generation < u64Max)
    (hi : d.calls i = some call) (hm : call.InMutation)
    (hgo : d.permits = [] ∨ ∀ failure generation, call ≠ .draining failure generation)
    (answer : Answer α) :
    ∃ c new, d.advance i answer call = .ok (d.put i c (some new)) ∧ new.remaining < call.remaining ∧
      d.coordinator.inner.generation ≤ c.inner.generation ∧
      (new.InMutation ∨ d.coordinator.Renewed c) := by
  have hcall := h.calls i call hi
  cases call
  case draining failure g =>
    obtain ⟨rfl, hstate, hw⟩ := hcall
    obtain ⟨w, hw⟩ := Option.isSome_iff_exists.mp hw
    have hp : d.permits = [] := hgo.resolve_right fun hn => hn failure _ rfl
    have he : d.coordinator.inner.activeEffects = 0 := by rw [h.effects, hp, List.length_nil]
    simp only [Desktop.advance, takeMutatingWorkers_eq hstate hw]
    rw [if_neg (not_not.mpr he)]
    exact ⟨_, _, rfl, by simp [Call.remaining], Nat.le_refl _, .inl trivial⟩
  case dropping failure g w =>
    exact ⟨_, _, rfl, by simp [Call.remaining], Nat.le_refl _, .inl trivial⟩
  case mutating failure g prior =>
    exact ⟨_, _, rfl, by simp [Call.remaining], Nat.le_refl _, .inl trivial⟩
  case restaging failure g prior outcome =>
    obtain ⟨e, hstage⟩ | ⟨token, hstage⟩ := stage_cases d.coordinator answer.restage <;>
      simp only [Desktop.advance, hstage]
    · exact ⟨_, _, rfl, by simp [Call.remaining], Nat.le_refl _, .inl trivial⟩
    · split
      · exact ⟨_, _, rfl, by simp [Call.remaining], Nat.le_refl _, .inl trivial⟩
      · exact ⟨_, _, rfl, by simp [Call.remaining], Nat.le_refl _, .inl trivial⟩
  case revalidating g outcome w =>
    cases hr : answer.revalidate <;> simp only [Desktop.advance, hr]
    · exact ⟨_, _, rfl, by simp [Call.remaining], Nat.le_refl _, .inl trivial⟩
    · exact ⟨_, _, rfl, by simp [Call.remaining], Nat.le_refl _, .inl trivial⟩
  case activating g outcome w =>
    obtain ⟨ha, he, hf⟩ := hcall
    simp only [Desktop.advance, activateMutationWorkers_eq ha hg]
    refine ⟨_, _, rfl, by simp [Call.remaining], Nat.le_succ _, .inr (.inl ⟨rfl, w, rfl, hf.right.left, ?_⟩)⟩
    exact ⟨List.mem_cons_self, hf.right.right⟩
  case failing g e =>
    obtain ⟨ha, he⟩ := hcall
    simp only [Desktop.advance, failConfigMutation_eq ha hg]
    exact ⟨_, _, rfl, by simp [Call.remaining], Nat.le_succ _, .inr (.inr rfl)⟩
  case handing   => exact hm.elim
  case emitting  => exact hm.elim
  case returning => exact hm.elim

theorem Desktop.Sound.draining_waits (h : d.Sound) {failure : MutationFailure} {g : Nat}
    (hp : d.permits ≠ []) (answer : Answer α) :
    d.advance i answer (.draining failure g) = .error () := by
  have he : d.coordinator.inner.activeEffects ≠ 0 := by
    rw [h.effects]
    exact fun hn => hp (List.length_eq_zero_iff.mp hn)
  simp only [Desktop.advance]
  rw [if_pos he]

-- What a step of a mutation comes to, if it is taken.
theorem Desktop.Sound.advanced_mutation (h : d.Sound) (hg : d.coordinator.inner.generation < u64Max)
    (hi : d.calls i = some call) (hm : call.InMutation) {answer : Answer α}
    (hstep : d.advance i answer call = .ok d') :
    ∃ c new, d' = d.put i c (some new) ∧ d.coordinator.inner.generation ≤ c.inner.generation ∧
      (new.InMutation ∨ d.coordinator.Renewed c) := by
  have hgo : d.permits = [] ∨ ∀ failure generation, call ≠ .draining failure generation := by
    by_contra hn
    obtain ⟨hp, hn⟩ := not_or.mp hn
    obtain ⟨failure, hn⟩ := not_forall.mp hn
    obtain ⟨g, hn⟩ := not_forall.mp hn
    cases not_not.mp hn
    rw [h.draining_waits hp answer] at hstep
    cases hstep
  obtain ⟨c, new, hadvance, -, hgen, hends⟩ := h.advance_mutation hg hi hm hgo answer
  rw [hadvance] at hstep
  cases hstep
  exact ⟨c, new, rfl, hgen, hends⟩

-- A call that is not in a mutation leaves the coordinator alone, as long as the supervisor is running.
theorem Desktop.advanced_tail (hs : d.supervising) (hm : ¬call.InMutation) {answer : Answer α}
    (hstep : d.advance i answer call = .ok d') :
    d'.coordinator = d.coordinator ∧ d'.permits = d.permits ∧ ∀ j, j ≠ i → d'.calls j = d.calls j := by
  cases call
  case handing x reply =>
    simp only [Desktop.advance, hs, if_true] at hstep
    cases hstep
    exact ⟨rfl, rfl, fun j hj => Function.update_of_ne hj _ _⟩
  case emitting u reply =>
    cases hstep
    exact ⟨rfl, rfl, fun j hj => Function.update_of_ne hj _ _⟩
  case returning reply =>
    cases hstep
    exact ⟨rfl, rfl, fun j hj => Function.update_of_ne hj _ _⟩
  all_goals exact absurd trivial hm

end Mutations

section Steps

theorem Desktop.enter_calls_of_ne (request : Request) (hj : j ≠ i) :
    (d.enter i request).calls j = d.calls j := by
  cases request <;> simp only [Desktop.enter]
  case requireAdmitted => split <;> exact Function.update_of_ne hj _ _
  case mutation        => split <;> exact Function.update_of_ne hj _ _
  all_goals exact Function.update_of_ne hj _ _

theorem Desktop.Sound.granted (h : d.Sound) (hw : d.Within a) (hstep : desktop.step d a = .ok d') {p : Nat}
    (hp : p ∈ d'.permits) (hn : p ∉ d.permits) :
    d.coordinator.inner.state = .admitted ∧ d.coordinator.inner.workers.isSome := by
  cases a
  case call i request =>
    cases hi : d.calls i <;> simp only [desktop, hi] at hstep <;> cases hstep
    cases request
    case requireAdmitted =>
      obtain ⟨e, he⟩ | ⟨hs, hsome, -⟩ := requireAdmitted_cases d.coordinator
      · simp only [Desktop.enter, he] at hp
        exact absurd hp hn
      · exact ⟨hs, hsome⟩
    case mutation failure =>
      obtain ⟨e, he⟩ | ⟨hs, hsome, -⟩ := beginMutation_cases d.coordinator
      · simp only [Desktop.enter, he] at hp
        exact absurd hp hn
      · exact ⟨hs, hsome⟩
    all_goals exact absurd hp hn
  case advance i answer =>
    cases hi : d.calls i <;> simp only [desktop, hi] at hstep
    case none      => cases hstep
    case some call =>
      by_cases hm : call.InMutation
      · obtain ⟨c, new, rfl, -⟩ := h.advanced_mutation hw.left hi hm hstep
        exact absurd hp hn
      · rw [(advanced_tail hw.right hm hstep).right.left] at hp
        exact absurd hp hn
  case dropPermit permit =>
    simp only [desktop] at hstep
    split at hstep <;> cases hstep
    exact absurd (List.mem_of_mem_erase hp) hn
  case supervise =>
    simp only [desktop, Desktop.supervise] at hstep
    split at hstep <;> cases hstep <;> exact absurd hp hn
  case stop =>
    cases hstep
    exact absurd hp hn

theorem Desktop.Sound.generation_le (h : d.Sound) (hw : d.Within a) (hstep : desktop.step d a = .ok d') :
    d.coordinator.inner.generation ≤ d'.coordinator.inner.generation := by
  cases a
  case call i request =>
    cases hi : d.calls i <;> simp only [desktop, hi] at hstep <;> cases hstep
    exact h.enter_generation_le hw.left request
  case advance i answer =>
    cases hi : d.calls i <;> simp only [desktop, hi] at hstep
    case none      => cases hstep
    case some call =>
      by_cases hm : call.InMutation
      · obtain ⟨c, new, rfl, hgen, -⟩ := h.advanced_mutation hw.left hi hm hstep
        exact hgen
      · rw [(advanced_tail hw.right hm hstep).left]
  case dropPermit permit =>
    simp only [desktop] at hstep
    split at hstep <;> cases hstep
    exact Nat.le_refl _
  case supervise =>
    simp only [desktop, Desktop.supervise] at hstep
    split at hstep <;> cases hstep <;> exact Nat.le_refl _
  case stop =>
    cases hstep
    exact Nat.le_refl _

theorem Desktop.Sound.others (h : d.Sound) (hw : d.Within a) (hstep : desktop.step d a = .ok d')
    (hi : d.InMutation i) (ha : ∀ answer, a ≠ .advance i answer) : d'.calls i = d.calls i := by
  cases a
  case call j request =>
    cases hj : d.calls j <;> simp only [desktop, hj] at hstep <;> cases hstep
    refine enter_calls_of_ne request fun hij => ?_
    subst hij
    exact Sound.not_inMutation_of_idle hj hi
  case advance j answer =>
    have hij : i ≠ j := by
      rintro rfl
      exact ha answer rfl
    cases hj : d.calls j <;> simp only [desktop, hj] at hstep
    case none      => cases hstep
    case some call =>
      by_cases hm : call.InMutation
      · exact absurd (h.unique i j hi ⟨call, hj, hm⟩) hij
      · exact (advanced_tail hw.right hm hstep).right.right i hij
  case dropPermit permit =>
    simp only [desktop] at hstep
    split at hstep <;> cases hstep
    rfl
  case supervise =>
    simp only [desktop, Desktop.supervise] at hstep
    split at hstep <;> cases hstep <;> rfl
  case stop =>
    cases hstep
    rfl

theorem Desktop.Sound.ends (h : d.Sound) (hw : d.Within a) (hstep : desktop.step d a = .ok d')
    (hi : d.InMutation i) (hn : ¬d'.InMutation i) : d.coordinator.Renewed d'.coordinator := by
  by_cases ha : ∃ answer, a = .advance i answer
  · obtain ⟨answer, rfl⟩ := ha
    obtain ⟨call, hcall, hm⟩ := hi
    simp only [desktop, hcall] at hstep
    obtain ⟨c, new, rfl, -, hends⟩ := h.advanced_mutation hw.left hcall hm hstep
    exact hends.resolve_left fun hnew => hn (inMutation_put_self.mpr ⟨new, rfl, hnew⟩)
  · obtain ⟨call, hcall, hm⟩ := hi
    have hothers := h.others hw hstep ⟨call, hcall, hm⟩ fun answer he => ha ⟨answer, he⟩
    exact absurd ⟨call, hothers.trans hcall, hm⟩ hn

theorem Desktop.Sound.reported (token : AdmissionToken) (error : EngineError)
    (ht : d.coordinator.inner.workers.bind (·.token) ≠ some token)
    (hstep : desktop.step d (.call i (.report token error)) = .ok d') :
    d' = { d with calls := Function.update d.calls i (some (.returning (.ok .done))) } := by
  have hcurrent : d.coordinator.tokenIsCurrent token = false := by simp [tokenIsCurrent, ht]
  have hreport : d.coordinator.reportError token error = (d.coordinator, none) := by
    simp [reportError, hcurrent]
  cases hi : d.calls i <;> simp only [desktop, hi] at hstep <;> cases hstep
  simp only [Desktop.enter, hreport]
  rfl

theorem Desktop.Sound.safeStep (h : d.Sound) (hw : d.Within a) (hstep : desktop.step d a = .ok d') :
    d.SafeStep a d' where
  generation := h.generation_le hw hstep
  granted _ hp hn := h.granted hw hstep hp hn
  reported i token error ha ht := by
    subst ha
    exact reported token error ht hstep
  others _ hi ha := h.others hw hstep hi ha
  ends _ hi hn := h.ends hw hstep hi hn

theorem Desktop.Sound.safe (h : d.Sound) (hg : d.coordinator.inner.generation < u64Max) : d.Safe where
  effects  := ⟨h.effects, h.permits.left⟩
  live _ _ := h.coordinator.live_unique
  mutates i hi := by
    obtain ⟨call, hcall, hm⟩ := hi
    have hinmut (j : ι) (hj : d.Mutates j) : d.InMutation j := by
      obtain ⟨x, hx, hm⟩ := hj
      refine ⟨x, hx, ?_⟩
      cases x <;> trivial
    refine ⟨?_, ?_, fun j hj => h.unique j i (hinmut j hj) (hinmut i ⟨call, hcall, hm⟩)⟩
    all_goals
      cases call <;> try exact hm.elim
      obtain ⟨ha, he⟩ := h.calls i _ hcall
    · exact List.length_eq_zero_iff.mp (h.effects.symm.trans he)
    · exact fun n => h.coordinator.not_live ha.right.right
  mutating := h.mutating
  proceeds i call hcall hm hgo answer := by
    obtain ⟨c, new, hadvance, hlt, -⟩ := h.advance_mutation hg hcall hm hgo answer
    refine ⟨_, by simpa only [desktop, hcall] using hadvance, ?_⟩
    simpa [Desktop.remaining, hcall] using hlt
  emitted u hu v hv hgen := congrArg _ (h.told.agree u v (.inl hu) (.inl hv) hgen)

end Steps

theorem Desktop.sound_run {as : List (Act ι α)}
    (h : (desktop : Machine (Desktop ι α) (Act ι α) Unit).Guarded Desktop.Within .initial as) :
    (desktop.run .initial as : Desktop ι α).Sound :=
  Machine.guarded_invariant (fun _ _ _ h hw hstep => h.step hw.left hw.right hstep) .initial h

-- In every run in which the generation does not come to its maximum, every state is safe, and so is every
-- step from it.
theorem admission_safe {as : List (Act ι α)} {a : Act ι α}
    (h : (desktop : Machine (Desktop ι α) (Act ι α) Unit).Guarded Desktop.Within .initial (as ++ [a])) :
    (desktop.run .initial as : Desktop ι α).Safe ∧
    ∀ d', desktop.step (desktop.run .initial as) a = .ok d' →
      (desktop.run .initial as : Desktop ι α).SafeStep a d' := by
  obtain ⟨has, ha, -⟩ := Machine.Guarded.append.mp h
  have hs := Desktop.sound_run has
  exact ⟨hs.safe ha.left, fun d' => hs.safeStep ha⟩

namespace Sample

def token : AdmissionToken where
  version  := 1
  revision := "r"
  identity := "i"

-- The configuration is admitted, a thread takes a permit and gives it back, and another mutates the
-- configuration thereafter.
def acts : List (Act Bool Nat) :=
  let answer : Answer Nat := ⟨.ok 3, .ok (some token), .ok ()⟩
  [.call true (.refresh ⟨.ok .normalAdmission, .ok (some token), .ok ()⟩), .advance true answer,
    .advance true answer, .call false .requireAdmitted, .advance false answer,
    .call true (.mutation .configUnchanged), .advance true answer, .dropPermit 0, .advance true answer,
    .advance true answer]

end Sample

theorem admission_safe_sample :
    (desktop.run .initial Sample.acts : Desktop Bool Nat).Safe ∧
    ∀ d', desktop.step (desktop.run .initial Sample.acts)
        (.call false (.report Sample.token (.host "conflict" ""))) = .ok d' →
      (desktop.run .initial Sample.acts : Desktop Bool Nat).SafeStep
        (.call false (.report Sample.token (.host "conflict" ""))) d' :=
  admission_safe (by decide)

end Admission
