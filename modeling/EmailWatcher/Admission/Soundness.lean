import EmailWatcher.Admission.Sections

-- The invariant of the desktop, and that every step keeps it.
namespace Admission

open Coordinator

variable {ι α : Type} {c c' : Coordinator} {d : Desktop ι α} {i j : ι} {call : Call α}

section Updates

-- What is told of each generation: nothing is told of those to come, one thing of each of the others, and
-- of the present one that it is admitted, as long as it is.
structure Told (c : Coordinator) (P : ConfigAdmissionUpdate → Prop) : Prop where
  bounded : ∀ u, P u → u.generation ≤ c.inner.generation
  agree   : ∀ u v, P u → P v → u.generation = v.generation → u = v
  current : ∀ u, P u → u.generation = c.inner.generation →
    c.inner.state = .admitted ∨ c.inner.state = .mutating → u.status = .admitted

variable {P Q : ConfigAdmissionUpdate → Prop}

namespace Told

theorem mono (h : Told c P) (hq : ∀ u, Q u → P u) : Told c Q where
  bounded u hu := h.bounded u (hq u hu)
  agree u v hu hv := h.agree u v (hq u hu) (hq v hv)
  current u hu := h.current u (hq u hu)

-- The generation goes on, and nothing is told of it as yet.
theorem pass (h : Told c P) (hg : c.inner.generation < c'.inner.generation) : Told c' P where
  bounded u hu := Nat.le_of_lt (Nat.lt_of_le_of_lt (h.bounded u hu) hg)
  agree     := h.agree
  current u hu hgen := by
    have := h.bounded u hu
    omega

theorem same (h : Told c P) (hg : c'.inner.generation = c.inner.generation)
    (hs : c'.inner.state = .admitted ∨ c'.inner.state = .mutating →
      c.inner.state = .admitted ∨ c.inner.state = .mutating) : Told c' P where
  bounded u hu := hg ▸ h.bounded u hu
  agree     := h.agree
  current u hu hgen hs' := h.current u hu (hgen.trans hg) (hs hs')

-- That the present generation is admitted is told once more.
theorem again (h : Told c P) (hs : c.inner.state = .admitted)
    (hq : ∀ u, Q u → P u ∨ u = ⟨c.inner.generation, .admitted⟩) : Told c Q where
  bounded u hu := by
    obtain hu | rfl := hq u hu
    · exact h.bounded u hu
    · exact Nat.le_refl _
  agree u v hu hv hgen := by
    have hcurrent (w : ConfigAdmissionUpdate) (hw : P w) (hgen : w.generation = c.inner.generation) :
        w = ⟨c.inner.generation, .admitted⟩ := by
      have := h.current w hw hgen (.inl hs)
      obtain ⟨generation, status⟩ := w
      cases hgen
      cases this
      rfl
    obtain hu | rfl := hq u hu <;> obtain hv | rfl := hq v hv
    · exact h.agree u v hu hv hgen
    · exact hcurrent u hu hgen
    · exact (hcurrent v hv hgen.symm).symm
    · rfl
  current u hu hgen hs := by
    obtain hu | rfl := hq u hu
    · exact h.current u hu hgen hs
    · rfl

-- The next generation is told of.
theorem next (h : Told c P) (hg : c.inner.generation < c'.inner.generation)
    (hm : c'.inner.state ≠ .mutating)
    (hq : ∀ u, Q u → P u ∨ u = ⟨c'.inner.generation, c'.inner.state.publicStatus⟩) : Told c' Q where
  bounded u hu := by
    obtain hu | rfl := hq u hu
    · exact Nat.le_of_lt (Nat.lt_of_le_of_lt (h.bounded u hu) hg)
    · exact Nat.le_refl _
  agree u v hu hv hgen := by
    obtain hu | rfl := hq u hu <;> obtain hv | rfl := hq v hv
    · exact h.agree u v hu hv hgen
    · have := h.bounded u hu
      simp only at hgen
      omega
    · have := h.bounded v hv
      simp only at hgen
      omega
    · rfl
  current u hu hgen hs := by
    obtain hu | rfl := hq u hu
    · have := h.bounded u hu
      omega
    · obtain hs | hs := hs
      · simp [hs, AdmissionState.publicStatus]
      · exact absurd hs hm

theorem settle {done : Completion} (h : Told c P) (hs : Settles c c' done)
    (hq : ∀ u, Q u → P u ∨ (done.call (α := α) (.ok .done)).update = some u) : Told c' Q := by
  cases hs
  case silent hc =>
    subst hc
    exact h.mono fun u hu => (hq u hu).resolve_right nofun
  case again hc ha =>
    subst hc
    exact h.again ha fun u hu => (hq u hu).imp_right fun hu => (Option.some.inj hu).symm
  case passes hp => exact (h.pass hp.generation).mono fun u hu => (hq u hu).resolve_right nofun
  case emits hp =>
    exact h.next hp.generation hp.after fun u hu =>
      (hq u hu).imp_right fun hu => (Option.some.inj hu).symm
  case revokes x hp hw hu =>
    exact h.next hp.generation hp.after fun u hq' =>
      (hq u hq').imp_right fun hu' => (Option.some.inj hu').symm.trans hu

end Told

end Updates

-- What a call rests on where it stands.
def Call.Sound (c : Coordinator) : Call α → Prop
  | .draining _ g          =>
    c.inner.generation = g ∧ c.inner.state = .mutating ∧ c.inner.workers.isSome
  | .dropping _ g w        => c.Awaits g ∧ c.inner.activeEffects = 0 ∧ w.serial ∈ c.roster.revoked
  | .mutating _ g _        => c.Awaits g ∧ c.inner.activeEffects = 0
  | .restaging _ g _ _     => c.Awaits g ∧ c.inner.activeEffects = 0
  | .revalidating g _ w    => c.Awaits g ∧ c.inner.activeEffects = 0 ∧ c.Fresh w.serial
  | .activating g _ w      => c.Awaits g ∧ c.inner.activeEffects = 0 ∧ c.Fresh w.serial
  | .failing g _           => c.Awaits g ∧ c.inner.activeEffects = 0
  | .handing x _           => x.workers.serial ∈ c.roster.revoked
  | .emitting _ _          => True
  | .returning _           => True

-- What a step of another thread leaves of a mutation.
structure Undisturbed (c c' : Coordinator) : Prop where
  state      : c'.inner.state = c.inner.state
  workers    : c'.inner.workers = c.inner.workers
  generation : c'.inner.generation = c.inner.generation
  effects    : c'.inner.activeEffects ≤ c.inner.activeEffects
  fresh      : ∀ n, c.Fresh n → c'.Fresh n

namespace Call.Sound

theorem state (h : call.Sound c) (hm : call.InMutation) : c.inner.state = .mutating := by
  cases call
  case draining     => exact h.right.left
  case dropping     => exact h.left.right.left
  case mutating     => exact h.left.right.left
  case restaging    => exact h.left.right.left
  case revalidating => exact h.left.right.left
  case activating   => exact h.left.right.left
  case failing      => exact h.left.right.left
  case handing      => exact hm.elim
  case emitting     => exact hm.elim
  case returning    => exact hm.elim

theorem undisturbed (h : call.Sound c) (hr : c.roster.revoked ⊆ c'.roster.revoked)
    (hm : call.InMutation → Undisturbed c c') : call.Sound c' := by
  have hawaits {g : Nat} (hu : Undisturbed c c') (ha : c.Awaits g) : c'.Awaits g :=
    ⟨hu.generation.trans ha.left, hu.state.trans ha.right.left, hu.workers.trans ha.right.right⟩
  have heffects (hu : Undisturbed c c') (he : c.inner.activeEffects = 0) : c'.inner.activeEffects = 0 :=
    Nat.le_zero.mp (he ▸ hu.effects)
  cases call
  case draining =>
    have hu := hm trivial
    exact ⟨hu.generation.trans h.left, hu.state.trans h.right.left, hu.workers ▸ h.right.right⟩
  case dropping =>
    have hu := hm trivial
    exact ⟨hawaits hu h.left, heffects hu h.right.left, hr h.right.right⟩
  case mutating =>
    have hu := hm trivial
    exact ⟨hawaits hu h.left, heffects hu h.right⟩
  case restaging =>
    have hu := hm trivial
    exact ⟨hawaits hu h.left, heffects hu h.right⟩
  case revalidating =>
    have hu := hm trivial
    exact ⟨hawaits hu h.left, heffects hu h.right.left, hu.fresh _ h.right.right⟩
  case activating =>
    have hu := hm trivial
    exact ⟨hawaits hu h.left, heffects hu h.right.left, hu.fresh _ h.right.right⟩
  case failing =>
    have hu := hm trivial
    exact ⟨hawaits hu h.left, heffects hu h.right⟩
  case handing   => exact hr h
  case emitting  => trivial
  case returning => trivial

end Call.Sound

namespace Desktop

structure Sound (d : Desktop ι α) : Prop where
  coordinator : d.coordinator.Sound
  effects     : d.coordinator.inner.activeEffects = d.permits.length
  permits     : d.permits.Nodup ∧ ∀ p ∈ d.permits, p < d.granted
  unique      : ∀ i j, d.InMutation i → d.InMutation j → i = j
  mutating    : d.coordinator.inner.state = .mutating → ∃ i, d.InMutation i
  calls       : ∀ i call, d.calls i = some call → call.Sound d.coordinator
  cleanups    : ∀ x ∈ d.cleanups, x.workers.serial ∈ d.coordinator.roster.revoked
  told        : Told d.coordinator d.Issued

variable [DecidableEq ι]

section Put

variable {new : Option (Call α)} {u : ConfigAdmissionUpdate}

theorem put_calls_of_ne (h : j ≠ i) : (d.put i c new).calls j = d.calls j := by
  simp [put, h]

@[simp]
theorem put_calls_self : (d.put i c new).calls i = new := by
  simp [put]

theorem inMutation_put_of_ne (h : j ≠ i) : (d.put i c new).InMutation j ↔ d.InMutation j := by
  simp only [InMutation, put_calls_of_ne h]

theorem inMutation_put_self : (d.put i c new).InMutation i ↔ ∃ x, new = some x ∧ x.InMutation := by
  simp only [InMutation, put_calls_self]

theorem issued_put (h : (d.put i c new).Issued u) : d.Issued u ∨ ∃ x, new = some x ∧ x.update = some u := by
  obtain h | h | h | ⟨j, x, hx, hu⟩ := h
  · exact .inl (.inl h)
  · exact .inl (.inr (.inl h))
  · exact .inl (.inr (.inr (.inl h)))
  · by_cases hj : j = i
    · subst hj
      exact .inr ⟨x, put_calls_self.symm.trans hx, hu⟩
    · exact .inl (.inr (.inr (.inr ⟨j, x, (put_calls_of_ne hj).symm.trans hx, hu⟩)))

omit [DecidableEq ι] in
theorem Sound.state_of_inMutation (h : d.Sound) (hi : d.InMutation i) :
    d.coordinator.inner.state = .mutating := by
  obtain ⟨call, hcall, hm⟩ := hi
  exact (h.calls i call hcall).state hm

-- The call of a thread goes on, and leaves those of the others alone.
theorem Sound.put (h : d.Sound) (hc : c.Sound)
    (heffects : c.inner.activeEffects = d.coordinator.inner.activeEffects)
    (hrevoked : d.coordinator.roster.revoked ⊆ c.roster.revoked)
    (hothers : ∀ j, j ≠ i → d.InMutation j →
      Undisturbed d.coordinator c ∧ ∀ x, new = some x → ¬x.InMutation)
    (hmutating : c.inner.state = .mutating → (∃ x, new = some x ∧ x.InMutation) ∨ ∃ j, j ≠ i ∧ d.InMutation j)
    (hnew : ∀ x, new = some x → x.Sound c)
    (htold : Told c fun u => d.Issued u ∨ ∃ x, new = some x ∧ x.update = some u) :
    (d.put i c new).Sound where
  coordinator := hc
  effects     := heffects.trans h.effects
  permits     := h.permits
  unique k l hk hl := by
    by_cases hki : k = i <;> by_cases hli : l = i
    · exact hki.trans hli.symm
    · subst hki
      obtain ⟨x, hx, hm⟩ := inMutation_put_self.mp hk
      exact absurd hm ((hothers l hli ((inMutation_put_of_ne hli).mp hl)).right x hx)
    · subst hli
      obtain ⟨x, hx, hm⟩ := inMutation_put_self.mp hl
      exact absurd hm ((hothers k hki ((inMutation_put_of_ne hki).mp hk)).right x hx)
    · exact h.unique k l ((inMutation_put_of_ne hki).mp hk) ((inMutation_put_of_ne hli).mp hl)
  mutating hs := by
    obtain hm | ⟨j, hj, hm⟩ := hmutating hs
    · exact ⟨i, inMutation_put_self.mpr hm⟩
    · exact ⟨j, (inMutation_put_of_ne hj).mpr hm⟩
  calls j x hx := by
    by_cases hj : j = i
    · subst hj
      exact hnew x (put_calls_self.symm.trans hx)
    · rw [put_calls_of_ne hj] at hx
      exact (h.calls j x hx).undisturbed hrevoked fun hm => (hothers j hj ⟨x, hx, hm⟩).left
  cleanups x hx := hrevoked (h.cleanups x hx)
  told        := htold.mono fun _ hu => issued_put hu

end Put

end Desktop

end Admission
