import EmailWatcher.Admission.Soundness

-- Every step of the desktop keeps it in order.
namespace Admission

open Coordinator

namespace Desktop.Sound

variable {ι α : Type} [DecidableEq ι] {c : Coordinator} {d d' : Desktop ι α} {i j : ι} {call new : Call α}

omit [DecidableEq ι] in
theorem not_inMutation (h : d.calls i = some call) (hm : ¬call.InMutation) : ¬d.InMutation i := by
  rintro ⟨x, hx, hm'⟩
  cases h.symm.trans hx
  exact hm hm'

omit [DecidableEq ι] in
theorem not_inMutation_of_idle (h : d.calls i = none) : ¬d.InMutation i := by
  rintro ⟨x, hx, -⟩
  cases h.symm.trans hx

theorem undisturbed_rfl : Undisturbed c c where
  state      := rfl
  workers    := rfl
  generation := rfl
  effects    := Nat.le_refl _
  fresh _    := id

-- A thread that is not in a mutation leaves the coordinator as it is.
theorem keep (h : d.Sound) (hi : ¬d.InMutation i) {new : Option (Call α)}
    (hm : ∀ x, new = some x → ¬x.InMutation) (hnew : ∀ x, new = some x → x.Sound d.coordinator)
    (htold : Told d.coordinator fun u => d.Issued u ∨ ∃ x, new = some x ∧ x.update = some u) :
    (d.put i d.coordinator new).Sound := by
  refine h.put h.coordinator rfl (List.Subset.refl _) (fun j _ _ => ⟨undisturbed_rfl, hm⟩) ?_ hnew htold
  intro hs
  obtain ⟨j, hj⟩ := h.mutating hs
  exact .inr ⟨j, fun hji => hi (hji ▸ hj), hj⟩

-- A thread that is not in a mutation goes through a section.
theorem settle (h : d.Sound) (hi : ¬d.InMutation i) {done : Completion} (hs : Settles d.coordinator c done)
    (reply : Except EngineError (Reply α)) : (d.put i c (some (done.call reply))).Sound := by
  have hcall (done : Completion) : ¬(done.call reply).InMutation := by
    cases done <;> exact id
  have hupdate (done : Completion) (u : ConfigAdmissionUpdate) (x : Call α)
      (hx : some (done.call reply) = some x) (hu : x.update = some u) :
      (done.call (α := α) (.ok .done)).update = some u := by
    cases hx
    cases done <;> exact hu
  have htold : Told c fun u => d.Issued u ∨ ∃ x, some (done.call reply) = some x ∧ x.update = some u :=
    h.told.settle hs fun u hu => hu.imp_right fun ⟨x, hx, hu⟩ => hupdate done u x hx hu
  have hpasses (hp : d.coordinator.Passes c) (hnew : (done.call reply).Sound c) :
      (d.put i c (some (done.call reply))).Sound := by
    refine h.put hp.sound hp.effects hp.revoked ?_ (fun hs => absurd hs hp.after) ?_ htold
    · exact fun j _ hj => absurd (h.state_of_inMutation hj) hp.before
    · rintro x ⟨⟩
      exact hnew
  cases hs
  case silent hc =>
    subst hc
    refine h.keep hi ?_ ?_ htold
    · rintro x ⟨⟩
      exact hcall _
    · rintro x ⟨⟩
      trivial
  case again hc _ =>
    subst hc
    refine h.keep hi ?_ ?_ htold
    · rintro x ⟨⟩
      exact hcall _
    · rintro x ⟨⟩
      trivial
  case passes hp          => exact hpasses hp trivial
  case emits hp           => exact hpasses hp trivial
  case revokes x hp hw hu => exact hpasses hp hw

-- The thread that is in a mutation goes on with it, or ends it.
theorem proceed (h : d.Sound) (hi : d.calls i = some call) (hm : call.InMutation) (hc : c.Sound)
    (heffects : c.inner.activeEffects = d.coordinator.inner.activeEffects)
    (hrevoked : d.coordinator.roster.revoked ⊆ c.roster.revoked)
    (hmutating : c.inner.state = .mutating → new.InMutation) (hnew : new.Sound c)
    (htold : Told c fun u => d.Issued u ∨ new.update = some u) : (d.put i c (some new)).Sound := by
  refine h.put hc heffects hrevoked ?_ (fun hs => .inl ⟨new, rfl, hmutating hs⟩) ?_ (htold.mono ?_)
  · exact fun j hj hjm => absurd (h.unique j i hjm ⟨call, hi, hm⟩) hj
  · rintro x ⟨⟩
    exact hnew
  · rintro u (hu | ⟨x, ⟨⟩, hu⟩)
    · exact .inl hu
    · exact .inr hu

-- It goes on without a word, in a state that stays mutating.
theorem proceed_silent (h : d.Sound) (hi : d.calls i = some call) (hm : call.InMutation) (hc : c.Sound)
    (hinner : c.inner = d.coordinator.inner ∨
      ∃ w, c.inner = { d.coordinator.inner with workers := w })
    (hrevoked : d.coordinator.roster.revoked ⊆ c.roster.revoked) (hnm : new.InMutation)
    (hupdate : new.update = none) (hnew : new.Sound c) : (d.put i c (some new)).Sound := by
  have hfields : c.inner.activeEffects = d.coordinator.inner.activeEffects ∧
      c.inner.generation = d.coordinator.inner.generation ∧
      c.inner.state = d.coordinator.inner.state := by
    obtain hinner | ⟨w, hinner⟩ := hinner <;> simp [hinner]
  refine h.proceed hi hm hc hfields.left hrevoked (fun _ => hnm) hnew ?_
  refine (h.told.same hfields.right.left fun hs => hfields.right.right ▸ hs).mono fun u hu => ?_
  exact hu.resolve_right (by simp [hupdate])

-- It ends in the next generation.
theorem proceed_next (h : d.Sound) (hi : d.calls i = some call) (hm : call.InMutation) (hc : c.Sound)
    (heffects : c.inner.activeEffects = d.coordinator.inner.activeEffects)
    (hrevoked : d.coordinator.roster.revoked ⊆ c.roster.revoked)
    (hgen : d.coordinator.inner.generation < c.inner.generation) (hs : c.inner.state ≠ .mutating)
    (reply : Except EngineError (Reply α)) :
    (d.put i c (some (.emitting ⟨c.inner.generation, c.inner.state.publicStatus⟩ reply))).Sound := by
  refine h.proceed hi hm hc heffects hrevoked (fun hs' => absurd hs' hs) trivial ?_
  exact h.told.next hgen hs fun u hu => hu.imp_right fun hu => (Option.some.inj hu).symm

theorem enter (h : d.Sound) (hg : d.coordinator.inner.generation < u64Max) (hi : d.calls i = none)
    (request : Request) : (d.enter i request).Sound := by
  have hidle := not_inMutation_of_idle hi
  have hreturn (reply : Except EngineError (Reply α)) :
      (d.put i d.coordinator (some (.returning reply))).Sound :=
    h.settle hidle (.silent rfl) reply
  cases request
  case requireAdmitted =>
    obtain ⟨e, he⟩ | ⟨hs, -, hok⟩ := requireAdmitted_cases d.coordinator
    · simp only [Desktop.enter, he]
      exact hreturn _
    · have hp := hreturn (.ok (.permit d.granted))
      simp only [Desktop.enter, hok]
      exact {
        coordinator := h.coordinator.with_state (by simp [hs, h.coordinator.admitted hs])
        effects     := congrArg Nat.succ h.effects
        permits     := by
          refine ⟨List.nodup_cons.mpr ⟨fun hp => ?_, h.permits.left⟩, fun p hp => ?_⟩
          · exact Nat.lt_irrefl _ (h.permits.right _ hp)
          · obtain rfl | hp := List.mem_cons.mp hp
            · exact Nat.lt_succ_self _
            · exact Nat.lt_succ_of_lt (h.permits.right p hp)
        unique      := hp.unique
        mutating    := hp.mutating
        calls j x hx := by
          refine (hp.calls j x hx).undisturbed (List.Subset.refl _) fun hm => ?_
          have := (hp.calls j x hx).state hm
          simp [Desktop.put, hs] at this
        cleanups    := hp.cleanups
        told        := hp.told.same rfl id
      }
  case refresh answers =>
    exact h.settle hidle (refreshWith_settles h.coordinator hg answers) _
  case acknowledge revision outcome answers =>
    exact h.settle hidle (acknowledgeWith_settles h.coordinator hg revision outcome answers) _
  case initialization intent outcome inspect stage revalidate =>
    exact h.settle hidle (initializeWith_settles h.coordinator hg intent outcome inspect stage revalidate) _
  case mutation failure =>
    obtain ⟨e, he⟩ | ⟨hs, hw, hok⟩ := beginMutation_cases d.coordinator
    · simp only [Desktop.enter, he]
      exact hreturn _
    · simp only [Desktop.enter, hok]
      refine h.put (h.coordinator.with_state (by simp [hw])) rfl (List.Subset.refl _) ?_ ?_ ?_ ?_
      · exact fun j _ hj => absurd (h.state_of_inMutation hj) (by simp [hs])
      · exact fun _ => .inl ⟨_, rfl, trivial⟩
      · rintro x ⟨⟩
        exact ⟨rfl, rfl, hw⟩
      · refine Told.mono (P := d.Issued) (h.told.same rfl fun _ => .inl hs) fun u hu => hu.resolve_right ?_
        rintro ⟨x, ⟨⟩, ⟨⟩⟩
  case report token error =>
    have hs := reportError_settles h.coordinator hg token error
    simp only [Desktop.enter]
    generalize hr : d.coordinator.reportError token error = r at hs ⊢
    obtain ⟨c, x⟩ := r
    cases x
    case none   => exact h.settle hidle hs _
    case some x => exact h.settle hidle hs _

-- Where a mutation is awaited, the coordinator can drop what is not live.
theorem drop_fresh (h : d.Sound) (hi : d.calls i = some call) (hm : call.InMutation) {w : AdmissionWorkers}
    {g : Nat} (ha : d.coordinator.Awaits g) (he : d.coordinator.inner.activeEffects = 0)
    (hw : w.serial < d.coordinator.roster.staged) (e : EngineError) :
    (d.put i (d.coordinator.dropWorkers w) (some (.failing g e))).Sound :=
  h.proceed_silent hi hm (h.coordinator.beginRevocation hw) (.inl rfl) (List.subset_cons_self _ _) trivial
    rfl ⟨ha, he⟩

-- Once the effects are over, the workers that were taken are dropped.
theorem drain {failure : MutationFailure} {g : Nat} (h : d.Sound)
    (hi : d.calls i = some (.draining failure g)) (answer : Answer α)
    (hstep : d.advance i answer (.draining failure g) = .ok d') : d'.Sound := by
  obtain ⟨rfl, hstate, hw⟩ := h.calls i _ hi
  obtain ⟨w, hw⟩ := Option.isSome_iff_exists.mp hw
  simp only [Desktop.advance, takeMutatingWorkers_eq hstate hw] at hstep
  split at hstep <;> cases hstep
  case isFalse.refl he =>
    have hs : d.coordinator.inner.state ≠ .admitted := by simp [hstate]
    exact h.proceed_silent hi trivial (h.coordinator.revoke hw _ hs) (.inr ⟨none, rfl⟩)
      (List.subset_cons_self _ _) trivial rfl ⟨⟨rfl, hstate, rfl⟩, not_not.mp he, List.mem_cons_self⟩

-- The workers are staged once more, and dropped where the configuration has changed.
theorem restage {failure : MutationFailure} {g : Nat} {prior : Option AdmissionToken}
    {outcome : Except EngineError α} (h : d.Sound) (hi : d.calls i = some (.restaging failure g prior outcome))
    (answer : Answer α) (hstep : d.advance i answer (.restaging failure g prior outcome) = .ok d') :
    d'.Sound := by
  obtain ⟨ha, he⟩ := h.calls i _ hi
  obtain ⟨e, hstage⟩ | ⟨token, hstage⟩ := stage_cases d.coordinator answer.restage
  · simp only [Desktop.advance, hstage] at hstep
    cases hstep
    exact h.proceed_silent hi trivial h.coordinator (.inl rfl) (List.Subset.refl _) trivial rfl ⟨ha, he⟩
  · have hf := h.coordinator.fresh_staged
    simp only [Desktop.advance, hstage] at hstep
    split at hstep <;> cases hstep
    · exact h.proceed_silent hi trivial (h.coordinator.staged.beginRevocation hf.left) (.inl rfl)
        (List.subset_cons_self _ _) trivial rfl ⟨ha, he⟩
    · exact h.proceed_silent hi trivial h.coordinator.staged (.inl rfl) (List.Subset.refl _) trivial rfl
        ⟨ha, he, hf⟩

theorem revalidate {g : Nat} {outcome : Except EngineError α} {w : AdmissionWorkers} (h : d.Sound)
    (hi : d.calls i = some (.revalidating g outcome w)) (answer : Answer α)
    (hstep : d.advance i answer (.revalidating g outcome w) = .ok d') : d'.Sound := by
  obtain ⟨ha, he, hf⟩ := h.calls i _ hi
  simp only [Desktop.advance] at hstep
  cases hr : answer.revalidate <;> simp only [hr] at hstep <;> cases hstep
  case error e => exact h.drop_fresh hi trivial ha he hf.left e
  case ok      =>
    exact h.proceed_silent hi trivial h.coordinator (.inl rfl) (List.Subset.refl _) trivial rfl ⟨ha, he, hf⟩

theorem activate {g : Nat} {outcome : Except EngineError α} {w : AdmissionWorkers} (h : d.Sound)
    (hg : d.coordinator.inner.generation < u64Max) (hi : d.calls i = some (.activating g outcome w))
    (answer : Answer α) (hstep : d.advance i answer (.activating g outcome w) = .ok d') : d'.Sound := by
  obtain ⟨ha, he, hf⟩ := h.calls i _ hi
  simp only [Desktop.advance, activateMutationWorkers_eq ha hg] at hstep
  cases hstep
  exact h.proceed_next hi trivial (h.coordinator.install ha.right.right hf _) rfl (List.Subset.refl _)
    (Nat.lt_succ_self _) (fun hm => by cases hm) _

theorem fail {g : Nat} {e : EngineError} (h : d.Sound) (hg : d.coordinator.inner.generation < u64Max)
    (hi : d.calls i = some (.failing g e)) (answer : Answer α)
    (hstep : d.advance i answer (.failing g e) = .ok d') : d'.Sound := by
  obtain ⟨ha, he⟩ := h.calls i _ hi
  simp only [Desktop.advance, failConfigMutation_eq ha hg] at hstep
  cases hstep
  have hs : ¬(AdmissionState.manualRepairRequired = .admitted ∨
      AdmissionState.manualRepairRequired = .mutating ∧ d.coordinator.inner.workers.isSome) := by simp
  have hc := h.coordinator.with_state (e := d.coordinator.inner.activeEffects)
    (g := d.coordinator.inner.generation + 1) (iff_of_false (by simp [ha.right.right]) hs)
  exact h.proceed_next hi trivial hc rfl (List.Subset.refl _) (Nat.lt_succ_self _)
    (fun hm => by cases hm) _

-- What is handed over is told once the supervisor has dropped it.
theorem hand {x : AdmissionCleanup} {reply : Except EngineError (Reply α)} (h : d.Sound) (hs : d.supervising)
    (hi : d.calls i = some (.handing x reply)) (answer : Answer α)
    (hstep : d.advance i answer (.handing x reply) = .ok d') : d'.Sound := by
  have hcall := h.calls i _ hi
  have hp := h.settle (not_inMutation hi id) (.silent rfl) reply
  simp only [Desktop.advance, hs, if_true] at hstep
  cases hstep
  refine {
    coordinator := h.coordinator
    effects     := h.effects
    permits     := h.permits
    unique      := hp.unique
    mutating    := hp.mutating
    calls       := hp.calls
    cleanups y hy := by
      obtain hy | hy := List.mem_append.mp hy
      · exact h.cleanups y hy
      · cases List.mem_singleton.mp hy
        exact hcall
    told := h.told.mono ?_
  }
  rintro u (hu | hu | ⟨y, hy, rfl⟩ | hu)
  · exact .inl hu
  · exact .inr (.inl hu)
  · obtain hy | hy := List.mem_append.mp hy
    · exact .inr (.inr (.inl ⟨y, hy, rfl⟩))
    · cases List.mem_singleton.mp hy
      exact .inr (.inr (.inr ⟨i, _, hi, rfl⟩))
  · exact (issued_put (c := d.coordinator) (.inr (.inr (.inr hu)))).resolve_right (by rintro ⟨_, ⟨⟩, ⟨⟩⟩)

theorem emit {u : ConfigAdmissionUpdate} {reply : Except EngineError (Reply α)} (h : d.Sound)
    (hi : d.calls i = some (.emitting u reply)) (answer : Answer α)
    (hstep : d.advance i answer (.emitting u reply) = .ok d') : d'.Sound := by
  have hp := h.settle (not_inMutation hi id) (.silent rfl) reply
  cases hstep
  refine {
    coordinator := h.coordinator
    effects     := h.effects
    permits     := h.permits
    unique      := hp.unique
    mutating    := hp.mutating
    calls       := hp.calls
    cleanups    := h.cleanups
    told        := h.told.mono ?_
  }
  rintro v (hv | hv | hv | hv)
  · obtain hv | hv := List.mem_append.mp hv
    · exact .inl hv
    · cases List.mem_singleton.mp hv
      exact .inr (.inr (.inr ⟨i, _, hi, rfl⟩))
  · exact .inr (.inl hv)
  · exact .inr (.inr (.inl hv))
  · exact (issued_put (c := d.coordinator) (.inr (.inr (.inr hv)))).resolve_right (by rintro ⟨_, ⟨⟩, ⟨⟩⟩)

theorem advance (h : d.Sound) (hg : d.coordinator.inner.generation < u64Max) (hs : d.supervising)
    (hi : d.calls i = some call) (answer : Answer α) (hstep : d.advance i answer call = .ok d') :
    d'.Sound := by
  cases call
  case draining     => exact h.drain hi answer hstep
  case dropping failure g w =>
    obtain ⟨ha, he, hr⟩ := h.calls i _ hi
    cases hstep
    exact h.proceed_silent hi trivial (h.coordinator.beginRevocation (h.coordinator.revoked _ hr)) (.inl rfl)
      (List.subset_cons_self _ _) trivial rfl ⟨ha, he⟩
  case mutating failure g prior =>
    have hcall := h.calls i _ hi
    cases hstep
    exact h.proceed_silent hi trivial h.coordinator (.inl rfl) (List.Subset.refl _) trivial rfl hcall
  case restaging    => exact h.restage hi answer hstep
  case revalidating => exact h.revalidate hi answer hstep
  case activating   => exact h.activate hg hi answer hstep
  case failing      => exact h.fail hg hi answer hstep
  case handing      => exact h.hand hs hi answer hstep
  case emitting     => exact h.emit hi answer hstep
  case returning reply =>
    cases hstep
    refine h.keep (not_inMutation hi id) ?_ ?_ (h.told.mono fun u hu => Or.resolve_right hu ?_)
    · rintro _ ⟨⟩
    · rintro _ ⟨⟩
    · rintro ⟨x, hx, -⟩
      cases hx

omit [DecidableEq ι] in
theorem dropPermit (h : d.Sound) {permit : Nat} (hp : permit ∈ d.permits) :
    ({ d with coordinator := d.coordinator.dropPermit, permits := d.permits.erase permit } :
      Desktop ι α).Sound where
  coordinator := {
    admitted  := h.coordinator.admitted
    installed := h.coordinator.installed
    live      := h.coordinator.live
    activated := h.coordinator.activated
    revoked   := h.coordinator.revoked
    serial    := h.coordinator.serial
  }
  effects := by
    rw [List.length_erase_of_mem hp, ← h.effects]
    rfl
  permits     := ⟨h.permits.left.erase permit, fun p hp => h.permits.right p (List.mem_of_mem_erase hp)⟩
  unique      := h.unique
  mutating    := h.mutating
  calls j x hx := by
    refine (h.calls j x hx).undisturbed (List.Subset.refl _) fun _ => ?_
    exact {
      state      := rfl
      workers    := rfl
      generation := rfl
      effects    := Nat.sub_le _ _
      fresh _    := id
    }
  cleanups    := h.cleanups
  told        := h.told.same rfl id

omit [DecidableEq ι] in
-- What is dropped once more has been revoked already.
theorem supervise (h : d.Sound) (hstep : d.supervise = .ok d') : d'.Sound := by
  simp only [Desktop.supervise] at hstep
  split at hstep
  case h_1 update _ hc =>
    cases hstep
    refine {
      coordinator := h.coordinator
      effects     := h.effects
      permits     := h.permits
      unique      := h.unique
      mutating    := h.mutating
      calls       := h.calls
      cleanups    := h.cleanups
      told        := h.told.mono ?_
    }
    rintro u (hu | hu | hu)
    · obtain hu | hu := List.mem_append.mp hu
      · exact .inl hu
      · cases List.mem_singleton.mp hu
        exact .inr (.inl hc)
    · cases hu
    · exact .inr (.inr hu)
  case h_2 => cases hstep
  case h_3 x xs hc hx =>
    cases hstep
    have hr : x.workers.serial ∈ d.coordinator.roster.revoked := h.cleanups x (by simp [hx])
    refine {
      coordinator := h.coordinator.beginRevocation (h.coordinator.revoked _ hr)
      effects     := h.effects
      permits     := h.permits
      unique      := h.unique
      mutating    := h.mutating
      calls j y hy := by
        refine (h.calls j y hy).undisturbed (List.subset_cons_self _ _) fun _ => ?_
        exact {
          state      := rfl
          workers    := rfl
          generation := rfl
          effects    := Nat.le_refl _
          fresh n hn := by
            refine ⟨hn.left, hn.right.left, fun hn' => ?_⟩
            obtain rfl | hn' := List.mem_cons.mp hn'
            · exact hn.right.right hr
            · exact hn.right.right hn'
        }
      cleanups y hy := List.mem_cons_of_mem _ (h.cleanups y (by simp [hx, hy]))
      told := (Told.mono (P := d.Issued) h.told ?_).same rfl id
    }
    rintro u (hu | hu | ⟨y, hy, rfl⟩ | hu)
    · exact .inl hu
    · cases hu
      exact .inr (.inr (.inl ⟨x, by simp [hx], rfl⟩))
    · exact .inr (.inr (.inl ⟨y, by simp [hx, hy], rfl⟩))
    · exact .inr (.inr (.inr hu))

theorem step (h : d.Sound) (hg : d.coordinator.inner.generation < u64Max) (hs : d.supervising)
    {a : Act ι α} (hstep : desktop.step d a = .ok d') : d'.Sound := by
  cases a
  case call i request =>
    cases hi : d.calls i <;> simp only [desktop, hi] at hstep <;> cases hstep
    exact h.enter hg hi request
  case advance i answer =>
    cases hi : d.calls i <;> simp only [desktop, hi] at hstep
    case none   => cases hstep
    case some x => exact h.advance hg hs hi answer hstep
  case dropPermit permit =>
    simp only [desktop] at hstep
    split at hstep <;> cases hstep
    exact h.dropPermit ‹_›
  case supervise => exact h.supervise hstep
  case stop      =>
    cases hstep
    exact ⟨h.coordinator, h.effects, h.permits, h.unique, h.mutating, h.calls, h.cleanups, h.told⟩

omit [DecidableEq ι] in
theorem initial : (Desktop.initial : Desktop ι α).Sound where
  coordinator   := Coordinator.Sound.initial
  effects       := rfl
  permits       := ⟨.nil, fun _ h => by cases h⟩
  unique i _ hi := absurd hi (not_inMutation_of_idle rfl)
  mutating h    := by cases h
  calls _ _ h   := by cases h
  cleanups _ h  := by cases h
  told          := by
    have hnone (u : ConfigAdmissionUpdate) : ¬(Desktop.initial : Desktop ι α).Issued u := by
      rintro (hu | hu | ⟨x, hx, -⟩ | ⟨i, x, hx, -⟩) <;> simp [Desktop.initial] at *
    exact ⟨fun u hu => absurd hu (hnone u), fun u _ hu => absurd hu (hnone u),
      fun u hu => absurd hu (hnone u)⟩

end Desktop.Sound

end Admission
