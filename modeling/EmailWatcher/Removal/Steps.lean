import EmailWatcher.Removal.Soundness

-- What every step of a page, a worker or an engine preserves.
namespace Removal

open Script Story

variable [Codec]

section Events

variable {i : Process} {s s' : Desk} {e : Event} {k : Key} {t : Target} {c r n : Nat}

-- The rule for an event, of which the calls and the clients know nothing.
theorem Sound.concat (h : Sound s) (hs : s'.story = s.story ++ [e]) (hj : Justified s.story e)
    (hdead : ∀ k, Dead s k → Dead s' k) (hjournal : JournalSound s'.journal s'.story)
    (hreceipts : ReceiptsSound s'.receipts s'.clock s'.story)
    (htokens : ∀ k t, Issued s'.story k t → k.token < s'.issued)
    (hcalls : s'.calls = s.calls)
    (hserved : ∀ c, e.servedBy = some c → ∃ call, s.calls[c]? = some call ∧ call.taken = true)
    (hmutations : ∀ r (m : Mutation), s'.mutations[r]? = some m → m.Valid r s')
    (hclient : s'.client = s.client) (hasked : e.requestedBy = none)
    (hshown : ∀ n records, e ≠ .shown n records) : Sound s' := by
  have hg : Grows s s' := ⟨⟨[e], hs.symm⟩, hdead⟩
  have hmem (e' : Event) (he : e' ∈ s'.story) : e' ∈ s.story ∨ e' = e := by
    simpa [hs] using he
  refine ⟨hs ▸ h.lawful.concat hj, hjournal, hreceipts, htokens, ?_, ?_, ?_, hmutations, ?_, ?_⟩
  · rw [hcalls]
    exact fun c call hc => (h.calls c call hc).mono hg
  · rw [hcalls]
    intro e' he c hc
    obtain he | rfl := hmem e' he
    · exact h.served e' he c hc
    · exact hserved c hc
  · rw [hcalls]
    intro n a d k he
    obtain he | rfl := hmem _ he
    · exact h.asked n a d k he
    · cases hasked
  · rw [hclient]
    exact fun n => (h.clients n).mono hg
  · intro n records he r hr hm
    obtain he | rfl := hmem _ he
    · exact hdead _ (h.shown n records he r hr hm)
    · exact absurd rfl (hshown n records)

omit [Codec] in
theorem JournalSound.concat {journal : List SavedRemoval} {story : List Event}
    (h : JournalSound journal story) (hr : ∀ c k, e ≠ .remembered c k)
    (hf : ∀ c k, e ≠ .forgotten c k) : JournalSound journal (story ++ [e]) := by
  refine ⟨h.nodup, fun k => ?_, fun r hr => ?_⟩
  · simp [h.kept, hr, hf]
  · simpa using .inl (h.entries r hr)

-- The rule for what is no event.
theorem Sound.silent (h : Sound s) (hs : s'.story = s.story) (hdead : ∀ k, Dead s k → Dead s' k)
    (hjournal : s'.journal = s.journal) (hreceipts : ReceiptsSound s'.receipts s'.clock s.story)
    (hissued : s'.issued = s.issued) (hgrow : CallsGrow s.calls s'.calls)
    (hcalls : ∀ (c : Nat) (call : Call), s'.calls[c]? = some call → call.Valid c s')
    (hmutations : ∀ r (m : Mutation), s'.mutations[r]? = some m → m.Valid r s')
    (hclients : ∀ n, (s'.client n).Valid s') : Sound s' := by
  refine ⟨hs ▸ h.lawful, ?_, hs ▸ hreceipts, ?_, hcalls, ?_, ?_, hmutations, hclients, ?_⟩
  · rw [hs, hjournal]
    exact h.journal
  · rw [hs, hissued]
    exact h.tokens
  · rw [hs]
    intro e he c hc
    obtain ⟨call, hcall, ht⟩ := h.served e he c hc
    obtain ⟨call', hcall', hb⟩ := hgrow c call hcall
    exact ⟨call', hcall', hb.taken ht⟩
  · rw [hs]
    intro n a d k he
    obtain ⟨call, hcall, hp⟩ := h.asked n a d k he
    obtain ⟨call', hcall', hb⟩ := hgrow a call hcall
    exact ⟨call', hcall', hb.page.trans hp⟩
  · rw [hs]
    exact fun n records he r hr hm => hdead _ (h.shown n records he r hr hm)

omit [Codec] in
theorem Change.silent (hs : s'.story = s.story) (hdead : ∀ k, Dead s k → Dead s' k)
    (hcalls : CallsGrow s.calls s'.calls)
    (hc : ∀ c, i ≠ .worker c → (s'.coordinator = some c ↔ s.coordinator = some c))
    (ho : ∀ c, i ≠ .worker c →
      (s'.operation = some (.worker c) ↔ s.operation = some (.worker c)))
    (hj : s'.journal = s.journal ∨ ∃ c, i = .worker c ∧ s.coordinator = some c)
    (hm : ∀ c, i ≠ .worker c → Mine c s.mutations s'.mutations) : Change i s s' :=
  ⟨⟨[], by simp [hs], nofun⟩, hdead, hcalls, hc, ho, hj, .inl fun k hk => by rwa [hs] at hk, hm⟩

theorem ReceiptsSound.concat {receipts : Table Receipt} {clock : Instant} {story : List Event}
    (h : ReceiptsSound receipts clock story) (ha : ∀ r k, e ≠ .accepted r k)
    (hr : ∀ k, e ≠ .retired k) : ReceiptsSound receipts clock (story ++ [e]) := by
  refine ⟨fun k => ?_, fun r hr => ?_, fun k hk => ?_⟩
  · simp [h.kept, ha, hr]
  · obtain ⟨t, ht, hm⟩ := h.rows r hr
    exact ⟨t, by simpa using .inl ht, hm⟩
  · exact h.expired k (by simpa [hr] using hk)

omit [Codec] in
-- What neither forgets, nor accepts, nor dispatches, leaves a key as dead as it was.
theorem Dead.concat (h : Dead s k) (hs : s'.story = s.story ++ [e]) (ha : ∀ r, e ≠ .accepted r k)
    (hm : s'.mutations = s.mutations) : Dead s' k := by
  refine ⟨?_, ?_, hm ▸ h.ended⟩
  · rw [hs, forgotten_concat]
    exact .inl h.forgotten
  · rw [hs, accepted_concat]
    rintro (hk | ⟨r, hr⟩)
    · exact h.accepted hk
    · exact ha r hr

end Events

section Worker

variable {s : Desk} {e : Event} {k : Key} {t : Target} {c : Nat}

-- A key that is issued.
theorem issue_allowed (h : Sound s) (hc : ∀ e ∈ s.story, e.servedBy ≠ some c)
    (htaken : ∃ call, s.calls[c]? = some call ∧ call.taken = true)
    (ht : removalParameters t = .ok ()) (hk : k.token = s.issued) :
    Allowed Sound Respects (.worker c) s (note (.issued c k t) { s with issued := s.issued + 1 }) := by
  have hfresh (t : Target) (hk' : Issued s.story k t) : False := by
    have := h.tokens k t hk'
    omega
  have hdead (k' : Key) (hd : Dead s k') :
      Dead (note (.issued c k t) { s with issued := s.issued + 1 }) k' := hd.concat rfl nofun rfl
  refine Change.allowed (t := note (.issued c k t) { s with issued := s.issued + 1 })
    ⟨⟨[.issued c k t], rfl, by simp [Event.author]⟩, hdead, .refl, fun _ _ => .rfl, fun _ _ => .rfl,
      .inl rfl, .inl fun k' hk' => ?_, fun _ _ => .refl⟩ ?_
  · simpa [note] using hk'
  refine h.concat rfl ⟨hc, hfresh, ht⟩ hdead (h.journal.concat nofun nofun)
    (h.receipts.concat nofun nofun) ?_ rfl ?_ ?_ rfl rfl nofun
  · intro k' t' hk'
    simp only [note, issued_concat, Event.issued.injEq] at hk'
    obtain hk' | ⟨_, rfl, rfl, rfl⟩ := hk'
    · exact Nat.lt_succ_of_lt (h.tokens k' t' hk')
    · simp [note, hk]
  · rintro _ ⟨⟩
    exact htaken
  · exact fun r m hm => (h.mutations r m hm).mono (List.prefix_append _ _) rfl rfl

def Desk.remember (s : Desk) (c : Nat) (r : SavedRemoval) : Desk :=
  note (.remembered c r.requestId) { s with journal := s.journal ++ [r] }

theorem remember_allowed (h : Sound s) (hc : s.coordinator = some c)
    (hi : .issued c k t ∈ s.story) (hr : ¬Remembered s.story k) :
    Allowed Sound Respects (.worker c) s (s.remember c ⟨k, t⟩) := by
  have hf : ¬Forgotten s.story k := fun hf => hr (hf.remembered h.lawful)
  have hdead (k' : Key) (hd : Dead s k') : Dead (s.remember c ⟨k, t⟩) k' := hd.concat rfl nofun rfl
  refine Change.allowed ⟨⟨[.remembered c k], rfl, by simp [Event.author]⟩, hdead, .refl,
    fun _ _ => .rfl, fun _ _ => .rfl, .inr ⟨c, rfl, hc⟩, .inl fun k' hk' => ?_, fun _ _ => .refl⟩ ?_
  · simpa [note, Desk.remember] using hk'
  refine h.concat rfl ⟨hr, t, hi⟩ hdead ⟨?_, fun k' => ?_, fun r hr' => ?_⟩
    (h.receipts.concat nofun nofun) ?_ rfl nofun ?_ rfl rfl nofun
  · rw [Desk.remember, note, List.map_append]
    refine List.Nodup.append h.journal.nodup (List.nodup_singleton _) ?_
    simp only [List.map_cons, List.map_nil, List.disjoint_singleton]
    exact fun hk => hr ((h.journal.kept k).mp hk).left
  · have hkept := h.journal.kept k'
    simp only [Desk.remember, note, List.map_append, List.mem_append, List.map_cons, List.map_nil,
      List.mem_singleton, remembered_concat, forgotten_concat, hkept]
    constructor
    · rintro (hk | rfl)
      · exact ⟨.inl hk.left, by simpa using hk.right⟩
      · exact ⟨.inr ⟨c, rfl⟩, by simpa using hf⟩
    · rintro ⟨hk | ⟨_, hk⟩, hf'⟩
      · exact .inl ⟨hk, fun h => hf' (.inl h)⟩
      · cases hk
        exact .inr rfl
  · simp only [Desk.remember, note, List.mem_append, List.mem_singleton] at hr' ⊢
    obtain hr' | rfl := hr'
    · simpa using h.journal.entries r hr'
    · exact ⟨c, by simp [hi]⟩
  · intro k' t' hk'
    exact h.tokens k' t' (by simpa [Desk.remember, note] using hk')
  · exact fun r m hm => (h.mutations r m hm).mono (List.prefix_append _ _) rfl rfl

def Desk.forget (s : Desk) (c : Nat) (k : Key) : Desk :=
  note (.forgotten c k) { s with journal := s.journal.filter (·.requestId ≠ k) }

theorem forget_allowed (h : Sound s) (hc : s.coordinator = some c)
    (hk : k ∈ s.journal.map (·.requestId))
    (hshown : Accepted s.story k → ¬Retired s.story k → CompletedShown s.story k) :
    Allowed Sound Respects (.worker c) s (s.forget c k) := by
  have hdead (k' : Key) (hd : Dead s k') : Dead (s.forget c k) k' := hd.concat rfl nofun rfl
  refine Change.allowed ⟨⟨[.forgotten c k], rfl, by simp [Event.author]⟩, hdead, .refl,
    fun _ _ => .rfl, fun _ _ => .rfl, .inr ⟨c, rfl, hc⟩, .inl fun k' hk' => ?_, fun _ _ => .refl⟩ ?_
  · simpa [note, Desk.forget] using hk'
  refine h.concat rfl ⟨((h.journal.kept k).mp hk).left, hshown⟩ hdead
    ⟨?_, fun k' => ?_, fun r hr => ?_⟩ (h.receipts.concat nofun nofun) ?_ rfl nofun ?_ rfl rfl nofun
  · exact h.journal.nodup.sublist (List.filter_sublist.map _)
  · have hkept := h.journal.kept k'
    have hmem : k' ∈ (s.journal.filter (·.requestId ≠ k)).map (·.requestId) ↔
        k' ∈ s.journal.map (·.requestId) ∧ k' ≠ k := by
      simp only [List.mem_map, List.mem_filter, decide_eq_true_eq]
      constructor
      · rintro ⟨r, ⟨hr, hne⟩, rfl⟩
        exact ⟨⟨r, hr, rfl⟩, hne⟩
      · rintro ⟨⟨r, hr, rfl⟩, hne⟩
        exact ⟨r, ⟨hr, hne⟩, rfl⟩
    simp only [Desk.forget, note, hmem, hkept, remembered_concat, forgotten_concat]
    simp only [reduceCtorEq, exists_const, or_false, Event.forgotten.injEq, not_or, and_assoc]
    refine and_congr_right fun _ => and_congr_right fun _ => ?_
    simp [eq_comm]
  · simpa [Desk.forget, note] using h.journal.entries r (List.mem_filter.mp hr).left
  · intro k' t' hk'
    exact h.tokens k' t' (by simpa [Desk.forget, note] using hk')
  · exact fun r m hm => (h.mutations r m hm).mono (List.prefix_append _ _) rfl rfl

def Desk.dispatch (s : Desk) (c : Nat) (k : Key) (t : Target) : Desk :=
  note (.dispatched c k) { s with mutations := s.mutations ++ [⟨k, t, c, .waiting, none⟩] }

theorem dispatch_allowed (h : Sound s) (hc : s.coordinator = some c)
    (hk : k ∈ s.journal.map (·.requestId)) (hs : ∀ e ∈ s.story, e.servedBy ≠ some c)
    (htaken : ∃ call, s.calls[c]? = some call ∧ call.taken = true)
    (hr : Command.Valid c s.story (.mutate k t)) :
    Allowed Sound Respects (.worker c) s (s.dispatch c k t) := by
  obtain ⟨n, a, hr, hi⟩ := hr
  have hdead (k' : Key) (hd : Dead s k') : Dead (s.dispatch c k t) k' := by
    refine ⟨by simpa [note, Desk.dispatch] using hd.forgotten,
      by simpa [note, Desk.dispatch] using hd.accepted, fun m hm hmk => ?_⟩
    simp only [note, Desk.dispatch, List.mem_append, List.mem_singleton] at hm
    obtain hm | rfl := hm
    · exact hd.ended m hm hmk
    · cases hmk
      exact absurd hd.forgotten ((h.journal.kept _).mp hk).right
  refine Change.allowed ⟨⟨[.dispatched c k], rfl, by simp [Event.author]⟩, hdead, .refl,
    fun _ _ => .rfl, fun _ _ => .rfl, .inl rfl, .inl fun k' hk' => ?_, fun c' hc' => ?_⟩ ?_
  · simpa [note, Desk.dispatch] using hk'
  · intro r m hm hw
    have hne : c ≠ c' := fun he => hc' (by rw [he])
    simp only [Desk.dispatch, note, List.getElem?_append] at hm
    split at hm
    · exact ⟨m, hm, hw, id⟩
    · rw [List.getElem?_singleton] at hm
      split at hm <;> cases hm
      exact absurd hw hne
  refine h.concat rfl ⟨hs, n, a, hr⟩ hdead (h.journal.concat nofun nofun)
    (h.receipts.concat nofun nofun) ?_ rfl ?_ ?_ rfl rfl nofun
  · intro k' t' hk'
    exact h.tokens k' t' (by simpa [Desk.dispatch, note] using hk')
  · rintro _ ⟨⟩
    exact htaken
  · intro r m hm
    simp only [Desk.dispatch, note, List.getElem?_append] at hm
    split at hm
    · exact (h.mutations r m hm).mono (List.prefix_append _ _) rfl rfl
    · rw [List.getElem?_singleton] at hm
      split at hm <;> cases hm
      exact ⟨by simp [Desk.dispatch, note], ⟨a, by simp [Desk.dispatch, note, hi]⟩, fun _ => hc, nofun⟩

-- The worker is let in, or out. It goes out when no engine waits for it.
theorem coordinator_allowed {o : Option Nat} (h : Sound s)
    (hc : s.coordinator = none ∧ o = some c ∨
      s.coordinator = some c ∧ o = none ∧ ∀ m ∈ s.mutations, m.worker = c → m.phase ≠ .waiting) :
    Allowed Sound Respects (.worker c) s { s with coordinator := o } := by
  have hg : Grows s { s with coordinator := o } := ⟨List.prefix_rfl, fun k hk => hk.of_eq rfl rfl⟩
  refine Change.allowed (.silent rfl hg.dead .refl (fun c' hc' => ?_) (fun _ _ => .rfl) (.inl rfl) fun _ _ => .refl) <|
    h.silent rfl hg.dead rfl h.receipts rfl .refl (fun c call hc => (h.calls c call hc).mono hg) ?_
      fun n => (h.clients n).mono hg
  · have hne : c ≠ c' := fun he => hc' (by rw [he])
    obtain ⟨hc, rfl⟩ | ⟨hc, rfl, -⟩ := hc <;> simp [hc, hne]
  · intro r m hm
    have hm' := h.mutations r m hm
    refine ⟨hm'.dispatched, hm'.issued, fun hw => ?_, hm'.holding⟩
    have hw' := hm'.waiting hw
    obtain ⟨hc, -⟩ | ⟨hc, -, hnone⟩ := hc
    · rw [hc] at hw'
      cases hw'
    · rw [hc] at hw'
      exact absurd hw (hnone m (List.mem_of_getElem? hm) (Option.some.inj hw').symm)

theorem operation_allowed {o : Option Process} (h : Sound s)
    (ho : s.operation = none ∧ o = some (.worker c) ∨ s.operation = some (.worker c) ∧ o = none) :
    Allowed Sound Respects (.worker c) s { s with operation := o } := by
  have hg : Grows s { s with operation := o } := ⟨List.prefix_rfl, fun k hk => hk.of_eq rfl rfl⟩
  refine Change.allowed (.silent rfl hg.dead .refl (fun _ _ => .rfl) (fun c' hc' => ?_) (.inl rfl) fun _ _ => .refl) <|
    h.silent rfl hg.dead rfl h.receipts rfl .refl (fun c call hc => (h.calls c call hc).mono hg) ?_
      fun n => (h.clients n).mono hg
  · have hne : c ≠ c' := fun he => hc' (by rw [he])
    obtain ⟨ho, rfl⟩ | ⟨ho, rfl⟩ := ho <;> simp [ho, hne]
  · intro r m hm
    have hm' := h.mutations r m hm
    refine ⟨hm'.dispatched, hm'.issued, hm'.waiting, fun hw => ?_⟩
    have hw' := hm'.holding hw
    obtain ⟨ho, -⟩ | ⟨ho, -⟩ := ho <;> simp [ho] at hw'

-- The worker takes its call, or answers it.
theorem call_allowed {g : Call → Call} (h : Sound s) (hg : ∀ call, Call.Becomes call (g call))
    (hv : ∀ call, s.calls[c]? = some call → (g call).Valid c s) :
    Allowed Sound Respects (.worker c) s { s with calls := s.calls.modify c g } := by
  have hgrows : Grows s { s with calls := s.calls.modify c g } :=
    ⟨List.prefix_rfl, fun k hk => hk.of_eq rfl rfl⟩
  have hcalls : CallsGrow s.calls (s.calls.modify c g) := by
    intro c' call hc
    rw [List.getElem?_modify, hc]
    split
    · exact ⟨g call, rfl, hg call⟩
    · exact ⟨call, rfl, rfl, rfl, id⟩
  refine Change.allowed (.silent rfl hgrows.dead hcalls (fun _ _ => .rfl) (fun _ _ => .rfl) (.inl rfl) fun _ _ => .refl) <|
    h.silent rfl hgrows.dead rfl h.receipts rfl hcalls (fun c' call hc => ?_)
      (fun r m hm => (h.mutations r m hm).mono List.prefix_rfl rfl rfl) fun n => (h.clients n).mono hgrows
  simp only [List.getElem?_modify] at hc
  split at hc
  case isTrue heq =>
    subst heq
    obtain ⟨call', hcall, rfl⟩ := Option.map_eq_some_iff.mp hc
    exact (hv call' hcall).mono hgrows
  case isFalse =>
    have hc : s.calls[c']? = some call := by simpa using hc
    exact (h.calls c' call hc).mono hgrows

end Worker

section Engine

variable {s : Desk} {i : Process} {k : Key} {r : Nat} {f : Circumstances}

omit [Codec] in
-- What is in a list in which one element has been changed.
theorem mem_modify {ms : List Mutation} {g : Mutation → Mutation} {r : Nat} {m : Mutation}
    (h : m ∈ ms.modify r g) : m ∈ ms ∨ ∃ m', ms[r]? = some m' ∧ m = g m' := by
  obtain ⟨r', hr'⟩ := List.mem_iff_getElem?.mp h
  rw [List.getElem?_modify] at hr'
  obtain ⟨m', hm', rfl⟩ := Option.map_eq_some_iff.mp hr'
  split
  case isTrue heq => exact .inr ⟨m', heq ▸ hm', rfl⟩
  case isFalse    => exact .inl (List.mem_of_getElem? hm')

omit [Codec] in
theorem getElem?_modify {ms : List Mutation} {g : Mutation → Mutation} {r r' : Nat} {m : Mutation}
    (h : (ms.modify r g)[r']? = some m) :
    (r' = r ∧ ∃ m', ms[r]? = some m' ∧ m = g m') ∨ (r' ≠ r ∧ ms[r']? = some m) := by
  rw [List.getElem?_modify] at h
  obtain ⟨m', hm', rfl⟩ := Option.map_eq_some_iff.mp h
  split
  case isTrue heq  => exact .inl ⟨heq.symm, m', heq ▸ hm', rfl⟩
  case isFalse hne => exact .inr ⟨Ne.symm hne, hm'⟩

-- The engine ends, or is terminated.
theorem endMutation_allowed (h : Sound s) : Allowed Sound Respects i s (s.endMutation r) := by
  have hg : Grows s (s.endMutation r) := by
    refine ⟨List.prefix_rfl, fun k hk => ⟨hk.forgotten, hk.accepted, fun m hm hmk => ?_⟩⟩
    obtain hm | ⟨m', -, rfl⟩ := mem_modify hm
    · exact hk.ended m hm hmk
    · rfl
  refine Change.allowed (.silent rfl hg.dead .refl (fun _ _ => .rfl) (fun c hc => ?_) (.inl rfl)
    fun c' _ => ?_) <|
    h.silent rfl hg.dead rfl h.receipts rfl .refl (fun c call hc => (h.calls c call hc).mono hg) ?_
      fun n => (h.clients n).mono hg
  · simp only [Desk.endMutation]
    split <;> simp_all
  · intro r' m hm hw
    obtain ⟨rfl, m', hm', rfl⟩ | ⟨-, hm⟩ := getElem?_modify hm
    · exact ⟨m', hm', hw, nofun⟩
    · exact ⟨m, hm, hw, id⟩
  · intro r' m hm
    obtain ⟨rfl, m', hm', rfl⟩ | ⟨hne, hm⟩ := getElem?_modify hm
    · exact ⟨(h.mutations r' m' hm').dispatched, (h.mutations r' m' hm').issued, nofun, nofun⟩
    · have hv := h.mutations r' m hm
      refine ⟨hv.dispatched, hv.issued, hv.waiting, fun hw => ?_⟩
      have ho := hv.holding hw
      simp [Desk.endMutation, ho, hne]

theorem hold_allowed (h : Sound s) (hr : s.phase r = some .waiting) (ho : s.operation = none) :
    Allowed Sound Respects (.engine r) s (s.hold r) := by
  obtain ⟨m, hm, hw⟩ := Option.map_eq_some_iff.mp hr
  have hg : Grows s (s.hold r) := by
    refine ⟨List.prefix_rfl, fun k hk => ⟨hk.forgotten, hk.accepted, fun m' hm' hmk => ?_⟩⟩
    obtain hm' | ⟨m'', hm'', rfl⟩ := mem_modify hm'
    · exact hk.ended m' hm' hmk
    · rw [hm] at hm''
      cases hm''
      have := hk.ended m (List.mem_of_getElem? hm) hmk
      simp [hw] at this
  refine Change.allowed (.silent rfl hg.dead .refl (fun _ _ => .rfl) (fun c hc => ?_) (.inl rfl)
    fun c' _ => ?_) <|
    h.silent rfl hg.dead rfl h.receipts rfl .refl (fun c call hc => (h.calls c call hc).mono hg) ?_
      fun n => (h.clients n).mono hg
  · simp [Desk.hold, ho]
  · intro r' m' hm' hw
    obtain ⟨rfl, m'', hm'', rfl⟩ | ⟨-, hm'⟩ := getElem?_modify hm'
    · exact ⟨m'', hm'', hw, nofun⟩
    · exact ⟨m', hm', hw, id⟩
  · intro r' m' hm'
    obtain ⟨rfl, m'', hm'', rfl⟩ | ⟨hne, hm'⟩ := getElem?_modify hm'
    · exact ⟨(h.mutations r' m'' hm'').dispatched, (h.mutations r' m'' hm'').issued, nofun, fun _ => rfl⟩
    · have hv := h.mutations r' m' hm'
      refine ⟨hv.dispatched, hv.issued, hv.waiting, fun hw => ?_⟩
      exact absurd (hv.holding hw) (by simp [ho])

theorem reply_allowed {reply : Except Failure InboxRemovalResult} (h : Sound s) :
    Allowed Sound Respects i s
      { s with mutations := s.mutations.modify r fun m => { m with reply := some reply } } := by
  have hg : Grows s { s with mutations := s.mutations.modify r fun m => { m with reply := some reply } } := by
    refine ⟨List.prefix_rfl, fun k hk => ⟨hk.forgotten, hk.accepted, fun m hm hmk => ?_⟩⟩
    obtain hm | ⟨m', hm', rfl⟩ := mem_modify hm
    · exact hk.ended m hm hmk
    · exact hk.ended m' (List.mem_of_getElem? hm') hmk
  refine Change.allowed (.silent rfl hg.dead .refl (fun _ _ => .rfl) (fun _ _ => .rfl) (.inl rfl)
    fun c' _ => ?_) <|
    h.silent rfl hg.dead rfl h.receipts rfl .refl (fun c call hc => (h.calls c call hc).mono hg) ?_
      fun n => (h.clients n).mono hg
  · intro r' m hm hw
    obtain ⟨rfl, m', hm', rfl⟩ | ⟨-, hm⟩ := getElem?_modify hm
    · exact ⟨m', hm', hw, id⟩
    · exact ⟨m, hm, hw, id⟩
  intro r' m hm
  obtain ⟨rfl, m', hm', rfl⟩ | ⟨-, hm⟩ := getElem?_modify hm
  · have hv := h.mutations r' m' hm'
    exact ⟨hv.dispatched, hv.issued, hv.waiting, hv.holding⟩
  · exact (h.mutations r' m hm).mono List.prefix_rfl rfl rfl

theorem stay_allowed (h : Sound s) : Allowed Sound Respects i s s := by
  refine Change.allowed (.silent rfl (fun _ => id) .refl (fun _ _ => .rfl) (fun _ _ => .rfl) (.inl rfl) fun _ _ => .refl) h

theorem acceptMutation_allowed (h : Sound s) :
    Allowed Sound Respects (.engine r) s (s.acceptMutation f r) := by
  simp only [Desk.acceptMutation]
  split
  case h_1 => exact stay_allowed h
  case h_2 m hm =>
    split
    case isFalse => exact stay_allowed h
    case isTrue hw =>
      split
      case h_2 => exact stay_allowed h
      case h_1 receipts ha =>
        have hv := h.mutations r m hm
        obtain ⟨-, hc⟩ | ⟨hnone, hexpired, -, n, rfl⟩ := accept_eq_ok ha
        · cases hc
        have hnew : ¬Accepted s.story m.requestId := by
          intro hk
          by_cases hr : Retired s.story m.requestId
          · exact hexpired (h.receipts.expired _ hr)
          · have := (h.receipts.kept _).mpr ⟨hk, hr⟩
            simp [hnone] at this
        have halive (k : Key) (hd : Dead s k) : m.requestId ≠ k := by
          intro hk
          have := hd.ended m (List.mem_of_getElem? hm) hk
          simp [hw] at this
        have hret : ¬Retired s.story m.requestId := fun hk => hexpired (h.receipts.expired _ hk)
        have hmissing : ¬MissingShown s.story m.requestId := by
          rintro ⟨p, records, hp, r, hr, hk, hm'⟩
          exact halive _ (h.shown p records hp r hr hm') hk.symm
        refine Change.allowed ⟨⟨[.accepted r m.requestId], rfl, by simp [Event.author]⟩, fun k hd => ?_,
          .refl, fun _ _ => .rfl, fun _ _ => .rfl, .inl rfl, .inr ⟨r, rfl, hv.holding hw⟩, fun _ _ => .refl⟩ ?_
        · exact hd.concat rfl (fun r' he => halive k hd (Event.accepted.inj he).right) rfl
        refine h.concat rfl ⟨hnew, hmissing, m.worker, hv.dispatched⟩ (fun k hd => ?_)
          (h.journal.concat nofun nofun) ⟨fun k => ?_, fun row hrow => ?_, fun k hk => ?_⟩ ?_ rfl nofun
          (fun r m hm => (h.mutations r m hm).mono (List.prefix_append _ _) rfl rfl) rfl rfl nofun
        · exact hd.concat rfl (fun r' he => halive k hd (Event.accepted.inj he).right) rfl
        · have hkept := h.receipts.kept k
          by_cases hk : m.requestId = k
          · subst hk
            simp [note, Table.get_put, Keyed.key, hret]
          · simp [note, Table.get_put, Keyed.key, hk, hkept]
        · obtain rfl | ⟨hrow, -⟩ := Table.mem_put.mp hrow
          · obtain ⟨c, hc⟩ := hv.issued
            exact ⟨m.target, ⟨c, by simp [note, hc]⟩, rfl, rfl⟩
          · obtain ⟨t, ⟨c, hc⟩, hmatch⟩ := h.receipts.rows row hrow
            exact ⟨t, ⟨c, by simp [note, hc]⟩, hmatch⟩
        · exact h.receipts.expired k (by simpa [note] using hk)
        · exact fun k t hk => h.tokens k t (by simpa [note] using hk)

theorem chore_allowed {chore : Chore} (h : Sound s) :
    Allowed Sound Respects .other s (s.chore chore) := by
  have hsilent (s' : Desk) (hs : s'.story = s.story ∧ s'.calls = s.calls ∧ s'.mutations = s.mutations ∧
      s'.client = s.client ∧ s'.journal = s.journal ∧ s'.issued = s.issued ∧
      s'.coordinator = s.coordinator ∧ s'.operation = s.operation)
      (hr : ReceiptsSound s'.receipts s'.clock s.story) : Allowed Sound Respects .other s s' := by
    obtain ⟨hs, hc, hm, hcl, hj, hi, hco, ho⟩ := hs
    have hg : Grows s s' := ⟨hs ▸ List.prefix_rfl, fun k hk => hk.of_eq hs hm⟩
    refine Change.allowed (.silent hs hg.dead (hc ▸ .refl) (fun _ _ => by rw [hco])
      (fun _ _ => by rw [ho]) (.inl hj) fun _ _ => hm ▸ .refl) <|
      h.silent hs hg.dead hj hr hi (hc ▸ .refl) ?_ ?_ ?_
    · rw [hc]
      exact fun c call hc => (h.calls c call hc).mono hg
    · rw [hm]
      exact fun r m hm => (h.mutations r m hm).mono hg.story hco ho
    · rw [hcl]
      exact fun n => (h.clients n).mono hg
  cases chore
  case pass time =>
    refine hsilent _ ⟨rfl, rfl, rfl, rfl, rfl, rfl, rfl, rfl⟩ ⟨h.receipts.kept, h.receipts.rows, ?_⟩
    intro k hk
    exact Int.le_trans (h.receipts.expired k hk) (Int.le_add_of_nonneg_right (Int.natCast_nonneg time))
  case complete k =>
    refine hsilent _ ⟨rfl, rfl, rfl, rfl, rfl, rfl, rfl, rfl⟩ ⟨fun k' => ?_, ?_, h.receipts.expired⟩
    · rw [← h.receipts.kept k']
      simp [Desk.chore]
    · intro row hrow
      simp only [Desk.chore, Table.mem_update] at hrow
      obtain ⟨row', hrow', rfl⟩ := hrow
      obtain ⟨t, ht⟩ := h.receipts.rows row' hrow'
      refine ⟨t, ?_⟩
      split <;> exact ht
  case retire k =>
    simp only [Desk.chore, Desk.retire]
    split
    case isFalse => exact stay_allowed h
    case isTrue hk =>
      obtain ⟨row, hrow⟩ : ∃ row, s.receipts.get k = some row := by
        cases hget : s.receipts.get k
        case none     => simp [hget] at hk
        case some row => exact ⟨row, rfl⟩
      have hacc : Accepted s.story k := ((h.receipts.kept k).mp (by simp [hrow])).left
      refine Change.allowed ⟨⟨[.retired k], rfl, by simp [Event.author]⟩,
        fun k' hd => hd.concat rfl nofun rfl, .refl, fun _ _ => .rfl, fun _ _ => .rfl, .inl rfl,
        .inl fun k' hk' => by simpa [note] using hk', fun _ _ => .refl⟩ ?_
      refine h.concat rfl hacc (fun k' hd => hd.concat rfl nofun rfl) (h.journal.concat nofun nofun)
        ⟨fun k' => ?_, fun row hrow => ?_, fun k' hk' => ?_⟩ ?_ rfl nofun
        (fun r m hm => (h.mutations r m hm).mono (List.prefix_append _ _) rfl rfl) rfl rfl nofun
      · have hkept := h.receipts.kept k'
        have hget : (s.receipts.delete (·.requestId = k)).get k' =
            if k' = k then none else s.receipts.get k' := Table.get_delete_key fun _ => rfl
        simp only [note]
        rw [hget]
        by_cases hk' : k' = k
        · simp [hk']
        · simp [hk', hkept, Ne.symm hk']
      · obtain ⟨t, ⟨c, hc⟩, hmatch⟩ := h.receipts.rows row (Table.mem_delete.mp hrow).left
        exact ⟨t, ⟨c, by simp [note, hc]⟩, hmatch⟩
      · simp only [note, retired_concat, Event.retired.injEq] at hk'
        obtain hk' | rfl := hk'
        · exact h.receipts.expired k' hk'
        · exact hk.left
      · exact fun k t hk => h.tokens k t (by simpa [note] using hk)

end Engine

section Page

variable {s : Desk} {k : Key} {t : Target} {a n : Nat} {command : Command} {g : Client → Client}

def Desk.post (s : Desk) (n : Nat) (command : Command) (e : Option (Nat → Event)) : Desk :=
  { s with
    calls := s.calls ++ [⟨n, command, false, none⟩]
    story := s.story ++ (e.map (· s.calls.length)).toList }

omit [Codec] in
theorem callsGrow_append {calls : List Call} {call : Call} : CallsGrow calls (calls ++ [call]) := by
  intro c call' hc
  refine ⟨call', ?_, rfl, rfl, id⟩
  rw [List.getElem?_append_left (List.getElem?_eq_some_iff.mp hc).choose]
  exact hc

omit [Codec] in
theorem getElem?_concat {calls : List Call} {call call' : Call} {c : Nat}
    (h : (calls ++ [call])[c]? = some call') :
    calls[c]? = some call' ∨ (c = calls.length ∧ call' = call) := by
  rw [List.getElem?_append] at h
  split at h
  case isTrue  => exact .inl h
  case isFalse hc =>
    rw [List.getElem?_singleton] at h
    split at h <;> cases h
    exact .inr ⟨by omega, rfl⟩

theorem post_allowed (h : Sound s) (hv : command.Valid s.calls.length s.story) :
    Allowed Sound Respects (.page n) s (s.post n command none) := by
  have hg : Grows s (s.post n command none) :=
    ⟨List.prefix_append _ _, fun k hk => hk.of_eq (by simp [Desk.post]) rfl⟩
  have hs : (s.post n command none).story = s.story := by simp [Desk.post]
  refine Change.allowed (.silent hs hg.dead callsGrow_append (fun _ _ => .rfl) (fun _ _ => .rfl)
    (.inl rfl) fun _ _ => .refl) <| h.silent hs hg.dead rfl h.receipts rfl callsGrow_append (fun c call hc => ?_)
      (fun r m hm => (h.mutations r m hm).mono hg.story rfl rfl) fun n => (h.clients n).mono hg
  obtain hc | ⟨rfl, rfl⟩ := getElem?_concat hc
  · exact (h.calls c call hc).mono hg
  · exact ⟨hs ▸ hv, nofun⟩

theorem request_allowed (h : Sound s) (ha : ∀ e ∈ s.story, e.requestedBy ≠ some a)
    (hi : .issued a k t ∈ s.story) (hpage : ∃ call, s.calls[a]? = some call ∧ call.page = n) :
    Allowed Sound Respects (.page n) s
      (s.post n (.mutate k t) (some fun c => .requested n a c k)) := by
  let s' := s.post n (.mutate k t) (some fun c => .requested n a c k)
  have hs : s'.story = s.story ++ [.requested n a s.calls.length k] := rfl
  have hg : Grows s s' := ⟨⟨_, hs.symm⟩, fun k hk => hk.concat hs nofun rfl⟩
  refine Change.allowed (t := s') ⟨⟨_, hs, by simp [Event.author]⟩, hg.dead, callsGrow_append,
    fun _ _ => .rfl, fun _ _ => .rfl, .inl rfl, .inl fun k' hk' => by simpa [hs] using hk', fun _ _ => .refl⟩ ?_
  have hmem (e : Event) (he : e ∈ s'.story) :
      e ∈ s.story ∨ e = .requested n a s.calls.length k := by
    simpa [hs] using he
  refine ⟨hs ▸ h.lawful.concat ⟨ha, t, hi⟩, hs ▸ h.journal.concat nofun nofun,
    hs ▸ h.receipts.concat nofun nofun, ?_, fun c call hc => ?_, fun e he c hc => ?_,
    fun n' a' d k' he => ?_, fun r m hm => (h.mutations r m hm).mono hg.story rfl rfl,
    fun n => (h.clients n).mono hg, fun n' records he r hr hm => ?_⟩
  · exact fun k t hk => h.tokens k t (by simpa [hs] using hk)
  · obtain hc | ⟨rfl, rfl⟩ := getElem?_concat hc
    · exact (h.calls c call hc).mono hg
    · exact ⟨⟨n, a, by simp [hs], by simp [hs, hi]⟩, nofun⟩
  · obtain he | rfl := hmem _ he
    · obtain ⟨call, hcall, ht⟩ := h.served e he c hc
      obtain ⟨call', hcall', hb⟩ := callsGrow_append c call hcall
      exact ⟨call', hcall', hb.taken ht⟩
    · cases hc
  · have hgrow (call : Call) (hcall : s.calls[a']? = some call) (hp : call.page = n') :
        ∃ call, s'.calls[a']? = some call ∧ call.page = n' := by
      obtain ⟨call', hcall', hb⟩ := callsGrow_append a' call hcall
      exact ⟨call', hcall', hb.page.trans hp⟩
    obtain he | he := hmem _ he
    · obtain ⟨call, hcall, hp⟩ := h.asked n' a' d k' he
      exact hgrow call hcall hp
    · cases he
      obtain ⟨call, hcall, hp⟩ := hpage
      exact hgrow call hcall hp
  · obtain he | he := hmem _ he
    · exact hg.dead _ (h.shown n' records he r hr hm)
    · cases he

def Desk.change (s : Desk) (n : Nat) (g : Client → Client) : Desk :=
  note (.shown n (g (s.client n)).records.rows)
    { s with client := Function.update s.client n (g (s.client n)) }

theorem change_allowed (h : Sound s) (hv : (g (s.client n)).Valid s) :
    Allowed Sound Respects (.page n) s (s.change n g) := by
  have hg : Grows s (s.change n g) := ⟨List.prefix_append _ _, fun k hk => hk.concat rfl nofun rfl⟩
  refine Change.allowed ⟨⟨_, rfl, by simp [Event.author]⟩, hg.dead, .refl, fun _ _ => .rfl,
    fun _ _ => .rfl, .inl rfl, .inl fun k hk => by simpa [Desk.change, note] using hk, fun _ _ => .refl⟩ ?_
  have hmem (e : Event) (he : e ∈ (s.change n g).story) :
      e ∈ s.story ∨ e = .shown n (g (s.client n)).records.rows := by
    simpa [Desk.change, note] using he
  refine ⟨h.lawful.concat fun r hr hm => ?_, h.journal.concat nofun nofun,
    h.receipts.concat nofun nofun, ?_, fun c call hc => (h.calls c call hc).mono hg,
    fun e he c hc => ?_, fun n' a d k he => ?_,
    fun r m hm => (h.mutations r m hm).mono hg.story rfl rfl, fun n' => ?_, fun n' records he r hr hm => ?_⟩
  · have hd := hv.records r hr hm
    exact ⟨hd.forgotten, hd.accepted⟩
  · exact fun k t hk => h.tokens k t (by simpa [Desk.change, note] using hk)
  · obtain he | rfl := hmem _ he
    · exact h.served e he c hc
    · cases hc
  · obtain he | he := hmem _ he
    · exact h.asked n' a d k he
    · cases he
  · by_cases hn : n' = n
    · subst hn
      simpa [Desk.change, note] using hv.mono hg
    · simpa [Desk.change, note, hn] using (h.clients n').mono hg
  · obtain he | he := hmem _ he
    · exact hg.dead _ (h.shown n' records he r hr hm)
    · cases he
      exact hg.dead _ (hv.records r hr hm)

theorem client_allowed {c : Client} (h : Sound s) (hv : c.Valid s) :
    Allowed Sound Respects (.page n) s { s with client := Function.update s.client n c } := by
  have hg : Grows s { s with client := Function.update s.client n c } :=
    ⟨List.prefix_rfl, fun k hk => hk.of_eq rfl rfl⟩
  refine Change.allowed (.silent rfl hg.dead .refl (fun _ _ => .rfl) (fun _ _ => .rfl) (.inl rfl) fun _ _ => .refl) <|
    h.silent rfl hg.dead rfl h.receipts rfl .refl (fun c call hc => (h.calls c call hc).mono hg)
      (fun r m hm => (h.mutations r m hm).mono hg.story rfl rfl) fun n' => ?_
  by_cases hn : n' = n
  · subst hn
    simpa using hv.mono hg
  · simpa [hn] using (h.clients n').mono hg

end Page

end Removal
