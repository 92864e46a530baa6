import EmailWatcher.Removal.Desk

-- What holds of the desk between any two steps.
namespace Removal

open Script Story

section Story

variable (story : List Event) (k : Key)

def Issued (t : Target) : Prop :=
  ∃ c, .issued c k t ∈ story

def Remembered : Prop :=
  ∃ c, .remembered c k ∈ story

def Forgotten : Prop :=
  ∃ c, .forgotten c k ∈ story

def Accepted : Prop :=
  ∃ r, .accepted r k ∈ story

def Retired : Prop :=
  .retired k ∈ story

-- That a page has been given the receipt of a completed removal.
def CompletedShown : Prop :=
  ∃ n records, .shown n records ∈ story ∧
    ∃ r ∈ records, r.request.requestId = k ∧ r.isCompleted = true

-- That a page has been told that a removal is missing.
def MissingShown : Prop :=
  ∃ n records, .shown n records ∈ story ∧ ∃ r ∈ records, r.request.requestId = k ∧ r.Missing

variable {story k} {e : Event} {t : Target}

@[simp]
theorem issued_concat : Issued (story ++ [e]) k t ↔ Issued story k t ∨ ∃ c, e = .issued c k t := by
  simp [Issued, exists_or, eq_comm]

@[simp]
theorem remembered_concat :
    Remembered (story ++ [e]) k ↔ Remembered story k ∨ ∃ c, e = .remembered c k := by
  simp [Remembered, exists_or, eq_comm]

@[simp]
theorem forgotten_concat :
    Forgotten (story ++ [e]) k ↔ Forgotten story k ∨ ∃ c, e = .forgotten c k := by
  simp [Forgotten, exists_or, eq_comm]

@[simp]
theorem accepted_concat : Accepted (story ++ [e]) k ↔ Accepted story k ∨ ∃ r, e = .accepted r k := by
  simp [Accepted, exists_or, eq_comm]

@[simp]
theorem retired_concat : Retired (story ++ [e]) k ↔ Retired story k ∨ e = .retired k := by
  simp [Retired, eq_comm]

end Story

section Justification

namespace Event

-- The process that an event is due to.
def author : Event → Process
  | issued c _ _      => .worker c
  | remembered c _    => .worker c
  | forgotten c _     => .worker c
  | requested n _ _ _ => .page n
  | dispatched c _    => .worker c
  | accepted r _      => .engine r
  | retired _         => .other
  | shown n _         => .page n

-- The call that is served by an event.
def servedBy : Event → Option Nat
  | issued c _ _   => some c
  | dispatched c _ => some c
  | _              => none

-- The action that asks for a removal by an event.
def requestedBy : Event → Option Nat
  | requested _ a _ _ => some a
  | _                 => none

end Event

-- What has happened before an event.
def Justified (before : List Event) : Event → Prop
  | .issued c k t      =>
    (∀ e ∈ before, e.servedBy ≠ some c) ∧ (∀ t, ¬Issued before k t) ∧ removalParameters t = .ok ()
  | .remembered c k    => ¬Remembered before k ∧ ∃ t, .issued c k t ∈ before
  | .forgotten _ k     =>
    Remembered before k ∧ (Accepted before k → ¬Retired before k → CompletedShown before k)
  | .requested _ a _ k => (∀ e ∈ before, e.requestedBy ≠ some a) ∧ ∃ t, .issued a k t ∈ before
  | .dispatched d k    =>
    (∀ e ∈ before, e.servedBy ≠ some d) ∧ ∃ n a, .requested n a d k ∈ before
  | .accepted _ k      => ¬Accepted before k ∧ ¬MissingShown before k ∧ ∃ d, .dispatched d k ∈ before
  | .retired k         => Accepted before k
  | .shown _ records   => ∀ r ∈ records, r.Missing →
    Forgotten before r.request.requestId ∧ ¬Accepted before r.request.requestId

variable {story : List Event} {k : Key} {t t' : Target} {c c' : Nat}

-- A key is issued once.
theorem issued_unique (h : Lawful Justified story) (hc : .issued c k t ∈ story)
    (hc' : .issued c' k t' ∈ story) : c = c' ∧ t = t' := by
  have heq : Event.issued c k t = .issued c' k t' := by
    refine h.eq_of_mem (p := fun e => ∃ c t, e = .issued c k t) ?_ hc hc' ⟨c, t, rfl⟩ ⟨c', t', rfl⟩
    rintro before _ hj ⟨c, t, rfl⟩ _ he ⟨c', t', rfl⟩
    exact hj.right.left t' ⟨c', he⟩
  cases heq
  exact ⟨rfl, rfl⟩

theorem Issued.unique (h : Lawful Justified story) (hk : Issued story k t) (hk' : Issued story k t') :
    t = t' := by
  obtain ⟨_, hk⟩ := hk
  obtain ⟨_, hk'⟩ := hk'
  exact (issued_unique h hk hk').right

theorem Issued.valid (h : Lawful Justified story) (hk : Issued story k t) :
    removalParameters t = .ok () := by
  obtain ⟨c, hc⟩ := hk
  obtain ⟨_, -, hj⟩ := h.of_mem hc
  exact hj.right.right

theorem Remembered.issued (h : Lawful Justified story) (hc : .remembered c k ∈ story) :
    ∃ t, .issued c k t ∈ story := by
  obtain ⟨_, hp, hj⟩ := h.of_mem hc
  obtain ⟨t, ht⟩ := hj.right
  exact ⟨t, hp.subset ht⟩

theorem Forgotten.remembered (h : Lawful Justified story) (hk : Forgotten story k) :
    Remembered story k := by
  obtain ⟨c, hc⟩ := hk
  obtain ⟨_, hp, hj⟩ := h.of_mem hc
  obtain ⟨c', hc'⟩ := hj.left
  exact ⟨c', hp.subset hc'⟩

end Justification

section Soundness

variable [Codec]

-- No engine can accept the removal of a key that is dead.
structure Dead (s : Desk) (k : Key) : Prop where
  forgotten : Forgotten s.story k
  accepted  : ¬Accepted s.story k
  ended     : ∀ m ∈ s.mutations, m.requestId = k → m.phase = .ended

-- A request that has been in the journal.
structure SavedRemoval.Known (story : List Event) (r : SavedRemoval) : Prop where
  remembered : Remembered story r.requestId
  issued     : Issued story r.requestId r.target

def Command.Valid (d : Nat) (story : List Event) : Command → Prop
  | prepare _     => True
  | saved         => True
  | status r      => r.Known story
  | acknowledge k => CompletedShown story k
  | mutate k t    => ∃ n a, .requested n a d k ∈ story ∧ .issued a k t ∈ story

-- What is to be relied on of a reply.
def Command.Answered (c : Nat) (s : Desk) : Command → Except Failure Reply → Prop
  | prepare t, reply => ∀ k, reply = .ok (.prepared k) →
    .issued c k t ∈ s.story ∧ Remembered s.story k
  | saved,     reply => ∀ rs, reply = .ok (.saved rs) → ∀ r ∈ rs, r.Known s.story
  | status r,  reply => ∀ e, reply = .error e → e.code = .notFound → Dead s r.requestId
  | _,         _     => True

structure Call.Valid (c : Nat) (s : Desk) (call : Call) : Prop where
  command : call.command.Valid c s.story
  reply   : ∀ reply, call.reply = some reply → call.command.Answered c s reply

structure Mutation.Valid (r : Nat) (s : Desk) (m : Mutation) : Prop where
  dispatched : .dispatched m.worker m.requestId ∈ s.story
  issued     : Issued s.story m.requestId m.target
  -- While an engine waits, its worker waits for it.
  waiting    : m.phase = .waiting → s.coordinator = some m.worker
  holding    : m.phase = .holding → s.operation = some (.engine r)

structure Client.Valid (s : Desk) (c : Client) : Prop where
  records   : ∀ r ∈ c.records, r.Missing → Dead s r.request.requestId
  restoring : ∀ r ∈ c.restoring, r.Known s.story

structure JournalSound (journal : List SavedRemoval) (story : List Event) : Prop where
  nodup   : (journal.map (·.requestId)).Nodup
  kept    : ∀ k, k ∈ journal.map (·.requestId) ↔ Remembered story k ∧ ¬Forgotten story k
  entries : ∀ r ∈ journal, Issued story r.requestId r.target

structure ReceiptsSound (receipts : Table Receipt) (clock : Instant) (story : List Event) : Prop where
  kept    : ∀ k, (receipts.get k).isSome ↔ Accepted story k ∧ ¬Retired story k
  rows    : ∀ r ∈ receipts, ∃ t, Issued story r.requestId t ∧ r.Matches t
  expired : ∀ k, Retired story k → k.Expired clock

structure Sound (s : Desk) : Prop where
  lawful    : Lawful Justified s.story
  journal   : JournalSound s.journal s.story
  receipts  : ReceiptsSound s.receipts s.clock s.story
  tokens    : ∀ k t, Issued s.story k t → k.token < s.issued
  calls     : ∀ c (call : Call), s.calls[c]? = some call → call.Valid c s
  served    : ∀ e ∈ s.story, ∀ c, e.servedBy = some c →
    ∃ call, s.calls[c]? = some call ∧ call.taken = true
  asked     : ∀ n a d k, .requested n a d k ∈ s.story → ∃ call, s.calls[a]? = some call ∧ call.page = n
  mutations : ∀ r (m : Mutation), s.mutations[r]? = some m → m.Valid r s
  clients   : ∀ n, (s.client n).Valid s
  shown     : ∀ n records, .shown n records ∈ s.story → ∀ r ∈ records, r.Missing →
    Dead s r.request.requestId

-- What is remembered for ever.
structure Grows (s s' : Desk) : Prop where
  story : s.story <+: s'.story
  dead  : ∀ k, Dead s k → Dead s' k

structure Call.Becomes (call call' : Call) : Prop where
  page    : call'.page = call.page
  command : call'.command = call.command
  taken   : call.taken = true → call'.taken = true

def CallsGrow (calls calls' : List Call) : Prop :=
  ∀ (c : Nat) (call : Call), calls[c]? = some call →
    ∃ call', calls'[c]? = some call' ∧ call.Becomes call'

-- The others neither dispatch in the name of a worker, nor let an engine wait again.
def Mine (c : Nat) (ms ms' : List Mutation) : Prop :=
  ∀ (r : Nat) (m' : Mutation), ms'[r]? = some m' → m'.worker = c →
    ∃ m, ms[r]? = some m ∧ m.worker = c ∧ (m'.phase = .waiting → m.phase = .waiting)

-- What the other processes leave to a process.
structure Respects (i : Process) (s s' : Desk) : Prop where
  sound       : Sound s'
  grows       : Grows s s'
  authored    : ∀ e ∈ s'.story, e.author = i → e ∈ s.story
  calls       : CallsGrow s.calls s'.calls
  coordinator : ∀ c, i = .worker c → (s'.coordinator = some c ↔ s.coordinator = some c)
  operation   : ∀ c, i = .worker c → (s'.operation = some (.worker c) ↔ s.operation = some (.worker c))
  journal     : ∀ c, i = .worker c → s.coordinator = some c → s'.journal = s.journal
  accepted    : ∀ c, i = .worker c → s.operation = some (.worker c) →
    ∀ k, Accepted s'.story k → Accepted s.story k
  mutations   : ∀ c, i = .worker c → Mine c s.mutations s'.mutations

-- What a step of a process may change.
structure Change (i : Process) (s s' : Desk) : Prop where
  story       : ∃ new, s'.story = s.story ++ new ∧ ∀ e ∈ new, e.author = i
  dead        : ∀ k, Dead s k → Dead s' k
  calls       : CallsGrow s.calls s'.calls
  coordinator : ∀ c, i ≠ .worker c → (s'.coordinator = some c ↔ s.coordinator = some c)
  operation   : ∀ c, i ≠ .worker c →
    (s'.operation = some (.worker c) ↔ s.operation = some (.worker c))
  journal     : s'.journal = s.journal ∨ ∃ c, i = .worker c ∧ s.coordinator = some c
  accepted    : (∀ k, Accepted s'.story k → Accepted s.story k) ∨
    ∃ r, i = .engine r ∧ s.operation = some (.engine r)
  mutations   : ∀ c, i ≠ .worker c → Mine c s.mutations s'.mutations

variable {i : Process} {s s' : Desk}

omit [Codec] in
theorem Change.grows (h : Change i s s') : Grows s s' := by
  obtain ⟨new, hs, -⟩ := h.story
  exact ⟨⟨new, hs.symm⟩, h.dead⟩

theorem Change.allowed {t : Desk} (h : Change i s t) (hs : Sound t) : Allowed Sound Respects i s t := by
  refine ⟨hs, fun j hj => ⟨hs, h.grows, ?_, h.calls, ?_, ?_, ?_, ?_, ?_⟩⟩
  · obtain ⟨new, hnew, hi⟩ := h.story
    intro e he ha
    rw [hnew, List.mem_append] at he
    exact he.resolve_right fun he => hj (ha.symm.trans (hi e he))
  · rintro c rfl
    exact h.coordinator c hj.symm
  · rintro c rfl
    exact h.operation c hj.symm
  · rintro c rfl hc
    obtain h | ⟨c', rfl, hc'⟩ := h.journal
    · exact h
    · rw [hc] at hc'
      cases hc'
      exact absurd rfl hj
  · rintro c rfl hc
    obtain h | ⟨r, -, hr⟩ := h.accepted
    · exact h
    · rw [hc] at hr
      cases hr
  · rintro c rfl
    exact h.mutations c hj.symm

omit [Codec] in
theorem Mine.refl {c : Nat} {ms : List Mutation} : Mine c ms ms :=
  fun _ m hm hc => ⟨m, hm, hc, id⟩

section Growth

variable {story story' : List Event} {k : Key}

omit [Codec] in
theorem SavedRemoval.Known.mono {r : SavedRemoval} (h : r.Known story) (hs : story <+: story') :
    r.Known story' := by
  obtain ⟨⟨c, hc⟩, ⟨c', hc'⟩⟩ := h
  exact ⟨⟨c, hs.subset hc⟩, ⟨c', hs.subset hc'⟩⟩

omit [Codec] in
theorem CompletedShown.mono (h : CompletedShown story k) (hs : story <+: story') :
    CompletedShown story' k := by
  obtain ⟨n, records, hn, h⟩ := h
  exact ⟨n, records, hs.subset hn, h⟩

omit [Codec] in
theorem Command.Valid.mono {d : Nat} {command : Command} (h : command.Valid d story)
    (hs : story <+: story') : command.Valid d story' := by
  cases command
  case prepare     => trivial
  case saved       => trivial
  case status      => exact SavedRemoval.Known.mono h hs
  case acknowledge => exact CompletedShown.mono h hs
  case mutate      =>
    obtain ⟨n, a, hr, hi⟩ := h
    exact ⟨n, a, hs.subset hr, hs.subset hi⟩

omit [Codec] in
theorem Command.Answered.mono {c : Nat} {command : Command} {reply : Except Failure Reply}
    (h : command.Answered c s reply) (hg : Grows s s') : command.Answered c s' reply := by
  cases command
  case prepare =>
    intro k hk
    obtain ⟨hi, c', hr⟩ := h k hk
    exact ⟨hg.story.subset hi, c', hg.story.subset hr⟩
  case saved   => exact fun rs hrs r hr => (h rs hrs r hr).mono hg.story
  case status  => exact fun e he hn => hg.dead _ (h e he hn)
  all_goals trivial

omit [Codec] in
theorem Call.Valid.mono {c : Nat} {call : Call} (h : call.Valid c s) (hg : Grows s s') :
    call.Valid c s' :=
  ⟨h.command.mono hg.story, fun reply hr => (h.reply reply hr).mono hg⟩

omit [Codec] in
theorem Client.Valid.mono {c : Client} (h : c.Valid s) (hg : Grows s s') : c.Valid s' :=
  ⟨fun r hr hm => hg.dead _ (h.records r hr hm), fun r hr => (h.restoring r hr).mono hg.story⟩

omit [Codec] in
theorem Mutation.Valid.mono {r : Nat} {m : Mutation} (h : m.Valid r s) (hs : s.story <+: s'.story)
    (hc : s'.coordinator = s.coordinator) (ho : s'.operation = s.operation) : m.Valid r s' := by
  obtain ⟨c, hi⟩ := h.issued
  exact ⟨hs.subset h.dispatched, ⟨c, hs.subset hi⟩, fun hw => hc ▸ h.waiting hw,
    fun hw => ho ▸ h.holding hw⟩

omit [Codec] in
theorem CallsGrow.refl {calls : List Call} : CallsGrow calls calls :=
  fun _ call h => ⟨call, h, rfl, rfl, id⟩

omit [Codec] in
theorem Dead.of_eq (h : Dead s k) (hs : s'.story = s.story) (hm : s'.mutations = s.mutations) :
    Dead s' k :=
  ⟨hs ▸ h.forgotten, hs ▸ h.accepted, hm ▸ h.ended⟩

end Growth

end Soundness

end Removal
