import EmailWatcher.Removal.Steps

-- The commands of the host do what the pages and the engines rest on.
namespace Removal

open Script Story

variable [Codec]

section Rules

variable {α β : Type}

structure At (A : Desk → Prop) (s : Desk) : Prop where
  sound : Sound s
  holds : A s

-- What the others leave true.
def Steady (i : Process) (A : Desk → Prop) : Prop :=
  ∀ s s', Sound s → A s → Respects i s s' → A s'

-- What stays true for ever.
def Lasting (A : Desk → Prop) : Prop :=
  ∀ s s', Grows s s' → A s → A s'

abbrev Obeying (i : Process) (Q : Except Failure α → Desk → Prop) (x : Program α) (s : Desk) : Prop :=
  Obeys (Respects i) (Allowed Sound Respects i) Q x s

-- How a program ends: with a result, or with a failure.
def Ends (P : α → Desk → Prop) (E : Failure → Desk → Prop) : Except Failure α → Desk → Prop
  | .ok a,    s => At (P a) s
  | .error e, s => At (E e) s

-- A failure that is not one of the engine's verdicts.
def Failure.Troubled (e : Failure) : Prop :=
  ∃ code, e.code = .other code

variable {i : Process} {A A' B : Desk → Prop} {P P' : α → Desk → Prop} {P'' : β → Desk → Prop}
  {E E' : Failure → Desk → Prop} {x : Program α} {s s' : Desk} {f : Circumstances} {p : Point}

theorem Lasting.steady (h : Lasting A) : Steady i A :=
  fun s s' _ ha hr => h s s' hr.grows ha

theorem Steady.and (ha : Steady i A) (hb : Steady i B) : Steady i fun s => A s ∧ B s :=
  fun s s' hs h hr => ⟨ha s s' hs h.left hr, hb s s' hs h.right hr⟩

theorem At.imp (h : At A s) (hb : A s → B s) : At B s :=
  ⟨h.sound, hb h.holds⟩

theorem At.stable (hA : Steady i A) : Stable (Respects i) (At A) :=
  fun s s' h hr => ⟨hr.sound, hA s s' h.sound h.holds hr⟩

theorem ends_mono (h : Obeying i (Ends P E) x s) (hp : ∀ a s, Sound s → P a s → P' a s)
    (he : ∀ e s, Sound s → E e s → E' e s) : Obeying i (Ends P' E') x s := by
  refine h.mono fun r s h => ?_
  cases r
  · exact ⟨h.sound, he _ s h.sound h.holds⟩
  · exact ⟨h.sound, hp _ s h.sound h.holds⟩

theorem bind_obeys {g : α → Program β} (h : Obeying i (Ends P E) x s)
    (hg : ∀ a s, At (P a) s → Obeying i (Ends P'' E) (g a) s) : Obeying i (Ends P'' E) (x >>= g) s :=
  h.bind hg fun _ _ h => h

theorem ret_obeys {a : α} (hA : Steady i A) (hp : ∀ s, Sound s → A s → P a s) (h : At A s) :
    Obeying i (Ends P E) (ret a) s :=
  .of_pure (At.stable hA) (fun s h => ⟨h.sound, hp s h.sound h.holds⟩) h

theorem raise_obeys {e : Failure} (hA : Steady i A) (he : ∀ s, Sound s → A s → E e s) (h : At A s) :
    Obeying i (Ends P E) (raise e : Program α) s :=
  .of_raise (At.stable hA) (fun s h => ⟨h.sound, he s h.sound h.holds⟩) h

theorem done_obeys {r : Except Failure α} (hA : Steady i A) (hp : ∀ a, r = .ok a → ∀ s, A s → P a s)
    (he : ∀ e, r = .error e → ∀ s, A s → E e s) (h : At A s) :
    Obeying i (Ends P E) (done r) s := by
  cases r
  case ok a    => exact ret_obeys hA (fun s _ => hp a rfl s) h
  case error e => exact raise_obeys hA (fun s _ => he e rfl s) h

theorem meet_obeys (hA : Steady i A) (h : At A s) :
    Obeying i (Ends (fun _ => A) fun e s => e.Troubled ∧ A s) (meet f p) s := by
  simp only [meet]
  split
  case h_1 t _ => exact raise_obeys hA (fun s _ h => ⟨⟨t.code, rfl⟩, h⟩) h
  case h_2     => exact ret_obeys hA (fun _ _ h => h) h

theorem require_obeys {c : Prop} [Decidable c] {e : Failure} (hA : Steady i A) (h : At A s) :
    Obeying i (Ends (fun _ s => c ∧ A s) fun e' s => e' = e ∧ A s) (Script.require c e) s := by
  unfold Script.require
  split
  case isTrue hc => exact ret_obeys hA (fun _ _ h => ⟨hc, h⟩) h
  case isFalse   => exact raise_obeys hA (fun _ _ h => ⟨rfl, h⟩) h

-- A step that writes, and returns what it has read.
theorem step_obeys {w : Desk → Desk} {a : Desk → α} (hA : Steady i A) (hP : ∀ x, Steady i (P x))
    (hw : ∀ s, Sound s → A s → Allowed Sound Respects i s (w s) ∧ P (a s) (w s)) (h : At A s) :
    Obeying i (Ends P E) (step w fun s => ret (a s)) s := by
  refine .of_step (At.stable hA) (fun s h => ?_) h
  obtain ⟨hallowed, hp⟩ := hw s h.sound h.holds
  exact ⟨hallowed, ret_obeys (hP _) (fun _ _ h => h) ⟨hallowed.left, hp⟩⟩

theorem read_obeys {a : Desk → α} (hA : Steady i A) (hP : ∀ x, Steady i (P x))
    (hp : ∀ s, Sound s → A s → P (a s) s) (h : At A s) :
    Obeying i (Ends P E) (Script.read a) s :=
  step_obeys hA hP (fun s hs ha => ⟨stay_allowed hs, hp s hs ha⟩) h

theorem attempt_obeys {c : Desk → Prop} [DecidablePred c] {w : Desk → Desk} {e : Failure}
    (hA : Steady i A) (hB : Steady i B)
    (hw : ∀ s, Sound s → A s → c s → Allowed Sound Respects i s (w s) ∧ B (w s)) (h : At A s) :
    Obeying i (Ends (fun _ => B) fun e' s => e' = e ∧ A s) (attempt c w e) s := by
  refine .of_step (At.stable hA) (fun s h => ?_) h
  split
  case isTrue hc =>
    obtain ⟨hallowed, hb⟩ := hw s h.sound h.holds hc
    exact ⟨hallowed, ret_obeys hB (fun _ _ h => h) ⟨hallowed.left, hb⟩⟩
  case isFalse   => exact ⟨stay_allowed h.sound, raise_obeys hA (fun _ _ h => ⟨rfl, h⟩) h⟩

theorem capture_obeys (h : Obeying i (Ends P E) x s) :
    Obeying i (Ends (fun r s => (∀ a, r = .ok a → P a s) ∧ ∀ e, r = .error e → E e s) E') x.capture s :=
  h.capture fun r s h => by
    cases r
    case error e =>
      refine ⟨h.sound, nofun, fun e' he => ?_⟩
      cases he
      exact h.holds
    case ok a    =>
      refine ⟨h.sound, fun a' ha => ?_, nofun⟩
      cases ha
      exact h.holds

end Rules

section Knowledge

variable {c : Nat} {inside locked : Bool} {command : Command} {s s' : Desk} {k : Key} {t : Target}

-- No engine of a worker waits.
def Quiet (c : Nat) (s : Desk) : Prop :=
  ∀ (r : Nat) (m : Mutation), s.mutations[r]? = some m → m.worker = c → m.phase ≠ .waiting

def Fresh (c : Nat) (s : Desk) : Prop :=
  ∀ e ∈ s.story, e.servedBy ≠ some c

-- Where a worker is with its call.
structure Stands (c : Nat) (inside locked : Bool) (command : Command) (s : Desk) : Prop where
  coordinator : s.coordinator = some c ↔ inside = true
  operation   : s.operation = some (.worker c) ↔ locked = true
  taken       : ∃ call, s.calls[c]? = some call ∧ call.command = command ∧ call.taken = true
  quiet       : Quiet c s

theorem quiet_steady : Steady (.worker c) (Quiet c) := by
  intro s s' _ h hr r m hm hw hp
  obtain ⟨m', hm', hw', hp'⟩ := hr.mutations c rfl r m hm hw
  exact h r m' hm' hw' (hp' hp)

theorem fresh_steady : Steady (.worker c) (Fresh c) := by
  intro s s' _ h hr e he hc
  have hauthor : e.author = .worker c := by
    cases e <;> simp_all [Event.servedBy, Event.author]
  exact h e (hr.authored e he hauthor) hc

omit [Codec] in
theorem taken_lasting {s s' : Desk} (hr : CallsGrow s.calls s'.calls)
    (h : ∃ call, s.calls[c]? = some call ∧ call.command = command ∧ call.taken = true) :
    ∃ call, s'.calls[c]? = some call ∧ call.command = command ∧ call.taken = true := by
  obtain ⟨call, hcall, hcommand, htaken⟩ := h
  obtain ⟨call', hcall', hb⟩ := hr c call hcall
  exact ⟨call', hcall', hb.command.trans hcommand, hb.taken htaken⟩

theorem stands_steady : Steady (.worker c) (Stands c inside locked command) := by
  intro s s' hs h hr
  exact ⟨(hr.coordinator c rfl).trans h.coordinator, (hr.operation c rfl).trans h.operation,
    taken_lasting hr.calls h.taken, quiet_steady s s' hs h.quiet hr⟩

-- A worker that has dispatched nothing has no engine at all.
theorem Fresh.quiet (h : Fresh c s) (hs : Sound s) : Quiet c s := by
  rintro r m hm rfl
  exact absurd rfl (h _ (hs.mutations r m hm).dispatched)

end Knowledge

section Host

variable {α : Type} {c : Nat} {inside locked : Bool} {command : Command} {s s' : Desk} {k : Key}
  {t : Target} {f : Circumstances} {p : Point} {A B : Desk → Prop} {P : α → Desk → Prop}
  {E : Failure → Desk → Prop} {x body : Program α} {js : List SavedRemoval}

-- What is known after a failure: nothing, if it is mere trouble.
structure Tolerant (E : Failure → Desk → Prop) : Prop where
  lasting  : ∀ e, Lasting (E e)
  troubled : ∀ e s, e.Troubled → E e s

-- What a worker knows besides where it is.
abbrev Worker (c : Nat) (inside locked : Bool) (command : Command) (A : Desk → Prop) (s : Desk) : Prop :=
  Stands c inside locked command s ∧ A s

theorem Worker.steady (hA : Steady (.worker c) A) :
    Steady (.worker c) (Worker c inside locked command A) :=
  stands_steady.and hA

theorem worker_meet (hE : Tolerant E) (hA : Steady (.worker c) (Worker c inside locked command A))
    (h : At (Worker c inside locked command A) s) :
    Obeying (.worker c) (Ends (fun _ => Worker c inside locked command A)
      fun e => Worker c inside locked command (E e)) (meet f p) s :=
  ends_mono (meet_obeys hA h) (fun _ _ _ h => h) fun e s _ h => ⟨h.right.left, hE.troubled e s h.left⟩

-- As long as a worker is inside, nobody else writes the journal.
theorem journal_steady (hA : Steady (.worker c) (Worker c true locked command A)) :
    Steady (.worker c) (Worker c true locked command fun s => A s ∧ s.journal = js) := by
  intro s s' hs h hr
  have h' := hA s s' hs ⟨h.left, h.right.left⟩ hr
  refine ⟨h'.left, h'.right, ?_⟩
  rw [hr.journal c rfl (h.left.coordinator.mpr rfl)]
  exact h.right.right

theorem readJournal_obeys (hE : Tolerant E) (hA : Steady (.worker c) (Worker c true locked command A))
    (h : At (Worker c true locked command A) s) :
    Obeying (.worker c) (Ends (fun js => Worker c true locked command fun s => A s ∧ s.journal = js)
      fun e => Worker c true locked command (E e)) (readJournal f p) s := by
  refine bind_obeys (worker_meet hE hA h) fun _ s h => ?_
  refine bind_obeys (read_obeys (P := fun js => Worker c true locked command fun s => A s ∧ s.journal = js)
    hA (fun js => journal_steady hA) (fun s _ h => ⟨h.left, h.right, rfl⟩) h) fun js s h => ?_
  refine bind_obeys (ends_mono (require_obeys (journal_steady hA) h) (fun _ _ _ h => h) ?_) fun _ s h => ?_
  · rintro e s - ⟨rfl, h⟩
    exact ⟨h.left, hE.troubled _ s ⟨_, rfl⟩⟩
  · exact ret_obeys (journal_steady hA) (fun _ _ h => h) (h.imp And.right)

-- A key that a worker has issued is remembered by nobody else.
theorem unremembered_steady :
    Steady (.worker c) fun s => .issued c k t ∈ s.story ∧ ¬Remembered s.story k := by
  rintro s s' - ⟨hi, hn⟩ hr
  have hi' := hr.grows.story.subset hi
  refine ⟨hi', ?_⟩
  rintro ⟨c', hc'⟩
  obtain ⟨t', ht'⟩ := Remembered.issued hr.sound.lawful hc'
  obtain ⟨rfl, -⟩ := issued_unique hr.sound.lawful hi' ht'
  exact hn ⟨c, hr.authored _ hc' rfl⟩

-- A key that is ready to be returned.
def Prepared (c : Nat) (k : Key) (t : Target) (s : Desk) : Prop :=
  .issued c k t ∈ s.story ∧ Remembered s.story k

omit [Codec] in
theorem prepared_lasting : Lasting (Prepared c k t) := by
  rintro s s' hg ⟨hi, c', hc'⟩
  exact ⟨hg.story.subset hi, c', hg.story.subset hc'⟩

theorem remember_obeys (hE : Tolerant E)
    (h : At (Worker c true locked command fun s => .issued c k t ∈ s.story ∧ ¬Remembered s.story k) s) :
    Obeying (.worker c) (Ends (fun _ => Worker c true locked command (Prepared c k t))
      fun e => Worker c true locked command (E e)) (remember f c ⟨k, t⟩) s := by
  have hA : Steady (.worker c) (Worker c true locked command fun s =>
      .issued c k t ∈ s.story ∧ ¬Remembered s.story k) :=
    Worker.steady unremembered_steady
  refine bind_obeys (readJournal_obeys hE hA h) fun js s h => ?_
  split
  case h_1 saved hfind =>
    obtain ⟨-, ⟨-, hn⟩, rfl⟩ := h.holds
    have hkey : saved.requestId = k := by simpa using List.find?_some hfind
    have hk := (h.sound.journal.kept k).mp <|
      List.mem_map.mpr ⟨saved, List.mem_of_find?_eq_some hfind, hkey⟩
    exact absurd hk.left hn
  case h_2 hfind =>
    refine bind_obeys (worker_meet hE (journal_steady hA) h) fun _ s h => ?_
    refine bind_obeys (step_obeys (P := fun _ => Worker c true locked command (Prepared c k t))
      (journal_steady hA) (fun _ => Worker.steady prepared_lasting.steady) (fun s hs h => ?_) h) fun _ s h => ?_
    · obtain ⟨hstands, ⟨hi, hn⟩, rfl⟩ := h
      refine ⟨remember_allowed hs (hstands.coordinator.mpr rfl) hi hn, ?_, ?_, c, ?_⟩
      · exact ⟨hstands.coordinator, hstands.operation, hstands.taken, hstands.quiet⟩
      · simp [note, hi]
      · simp [note]
    · exact worker_meet hE (Worker.steady prepared_lasting.steady) h

theorem prepareInboxRemoval_obeys (hE : Tolerant E) (hp : ∀ e s, removalParameters t = .error e → E e s)
    (hi : ∀ n days now e s, issueKey n t days now = .error e → E e s)
    (h : At (Worker c true locked command (Fresh c)) s) :
    Obeying (.worker c)
      (Ends (fun k => Worker c true locked command fun s => .issued c k t ∈ s.story ∧ ¬Remembered s.story k)
        fun e => Worker c true locked command (E e)) (prepareInboxRemoval f c t) s := by
  refine bind_obeys (worker_meet hE (Worker.steady fresh_steady) h) fun _ s h => ?_
  refine bind_obeys (P := fun _ s => removalParameters t = .ok () ∧ Worker c true locked command (Fresh c) s)
    (done_obeys (Worker.steady fresh_steady) (fun _ hr s h => ⟨hr, h⟩) (fun e hr s h => ⟨h.left, hp e s hr⟩) h)
    fun _ s h => ?_
  obtain ⟨ht, -⟩ := h.holds
  have h := h.imp And.right
  refine bind_obeys (P := fun k => Worker c true locked command fun s =>
    .issued c k t ∈ s.story ∧ ¬Remembered s.story k)
    (.of_step (At.stable (Worker.steady fresh_steady)) (fun s h => ?_) h) fun k s h => ?_
  · obtain ⟨hs, hstands, hfresh⟩ := h
    cases hissue : issueKey s.issued t f.retentionDays s.clock
    case error e =>
      refine ⟨stay_allowed hs, raise_obeys (Worker.steady fresh_steady) (fun s _ h => ?_) ⟨hs, hstands, hfresh⟩⟩
      exact ⟨h.left, hi _ _ _ e s hissue⟩
    case ok k    =>
      obtain ⟨call, hcall, -, htaken⟩ := hstands.taken
      have hk : k.token = s.issued := by
        simp only [issueKey] at hissue
        split at hissue <;> cases hissue
        rfl
      have hallowed := issue_allowed hs hfresh ⟨call, hcall, htaken⟩ ht hk
      refine ⟨hallowed, ret_obeys (Worker.steady unremembered_steady) (fun _ _ h => h) ⟨hallowed.left, ?_⟩⟩
      refine ⟨⟨hstands.coordinator, hstands.operation, hstands.taken, hstands.quiet⟩, by simp [note], ?_⟩
      rintro ⟨c', hc'⟩
      have hc' : .remembered c' k ∈ s.story := by simpa [note] using hc'
      obtain ⟨t', ht'⟩ := Remembered.issued hs.lawful hc'
      have := hs.tokens k t' ⟨c', ht'⟩
      omega
  · refine bind_obeys (worker_meet hE (Worker.steady unremembered_steady) h) fun _ s h => ?_
    exact ret_obeys (Worker.steady unremembered_steady) (fun _ _ h => h) h

theorem prepareSavedInboxRemoval_obeys (hE : Tolerant E)
    (hp : ∀ e s, removalParameters t = .error e → E e s)
    (hi : ∀ n days now e s, issueKey n t days now = .error e → E e s)
    (h : At (Worker c true locked command (Fresh c)) s) :
    Obeying (.worker c) (Ends (fun k => Worker c true locked command (Prepared c k t))
      fun e => Worker c true locked command (E e)) (prepareSavedInboxRemoval f c t) s := by
  refine bind_obeys (worker_meet hE (Worker.steady fresh_steady) h) fun _ s h => ?_
  refine bind_obeys (prepareInboxRemoval_obeys hE hp hi h) fun k s h => ?_
  refine bind_obeys (remember_obeys hE h) fun _ s h => ?_
  exact ret_obeys (Worker.steady prepared_lasting.steady) (fun _ _ h => h) h

-- That a key may be forgotten.
def Excused (k : Key) (s : Desk) : Prop :=
  Accepted s.story k → ¬Retired s.story k → CompletedShown s.story k

-- As long as a worker holds the operation lock, nothing is accepted.
theorem excused_steady (hA : Steady (.worker c) A) :
    Steady (.worker c) (Worker c inside true command fun s => A s ∧ Excused k s) := by
  intro s s' hs h hr
  refine ⟨stands_steady s s' hs h.left hr, hA s s' hs h.right.left hr, fun ha hn => ?_⟩
  have ha := hr.accepted c rfl (h.left.operation.mpr rfl) k ha
  exact (h.right.right ha fun hk => hn (hr.grows.story.subset hk)).mono hr.grows.story

theorem unaccepted_steady (hA : Steady (.worker c) A) :
    Steady (.worker c) (Worker c inside true command fun s => A s ∧ ¬Accepted s.story k) := by
  intro s s' hs h hr
  refine ⟨stands_steady s s' hs h.left hr, hA s s' hs h.right.left hr, fun ha => h.right.right ?_⟩
  exact hr.accepted c rfl (h.left.operation.mpr rfl) k ha

-- What is known of the removal that a status has been read for.
def Read (k : Key) (saved : List SavedRemoval) (rendered : Bool) (result : Except Failure InboxRemovalResult)
    (s : Desk) : Prop :=
  (∀ e, result = .error e → e.code = .notFound → ¬Accepted s.story k) ∧
  (discards rendered result = true → k ∈ saved.map (·.requestId) → Excused k s)

theorem read_steady {b : Bool} {q : List SavedRemoval} {x : Except Failure InboxRemovalResult} :
    Steady (.worker c) (Worker c true true command (Read k q b x)) := by
  intro s s' hs h hr
  have htrue : Steady (.worker c) fun _ => True := fun _ _ _ _ _ => trivial
  refine ⟨stands_steady s s' hs h.left hr, fun e he hn => ?_, fun hd hk => ?_⟩
  · exact (unaccepted_steady htrue s s' hs ⟨h.left, trivial, h.right.left e he hn⟩ hr).right.right
  · exact (excused_steady htrue s s' hs ⟨h.left, trivial, h.right.right hd hk⟩ hr).right.right

-- The request that is read is the one that is saved, if there is one.
theorem read_status {rendered : Bool} {u : Option Target} {result : Except Failure InboxRemovalResult}
    (hs : Sound s) (hjs : s.journal = js)
    (hr : rendered = true → CompletedShown s.story k)
    (hresult : result = inboxRemovalStatus s.receipts s.clock k
      ((js.find? (·.requestId = k)).elim u fun e => some e.target)) : Read k js rendered result s := by
  refine ⟨fun e he hn ha => ?_, fun hd hk ha hret => ?_⟩
  · rw [hresult] at he
    obtain ⟨hnone, hexpired⟩ := inboxRemovalStatus_eq_notFound he hn
    by_cases hret : Retired s.story k
    · exact hexpired (hs.receipts.expired k hret)
    · have := (hs.receipts.kept k).mpr ⟨ha, hret⟩
      simp [hnone] at this
  · obtain ⟨row, hrow⟩ := Option.isSome_iff_exists.mp ((hs.receipts.kept k).mpr ⟨ha, hret⟩)
    have hkey : row.requestId = k := Table.key_of_get hrow
    obtain ⟨t, ht, hmatch⟩ := hs.receipts.rows row (Table.mem_of_get hrow)
    rw [hkey] at ht
    obtain ⟨entry, hentry⟩ : ∃ entry, js.find? (·.requestId = k) = some entry := by
      rw [← Option.isSome_iff_exists, List.find?_isSome]
      obtain ⟨entry, hmem, hkey⟩ := List.mem_map.mp hk
      exact ⟨entry, hmem, by simpa using hkey⟩
    have hissued := hs.journal.entries entry (hjs ▸ List.mem_of_find?_eq_some hentry)
    have hkey' : entry.requestId = k := by simpa using List.find?_some hentry
    rw [hkey'] at hissued
    have htarget := hissued.unique hs.lawful ht
    have hfound : result = .ok row.result := by
      rw [hresult, hentry]
      refine inboxRemovalStatus_of_receipt hrow fun t' ht' => ?_
      obtain rfl : entry.target = t' := by simpa using ht'
      exact ⟨htarget ▸ hmatch, hissued.valid hs.lawful⟩
    rw [hfound, discards, Bool.and_eq_true] at hd
    exact hr hd.left

theorem gone_steady (hA : Steady (.worker c) (Worker c true locked command A)) :
    Steady (.worker c) (Worker c true locked command fun s => A s ∧ k ∉ s.journal.map (·.requestId)) := by
  intro s s' hs h hr
  have h' := journal_steady hA s s' hs ⟨h.left, h.right.left, rfl⟩ hr
  exact ⟨h'.left, h'.right.left, h'.right.right ▸ h.right.right⟩

theorem forget_obeys (hE : Tolerant E) (hA : Steady (.worker c) (Worker c true true command A))
    (hforget : ∀ s, A s → A (s.forget c k))
    (hex : ∀ s, A s → k ∈ s.journal.map (·.requestId) → Excused k s)
    (h : At (Worker c true true command A) s) :
    Obeying (.worker c)
      (Ends (fun _ => Worker c true true command fun s => A s ∧ k ∉ s.journal.map (·.requestId))
        fun e => Worker c true true command (E e)) (forget f c k) s := by
  refine bind_obeys (readJournal_obeys hE hA h) fun js s h => ?_
  split
  case isFalse hk =>
    refine ret_obeys (journal_steady hA) (fun s _ h => ?_) h
    obtain ⟨hstands, hA, rfl⟩ := h
    exact ⟨hstands, hA, hk⟩
  case isTrue hk  =>
    refine bind_obeys (worker_meet hE (journal_steady hA) h) fun _ s h => ?_
    refine bind_obeys (step_obeys (P := fun _ => Worker c true true command fun s =>
      A s ∧ k ∉ s.journal.map (·.requestId)) (journal_steady hA) (fun _ => gone_steady hA) (fun s hs h => ?_) h)
      fun _ s h => worker_meet hE (gone_steady hA) h
    obtain ⟨hstands, hA, rfl⟩ := h
    refine ⟨forget_allowed hs (hstands.coordinator.mpr rfl) hk (hex s hA hk), ?_, hforget s hA, ?_⟩
    · exact ⟨hstands.coordinator, hstands.operation, hstands.taken, hstands.quiet⟩
    · simp [note]

theorem Worker.and (hA : Steady (.worker c) (Worker c inside locked command A))
    (hB : Steady (.worker c) (Worker c inside locked command B)) :
    Steady (.worker c) (Worker c inside locked command fun s => A s ∧ B s) := by
  intro s s' hs h hr
  have hA := hA s s' hs ⟨h.left, h.right.left⟩ hr
  exact ⟨hA.left, hA.right, (hB s s' hs ⟨h.left, h.right.right⟩ hr).right⟩

theorem readStatusOf_obeys {rendered : Bool} {u : Option Target}
    (hA : Steady (.worker c) (Worker c true true command A))
    (hr : ∀ s, A s → rendered = true → CompletedShown s.story k)
    (h : At (Worker c true true command fun s => A s ∧ s.journal = js) s) :
    Obeying (.worker c)
      (Ends (fun a => Worker c true true command fun s =>
          (A s ∧ s.journal = js) ∧ Read k js rendered (.ok a) s)
        fun e => Worker c true true command fun s =>
          (A s ∧ s.journal = js) ∧ Read k js rendered (.error e) s)
      (readStatusOf f k ((js.find? (·.requestId = k)).elim u fun e => some e.target)) s := by
  have hread (result : Except Failure InboxRemovalResult) : Steady (.worker c)
      (Worker c true true command fun s => (A s ∧ s.journal = js) ∧ Read k js rendered result s) :=
    Worker.and (journal_steady hA) read_steady
  have htrouble (e : Failure) (s : Desk) (he : e.Troubled) : Read k js rendered (.error e) s := by
    obtain ⟨code, he⟩ := he
    exact ⟨fun e' he' hn => by cases he'; simp [he] at hn, fun hd => by simp [discards, he] at hd⟩
  refine bind_obeys (ends_mono (meet_obeys (journal_steady hA) h) (fun _ _ _ h => h) ?_) fun _ s h => ?_
  · exact fun e s _ h => ⟨h.right.left, h.right.right, htrouble e s h.left⟩
  refine bind_obeys (read_obeys (P := fun result => Worker c true true command fun s =>
    (A s ∧ s.journal = js) ∧ Read k js rendered result s) (journal_steady hA) hread (fun s hs h => ?_) h)
    fun result s h => ?_
  · exact ⟨h.left, h.right, read_status hs h.right.right (hr s h.right.left) rfl⟩
  refine bind_obeys (ends_mono (meet_obeys (hread result) h) (fun _ _ _ h => h) ?_) fun _ s h => ?_
  · exact fun e s _ h => ⟨h.right.left, h.right.right.left, htrouble e s h.left⟩
  refine done_obeys (hread result) ?_ ?_ h
  · rintro a rfl s h
    exact h
  · rintro e rfl s h
    exact h

-- A worker that has neither a waiting engine nor left the lock to one sees the end of a key.
theorem dead_of_forgotten (hs : Sound s) (h : Stands c true true command s)
    (hr : Remembered s.story k) (hk : k ∉ s.journal.map (·.requestId)) (ha : ¬Accepted s.story k) :
    Dead s k := by
  refine ⟨?_, ha, fun m hm hmk => ?_⟩
  · by_contra hf
    exact hk ((hs.journal.kept k).mpr ⟨hr, hf⟩)
  · obtain ⟨r, hr⟩ := List.mem_iff_getElem?.mp hm
    have hv := hs.mutations r m hr
    cases hp : m.phase
    case ended   => rfl
    case waiting =>
      have hc := hv.waiting hp
      rw [h.coordinator.mpr rfl] at hc
      exact absurd hp (h.quiet r m hr (Option.some.inj hc).symm)
    case holding =>
      have ho := hv.holding hp
      rw [h.operation.mpr rfl] at ho
      cases ho

-- What a failure of a status says of the key.
def Missed (rendered : Bool) (k : Key) (e : Failure) (s : Desk) : Prop :=
  e.code = .notFound → rendered = false → Dead s k

omit [Codec] in
theorem missed_tolerant {rendered : Bool} : Tolerant (Missed rendered k) where
  lasting e     := fun s s' hg h hn hr => hg.dead k (h hn hr)
  troubled e s  := by
    rintro ⟨code, he⟩ hn
    simp [he] at hn

-- What the caller of a status knows of the key.
structure Ready (rendered : Bool) (k : Key) (s : Desk) : Prop where
  shown      : rendered = true → CompletedShown s.story k
  remembered : rendered = false → Remembered s.story k

omit [Codec] in
theorem ready_lasting {b : Bool} : Lasting (Ready b k) := by
  refine fun s s' hg h => ⟨fun hr => (h.shown hr).mono hg.story, fun hr => ?_⟩
  obtain ⟨c, hc⟩ := h.remembered hr
  exact ⟨c, hg.story.subset hc⟩

theorem reconcile_obeys {rendered : Bool} {u : Option Target}
    (h : At (Worker c true true command (Ready rendered k)) s) :
    Obeying (.worker c)
      (Ends (fun _ => Worker c true true command fun _ => True)
        fun e => Worker c true true command (Missed rendered k e))
      (do
        let saved ← readJournal f .read
        let entry := saved.find? (·.requestId = k)
        let result ← (readStatusOf f k (entry.elim u fun e => some e.target)).capture
        if discards rendered result then do
          forget f c k
          done result
        else
          done result) s := by
  have hA : Steady (.worker c) (Worker c true true command (Ready rendered k)) :=
    Worker.steady ready_lasting.steady
  refine bind_obeys (readJournal_obeys missed_tolerant hA h) fun js s h => ?_
  refine bind_obeys (capture_obeys (readStatusOf_obeys hA (fun s h => h.shown) h)) fun result s h => ?_
  have h : At (Worker c true true command fun s =>
      (Ready rendered k s ∧ s.journal = js) ∧ Read k js rendered result s) s := by
    cases result
    · exact h.imp fun h => h.right _ rfl
    · exact h.imp fun h => h.left _ rfl
  have hsteady := Worker.and (A := fun s => Ready rendered k s ∧ s.journal = js)
    (B := Read k js rendered result) (journal_steady hA) read_steady
  split
  case isFalse hd =>
    refine done_obeys hsteady (fun _ _ _ h => ⟨h.left, trivial⟩) (fun e he s h => ⟨h.left, fun hn => ?_⟩) h
    simp [he, discards, hn] at hd
  case isTrue hd  =>
    -- What is known of the removal outlasts the entry.
    have hleft : Steady (.worker c) (Worker c true true command fun s => Ready rendered k s ∧
        (∀ e, result = .error e → e.code = .notFound → ¬Accepted s.story k) ∧
        (k ∈ s.journal.map (·.requestId) → Excused k s)) := by
      intro s s' hs h hr
      obtain ⟨hstands, hready, hacc, hex⟩ := h
      have hj := hr.journal c rfl (hstands.coordinator.mpr rfl)
      have hread := read_steady (q := s.journal) (b := rendered) (x := result) s s' hs
        ⟨hstands, hacc, fun _ hk => hex hk⟩ hr
      refine ⟨hread.left, ready_lasting s s' hr.grows hready, hread.right.left, fun hk => ?_⟩
      exact hread.right.right hd (hj ▸ hk)
    refine bind_obeys (forget_obeys missed_tolerant hleft (fun s h => ?_) (fun s h => h.right.right)
      (h.imp fun h => ⟨h.left, h.right.left.left, h.right.right.left, fun hk => ?_⟩)) fun _ s h => ?_
    · have hg : Grows s (s.forget c k) := ⟨List.prefix_append _ _, fun k' hk' => hk'.concat rfl nofun rfl⟩
      refine ⟨ready_lasting s _ hg h.left, fun e he hn ha => ?_, fun hk => ?_⟩
      · exact h.right.left e he hn (by simpa [Desk.forget, note] using ha)
      · obtain ⟨r, hr, hkey⟩ := List.mem_map.mp hk
        simp [Desk.forget, note, hkey] at hr
    · exact h.right.right.right hd (h.right.left.right ▸ hk)
    · rcases result with e | a
      · refine raise_obeys (gone_steady hleft) (fun s hs h => ⟨h.left, fun hn hr => ?_⟩) h
        obtain ⟨hstands, ⟨hready, hacc, -⟩, hk⟩ := h
        exact dead_of_forgotten hs hstands (hready.remembered hr) hk (hacc e rfl hn)
      · exact ret_obeys (gone_steady hleft) (fun _ _ h => ⟨h.left, trivial⟩) h

-- The rule for what is done under the operation lock.
theorem withOperationLock_obeys (hE : Tolerant E) (hP : ∀ a, Lasting (P a)) (hA : Lasting A)
    (h : At (Worker c true false command A) s)
    (hbody : ∀ s, At (Worker c true true command A) s →
      Obeying (.worker c) (Ends (fun a => Worker c true true command (P a))
        fun e => Worker c true true command (E e)) body s) :
    Obeying (.worker c) (Ends (fun a => Worker c true false command (P a))
      fun e => Worker c true false command (E e)) (withOperationLock f c body) s := by
  have hgrows (s : Desk) (o : Option Process) : Grows s { s with operation := o } :=
    ⟨List.prefix_rfl, fun k hk => hk.of_eq rfl rfl⟩
  have hlock (b : Bool) (B : Desk → Prop) (hB : Lasting B) : Steady (.worker c) (Worker c true b command B) :=
    Worker.steady hB.steady
  refine bind_obeys (worker_meet hE (hlock false A hA) h) fun _ s h => ?_
  refine bind_obeys (ends_mono (attempt_obeys (hlock false A hA) (hlock true A hA) (fun s hs h hc => ?_) h)
    (fun _ _ _ h => h) ?_) fun _ s h => ?_
  · refine ⟨operation_allowed hs (.inl ⟨hc, rfl⟩), ?_, hA s _ (hgrows s _) h.right⟩
    exact ⟨h.left.coordinator, by simp, h.left.taken, h.left.quiet⟩
  · rintro e s - ⟨rfl, h⟩
    exact ⟨h.left, hE.troubled _ s ⟨_, rfl⟩⟩
  · have hunlock (B : Desk → Prop) (hB : Lasting B) (s : Desk) (h : At (Worker c true true command B) s) :
        Obeying (.worker c) (fun r s => r = .ok () ∧ At (Worker c true false command B) s) (unlock c) s := by
      refine .of_step (At.stable (hlock true B hB)) (fun s h => ?_) h
      rw [if_pos (h.holds.left.operation.mpr rfl)]
      have hallowed := operation_allowed h.sound (o := none)
        (.inr ⟨h.holds.left.operation.mpr rfl, rfl⟩)
      refine ⟨hallowed, .of_pure (At.stable (hlock false B hB)) (fun s h => ⟨rfl, h⟩) ⟨hallowed.left, ?_⟩⟩
      refine ⟨⟨h.holds.left.coordinator, by simp, h.holds.left.taken, h.holds.left.quiet⟩, ?_⟩
      exact hB s _ (hgrows s _) h.holds.right
    refine Obeys.ensure (bind_obeys (worker_meet hE (hlock true A hA) h) fun _ s h => hbody s h)
      fun r s h => ?_
    cases r
    case ok a    => exact hunlock (P a) (hP a) s h
    case error e => exact hunlock (E e) (hE.lasting e) s h

-- The rule for what is done under the coordinator.
theorem runEngineExclusive_obeys (hE : Tolerant E) (hP : ∀ a, Lasting (P a))
    (hA : Steady (.worker c) A) (hin : ∀ s o, A s → A { s with coordinator := o })
    (h : At (Worker c false false command A) s)
    (hbody : ∀ s, At (Worker c true false command A) s →
      Obeying (.worker c) (Ends (fun a => Worker c true false command (P a))
        fun e => Worker c true false command (E e)) body s) :
    Obeying (.worker c) (Ends (fun a => Worker c false false command (P a))
      fun e => Worker c false false command (E e)) (runEngineExclusive f c body) s := by
  have hgrows (s : Desk) (o : Option Nat) : Grows s { s with coordinator := o } :=
    ⟨List.prefix_rfl, fun k hk => hk.of_eq rfl rfl⟩
  refine bind_obeys (ends_mono (attempt_obeys (Worker.steady hA)
    (show Steady _ (Worker c true false command A) from Worker.steady hA) (fun s hs h hc => ?_) h)
    (fun _ _ _ h => h) ?_) fun _ s h => ?_
  · refine ⟨coordinator_allowed hs (.inl ⟨hc, rfl⟩), ?_, hin s _ h.right⟩
    exact ⟨by simp, h.left.operation, h.left.taken, h.left.quiet⟩
  · rintro e s - ⟨rfl, h⟩
    exact ⟨h.left, hE.troubled _ s ⟨_, rfl⟩⟩
  · have hleave (B : Desk → Prop) (hB : Lasting B) (s : Desk) (h : At (Worker c true false command B) s) :
        Obeying (.worker c) (fun r s => r = .ok () ∧ At (Worker c false false command B) s) (letOut c) s := by
      refine .of_step (At.stable (Worker.steady hB.steady)) (fun s h => ?_) h
      rw [if_pos (h.holds.left.coordinator.mpr rfl)]
      have hquiet (m : Mutation) (hm : m ∈ s.mutations) : m.worker = c → m.phase ≠ .waiting := by
        obtain ⟨r, hr⟩ := List.mem_iff_getElem?.mp hm
        exact h.holds.left.quiet r m hr
      have hallowed := coordinator_allowed h.sound (o := none)
        (.inr ⟨h.holds.left.coordinator.mpr rfl, rfl, hquiet⟩)
      refine ⟨hallowed, .of_pure (At.stable (Worker.steady hB.steady)) (fun s h => ⟨rfl, h⟩)
        ⟨hallowed.left, ?_⟩⟩
      refine ⟨⟨by simp, h.holds.left.operation, h.holds.left.taken, h.holds.left.quiet⟩, ?_⟩
      exact hB s _ (hgrows s _) h.holds.right
    refine Obeys.ensure (Q := Ends (fun a => Worker c true false command (P a))
      fun e => Worker c true false command (E e)) (bind_obeys (hbody s h) fun a s h => ?_) fun r s h => ?_
    · refine bind_obeys (worker_meet hE (Worker.steady (hP a).steady) h) fun _ s h => ?_
      exact ret_obeys (Worker.steady (hP a).steady) (fun _ _ h => h) h
    · cases r
      case ok a    => exact hleave (P a) (hP a) s h
      case error e => exact hleave (E e) (hE.lasting e) s h

omit [Codec] in
theorem lasting_true : Lasting fun _ => True :=
  fun _ _ _ _ => trivial

omit [Codec] in
theorem tolerant_true : Tolerant fun _ _ => True :=
  ⟨fun _ => lasting_true, fun _ _ _ => trivial⟩

-- A worker that waits for its only engine.
structure Waits (c r : Nat) (command : Command) (s : Desk) : Prop where
  coordinator : s.coordinator = some c
  operation   : s.operation ≠ some (.worker c)
  taken       : ∃ call, s.calls[c]? = some call ∧ call.command = command ∧ call.taken = true
  only        : ∀ (r' : Nat) (m : Mutation), s.mutations[r']? = some m → m.worker = c → r' = r

theorem waits_steady {r : Nat} : Steady (.worker c) (Waits c r command) := by
  intro s s' _ h hr
  refine ⟨(hr.coordinator c rfl).mpr h.coordinator, fun ho => h.operation ((hr.operation c rfl).mp ho),
    taken_lasting hr.calls h.taken, fun r' m hm hw => ?_⟩
  obtain ⟨m', hm', hw', -⟩ := hr.mutations c rfl r' m hm hw
  exact h.only r' m' hm' hw'

omit [Codec] in
theorem settle_stands {r : Nat} (h : Waits c r command s) :
    Stands c true false command (s.endMutation r) := by
  refine ⟨by simp [Desk.endMutation, h.coordinator], ?_, h.taken, fun r' m hm hw => ?_⟩
  · simp only [Desk.endMutation]
    split <;> simp [h.operation]
  · obtain ⟨rfl, m', -, rfl⟩ | ⟨hne, hm⟩ := getElem?_modify hm
    · simp
    · exact absurd (h.only r' m hm hw) hne

theorem mutate_obeys
    (h : At (Worker c true false command fun s => Fresh c s ∧ Command.Valid c s.story (.mutate k t)) s) :
    Obeying (.worker c) (Ends (fun _ => Worker c true false command fun _ => True)
      fun _ => Worker c true false command fun _ => True) (mutate f c k t) s := by
  have hlasting : Lasting fun s => Command.Valid c s.story (.mutate k t) :=
    fun s s' hg h => Command.Valid.mono h hg.story
  have hA : Steady (.worker c) (Worker c true false command fun s =>
      Fresh c s ∧ Command.Valid c s.story (.mutate k t)) :=
    Worker.steady (fresh_steady.and hlasting.steady)
  have htrue : Steady (.worker c) (Worker c true false command fun _ => True) :=
    Worker.steady lasting_true.steady
  -- The key stays in the journal as long as the worker is inside.
  have hsaved : Steady (.worker c) (Worker c true false command fun s =>
      (Fresh c s ∧ Command.Valid c s.story (.mutate k t)) ∧ k ∈ s.journal.map (·.requestId)) := by
    intro s s' hs h hr
    have h' := journal_steady hA s s' hs ⟨h.left, h.right.left, rfl⟩ hr
    exact ⟨h'.left, h'.right.left, h'.right.right ▸ h.right.right⟩
  refine bind_obeys (P := fun _ => Worker c true false command fun s =>
    (Fresh c s ∧ Command.Valid c s.story (.mutate k t)) ∧ k ∈ s.journal.map (·.requestId)) ?_ fun _ s h => ?_
  · refine bind_obeys (worker_meet tolerant_true hA h) fun _ s h => ?_
    refine bind_obeys (readJournal_obeys tolerant_true hA h) fun js s h => ?_
    refine ends_mono (require_obeys (journal_steady hA) h) (fun _ s _ h => ?_) fun _ s _ h => ?_
    · obtain ⟨hk, hstands, hA, rfl⟩ := h
      exact ⟨hstands, hA, hk⟩
    · exact ⟨h.right.left, trivial⟩
  refine bind_obeys (step_obeys (P := fun r => Waits c r command) hsaved (fun _ => waits_steady)
    (fun s hs h => ?_) h) fun r s h => ?_
  · obtain ⟨hstands, ⟨hfresh, hvalid⟩, hk⟩ := h
    obtain ⟨call, hcall, hcommand, htaken⟩ := hstands.taken
    refine ⟨dispatch_allowed hs (hstands.coordinator.mpr rfl) hk hfresh ⟨call, hcall, htaken⟩ hvalid,
      hstands.coordinator.mpr rfl, fun ho => ?_, ⟨call, hcall, hcommand, htaken⟩, fun r m hm hw => ?_⟩
    · cases hstands.operation.mp ho
    · simp only [note, List.getElem?_append] at hm
      split at hm
      case isTrue  => exact absurd (by rw [Event.servedBy, hw]) (hfresh _ (hs.mutations r m hm).dispatched)
      case isFalse hr =>
        rw [List.getElem?_singleton] at hm
        split at hm <;> cases hm
        omega
  refine bind_obeys (step_obeys (P := fun _ => Worker c true false command fun _ => True) waits_steady
    (fun _ => htrue) (fun s hs h => ⟨endMutation_allowed hs, settle_stands h, trivial⟩) h) fun answer s h => ?_
  refine bind_obeys (worker_meet tolerant_true htrue h) fun _ s h => ?_
  exact done_obeys htrue (fun _ _ _ h => h) (fun _ _ _ h => h) h

omit [Codec] in
theorem answered_lasting {reply : Except Failure Reply} :
    Lasting fun s => command.Answered c s reply :=
  fun _ _ hg h => h.mono hg

omit [Codec] in
theorem answered_error {e : Failure} (he : e.code ≠ .notFound) : command.Answered c s (.error e) := by
  cases command
  case prepare     => exact fun k hk => nomatch hk
  case saved       => exact fun js hjs => nomatch hjs
  case status      =>
    intro e' he' hn
    cases he'
    exact absurd hn he
  case acknowledge => trivial
  case mutate      => trivial

omit [Codec] in
theorem answered_tolerant : Tolerant fun e s => command.Answered c s (.error e) := by
  refine ⟨fun _ => answered_lasting, fun e s htrouble => answered_error ?_⟩
  obtain ⟨code, hc⟩ := htrouble
  simp [hc]

theorem issueKey_eq_error {n : Nat} {days : Int} {now : Instant} {e : Failure}
    (h : issueKey n t days now = .error e) : e.code = .invalidRequest := by
  simp only [issueKey] at h
  split at h <;> cases h
  rfl

-- How a command ends that is served.
abbrev Serving (c : Nat) (command : Command) : Except Failure Reply → Desk → Prop :=
  Ends (fun reply => Worker c false false command fun s => command.Answered c s (.ok reply))
    fun e => Worker c false false command fun s => command.Answered c s (.error e)

theorem reply_obeys {reply : Reply} (hB : Lasting B) (hb : ∀ s, B s → command.Answered c s (.ok reply))
    (h : At (Worker c false false command B) s) :
    Obeying (.worker c) (Serving c command) (Pure.pure reply : Program Reply) s :=
  ret_obeys (Worker.steady hB.steady) (fun s _ h => ⟨h.left, hb s h.right⟩) h

theorem serve_obeys (h : At (Worker c false false command fun s => Fresh c s ∧ command.Valid c s.story) s) :
    Obeying (.worker c) (Serving c command) (serve f c command) s := by
  have hvalid : Lasting fun s => command.Valid c s.story := fun s s' hg h => h.mono hg.story
  have hA : Steady (.worker c) fun s => Fresh c s ∧ command.Valid c s.story :=
    fresh_steady.and hvalid.steady
  cases command
  case prepare t =>
    have hinvalid (e : Failure) (s : Desk) (he : e.code = .invalidRequest) :
        (Command.prepare t).Answered c s (.error e) := answered_error (by simp [he])
    refine bind_obeys (runEngineExclusive_obeys answered_tolerant (fun k => prepared_lasting) hA
      (fun s o h => h) h fun s h => prepareSavedInboxRemoval_obeys answered_tolerant
        (fun e s he => hinvalid e s (removalParameters_eq_error he))
        (fun n days now e s he => hinvalid e s (issueKey_eq_error he))
        (h.imp fun h => ⟨h.left, h.right.left⟩)) fun k s h => ?_
    refine reply_obeys prepared_lasting (fun s h k' hk' => ?_) h
    cases hk'
    exact h
  case saved =>
    have hknown (js : List SavedRemoval) : Lasting fun s => ∀ r ∈ js, r.Known s.story :=
      fun s s' hg h r hr => (h r hr).mono hg.story
    refine bind_obeys (runEngineExclusive_obeys answered_tolerant hknown hA (fun s o h => h) h
      fun s h => ?_) fun js s h => reply_obeys (hknown js) (fun s h js' hjs r hr => ?_) h
    · refine bind_obeys (worker_meet answered_tolerant (Worker.steady hA) h) fun _ s h => ?_
      refine ends_mono (readJournal_obeys answered_tolerant (Worker.steady hA) h) (fun js s hs h => ?_)
        fun _ _ _ h => h
      obtain ⟨hstands, -, rfl⟩ := h
      refine ⟨hstands, fun r hr => ⟨?_, hs.journal.entries r hr⟩⟩
      exact ((hs.journal.kept r.requestId).mp (List.mem_map_of_mem hr)).left
    · cases hjs
      exact h r hr
  case status request =>
    refine bind_obeys (runEngineExclusive_obeys answered_tolerant (fun _ => lasting_true) hA
      (fun s o h => h) h fun s h => ?_) fun receipt s h => reply_obeys lasting_true (fun s _ e he => nomatch he) h
    refine withOperationLock_obeys answered_tolerant (fun _ => lasting_true)
      (ready_lasting (k := request.requestId) (b := false))
      (h.imp fun h => ⟨h.left, ⟨(fun hr => nomatch hr), fun _ => h.right.right.remembered⟩⟩) fun s h => ?_
    refine ends_mono (reconcile_obeys h) (fun _ _ _ h => h) fun e s _ h => ⟨h.left, fun e' he hn => ?_⟩
    cases he
    exact h.right hn rfl
  case acknowledge k =>
    refine bind_obeys (runEngineExclusive_obeys answered_tolerant (fun _ => lasting_true) hA
      (fun s o h => h) h fun s h => ?_) fun receipt s h => reply_obeys lasting_true (fun s _ => trivial) h
    refine withOperationLock_obeys answered_tolerant (fun _ => lasting_true)
      (ready_lasting (k := k) (b := true)) (h.imp fun h => ⟨h.left, ⟨fun _ => h.right.right, fun hr => nomatch hr⟩⟩)
      fun s h => ?_
    exact ends_mono (reconcile_obeys h) (fun _ _ _ h => h) fun e s _ h => ⟨h.left, trivial⟩
  case mutate k t =>
    exact bind_obeys (runEngineExclusive_obeys answered_tolerant (fun _ => lasting_true) hA
      (fun s o h => h) h fun s h => mutate_obeys h)
      fun receipt s h => reply_obeys lasting_true (fun s _ => trivial) h

-- Where a worker is that is not at work.
structure Rests (c : Nat) (s : Desk) : Prop where
  coordinator : s.coordinator ≠ some c
  operation   : s.operation ≠ some (.worker c)

theorem rests_steady : Steady (.worker c) (Rests c) := fun _ _ _ h hr =>
  ⟨fun hc => h.coordinator ((hr.coordinator c rfl).mp hc),
    fun ho => h.operation ((hr.operation c rfl).mp ho)⟩

omit [Codec] in
theorem Stands.rests (h : Stands c false false command s) : Rests c s := by
  constructor
  · exact fun hc => nomatch h.coordinator.mp hc
  · exact fun ho => nomatch h.operation.mp ho

theorem take_obeys (h : At (Rests c) s) :
    Obeying (.worker c)
      (Ends (fun command => Worker c false false command fun s => Fresh c s ∧ command.Valid c s.story)
        fun _ => Rests c) (take c) s := by
  refine Obeys.of_step (At.stable rests_steady) (fun s h => ?_) h
  have hallowed := call_allowed (c := c) (g := fun call => { call with taken := true }) h.sound
    (fun _ => ⟨rfl, rfl, fun _ => rfl⟩) fun call hcall => ⟨(h.sound.calls c call hcall).command,
      (h.sound.calls c call hcall).reply⟩
  refine ⟨hallowed, ?_⟩
  split
  case h_2 => exact raise_obeys rests_steady (fun _ _ h => h) ⟨hallowed.left, h.holds.coordinator, h.holds.operation⟩
  case h_1 call hcall =>
    split
    case isTrue =>
      exact raise_obeys rests_steady (fun _ _ h => h)
        ⟨hallowed.left, h.holds.coordinator, h.holds.operation⟩
    case isFalse htaken =>
      -- A call that nobody has taken is served by nobody.
      have hfresh : Fresh c s := by
        intro e he hc
        obtain ⟨call', hcall', htaken'⟩ := h.sound.served e he c hc
        rw [hcall] at hcall'
        cases hcall'
        exact htaken htaken'
      have hvalid : Lasting fun s => call.command.Valid c s.story := fun s s' hg h => h.mono hg.story
      refine ret_obeys (Worker.steady (fresh_steady.and hvalid.steady)) (fun _ _ h => h)
        ⟨hallowed.left, ⟨?_, ?_, ⟨{ call with taken := true }, ?_, rfl, rfl⟩, ?_⟩, hfresh, ?_⟩
      · simp [h.holds.coordinator]
      · simp [h.holds.operation]
      · simp [hcall]
      · exact hfresh.quiet h.sound
      · exact (h.sound.calls c call hcall).command

-- The answer is what the page may rely on.
theorem answer_obeys {reply : Except Failure Reply}
    (h : At (Worker c false false command fun s => command.Answered c s reply) s) :
    Obeying (.worker c) (Ends (fun _ => Rests c) fun _ => Rests c) (answer c reply) s := by
  refine step_obeys (Worker.steady answered_lasting.steady) (fun _ => rests_steady) (fun s hs h => ?_) h
  refine ⟨call_allowed hs (fun _ => ⟨rfl, rfl, id⟩) fun call hcall => ⟨?_, fun reply' hr => ?_⟩,
    h.left.rests.coordinator, h.left.rests.operation⟩
  · exact (hs.calls c call hcall).command
  · obtain ⟨call', hcall', hcommand, -⟩ := h.left.taken
    rw [hcall] at hcall'
    cases hcall'
    cases hr
    rw [hcommand]
    exact h.right

theorem work_obeys (h : At (Rests c) s) :
    Obeying (.worker c) (Ends (fun _ => Rests c) fun _ => Rests c) (work f c) s := by
  refine bind_obeys (take_obeys h) fun command s h => ?_
  have hvalid : Lasting fun s => command.Valid c s.story := fun s s' hg h => h.mono hg.story
  refine bind_obeys (capture_obeys (bind_obeys (worker_meet answered_tolerant
    (Worker.steady (fresh_steady.and hvalid.steady)) h) fun _ s h => serve_obeys h)) fun reply s h => ?_
  refine answer_obeys (h.imp (B := Worker c false false command fun s => command.Answered c s reply) fun h => ?_)
  rcases reply with e | reply
  · exact h.right e rfl
  · exact h.left reply rfl

end Host

end Removal
