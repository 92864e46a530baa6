import EmailWatcher.Removal.Workers
import Mathlib.Data.List.Perm.Subperm

-- What a page is told of a removal is true.
namespace Removal

open Script Story

section Engines

variable [Codec] {s : Desk} {r : Nat} {f : Circumstances} {chore : Chore}

-- That nothing more is known.
abbrev Nothing : Desk → Prop := fun _ => True

theorem nothing_steady {i : Process} : Steady i Nothing :=
  lasting_true.steady

theorem acceptRemoval_obeys (h : At Nothing s) :
    Obeying (.engine r) (Ends (fun _ => Nothing) fun _ => Nothing) (acceptRemoval f r) s := by
  refine bind_obeys (ends_mono (meet_obeys nothing_steady h) (fun _ _ _ h => h) fun _ _ _ _ => trivial)
    fun _ s h => ?_
  refine bind_obeys (P := fun _ => Nothing) (.of_step (At.stable nothing_steady) (fun s h => ?_) h)
    fun _ s h => ?_
  · have hallowed := acceptMutation_allowed (r := r) (f := f) h.sound
    have h : At Nothing (s.acceptMutation f r) := ⟨hallowed.left, trivial⟩
    refine ⟨hallowed, ?_⟩
    cases s.mutations[r]?
    case none   => exact raise_obeys nothing_steady (fun _ _ h => h) h
    case some m => exact done_obeys nothing_steady (fun _ _ _ h => h) (fun _ _ _ h => h) h
  · refine bind_obeys (read_obeys (P := fun _ => Nothing) nothing_steady (fun _ => nothing_steady)
      (fun _ _ h => h) h) fun result s h => ?_
    split
    · exact ret_obeys nothing_steady (fun _ _ h => h) h
    · exact raise_obeys nothing_steady (fun _ _ h => h) h
    · exact raise_obeys nothing_steady (fun _ _ h => h) h

theorem engine_obeys (h : At Nothing s) :
    Obeying (.engine r) (Ends (fun _ => Nothing) fun _ => Nothing) (engine f r) s := by
  refine bind_obeys (capture_obeys (bind_obeys (ends_mono (attempt_obeys nothing_steady nothing_steady
    (fun s hs _ hc => ⟨hold_allowed hs hc.left hc.right, trivial⟩) h) (fun _ _ _ h => h)
    fun _ _ _ _ => trivial) fun _ s h => acceptRemoval_obeys h)) fun reply s h => ?_
  have h : At Nothing s := ⟨h.sound, trivial⟩
  refine bind_obeys (step_obeys (P := fun _ => Nothing) nothing_steady (fun _ => nothing_steady)
    (fun _ hs _ => ⟨endMutation_allowed hs, trivial⟩) h) fun _ s h => ?_
  exact step_obeys (P := fun _ => Nothing) nothing_steady (fun _ => nothing_steady)
    (fun _ hs _ => ⟨reply_allowed hs, trivial⟩) h

theorem chore_obeys (h : At Nothing s) :
    Obeying .other (Ends (fun _ => Nothing) fun _ => Nothing)
      (step (·.chore chore) fun _ => ret () : Program Unit) s :=
  step_obeys (P := fun _ => Nothing) nothing_steady (fun _ => nothing_steady)
    (fun _ hs _ => ⟨chore_allowed hs, trivial⟩) h

end Engines

section Pages

variable [Codec] {s : Desk} {n a : Nat} {f : Circumstances} {command : Command} {k : Key} {t : Target}
  {A V : Desk → Prop} {p : Point} {g : Client → Client}

-- The end of what a page does.
abbrev Done : Except Failure Unit → Desk → Prop :=
  Ends (fun _ => Nothing) fun _ => Nothing

-- A call that a page has made.
def Posted (n c : Nat) (command : Command) (s : Desk) : Prop :=
  ∃ call, s.calls[c]? = some call ∧ call.page = n ∧ call.command = command

theorem posted_steady {i : Process} : Steady i (Posted n a command) := by
  rintro s s' - ⟨call, hcall, hp, hc⟩ hr
  obtain ⟨call', hcall', hb⟩ := hr.calls a call hcall
  exact ⟨call', hcall', hb.page.trans hp, hb.command.trans hc⟩

theorem await_obeys (hA : Steady (.page n) fun s => Posted n a command s ∧ A s)
    (h : At (fun s => Posted n a command s ∧ A s) s) :
    Obeying (.page n)
      (Ends (fun reply s => command.Answered a s (.ok reply) ∧ Posted n a command s ∧ A s)
        fun e s => command.Answered a s (.error e) ∧ Posted n a command s ∧ A s) (await a) s := by
  have hsteady (reply : Option (Except Failure Reply)) : Steady (.page n) fun s =>
      (∀ r, reply = some r → command.Answered a s r) ∧ Posted n a command s ∧ A s :=
    Steady.and (Lasting.steady fun s s' hg h r hr => (h r hr).mono hg) hA
  refine bind_obeys (read_obeys (P := fun reply s =>
    (∀ r, reply = some r → command.Answered a s r) ∧ Posted n a command s ∧ A s) hA hsteady
    (fun s hs h => ⟨fun r hr => ?_, h⟩) h) fun reply s h => ?_
  · obtain ⟨⟨call, hcall, -, rfl⟩, -⟩ := h
    rw [hcall] at hr
    exact (hs.calls a call hcall).reply r hr
  · cases reply
    case none   => exact raise_obeys (hsteady none) (fun s _ h => ⟨answered_error (by simp), h.right⟩) h
    case some r =>
      refine done_obeys (hsteady (some r)) ?_ ?_ h
      · rintro reply rfl s h
        exact ⟨h.left _ rfl, h.right⟩
      · rintro e rfl s h
        exact ⟨h.left _ rfl, h.right⟩

theorem invoke_obeys (hV : Lasting V) (hv : ∀ c s, V s → command.Valid c s.story) (h : At V s) :
    Obeying (.page n)
      (Ends (fun reply s => (∃ c, command.Answered c s (.ok reply)) ∧ V s)
        fun e s => (∃ c, command.Answered c s (.error e)) ∧ V s) (invoke n command) s := by
  refine bind_obeys (step_obeys (P := fun c s => Posted n c command s ∧ V s) hV.steady
    (fun _ => posted_steady.and hV.steady) (fun s hs h => ?_) h) fun c s h => ?_
  · refine ⟨post_allowed hs (hv _ s h), ⟨_, List.getElem?_concat_length, rfl, rfl⟩, ?_⟩
    exact hV s _ ⟨List.prefix_append _ _, fun k hk => hk.of_eq (by simp) rfl⟩ h
  · exact ends_mono (await_obeys (posted_steady.and hV.steady) h) (fun _ _ _ h => ⟨⟨c, h.left⟩, h.right.right⟩)
      fun _ _ _ h => ⟨⟨c, h.left⟩, h.right.right⟩

theorem change_obeys {P : Desk → Prop} (hA : Steady (.page n) A) (hP : Steady (.page n) P)
    (hw : ∀ s, Sound s → A s → (g (s.client n)).Valid s ∧ P (s.change n g)) (h : At A s) :
    Obeying (.page n) (Ends (fun _ => P) fun _ => Nothing) (change f n p g) s := by
  refine bind_obeys (step_obeys (P := fun _ => P) hA (fun _ => hP) (fun s hs h => ?_) h) fun _ s h => ?_
  · exact ⟨change_allowed hs (hw s hs h).left, (hw s hs h).right⟩
  · exact ends_mono (meet_obeys hP h) (fun _ _ _ h => h) fun _ _ _ _ => trivial

-- The record of a removal that is missing is shown only if the removal is dead.
theorem publish_obeys {record : InboxRemovalRecord}
    (h : At (fun s => record.Missing → Dead s record.request.requestId) s) :
    Obeying (.page n) Done (publish f n record) s := by
  have hA : Lasting fun s => record.Missing → Dead s record.request.requestId :=
    fun s s' hg h hm => hg.dead _ (h hm)
  have hP : Lasting fun s => record.isCompleted = true → CompletedShown s.story record.request.requestId :=
    fun s s' hg h hc => (h hc).mono hg.story
  refine bind_obeys (change_obeys hA.steady hP.steady (fun s hs h => ?_) h) fun _ s h => ?_
  · refine ⟨⟨fun r hr hm => ?_, (hs.clients n).restoring⟩, fun hc => ?_⟩
    · obtain rfl | ⟨hr, -⟩ := Table.mem_put.mp hr
      · exact h hm
      · exact (hs.clients n).records r hr hm
    · refine ⟨n, ((s.client n).records.put record).rows, by simp [Desk.change, note], record, ?_, rfl, hc⟩
      exact Table.mem_put.mpr (.inl rfl)
  · split
    case isTrue hc =>
      refine bind_obeys (capture_obeys (invoke_obeys hP (fun _ s h => h hc) h)) fun _ s h => ?_
      exact ret_obeys nothing_steady (fun _ _ h => h) ⟨h.sound, trivial⟩
    case isFalse   => exact ret_obeys nothing_steady (fun _ _ h => h) ⟨h.sound, trivial⟩

theorem readStatus_obeys {request : SavedRemoval} (h : At (fun s => request.Known s.story) s) :
    Obeying (.page n) Done (readStatus f n request) s := by
  have hknown : Lasting fun s => request.Known s.story := fun s s' hg h => h.mono hg.story
  refine bind_obeys (capture_obeys (show Obeying _ _ (invoke n (.status request)) s from
    invoke_obeys hknown (fun _ _ h => h) h))
    fun reply s h => ?_
  obtain ⟨hs, hok, herror⟩ := h
  split
  case h_1 e =>
    have hA : Lasting fun s => e.code = .notFound → Dead s request.requestId :=
      fun s s' hg h hn => hg.dead _ (h hn)
    have h : At (fun s => e.code = .notFound → Dead s request.requestId) s := by
      obtain ⟨⟨c, hc⟩, -⟩ := herror e rfl
      exact ⟨hs, hc e rfl⟩
    refine bind_obeys (read_obeys (P := fun _ s => e.code = .notFound → Dead s request.requestId) hA.steady
      (fun _ => hA.steady) (fun _ _ h => h) h) fun latestClear s h => ?_
    split
    case isTrue =>
      refine change_obeys hA.steady nothing_steady (fun s hs _ => ⟨⟨fun r hr hm => ?_, ?_⟩, trivial⟩) h
      · exact (hs.clients n).records r (Table.mem_delete.mp hr).left hm
      · exact (hs.clients n).restoring
    case isFalse =>
      refine publish_obeys (h.imp fun h hm => h ?_)
      obtain ⟨e', he⟩ := hm
      simp only [missingState] at he
      split at he
      case isTrue hn => exact hn
      case isFalse   => cases he
  case h_2 receipt =>
    exact publish_obeys ⟨hs, fun hm => by simp [InboxRemovalRecord.Missing] at hm⟩
  case h_3 => exact raise_obeys nothing_steady (fun _ _ h => h) ⟨hs, trivial⟩

-- An action that has not asked for a removal yet.
def Unasked (a : Nat) (s : Desk) : Prop :=
  ∀ e ∈ s.story, e.requestedBy ≠ some a

theorem unasked_steady : Steady (.page n) fun s => Posted n a command s ∧ Unasked a s := by
  intro s s' hs h hr
  have hposted := posted_steady s s' hs h.left hr
  refine ⟨hposted, fun e he ha => ?_⟩
  obtain ⟨call, hcall, hp, -⟩ := hposted
  have hauthor : e.author = .page n := by
    cases e <;> simp only [Event.requestedBy, reduceCtorEq, Option.some.injEq] at ha
    subst ha
    obtain ⟨call', hcall', hp'⟩ := hr.sound.asked _ _ _ _ he
    rw [hcall] at hcall'
    cases hcall'
    rw [Event.author, ← hp', hp]
  exact h.right e (hr.authored e he hauthor) ha

theorem request_obeys
    (hA : Steady (.page n) fun s => Prepared a k t s ∧ Posted n a (.prepare t) s ∧ Unasked a s)
    (h : At (fun s => Prepared a k t s ∧ Posted n a (.prepare t) s ∧ Unasked a s) s) :
    Obeying (.page n) (Ends (fun _ s => SavedRemoval.Known s.story ⟨k, t⟩)
      fun _ s => SavedRemoval.Known s.story ⟨k, t⟩) (request n a k t) s := by
  have hknown : Lasting fun s => SavedRemoval.Known s.story ⟨k, t⟩ := fun s s' hg h => h.mono hg.story
  refine bind_obeys (step_obeys (P := fun c s =>
    Posted n c (.mutate k t) s ∧ SavedRemoval.Known s.story ⟨k, t⟩) hA
    (fun _ => posted_steady.and hknown.steady) (fun s hs h => ?_) h) fun c s h => ?_
  · obtain ⟨⟨hi, c, hr⟩, ⟨call, hcall, hp, -⟩, hu⟩ := h
    refine ⟨request_allowed hs hu hi ⟨call, hcall, hp⟩, ⟨_, List.getElem?_concat_length, rfl, rfl⟩, ?_⟩
    exact SavedRemoval.Known.mono ⟨⟨c, hr⟩, ⟨a, hi⟩⟩ (List.prefix_append _ _)
  · exact ends_mono (await_obeys (posted_steady.and hknown.steady) h) (fun _ _ _ h => h.right.right)
      fun _ _ _ h => h.right.right

theorem perform_obeys (h : At Nothing s) : Obeying (.page n) Done (perform f n t) s := by
  refine bind_obeys (step_obeys (P := fun a s => Posted n a (.prepare t) s ∧ Unasked a s) nothing_steady
    (fun _ => unasked_steady) (fun s hs _ => ?_) h) fun a s h => ?_
  · refine ⟨post_allowed hs trivial, ⟨_, List.getElem?_concat_length, rfl, rfl⟩, fun e he ha => ?_⟩
    have he : e ∈ s.story := by simpa using he
    cases e <;> simp only [Event.requestedBy, reduceCtorEq, Option.some.injEq] at ha
    subst ha
    obtain ⟨call, hcall, -⟩ := hs.asked _ _ _ _ he
    simp at hcall
  refine bind_obeys (ends_mono (await_obeys unasked_steady h) (fun _ _ _ h => h) fun _ _ _ _ => trivial)
    fun reply s h => ?_
  split
  case h_2 => exact raise_obeys nothing_steady (fun _ _ h => h) ⟨h.sound, trivial⟩
  case h_1 k =>
    have hA : Steady (.page n) fun s => Prepared a k t s ∧ Posted n a (.prepare t) s ∧ Unasked a s :=
      prepared_lasting.steady.and unasked_steady
    have h : At (fun s => Prepared a k t s ∧ Posted n a (.prepare t) s ∧ Unasked a s) s :=
      h.imp fun h => ⟨h.left k rfl, h.right⟩
    refine bind_obeys (P := fun _ s => Prepared a k t s ∧ Posted n a (.prepare t) s ∧ Unasked a s) ?_
      fun _ s h => ?_
    · cases t.kind
      case delete => exact ret_obeys hA (fun _ _ h => h) h
      case clear  =>
        refine change_obeys hA hA (fun s hs h => ⟨⟨fun r hr hm => ?_, (hs.clients n).restoring⟩, ?_⟩) h
        · exact (hs.clients n).records r (Table.mem_delete.mp hr).left hm
        · refine ⟨prepared_lasting s _ ⟨List.prefix_append _ _, fun k hk => hk.concat rfl nofun rfl⟩ h.left,
            h.right.left, fun e he => ?_⟩
          simp only [Desk.change, note, List.mem_append, List.mem_singleton] at he
          obtain he | rfl := he
          · exact h.right.right e he
          · simp [Event.requestedBy]
    refine bind_obeys (capture_obeys (request_obeys hA h)) fun reply s h => ?_
    obtain ⟨hs, hok, herror⟩ := h
    split
    case h_1 receipt =>
      exact publish_obeys ⟨hs, fun hm => by simp [InboxRemovalRecord.Missing] at hm⟩
    case h_2         => exact raise_obeys nothing_steady (fun _ _ h => h) ⟨hs, trivial⟩
    case h_3 e       => exact readStatus_obeys ⟨hs, herror e rfl⟩

theorem restore_obeys (h : At Nothing s) : Obeying (.page n) Done (restore n) s := by
  refine bind_obeys (read_obeys (P := fun _ => Nothing) nothing_steady (fun _ => nothing_steady)
    (fun _ _ h => h) h) fun restoring s h => ?_
  split
  case isFalse => exact ret_obeys nothing_steady (fun _ _ h => h) h
  case isTrue  =>
    refine bind_obeys (ends_mono (invoke_obeys lasting_true (fun _ _ _ => trivial) h) (fun _ _ _ h => h)
      fun _ _ _ _ => trivial) fun reply s h => ?_
    split
    case h_2 => exact raise_obeys nothing_steady (fun _ _ h => h) ⟨h.sound, trivial⟩
    case h_1 requests =>
      have hknown : Lasting fun s => ∀ r ∈ requests, r.Known s.story :=
        fun s s' hg h r hr => (h r hr).mono hg.story
      have h : At (fun s => ∀ r ∈ requests, r.Known s.story) s := by
        obtain ⟨hs, ⟨c, hc⟩, -⟩ := h
        exact ⟨hs, hc requests rfl⟩
      refine step_obeys (P := fun _ => Nothing) hknown.steady (fun _ => nothing_steady) (fun s hs h => ?_) h
      exact ⟨client_allowed hs ⟨(hs.clients n).records, h⟩, trivial⟩

theorem restoreNext_obeys (h : At Nothing s) : Obeying (.page n) Done (restoreNext f n) s := by
  have hknown (rs : List SavedRemoval) : Lasting fun s => ∀ r ∈ rs, r.Known s.story :=
    fun s s' hg h r hr => (h r hr).mono hg.story
  refine bind_obeys (step_obeys (P := fun rs s => ∀ r ∈ rs, r.Known s.story) nothing_steady
    (fun rs => (hknown rs).steady) (fun s hs _ => ⟨client_allowed hs ⟨(hs.clients n).records, ?_⟩,
      (hs.clients n).restoring⟩) h) fun rs s h => ?_
  · exact fun r hr => (hs.clients n).restoring r (List.mem_of_mem_tail hr)
  · cases rs
    case nil            => exact ret_obeys nothing_steady (fun _ _ h => h) ⟨h.sound, trivial⟩
    case cons request _ => exact readStatus_obeys (h.imp fun h => h request (by simp))

end Pages

section Runs

variable [Codec] {s : Desk} {i : Process} {clock : Instant} {as : List (Turn Process Task)}

-- Where a process is that is not at work.
def Resting : Process → Desk → Prop
  | .worker c => Rests c
  | _         => Nothing

theorem resting_steady : Steady i (Resting i) := by
  cases i
  case worker c => exact rests_steady
  all_goals exact nothing_steady

-- A host may die, unless an engine that it has asked for a removal still waits for the operation lock.
def MayDie : Process → Desk → Prop
  | .worker c, s => ∀ m ∈ s.mutations, m.worker = c → m.phase ≠ .waiting
  | _,         _ => True

instance : (i : Process) → (s : Desk) → Decidable (MayDie i s)
  | .worker c, s => inferInstanceAs <| Decidable (∀ m ∈ s.mutations, m.worker = c → m.phase ≠ .waiting)
  | .page _,   _ => .isTrue trivial
  | .engine _, _ => .isTrue trivial
  | .other,    _ => .isTrue trivial

theorem program_obeys {task : Task} (h : At (Resting i) s) :
    Obeying i (fun _ s => At (Resting i) s) (program i task) s := by
  have hidle : Obeying i (fun _ s => At (Resting i) s) (ret () : Program Unit) s :=
    .of_pure (At.stable resting_steady) (fun _ h => h) h
  have hend (P : Desk → Prop) (r : Except Failure Unit) (s : Desk)
      (h : Ends (fun _ => P) (fun _ => P) r s) : At P s := by
    cases r <;> exact h
  cases i <;> cases task <;> try exact hidle
  case page.clear       => exact (perform_obeys h).mono (hend _)
  case page.delete      => exact (perform_obeys h).mono (hend _)
  case page.restore     => exact (restore_obeys h).mono (hend _)
  case page.restoreNext => exact (restoreNext_obeys h).mono (hend _)
  case worker.work      => exact (work_obeys h).mono (hend _)
  case engine.work      => exact (engine_obeys h).mono (hend _)
  case other.chore      => exact (chore_obeys h).mono (hend _)

theorem leave_allowed (h : Sound s) (hd : MayDie i s) :
    Allowed Sound Respects i s (leave i s) ∧ Resting i (leave i s) := by
  cases i
  case page n   => exact ⟨client_allowed h ⟨nofun, nofun⟩, trivial⟩
  case engine r => exact ⟨endMutation_allowed h, trivial⟩
  case other    => exact ⟨stay_allowed h, trivial⟩
  case worker c =>
    have hg : Grows s (leave (.worker c) s) := ⟨List.prefix_rfl, fun k hk => hk.of_eq rfl rfl⟩
    refine ⟨Change.allowed (.silent rfl hg.dead .refl (fun c' hc' => ?_) (fun c' hc' => ?_) (.inl rfl)
      fun _ _ => .refl) <| h.silent rfl hg.dead rfl h.receipts rfl .refl
        (fun c call hc => (h.calls c call hc).mono hg) (fun r m hm => ?_) fun n => (h.clients n).mono hg, ?_⟩
    · have hne : c ≠ c' := fun he => hc' (by rw [he])
      simp only [leave]
      split <;> simp_all
    · have hne : c ≠ c' := fun he => hc' (by rw [he])
      simp only [leave]
      split <;> simp_all
    · have hv := h.mutations r m hm
      refine ⟨hv.dispatched, hv.issued, fun hw => ?_, fun hw => ?_⟩
      · have hc := hv.waiting hw
        have hne : m.worker ≠ c := fun he => hd m (List.mem_of_getElem? hm) he hw
        simp [leave, hc, hne]
      · have ho := hv.holding hw
        simp [leave, ho]
    · constructor
      · simp only [leave]
        split <;> simp_all
      · simp only [leave]
        split <;> simp_all

theorem initial_sound : Sound (.initial clock) where
  lawful          := lawful_nil
  journal         := ⟨List.nodup_nil, fun k => by simp [Desk.initial, Remembered], fun _ h => (by cases h)⟩
  receipts        := ⟨fun k => by simp [Desk.initial, Accepted], fun _ h => (by cases h), fun _ h => (by cases h)⟩
  tokens _ _ h    := by
    obtain ⟨_, h⟩ := h
    cases h
  calls _ _ h     := by cases h
  served _ h      := by cases h
  asked _ _ _ _ h := by cases h
  mutations _ _ h := by cases h
  clients _       := ⟨fun _ h => (by cases h), fun _ h => (by cases h)⟩
  shown _ _ h     := by cases h

theorem after_sound (hg : desk.Guarded (Crowd.Admits MayDie) ⟨.initial clock, fun _ => none⟩ as) :
    Sound (after clock as) := by
  refine (Crowd.sound_guarded (S := Sound) (R := Respects) (W := fun i => At (Resting i))
    ?_ ?_ ?_ ?_ hg).state
  · exact fun i => At.stable resting_steady
  · exact fun i task s _ h => program_obeys h
  · intro i s hs hd
    have hleave := leave_allowed hs hd
    exact ⟨hleave.left, hleave.left.left, hleave.right⟩
  · refine ⟨initial_sound, fun i _ => ⟨initial_sound, ?_⟩, fun _ _ h => by cases h⟩
    cases i
    case worker c => exact ⟨fun h => (by cases h), fun h => (by cases h)⟩
    all_goals trivial

end Runs

section Reports

namespace Event

-- The key that is issued for an action.
def keyFor (a : Nat) : Event → Option Key
  | issued c k _ => if c = a then some k else none
  | _            => none

-- The call by which a removal is asked for.
def requestFor (a : Nat) : Event → Option Nat
  | requested _ a' d _ => if a' = a then some d else none
  | _                  => none

-- The call for which an engine is started.
def dispatchedCall : Event → Option Nat
  | dispatched d _ => some d
  | _              => none

def acceptedKey : Event → Option Key
  | accepted _ k => some k
  | _            => none

end Event

variable (s : Desk) (a : Nat)

def Desk.keysOf : List Key :=
  s.story.filterMap (·.keyFor a)

def Desk.requestsOf : List Nat :=
  s.story.filterMap (·.requestFor a)

def Desk.enginesOf : List Nat :=
  (s.story.filterMap Event.dispatchedCall).filter (· ∈ s.requestsOf a)

def Desk.removalsOf : List Key :=
  (s.story.filterMap Event.acceptedKey).filter (· ∈ s.keysOf a)

-- What holds of everything that is asked for and told.
structure Reported : Prop where
  -- An action has at most one key, asks at most once, and at most one removal is accepted for it.
  keys      : ∀ a, (s.keysOf a).length ≤ 1
  requests  : ∀ a, (s.requestsOf a).length ≤ (s.keysOf a).length
  engines   : ∀ a, (s.enginesOf a).length ≤ (s.requestsOf a).length
  removals  : ∀ a, (s.removalsOf a).length ≤ (s.enginesOf a).length
  journal   : (s.journal.map (·.requestId)).Nodup
  -- A removal that has a receipt is forgotten only after a page has been told that it is complete.
  forgotten : ∀ before c k after, s.story = before ++ .forgotten c k :: after →
    Accepted before k → ¬Retired before k → CompletedShown before k
  -- A removal that a page has been told is missing has been forgotten, and is never accepted.
  missing   : ∀ before n records after, s.story = before ++ .shown n records :: after →
    ∀ r ∈ records, r.Missing → Forgotten before r.request.requestId ∧ ¬Accepted s.story r.request.requestId

variable {s a} {k : Key} {d : Nat}

theorem mem_keysOf : k ∈ s.keysOf a ↔ ∃ t, .issued a k t ∈ s.story := by
  simp only [Desk.keysOf, List.mem_filterMap]
  constructor
  · rintro ⟨e, he, hk⟩
    cases e <;> simp only [Event.keyFor, reduceCtorEq] at hk
    split at hk <;> cases hk
    subst_vars
    exact ⟨_, he⟩
  · rintro ⟨t, ht⟩
    exact ⟨_, ht, by simp [Event.keyFor]⟩

theorem mem_requestsOf : d ∈ s.requestsOf a ↔ ∃ n k, .requested n a d k ∈ s.story := by
  simp only [Desk.requestsOf, List.mem_filterMap]
  constructor
  · rintro ⟨e, he, hd⟩
    cases e <;> simp only [Event.requestFor, reduceCtorEq] at hd
    split at hd <;> cases hd
    subst_vars
    exact ⟨_, _, he⟩
  · rintro ⟨n, k, hk⟩
    exact ⟨_, hk, by simp [Event.requestFor]⟩

variable [Codec]

theorem keysOf_length (h : Sound s) : (s.keysOf a).length ≤ 1 := by
  rw [Desk.keysOf, List.length_filterMap_eq_countP]
  refine h.lawful.countP_le_one fun before e hj he e' he' => ?_
  cases e <;> simp only [Event.keyFor, Option.isSome_none, Bool.false_eq_true] at he
  split at he <;> cases he
  subst_vars
  have := hj.left e' he'
  cases e' <;> simp_all [Event.keyFor, Event.servedBy]

theorem requestsOf_length (h : Sound s) : (s.requestsOf a).length ≤ 1 := by
  rw [Desk.requestsOf, List.length_filterMap_eq_countP]
  refine h.lawful.countP_le_one fun before e hj he e' he' => ?_
  cases e <;> simp only [Event.requestFor, Option.isSome_none, Bool.false_eq_true] at he
  split at he <;> cases he
  subst_vars
  have := hj.left e' he'
  cases e' <;> simp_all [Event.requestFor, Event.requestedBy]

omit [Codec] in
theorem length_le_of_nodup {α : Type} {l l' : List α} (h : l.Nodup) (hs : ∀ x ∈ l, x ∈ l') :
    l.length ≤ l'.length :=
  (List.subperm_of_subset h hs).length_le

omit [Codec] in
theorem length_le_of_nonempty {α β : Type} {l : List α} {l' : List β} (h : l.length ≤ 1)
    (hs : ∀ x ∈ l, ∃ y, y ∈ l') : l.length ≤ l'.length := by
  cases l
  case nil      => simp
  case cons x _ =>
    obtain ⟨y, hy⟩ := hs x (by simp)
    exact h.trans (List.length_pos_of_mem hy)

theorem Sound.reported (h : Sound s) : Reported s := by
  refine ⟨fun a => keysOf_length h, fun a => ?_, fun a => ?_, fun a => ?_, h.journal.nodup, ?_, ?_⟩
  · refine length_le_of_nonempty (requestsOf_length h) fun d hd => ?_
    obtain ⟨n, k, hk⟩ := mem_requestsOf.mp hd
    obtain ⟨before, hp, -, t, ht⟩ := h.lawful.of_mem hk
    exact ⟨k, mem_keysOf.mpr ⟨t, hp.subset ht⟩⟩
  · refine length_le_of_nodup (List.Nodup.filter _ ?_) fun d hd => by simpa using (List.mem_filter.mp hd).right
    refine h.lawful.nodup_filterMap fun before e d hj hd hm => ?_
    cases e <;> cases hd
    obtain ⟨e', he', hd'⟩ := List.mem_filterMap.mp hm
    refine hj.left e' he' ?_
    cases e' <;> cases hd'
    rfl
  · have hnodup : (s.removalsOf a).Nodup := by
      refine List.Nodup.filter _ (h.lawful.nodup_filterMap fun before e k hj hk hm => ?_)
      cases e <;> cases hk
      obtain ⟨e', he', hk'⟩ := List.mem_filterMap.mp hm
      cases e' <;> cases hk'
      exact hj.left ⟨_, he'⟩
    have hkeys (k : Key) (hk : k ∈ s.removalsOf a) : k ∈ s.keysOf a := by
      simpa using (List.mem_filter.mp hk).right
    refine length_le_of_nonempty ((length_le_of_nodup hnodup hkeys).trans (keysOf_length h)) fun k hk => ?_
    obtain ⟨e, he, hk'⟩ := List.mem_filterMap.mp (List.mem_filter.mp hk).left
    cases e <;> cases hk'
    obtain ⟨before, hp, -, -, d, hd⟩ := h.lawful.of_mem he
    have hd := hp.subset hd
    obtain ⟨before, hp, -, n, a', hr⟩ := h.lawful.of_mem hd
    have hr := hp.subset hr
    obtain ⟨before, hp, -, t, ht⟩ := h.lawful.of_mem hr
    obtain ⟨t', ht'⟩ := mem_keysOf.mp (hkeys k hk)
    obtain ⟨rfl, -⟩ := issued_unique h.lawful (hp.subset ht) ht'
    refine ⟨d, List.mem_filter.mpr ⟨List.mem_filterMap.mpr ⟨_, hd, rfl⟩, ?_⟩⟩
    simpa using mem_requestsOf.mpr ⟨n, k, hr⟩
  · exact fun before c k after hs => (h.lawful before _ after hs).right
  · intro before n records after hs r hr hm
    refine ⟨(h.lawful before _ after hs r hr hm).left, ?_⟩
    exact (h.shown n records (by simp [hs]) r hr hm).accepted

-- No host dies while a removal that it has asked an engine for waits for the operation lock: then what is
-- reported holds in every state.
theorem removals_reported (clock : Instant) (as : List (Turn Process Task))
    (hg : desk.Guarded (Crowd.Admits MayDie) ⟨.initial clock, fun _ => none⟩ as) :
    Reported (after clock as) :=
  (after_sound hg).reported

end Reports

namespace Sample

instance : Codec where
  requestHash t              := if t.kind = .clear then 1 else 2
  sign _ token _ fingerprint := token + fingerprint

def goOn (i : Process) (n : Nat) : List (Turn Process Task) :=
  List.replicate n (.step i)

-- What a worker does, from the call to the reply.
def serving (c : Nat) : List (Turn Process Task) :=
  .start (.worker c) (.work {}) :: goOn (.worker c) 14

-- A page asks for everything to be cleared, and the host is about to wait for the engine.
def asked : List (Turn Process Task) :=
  .start (.page 0) (.clear {}) :: goOn (.page 0) 1 ++ serving 0 ++ goOn (.page 0) 3 ++
  .start (.worker 1) (.work {}) :: goOn (.worker 1) 4

def accepting : List (Turn Process Task) :=
  .start (.engine 0) (.work {}) :: goOn (.engine 0) 6

-- The page that is loaded after the host has died reads what has been saved.
def restored : List (Turn Process Task) :=
  [.die (.page 0), .die (.worker 1), .start (.page 1) .restore] ++ goOn (.page 1) 2 ++ serving 2 ++
  goOn (.page 1) 3 ++ .start (.page 1) (.restoreNext {}) :: goOn (.page 1) 2 ++ serving 3 ++
  goOn (.page 1) 4

-- The host dies before the engine has begun.
def orphaned : List (Turn Process Task) :=
  asked ++ restored ++ accepting

-- The host dies when the engine is done.
def settled : List (Turn Process Task) :=
  asked ++ accepting ++ restored ++ serving 4 ++ goOn (.page 1) 2

def key : Key :=
  ⟨30 * 86400, 0, 1⟩

def missing : InboxRemovalRecord :=
  ⟨⟨key, ⟨.clear, none⟩⟩, .missing ⟨.notFound, "Removal request was not found"⟩⟩

def told : List Event :=
  [.issued 0 key ⟨.clear, none⟩, .remembered 0 key, .shown 0 [], .requested 0 0 1 key,
   .dispatched 1 key, .forgotten 3 key]

theorem story_orphaned :
    (after 0 orphaned).story = told ++ .shown 1 [missing] :: [.accepted 0 key] := by
  decide +kernel

-- A page is told that nothing has been deleted, and then everything is.
theorem removals_reported_orphaned : ¬Reported (after 0 orphaned) := by
  intro h
  have hmissing := h.missing told 1 [missing] [.accepted 0 key] story_orphaned missing (by simp) ⟨_, rfl⟩
  refine hmissing.right ⟨0, ?_⟩
  rw [story_orphaned]
  simp [missing]

theorem removals_reported_settled :
    (after 0 settled).removalsOf 0 = [key] ∧ (after 0 settled).journal = [] ∧
    Reported (after 0 settled) :=
  ⟨by decide +kernel, by decide +kernel, removals_reported 0 settled (by decide +kernel)⟩

end Sample

end Removal
