import EmailWatcher.Threads.Fences

-- What the operations of the view keep.
namespace Threads

namespace View

variable {v v' : View} {s s' : Slot} {o p : Nat} {r : Read} {q : Query}

section Agreement

-- The same is selected, as far as requests are concerned.
structure SameSelection (v v' : View) : Prop where
  vendor         : v'.vendor = v.vendor
  account        : v'.account = v.account
  selectedThread : v'.selectedThread = v.selectedThread
  inbox          : v'.inbox = v.inbox
  inboxVendor    : v'.inboxVendor = v.inboxVendor
  invalidations  : v'.invalidations = v.invalidations
  answers        : v.answers <+: v'.answers

theorem SameSelection.selectorFor (h : SameSelection v v') (t : ThreadRef) :
    v'.selectorFor t = v.selectorFor t := by
  simp only [View.selectorFor, h.inbox, h.selectedThread, h.vendor]

theorem SameSelection.asksMessages (h : SameSelection v v') (ha : v.AsksMessages q) :
    v'.AsksMessages q := by
  obtain ⟨t, selector, ht, hs, rfl⟩ := ha
  exact ⟨t, selector, h.selectedThread.trans ht, (h.selectorFor _).trans hs, rfl⟩

theorem SameSelection.names (h : SameSelection v v') {t : ThreadRef} (hn : v.Names t) : v'.Names t := by
  obtain ⟨a, ha, hi, hm, hp⟩ := hn
  exact ⟨a, h.answers.subset ha, hi.trans h.invalidations.symm, h.asksMessages hm, hp⟩

theorem SameSelection.asksChild (h : SameSelection v v') {f : ThreadSelector → Query}
    (ha : v.AsksChild f q) : v'.AsksChild f q := by
  obtain ⟨t, selector, hn, hs, hq⟩ := ha
  exact ⟨t, selector, h.names hn, (h.selectorFor t).trans hs, hq⟩

theorem SameSelection.asks (h : SameSelection v v') (ha : v.Asks s q) : v'.Asks s q := by
  cases s
  case resolution =>
    obtain ⟨entry, he, rfl⟩ := ha
    exact ⟨entry, h.inbox.trans he, by rw [h.inboxVendor]⟩
  case threads =>
    obtain ⟨hi, vendor, hv, rfl⟩ := ha
    exact ⟨h.inbox.trans hi, vendor, h.vendor.trans hv, by rw [h.account]⟩
  case messages  => exact h.asksMessages ha
  case bodies    => exact h.asksChild ha
  case copies    => exact h.asksChild ha
  case inventory => exact h.asksChild ha

theorem SameSelection.of_rfl : SameSelection v v where
  vendor         := rfl
  account        := rfl
  selectedThread := rfl
  inbox          := rfl
  inboxVendor    := rfl
  invalidations  := rfl
  answers        := List.prefix_rfl

theorem SameSelection.trans {v'' : View} (h : SameSelection v v') (h' : SameSelection v' v'') :
    SameSelection v v'' where
  vendor         := h'.vendor.trans h.vendor
  account        := h'.account.trans h.account
  selectedThread := h'.selectedThread.trans h.selectedThread
  inbox          := h'.inbox.trans h.inbox
  inboxVendor    := h'.inboxVendor.trans h.inboxVendor
  invalidations  := h'.invalidations.trans h.invalidations
  answers        := h.answers.trans h'.answers

-- As far as the object of a slot is concerned, nothing happens but that reads end.
structure Agrees (v v' : View) (s : Slot) (o : Nat) : Prop where
  value         : (v'.objects o).value = (v.objects o).value
  generation    : (v'.objects o).generation = (v.objects o).generation
  since         : (v'.objects o).since = (v.objects o).since
  reads         : ∀ r ∈ v'.reads, v'.Live o r → r ∈ v.reads
  settled       : ∀ q ∈ v'.settled, v'.Live o q.read → q ∈ v.settled ∨ ∀ x, q.reply = .ok x →
    v'.Source s o ⟨q.read.query, q.read.sent, v'.invalidations, x⟩
  asks          : ∀ q, v.Asks s q → v'.Asks s q
  lists         : ∀ m, s.message = some m → v.lists m → v'.lists m
  opened        : v.Open → v'.Open
  answers       : v.answers <+: v'.answers
  invalidations : v'.invalidations = v.invalidations

theorem mem_drop_of_prefix {α : Type} {l l' : List α} {n : Nat} {a : α} (h : l <+: l')
    (ha : a ∈ l.drop n) : a ∈ l'.drop n := by
  obtain ⟨t, rfl⟩ := h
  rw [List.drop_append]
  exact List.mem_append_left _ ha

theorem Agrees.source (h : Agrees v v' s o) {a : Answer} (ha : v.Source s o a) : v'.Source s o a := by
  obtain ⟨hmem, hi, hq, hx⟩ := ha
  refine ⟨?_, hi.trans h.invalidations.symm, h.asks _ hq, hx⟩
  rw [h.since]
  exact mem_drop_of_prefix h.answers hmem

theorem Agrees.liveRead (h : Agrees v v' s o) (hr : v.LiveRead s o r) : v'.LiveRead s o r where
  query      := h.asks _ hr.query
  clears     := hr.clears
  sent       := hr.sent
  issued n hn := (hr.issued n hn).trans h.invalidations.symm
  listed m hm := h.lists m hm (hr.listed m hm)
  value      := h.value.trans hr.value
  cursor     := hr.cursor
  more       := hr.more

theorem Agrees.live (h : Agrees v v' s o) (hr : v'.Live o r) : v.Live o r :=
  ⟨hr.left, hr.right.trans h.generation⟩

theorem SlotSound.agree (h : v.SlotSound s o) (ha : Agrees v v' s o) : v'.SlotSound s o where
  held x hx := by
    obtain ⟨hopen, hlists, chain, hpages, hsource⟩ := h.held x (ha.value.symm.trans hx)
    exact ⟨ha.opened hopen, fun m hm => ha.lists m hm (hlists m hm), chain, hpages,
      fun a hmem => ha.source (hsource a hmem)⟩
  live r hr hl := ha.liveRead (h.live r (ha.reads r hr hl) (ha.live hl))
  settled q hq hl x hx := by
    obtain hq' | hs := ha.settled q hq hl
    · have hs := ha.source (h.settled q hq' (ha.live hl) x hx)
      rwa [← ha.invalidations] at hs
    · exact hs x hx

-- A slot without a value, and without a read that could give it one.
def Quiet (v : View) (o : Nat) : Prop :=
  (v.objects o).value = none ∧ ∀ r ∈ v.reads, ¬v.Live o r

theorem mem_reads_of_settled {q : Settled} (h : q ∈ v.settled) : q.read ∈ v.reads :=
  List.mem_append_right _ (List.mem_map_of_mem h)

theorem Quiet.sound (h : v.Quiet o) : v.SlotSound s o where
  held _ hx := absurd (h.left.symm.trans hx) nofun
  live r hr hl := absurd hl (h.right r hr)
  settled _ hq hl := absurd hl (h.right _ (mem_reads_of_settled hq))

end Agreement

section Orders

theorem Ordered.unresolved_with_objects (h : v.Ordered) (hu : v.Unresolved) {f : Nat → ReadState}
    {ch : Table Child} (hf : ∀ o, Follows (v.objects o) (f o)) :
    ({ v with objects := f, children := ch } : View).Unresolved :=
  ⟨(hf resolution).value hu.left, fun r hr ht =>
    (hf resolution).le_base (hu.right r hr ht) (ht ▸ (h.reads r hr).right)⟩

-- The objects change, and some children go.
theorem Ordered.with_objects (h : v.Ordered) {f : Nat → ReadState} {ch : Table Child}
    (hf : ∀ o, Follows (v.objects o) (f o)) (hsince : ∀ o, (f o).since ≤ v.answers.length)
    (hch : ∀ c ∈ ch, c ∈ v.children) : ({ v with objects := f, children := ch } : View).Ordered where
  allocated := h.allocated
  children c hc := h.children c (hch c hc)
  distinct c hc c' hc' := h.distinct c (hch c hc) c' (hch c' hc')
  reads r hr := ⟨(h.reads r hr).left, Nat.le_trans (h.reads r hr).right (hf r.target).generation⟩
  unique    := h.unique
  since     := hsince
  issued    := h.issued
  admits r hr := (hf r.target).admits (h.admits r hr) (h.reads r hr).right
  failed hfailed := h.unresolved_with_objects (h.failed hfailed) hf

theorem follows_set {st : ReadState} (h : Follows (v.objects o) st) (p : Nat) :
    Follows (v.objects p) ((v.set o st).objects p) := by
  by_cases hp : p = o
  · subst hp
    rwa [set_objects_self]
  · rw [set_objects_of_ne hp]
    exact .refl _

theorem since_set (h : v.Ordered) {st : ReadState} (hsince : st.since ≤ v.answers.length) (p : Nat) :
    ((v.set o st).objects p).since ≤ v.answers.length := by
  by_cases hp : p = o
  · subst hp
    rwa [set_objects_self]
  · rw [set_objects_of_ne hp]
    exact h.since p

theorem Ordered.set (h : v.Ordered) {st : ReadState} (hf : Follows (v.objects o) st)
    (hsince : st.since ≤ v.answers.length) : (v.set o st).Ordered :=
  h.with_objects (follows_set hf) (since_set h hsince) fun _ => id

-- Nothing more is being loaded for the object, so that it can become ready, or fail.
theorem Ordered.set_idle (h : v.Ordered) {st : ReadState}
    (hidle : ∀ r ∈ v.reads, r.target = o → r.generation ≤ (v.objects o).base)
    (hgen : st.generation = (v.objects o).generation) (hbase : st.base = (v.objects o).base)
    (hvalue : .failed ∈ v.frames → (v.objects o).value = none → st.value = none)
    (hsince : st.since ≤ v.answers.length) : (v.set o st).Ordered where
  allocated := h.allocated
  children  := h.children
  distinct  := h.distinct
  reads r hr := by
    refine ⟨(h.reads r hr).left, ?_⟩
    by_cases ht : r.target = o
    · rw [ht, set_objects_self, hgen]
      exact ht ▸ (h.reads r hr).right
    · rw [set_objects_of_ne ht]
      exact (h.reads r hr).right
  unique    := h.unique
  since     := since_set h hsince
  issued    := h.issued
  admits r hr := by
    by_cases ht : r.target = o
    · rw [ht, set_objects_self]
      intro hlt
      rw [hbase] at hlt
      exact absurd (hidle r hr ht) (Nat.not_le.mpr hlt)
    · rw [set_objects_of_ne ht]
      exact h.admits r hr
  failed hfailed := by
    obtain ⟨hnone, hreads⟩ := h.failed hfailed
    by_cases ho : resolution = o
    · subst ho
      refine ⟨?_, fun r hr ht => ?_⟩
      · rw [set_objects_self]
        exact hvalue hfailed hnone
      · rw [set_objects_self, hbase]
        exact hreads r hr ht
    · refine ⟨?_, fun r hr ht => ?_⟩
      · rw [set_objects_of_ne ho]
        exact hnone
      · rw [set_objects_of_ne ho]
        exact hreads r hr ht

theorem Ordered.reset (h : v.Ordered) (o : Nat) : (v.reset o).Ordered :=
  h.with_objects (follows_reset v o) (since_set h (Nat.le_refl _)) fun _ => id

theorem Ordered.removeChildren (h : v.Ordered) (p : Slot → Bool) : (v.removeChildren p).Ordered := by
  obtain ⟨f, hf, -, hle⟩ := removeChildren_eq v p
  rw [hf]
  refine h.with_objects (fun o => (hle o).left) (fun o => ?_) fun c hc => (Table.mem_delete.mp hc).left
  obtain hs | hs := (hle o).right
  · exact hs ▸ h.since o
  · exact Nat.le_of_eq hs

theorem Ordered.unresolved_reset (h : v.Ordered) : (v.reset resolution).Unresolved := by
  refine ⟨by simp [View.reset], fun r hr ht => ?_⟩
  have hle := (h.reads r hr).right
  rw [ht] at hle
  simp only [View.reset, set_objects_self]
  exact Nat.le_succ_of_le hle

-- A new generation has no reads, so that a reset leaves a slot quiet.
theorem Ordered.quiet_reset (h : v.Ordered) (o : Nat) : (v.reset o).Quiet o := by
  refine ⟨by simp [View.reset], fun r hr hl => ?_⟩
  obtain ⟨ht, hg⟩ := hl
  have hle := (h.reads r hr).right
  rw [ht] at hle
  simp only [View.reset, set_objects_self] at hg
  omega

theorem Quiet.set_of_ne (h : v.Quiet o) {st : ReadState} (hp : o ≠ p) : (v.set p st).Quiet o := by
  refine ⟨by rw [set_objects_of_ne hp]; exact h.left, fun r hr hl => h.right r hr ?_⟩
  rw [Live, set_objects_of_ne hp] at hl
  exact hl

theorem Quiet.removeChildren (h : v.Quiet o) {p : Slot → Bool} (ho : ∀ c ∈ v.children, c.object ≠ o) :
    (v.removeChildren p).Quiet o := by
  obtain ⟨f, hf, hsame, -⟩ := removeChildren_eq v p
  rw [hf]
  have hfo : f o = v.objects o := hsame o fun c hc _ => ho c hc
  refine ⟨by rw [← h.left]; exact congrArg _ hfo, fun r hr hl => h.right r hr ?_⟩
  obtain ⟨ht, hg⟩ := hl
  exact ⟨ht, hg.trans (congrArg _ hfo)⟩

theorem Ordered.child_ne (h : v.Ordered) (ho : o < 3) : ∀ c ∈ v.children, c.object ≠ o := by
  rintro c hc rfl
  have := (h.children c hc).left
  omega

end Orders

section Invalidation

theorem objectOf_of_no_children (hc : ∀ c, c ∉ v.children) (hs : v.objectOf s = some o) :
    o = 0 ∨ o = 1 ∨ o = 2 := by
  obtain ⟨-, rfl⟩ | ⟨-, rfl⟩ | ⟨-, rfl⟩ | ⟨-, c, hmem, -⟩ := objectOf_cases hs
  · exact .inl rfl
  · exact .inr (.inl rfl)
  · exact .inr (.inr rfl)
  · exact absurd hmem (hc c)

theorem Ordered.sound_of_quiet (h : v.Ordered) (hc : ∀ c, c ∉ v.children) (hq : ∀ o < 3, v.Quiet o) :
    v.Sound where
  toOrdered := h
  slots s o hs := by
    obtain rfl | rfl | rfl := objectOf_of_no_children hc hs
    · exact (hq 0 (by decide)).sound
    · exact (hq 1 (by decide)).sound
    · exact (hq 2 (by decide)).sound

-- After an invalidation nothing is held, and nothing under way can change that.
theorem Ordered.invalidate (h : v.Ordered) : v.invalidate.Sound := by
  let u : View := { v with
    selectionGeneration := v.selectionGeneration + 1, invalidations := v.invalidations + 1 }
  have hu : u.Ordered :=
    ⟨h.allocated, h.children, h.distinct, h.reads, h.unique, h.since, h.issued, h.admits, h.failed⟩
  have h0 := hu.reset 0
  have h1 := h0.reset 1
  have h2 := h1.reset 2
  have hclear := h2.removeChildren fun _ => true
  have hq0 := ((hu.quiet_reset 0).set_of_ne (p := 1) (by decide) |>.set_of_ne (p := 2) (by decide)
    |>.removeChildren (p := fun _ => true) (h2.child_ne (by decide)))
  have hq1 := ((h0.quiet_reset 1).set_of_ne (p := 2) (by decide)
    |>.removeChildren (p := fun _ => true) (h2.child_ne (by decide)))
  have hq2 := (h1.quiet_reset 2).removeChildren (p := fun _ => true) (h2.child_ne (by decide))
  have hquiet : ∀ o < 3, ((((u.reset 0).reset 1).reset 2).clearChildren).Quiet o := by
    intro o ho
    obtain rfl | rfl | rfl : o = 0 ∨ o = 1 ∨ o = 2 := by omega
    · exact hq0
    · exact hq1
    · exact hq2
  have hnone := clearChildren_children (((u.reset 0).reset 1).reset 2)
  simp only [View.invalidate]
  split
  · exact Ordered.sound_of_quiet ⟨hclear.allocated, hclear.children, hclear.distinct, hclear.reads,
      hclear.unique, hclear.since, hclear.issued, hclear.admits, hclear.failed⟩ hnone hquiet
  · exact hclear.sound_of_quiet hnone hquiet

theorem Ordered.unresolved_invalidate (h : v.Ordered) : v.invalidate.Unresolved := by
  let u : View := { v with
    selectionGeneration := v.selectionGeneration + 1, invalidations := v.invalidations + 1 }
  have hu : u.Ordered :=
    ⟨h.allocated, h.children, h.distinct, h.reads, h.unique, h.since, h.issued, h.admits, h.failed⟩
  have h0 := hu.reset resolution
  have h1 := h0.reset threads
  have h2 := h1.reset messages
  have hu₁ : ((u.reset resolution).reset threads).Unresolved :=
    h0.unresolved_with_objects hu.unresolved_reset (follows_reset _ threads)
  have hu₂ : (((u.reset resolution).reset threads).reset messages).Unresolved :=
    h1.unresolved_with_objects hu₁ (follows_reset _ messages)
  have hclear : (((u.reset resolution).reset threads).reset messages).clearChildren.Unresolved := by
    obtain ⟨f, hf, -, hle⟩ :=
      removeChildren_eq (((u.reset resolution).reset threads).reset messages) fun _ => true
    rw [clearChildren, hf]
    exact h2.unresolved_with_objects hu₂ fun o => (hle o).left
  simp only [View.invalidate]
  split
  · exact ⟨hclear.left, hclear.right⟩
  · exact hclear

end Invalidation

section Frames

-- Nothing changes but what is still to be done, and that is no more than it has been.
theorem Ordered.sublist (h : v.Ordered) {fs : List Frame} {qs : List Request} {ss : List Settled}
    {cs : List (Nat × Nat)} (hf : fs.Sublist v.frames) (hq : qs.Sublist v.requests)
    (hs : ss.Sublist v.settled) :
    ({ v with frames := fs, requests := qs, settled := ss, concluding := cs } : View).Ordered := by
  have hreads : ({ v with frames := fs, requests := qs, settled := ss, concluding := cs } : View).reads
      |>.Sublist v.reads :=
    ((hf.filterMap Frame.read).append (hq.map Request.read)).append (hs.map Settled.read)
  exact {
    allocated := h.allocated
    children  := h.children
    distinct  := h.distinct
    reads r hr := h.reads r (hreads.subset hr)
    unique    := h.unique.sublist (hreads.map Read.key)
    since     := h.since
    issued q hq' := h.issued q (hq.subset hq')
    admits r hr  := h.admits r (hreads.subset hr)
    failed hfailed :=
      have hu := h.failed (hf.subset hfailed)
      ⟨hu.left, fun r hr => hu.right r (hreads.subset hr)⟩
  }

theorem Sound.sublist (h : v.Sound) {fs : List Frame} {qs : List Request} {ss : List Settled}
    {cs : List (Nat × Nat)} (hf : fs.Sublist v.frames) (hq : qs.Sublist v.requests)
    (hs : ss.Sublist v.settled) :
    ({ v with frames := fs, requests := qs, settled := ss, concluding := cs } : View).Sound where
  toOrdered := h.toOrdered.sublist hf hq hs
  slots s o hso := by
    have hreads : ({ v with frames := fs, requests := qs, settled := ss, concluding := cs } : View).reads
        |>.Sublist v.reads :=
      ((hf.filterMap Frame.read).append (hq.map Request.read)).append (hs.map Settled.read)
    exact (h.slots s o hso).agree {
      value         := rfl
      generation    := rfl
      since         := rfl
      reads r hr _  := hreads.subset hr
      settled q hq _ := .inl (hs.subset hq)
      asks _        := SameSelection.asks ⟨rfl, rfl, rfl, rfl, rfl, rfl, List.prefix_rfl⟩
      lists _ _     := id
      opened        := id
      answers       := List.prefix_rfl
      invalidations := rfl
    }

theorem reads_push {f : Frame} (hf : f.read = none) : (v.push f).reads = v.reads := by
  simp [View.reads, View.push, hf]

-- A frame without a read.
theorem Ordered.pushes (h : v.Ordered) {f : Frame} (hf : f.read = none)
    (hu : f = .failed → v.Unresolved) : (v.push f).Ordered := by
  have hreads := reads_push (v := v) hf
  refine ⟨h.allocated, h.children, h.distinct, fun r hr => ?_, ?_, h.since, h.issued, fun r hr => ?_,
    fun hfailed => ?_⟩
  · rw [hreads] at hr
    exact h.reads r hr
  · rw [hreads]
    exact h.unique
  · rw [hreads] at hr
    exact h.admits r hr
  · have hu : v.Unresolved := by
      obtain hfailed | hfailed := List.mem_cons.mp hfailed
      · exact hu hfailed.symm
      · exact h.failed hfailed
    exact ⟨hu.left, fun r hr => hu.right r (hreads ▸ hr)⟩

theorem Sound.pushes (h : v.Sound) {f : Frame} (hf : f.read = none) (hu : f = .failed → v.Unresolved) :
    (v.push f).Sound where
  toOrdered := h.toOrdered.pushes hf hu
  slots s o hso := by
    have hreads := reads_push (v := v) hf
    exact (h.slots s o hso).agree {
      value         := rfl
      generation    := rfl
      since         := rfl
      reads r hr _  := hreads ▸ hr
      settled _ hq _ := .inl hq
      asks _        := SameSelection.asks ⟨rfl, rfl, rfl, rfl, rfl, rfl, List.prefix_rfl⟩
      lists _ _     := id
      opened        := id
      answers       := List.prefix_rfl
      invalidations := rfl
    }

theorem Sound.push (h : v.Sound) {f : Frame} (hf : f.plain) : (v.push f).Sound := by
  refine h.pushes (Frame.read_of_plain hf) fun he => ?_
  subst he
  cases hf

theorem Sound.push_failed (h : v.Sound) (hu : v.Unresolved) : (v.push .failed).Sound :=
  h.pushes rfl fun _ => hu

theorem Sound.finish (h : v.Sound) (r : Read) : (v.finish r).Sound := by
  rw [View.finish]
  split
  · exact h
  · exact h.sublist (.refl _) (.refl _) (.refl _)

end Frames

section Removal

theorem lists_congr (h : (v'.objects messages).value = (v.objects messages).value) (m : String) :
    v'.lists m = v.lists m := by
  simp only [lists, messagePage, h]

theorem removeChildren_messages (h : v.Ordered) (p : Slot → Bool) :
    (v.removeChildren p).objects messages = v.objects messages := by
  obtain ⟨f, hf, hsame, -⟩ := removeChildren_eq v p
  rw [hf]
  exact hsame messages fun c hc _ => h.child_ne (by decide) c hc

theorem sameSelection_removeChildren (v : View) (p : Slot → Bool) :
    SameSelection v (v.removeChildren p) := by
  obtain ⟨f, hf, -⟩ := removeChildren_eq v p
  rw [hf]
  exact ⟨rfl, rfl, rfl, rfl, rfl, rfl, List.prefix_rfl⟩

theorem SlotSound.removeChildren (h : v.SlotSound s o) (hv : v.Ordered) {p : Slot → Bool}
    (ho : ∀ c ∈ v.children, p c.slot → c.object ≠ o) : (v.removeChildren p).SlotSound s o := by
  have hsel := sameSelection_removeChildren v p
  have hlists := lists_congr (congrArg ReadState.value (removeChildren_messages hv p))
  obtain ⟨f, hf, hsame, -⟩ := removeChildren_eq v p
  rw [hf] at hsel hlists ⊢
  have hfo := hsame o ho
  exact h.agree {
    value         := congrArg _ hfo
    generation    := congrArg _ hfo
    since         := congrArg _ hfo
    reads _ hr _  := hr
    settled _ hq _ := .inl hq
    asks _        := hsel.asks
    lists m _ hm  := (hlists m).trans hm
    opened        := id
    answers       := List.prefix_rfl
    invalidations := rfl
  }

theorem objectOf_removeChildren {p : Slot → Bool} (h : (v.removeChildren p).objectOf s = some o) :
    v.objectOf s = some o ∧ (s.message.isSome → p s = false) := by
  obtain ⟨f, hf, -⟩ := removeChildren_eq v p
  rw [hf] at h
  cases s
  case resolution => exact ⟨h, nofun⟩
  case threads    => exact ⟨h, nofun⟩
  case messages   => exact ⟨h, nofun⟩
  all_goals
    obtain ⟨c, hc, rfl⟩ := Option.map_eq_some_iff.mp h
    obtain ⟨hget, hp⟩ := Table.get_delete_eq_some.mp hc
    exact ⟨Option.map_eq_some_iff.mpr ⟨c, hget, rfl⟩, fun _ => Table.key_of_get hget ▸ hp⟩

theorem Sound.removeChildren (h : v.Sound) (p : Slot → Bool) : (v.removeChildren p).Sound where
  toOrdered := h.toOrdered.removeChildren p
  slots s o hso := by
    obtain ⟨hs, hp⟩ := objectOf_removeChildren hso
    refine (h.slots s o hs).removeChildren h.toOrdered fun c hc hpc hco => ?_
    have hc' : v.objectOf c.slot = some o := by
      rw [objectOf_child (h.children c hc).right.right, Option.map_eq_some_iff]
      exact ⟨c, Table.get_of_mem hc, hco⟩
    have heq := h.slot_unique hs hc'
    subst heq
    rw [hp (h.children c hc).right.right] at hpc
    cases hpc

theorem Sound.clear (h : v.Sound) (cl : Clears) : (v.clear cl).Sound := by
  cases cl
  case nothing => exact h
  all_goals
    simp only [View.clear, clearChildren, clearInventory]
    exact h.removeChildren _

theorem sameSelection_clear (v : View) (cl : Clears) : SameSelection v (v.clear cl) := by
  cases cl
  case nothing => exact .of_rfl
  all_goals
    simp only [View.clear, clearChildren, clearInventory]
    exact sameSelection_removeChildren v _

-- What a read clears does not belong to its own slot.
theorem objectOf_clear (h : v.objectOf s = some o) : (v.clear s.clears).objectOf s = some o := by
  cases s
  case copies m =>
    obtain ⟨f, hf, -⟩ := removeChildren_eq v (·.isInventoryOf m)
    obtain ⟨c, hc, rfl⟩ := Option.map_eq_some_iff.mp h
    have hslot : c.slot = .copies m := Table.key_of_get hc
    have hget := Table.get_delete_eq_some (p := fun c : Child => c.slot.isInventoryOf m).mpr
      ⟨hc, by rw [hslot]; rfl⟩
    simp only [View.clear, Slot.clears, clearInventory]
    rw [hf]
    exact Option.map_eq_some_iff.mpr ⟨c, hget, rfl⟩
  all_goals exact h

end Removal

end View

end Threads
