import EmailWatcher.Threads.Reads

-- The actions of the view, and what comes of a reply, keep it in order.
namespace Threads

namespace View

variable {v v' : View} {s s' : Slot} {o p : Nat} {r : Read} {q : Query}

section Replies

theorem clear_cases (v : View) (cl : Clears) : v.clear cl = v ∨ ∃ p, v.clear cl = v.removeChildren p := by
  cases cl
  case nothing     => exact .inl rfl
  case children    => exact .inr ⟨fun _ => true, rfl⟩
  case inventory m => exact .inr ⟨(·.isInventoryOf m), rfl⟩

theorem reads_clear (v : View) (cl : Clears) : (v.clear cl).reads = v.reads := by
  obtain h | ⟨p, h⟩ := clear_cases v cl
  · rw [h]
  · obtain ⟨f, hf, -⟩ := removeChildren_eq v p
    rw [h, hf]
    rfl

theorem allocated_clear (v : View) (cl : Clears) : (v.clear cl).allocated = v.allocated := by
  obtain h | ⟨p, h⟩ := clear_cases v cl
  · rw [h]
  · obtain ⟨f, hf, -⟩ := removeChildren_eq v p
    rw [h, hf]

theorem frames_clear (v : View) (cl : Clears) : (v.clear cl).frames = v.frames := by
  obtain h | ⟨p, h⟩ := clear_cases v cl
  · rw [h]
  · obtain ⟨f, hf, -⟩ := removeChildren_eq v p
    rw [h, hf]

theorem follows_clear (v : View) (cl : Clears) (o : Nat) :
    Follows (v.objects o) ((v.clear cl).objects o) := by
  obtain h | ⟨p, h⟩ := clear_cases v cl
  · rw [h]
    exact .refl _
  · obtain ⟨f, hf, -, hle⟩ := removeChildren_eq v p
    rw [h, hf]
    exact (hle o).left

-- The messages are no child.
theorem clear_messages (h : v.Ordered) (cl : Clears) :
    (v.clear cl).objects messages = v.objects messages := by
  obtain hc | ⟨p, hc⟩ := clear_cases v cl
  · rw [hc]
  · rw [hc]
    exact removeChildren_messages h p

theorem objectOf_of_clear {cl : Clears} (h : (v.clear cl).objectOf s = some o) : v.objectOf s = some o := by
  obtain hc | ⟨p, hc⟩ := clear_cases v cl
  · rwa [hc] at h
  · rw [hc] at h
    exact (objectOf_removeChildren h).left

theorem objectOf_slot (h : v.Ordered) {c : Child} (hc : c ∈ v.children) :
    v.objectOf c.slot = some c.object := by
  rw [objectOf_child (h.children c hc).right.right, Option.map_eq_some_iff]
  exact ⟨c, Table.get_of_mem hc, rfl⟩

-- The object of a slot that is left is as it has been.
theorem Ordered.objects_clear (h : v.Ordered) {cl : Clears} (hso : (v.clear cl).objectOf s = some o) :
    (v.clear cl).objects o = v.objects o := by
  obtain hc | ⟨p, hc⟩ := clear_cases v cl
  · rw [hc]
  · rw [hc] at hso ⊢
    obtain ⟨hs, hp⟩ := objectOf_removeChildren hso
    obtain ⟨f, hf, hsame, -⟩ := removeChildren_eq v p
    rw [hf]
    refine hsame o fun c hmem hpc hco => ?_
    have hslot : s = c.slot := h.slot_unique hs (hco ▸ objectOf_slot h hmem)
    rw [← hslot, hp (hslot ▸ (h.children c hmem).right.right)] at hpc
    cases hpc

-- A load of more whose cursor has become stale goes on without one.
theorem Sound.restart (h : v.Sound) (hf : v.frames = []) {k : Nat} {q : Settled}
    (hq : v.settled[k]? = some q) (hgen : q.read.generation = (v.objects q.read.target).generation)
    {st : ReadState} (hvalue : st.value = none) (hstatus : st.status = (v.objects q.read.target).status)
    (hstgen : st.generation = (v.objects q.read.target).generation)
    (hbase : st.base = (v.objects q.read.target).base) (hsince : st.since ≤ v.answers.length)
    (hcl : q.read.target = messages → q.read.clears = .children) :
    (((({ v with settled := v.settled.eraseIdx k } : View).set q.read.target st).clear q.read.clears).push
      (.load { q.read with previous := none, cursor := none, issued := none })).Sound := by
  have hread := mem_reads_of_settled (List.mem_of_getElem? hq)
  have hdead := h.dead hq hgen
  have hkey (r : Read) := h.key_ne hq (r := r)
  let w : View := { v with settled := v.settled.eraseIdx k }
  have hw : w.Sound := h.sublist (.refl _) (.refl _) (List.eraseIdx_sublist _ _)
  have hfollows : Follows (v.objects q.read.target) st :=
    ⟨Nat.le_of_eq hstgen.symm, fun _ => hvalue, .inr ⟨hbase, .inr ⟨hstatus, hstgen⟩⟩⟩
  have hset : (w.set q.read.target st).Ordered := hw.toOrdered.set hfollows hsince
  have hdrop : ((w.set q.read.target st).clear q.read.clears).Sound := hw.drop hdead hset hvalue hstgen hcl
  have hadmits : Admits ((w.set q.read.target st).objects q.read.target) q.read.generation := by
    rw [set_objects_self]
    exact hfollows.admits (h.admits _ hread) (Nat.le_of_eq hgen)
  have hle : q.read.generation ≤ ((w.set q.read.target st).objects q.read.target).generation := by
    rw [set_objects_self, hgen, hstgen]
  have hsel₀ : SameSelection v (w.set q.read.target st) := ⟨rfl, rfl, rfl, rfl, rfl, rfl, List.prefix_rfl⟩
  have hsel := hsel₀.trans (sameSelection_clear (w.set q.read.target st) q.read.clears)
  have hclear := follows_clear (w.set q.read.target st) q.read.clears q.read.target
  refine hdrop.push_load ⟨?_, Nat.le_trans hle hclear.generation⟩ (fun r hr => ?_)
    (hclear.admits hadmits hle) (fun hfailed => ?_) fun s o hso hl => ?_
  · rw [allocated_clear]
    exact (h.reads _ hread).left
  · rw [reads_clear] at hr
    exact hkey r hr
  · have hfailed : Frame.failed ∈ v.frames := by
      rw [frames_clear] at hfailed
      exact hfailed
    rw [hf] at hfailed
    exact absurd hfailed List.not_mem_nil
  · have ho : q.read.target = o := hl.left
    have hobj := hset.objects_clear hso
    have hso' : (w.set q.read.target st).objectOf s = some o := objectOf_of_clear hso
    replace hso' : v.objectOf s = some o := hso'
    rw [← ho] at hobj hso'
    rw [set_objects_self] at hobj
    have hlive := (h.slots s _ hso').live q.read hread ⟨rfl, hgen⟩
    exact {
      query  := hsel.asks hlive.query
      clears := hlive.clears
      sent   := by
        simp only [Read.sent]
        split <;> rfl
      issued := nofun
      listed m hm := by
        refine (lists_congr (v := w) ?_ m).trans (hlive.listed m hm)
        rw [clear_messages hset, set_objects_of_ne (h.messages_ne hso' hm)]
      value  := by rw [← ho, hobj, hvalue]
      cursor := rfl
      more   := nofun
    }

-- A read goes on with its reply.
theorem Sound.proceed (h : v.Sound) (hf : v.frames = []) {k : Nat} {q : Settled}
    (hq : v.settled[k]? = some q) :
    (({ v with settled := v.settled.eraseIdx k } : View).proceed q).Sound := by
  let w : View := { v with settled := v.settled.eraseIdx k }
  have hw : w.Sound := h.sublist (.refl _) (.refl _) (List.eraseIdx_sublist _ _)
  have hread := mem_reads_of_settled (List.mem_of_getElem? hq)
  change (w.proceed q).Sound
  simp only [View.proceed]
  split
  · exact hw.finish q.read
  · rename_i hc
    have hcurrent : q.read.generation = (v.objects q.read.target).generation ∧ v.allowed := by
      simp only [isCurrent, Bool.not_eq_true', Bool.not_eq_false, Bool.and_eq_true, decide_eq_true_eq] at hc
      exact hc.left
    obtain ⟨hgen, hallowed⟩ := hcurrent
    have hcl : q.read.target = messages → q.read.clears = .children := fun ht =>
      ((h.slots .messages messages rfl).live q.read hread ⟨ht, ht ▸ hgen⟩).clears
    split
    · rename_i hreply
      refine Sound.finish ?_ q.read
      exact h.give hf hq hreply hgen hallowed rfl rfl rfl rfl
    · split
      · exact h.restart hf hq hgen rfl rfl rfl rfl (Nat.le_refl _) hcl
      · refine Sound.finish ?_ q.read
        refine hw.drop (h.dead hq hgen) ?_ ?_ ?_ hcl
        · exact hw.toOrdered.set_idle (h.idle hq hgen) rfl rfl (fun _ _ => rfl) (Nat.le_refl _)
        · rfl
        · rfl

end Replies

section Selections

-- A slot that is not asked for holds nothing, and no read gives it anything.
theorem SlotSound.quiet (h : v.SlotSound s o) (hs : ∀ q, ¬v.Asks s q) : v.Quiet o := by
  refine ⟨Option.eq_none_iff_forall_ne_some.mpr fun x hx => ?_, fun r hr hl => hs _ (h.live r hr hl).query⟩
  obtain ⟨-, -, chain, hpages, hsource⟩ := h.held x hx
  obtain ⟨a, ha, -⟩ := hpages.kind_eq
  exact hs _ (hsource a ha).right.right.left

theorem Quiet.of_objects {w : View} (h : v.Quiet o) (hobjects : w.objects = v.objects)
    (hreads : w.reads = v.reads) : w.Quiet o := by
  refine ⟨hobjects ▸ h.left, fun r hr hl => h.right r (hreads ▸ hr) ⟨hl.left, ?_⟩⟩
  rw [← hobjects]
  exact hl.right

-- Something else is selected, but nothing else is done.
def select (v : View) (vendor : Option ThreadVendor) (thread : Option SelectedThread) (generation : Nat) :
    View :=
  { v with vendor := vendor, selectedThread := thread, selectionGeneration := generation }

-- What is selected, and whether it is shown, does not matter to the order of the reads.
theorem Ordered.with_selection (h : v.Ordered) {vendor account selectedThread visible mutations
    selectionGeneration inbox inboxVendor entries current} :
    ({ v with vendor, account, selectedThread, visible, mutations, selectionGeneration, inbox, inboxVendor,
              entries, current } : View).Ordered :=
  ⟨h.allocated, h.children, h.distinct, h.reads, h.unique, h.since, h.issued, h.admits, h.failed⟩

theorem Ordered.select (h : v.Ordered) (vendor : Option ThreadVendor) (thread : Option SelectedThread)
    (generation : Nat) : (v.select vendor thread generation).Ordered := h.with_selection

-- The resolution of an Inbox entry does not depend on the vendor and on the thread.
theorem SlotSound.select (h : v.SlotSound .resolution 0) (hi : v.inbox.isSome)
    (vendor : Option ThreadVendor) (thread : Option SelectedThread) (generation : Nat) :
    (v.select vendor thread generation).SlotSound .resolution 0 :=
  h.agree {
    value         := rfl
    generation    := rfl
    since         := rfl
    reads _ hr _  := hr
    settled _ hq _ := .inl hq
    asks _ ha     := ha
    lists _ hm    := absurd hm nofun
    opened hopen  := ⟨hopen.left, hopen.right.left, .inl hi⟩
    answers       := List.prefix_rfl
    invalidations := rfl
  }

theorem not_asks_threads (hi : v.inbox.isSome) (q : Query) : ¬v.Asks .threads q := by
  rintro ⟨hnone, -⟩
  rw [hnone] at hi
  cases hi

theorem not_asks_resolution (hi : v.inbox = none) (q : Query) : ¬v.Asks .resolution q := by
  rintro ⟨entry, he, -⟩
  rw [hi] at he
  cases he

theorem Sound.reselect (h : v.Sound) (hi : v.inbox.isSome) (vendor : Option ThreadVendor)
    (thread : Option SelectedThread) (generation : Nat) :
    ((v.select vendor thread generation).reset messages).clearChildren.Sound := by
  let w := v.select vendor thread generation
  have hw : w.Ordered := h.toOrdered.select vendor thread generation
  have h0 : w.SlotSound .resolution 0 := (h.slots .resolution 0 rfl).select hi vendor thread generation
  have h1 : w.Quiet 1 := ((h.slots .threads 1 rfl).quiet (not_asks_threads hi)).of_objects rfl rfl
  exact (hw.reset messages).sound_clearChildren (h0.set_of_ne (by decide) nofun)
    (h1.set_of_ne (by decide)).sound (hw.quiet_reset messages).sound

theorem Sound.openThread (h : v.Sound) (thread : ThreadItem) : (v.openThread thread).Sound := by
  simp only [View.openThread]
  split
  · exact h
  · rename_i hi
    have hi : v.inbox = none := by simpa using hi
    let w := v.select v.vendor (some (.vendor thread)) (v.selectionGeneration + 1)
    have hw : w.Ordered := h.toOrdered.select _ _ _
    have h0 : w.Quiet 0 := ((h.slots .resolution 0 rfl).quiet (not_asks_resolution hi)).of_objects rfl rfl
    have h1 := hw.quiet_reset threads
    have h2 := (hw.reset threads).quiet_reset messages
    have hsound : ((w.reset threads).reset messages).clearChildren.Sound :=
      ((hw.reset threads).reset messages).sound_clearChildren
        ((h0.set_of_ne (by decide)).set_of_ne (by decide)).sound (h1.set_of_ne (by decide)).sound h2.sound
    exact hsound.push rfl

-- Neither the Inbox entries that are current nor the number of selections matter to the slots.
theorem Sound.with_current (h : v.Sound) (generation : Nat) (current : Nat → Bool) :
    ({ v with selectionGeneration := generation, current := current } : View).Sound where
  toOrdered := h.toOrdered.with_selection
  slots s o hso := (h.slots s o hso).agree {
    value         := rfl
    generation    := rfl
    since         := rfl
    reads _ hr _  := hr
    settled _ hq _ := .inl hq
    asks _        := SameSelection.asks ⟨rfl, rfl, rfl, rfl, rfl, rfl, List.prefix_rfl⟩
    lists _ _     := id
    opened        := id
    answers       := List.prefix_rfl
    invalidations := rfl
  }

end Selections

section Pages

variable {more : Bool} {cl : Clears}

theorem lists_clear (h : v.Ordered) (cl : Clears) (m : String) : (v.clear cl).lists m = v.lists m :=
  lists_congr (congrArg ReadState.value (clear_messages h cl)) m

theorem Sound.page (h : v.Sound) (hso : v.objectOf s = some o) (hq : v.Asks s q) (hcl : cl = s.clears)
    (hlisted : ∀ m, s.message = some m → v.lists m) (hs : s ≠ .resolution) :
    (v.page o more q cl).Sound := by
  have hsent : ∀ origin vendorId, q ≠ .resolve origin (some vendorId) := by
    rintro origin vendorId rfl
    have hk := kind_of_asks hq
    cases s <;> first | exact hs rfl | cases hk
  subst hcl
  simp only [View.page]
  split
  · exact h
  · rename_i hgo
    cases more
    case true =>
      simp only [not_or, true_and] at hgo
      have hb : v.Begins s o true q (truthy ((v.objects o).value.bind Value.nextCursor)) s.clears := {
        object := hso
        query  := hq
        clears := rfl
        listed := hlisted
        cursor := rfl
        isSome _ := Option.isSome_iff_ne_none.mpr hgo.right.left
        sent _ := hsent
        first _ hmore := by cases hmore
      }
      exact h.read hb .allowed
    case false =>
      have hb : (v.clear s.clears).Begins s o false q none s.clears := {
        object := objectOf_clear hso
        query  := (sameSelection_clear v _).asks hq
        clears := rfl
        listed m hm := (lists_clear h.toOrdered _ m).trans (hlisted m hm)
        cursor := rfl
        isSome hmore := by cases hmore
        sent hc := by cases hc
        first hs _ := by
          subst hs
          exact clearChildren_children v
      }
      exact (h.clear s.clears).read hb .allowed

theorem selectorFor_of_threadSelector {t : ThreadRef} {selector : ThreadSelector}
    (h : v.threadSelector t = some selector) : v.selectorFor t = some selector := by
  simp only [threadSelector] at h
  split at h
  · exact h
  · cases h

theorem Sound.loadThreads (h : v.Sound) (more : Bool) : (v.loadThreads more).Sound := by
  simp only [View.loadThreads]
  split
  · rename_i vendor hv hi
    exact h.page (s := .threads) rfl ⟨hi, vendor, hv, rfl⟩ rfl nofun nofun
  · exact h

theorem Sound.loadMessages (h : v.Sound) (more : Bool) : (v.loadMessages more).Sound := by
  simp only [View.loadMessages]
  split
  · rename_i selector hs
    obtain ⟨t, ht, hs⟩ := Option.bind_eq_some_iff.mp hs
    exact h.page (s := .messages) rfl ⟨t, selector, ht, selectorFor_of_threadSelector hs, rfl⟩ rfl nofun nofun
  · exact h

-- What is asked for a message is asked of the thread that an answer has named.
theorem Sound.childSelector (h : v.Sound) {m : String} {selector : ThreadSelector}
    (hs : v.childSelector m = some selector) (f : ThreadSelector → Query) :
    v.lists m ∧ v.AsksChild f (f selector) := by
  simp only [View.childSelector] at hs
  split at hs
  · cases hs
  · rename_i hl
    simp only [Bool.not_eq_true', not_or, Bool.not_eq_false] at hl
    obtain ⟨p, hp, hs⟩ := Option.bind_eq_some_iff.mp hs
    refine ⟨hl.right, p.thread.threadRef, selector, ?_, selectorFor_of_threadSelector hs, rfl⟩
    have hvalue : (v.objects messages).value = some (.messages p) := by
      simp only [messagePage] at hp
      split at hp
      · rename_i hv
        cases hp
        exact hv
      · cases hp
    obtain ⟨-, -, chain, hpages, hsource⟩ := (h.slots .messages messages rfl).held _ hvalue
    obtain ⟨a, ha, hkind, hheader⟩ := hpages.kind_eq
    obtain ⟨hdrop, hi, hq, -⟩ := hsource a ha
    refine ⟨a, List.mem_of_mem_drop hdrop, hi, hq, ?_⟩
    cases hv : a.value
    case messages p' =>
      rw [hv] at hheader
      simp only [Value.header, Value.messages.injEq, ThreadMessagePage.mk.injEq] at hheader
      exact ⟨p', rfl, by rw [hheader.left]⟩
    all_goals
      rw [hv] at hkind
      cases hkind

theorem Sound.loadCopies (h : v.Sound) (m : String) (more : Bool) : (v.loadCopies m more).Sound := by
  simp only [View.loadCopies]
  split
  · rename_i selector o hs ho
    obtain ⟨hl, ha⟩ := h.childSelector hs (.copies · m none)
    refine h.page (s := .copies m) ho ha rfl (fun m' hm => ?_) nofun
    cases hm
    exact hl
  · exact h

theorem Sound.loadInventory (h : v.Sound) (m c : String) (more : Bool) : (v.loadInventory m c more).Sound := by
  simp only [View.loadInventory]
  split
  · rename_i selector o hs ho
    obtain ⟨hl, ha⟩ := h.childSelector hs (.copies · m (some c))
    refine h.page (s := .inventory m c) ho ha rfl (fun m' hm => ?_) nofun
    cases hm
    exact hl
  · exact h

end Pages

section Actions

-- Vendors are to be chosen from only where no vendor has been chosen.
theorem Sound.nextChoice (h : v.Sound) (hn : v.nextChoice.isSome) :
    v.nextChoice = truthy ((v.objects resolution).value.bind Value.nextCursor) ∧ v.inboxVendor = none := by
  simp only [View.nextChoice] at hn ⊢
  split at hn
  · rename_i m t owner items c hv
    refine ⟨by simp only [hv]; rfl, ?_⟩
    obtain ⟨-, -, chain, hpages, hsource⟩ := (h.slots .resolution resolution rfl).held _ hv
    obtain ⟨a, ha, hkind, hheader⟩ := hpages.kind_eq
    obtain ⟨-, -, ⟨entry, -, hq⟩, hx⟩ := hsource a ha
    rw [hq] at hx
    cases hva : a.value
    case resolution r =>
      rw [hva] at hheader hx
      cases r
      case resolved     => cases hheader
      case chooseVendor =>
        simp only [Value.Answers, ThreadResolveResult.validFor, decide_eq_true_eq] at hx
        exact hx.left
    all_goals
      rw [hva] at hkind
      cases hkind
  · cases hn

theorem Sound.resolveInbox (h : v.Sound) (more : Bool) : (v.resolveInbox more).Sound := by
  simp only [View.resolveInbox]
  split
  · exact h
  · rename_i entry hi
    split
    · exact h
    · rename_i hgo
      cases more
      case true =>
        simp only [not_or, true_and] at hgo
        have hsome : v.nextChoice.isSome := Option.isSome_iff_ne_none.mpr hgo.right.left
        obtain ⟨hnext, hvendor⟩ := h.nextChoice hsome
        let w : View := { v with selectionGeneration := v.selectionGeneration + 1 }
        have hw : w.Sound := h.with_current (v.selectionGeneration + 1) v.current
        have hb : w.Begins .resolution resolution true (.resolve entry.origin v.inboxVendor) v.nextChoice
            .children := {
          object := rfl
          query  := ⟨entry, hi, rfl⟩
          clears := rfl
          listed _ hm := by cases hm
          cursor := hnext
          isSome _ := hsome
          sent _ origin vendorId := by
            rw [hvendor]
            nofun
          first hs _ := by cases hs
        }
        exact hw.read hb (.entry entry.id (v.selectionGeneration + 1))
      case false =>
        have hsome : v.inbox.isSome := by rw [hi]; rfl
        let u := (v.select none none (v.selectionGeneration + 1)).reset messages
        have hw : u.clearChildren.Sound := h.reselect hsome none none (v.selectionGeneration + 1)
        have hsel : SameSelection u u.clearChildren := sameSelection_removeChildren u _
        have hb : u.clearChildren.Begins .resolution resolution false
            (.resolve entry.origin u.clearChildren.inboxVendor) none .children := {
          object := rfl
          query  := ⟨entry, hsel.inbox.trans hi, rfl⟩
          clears := rfl
          listed _ hm := by cases hm
          cursor := rfl
          isSome hmore := by cases hmore
          sent hc := by cases hc
          first hs _ := by cases hs
        }
        exact hw.read hb (.entry entry.id (v.selectionGeneration + 1))

theorem Sound.conclude (h : v.Sound) (id generation : Nat) : (v.conclude id generation).Sound := by
  simp only [View.conclude]
  split
  · rename_i hc
    have hi : v.inbox.isSome := by
      cases hi : v.inbox
      case none   => simp [hi] at hc
      case some _ => rfl
    split
    · rename_i context hv
      refine Sound.push ?_ rfl
      cases context
      case vendor vendor thread =>
        exact h.reselect hi (some vendor) (some (.vendor thread)) v.selectionGeneration
      case nonVendor thread     =>
        exact h.reselect hi none (some (.nonVendor thread)) v.selectionGeneration
    · exact h
  · exact h

theorem Sound.openBody (h : v.Sound) (m : String) : (v.openBody m).Sound := by
  simp only [View.openBody]
  split
  · exact h
  · rename_i selector hs
    obtain ⟨hl, ha⟩ := h.childSelector hs (.body · m)
    let u := v.removeChildren (· = .bodies m)
    have hu : u.Sound := h.removeChildren _
    have hsel₀ : SameSelection v u := sameSelection_removeChildren v _
    have hsel₁ : SameSelection u (u.addChild (.bodies m)) := ⟨rfl, rfl, rfl, rfl, rfl, rfl, List.prefix_rfl⟩
    have hsel := hsel₀.trans hsel₁
    have hlists : (u.addChild (.bodies m)).lists m = v.lists m := by
      refine lists_congr ?_ m
      rw [addChild_objects_of_ne (hu.object_ne_allocated .messages rfl), removeChildren_messages h.toOrdered]
    have hb : (u.addChild (.bodies m)).Begins (.bodies m) u.allocated false (.body selector m) none .nothing := {
      object := objectOf_addChild_self rfl
      query  := hsel.asksChild ha
      clears := rfl
      listed m' hm := by
        cases hm
        exact hlists.trans hl
      cursor := rfl
      isSome hmore := by cases hmore
      sent hc := by cases hc
      first hs _ := by cases hs
    }
    exact (hu.addChild rfl).read hb .allowed

theorem Sound.closeCopies (h : v.Sound) (m : String) : (v.closeCopies m).Sound := by
  have hcopies := h.removeChildren (· = .copies m)
  exact hcopies.removeChildren (·.isInventoryOf m)

-- A status is no value.
theorem Sound.note_failed (h : v.Sound) (hu : v.Unresolved) :
    (v.set resolution { v.objects resolution with status := .error }).Sound := by
  let o : Nat := resolution
  let st : ReadState := { v.objects o with status := .error }
  have hobj (p : Nat) : ((v.set o st).objects p).value = (v.objects p).value ∧
      ((v.set o st).objects p).generation = (v.objects p).generation ∧
      ((v.set o st).objects p).since = (v.objects p).since := by
    by_cases hp : p = o
    · subst hp
      rw [set_objects_self]
      exact ⟨rfl, rfl, rfl⟩
    · rw [set_objects_of_ne hp]
      exact ⟨rfl, rfl, rfl⟩
  have hset : (v.set o st).Ordered := h.toOrdered.set_idle hu.right rfl rfl (fun _ hnone => hnone) (h.since o)
  refine { hset with slots := fun s p hso => ?_ }
  exact (h.slots s p hso).agree {
    value         := (hobj p).left
    generation    := (hobj p).right.left
    since         := (hobj p).right.right
    reads _ hr _  := hr
    settled _ hq _ := .inl hq
    asks _        := SameSelection.asks ⟨rfl, rfl, rfl, rfl, rfl, rfl, List.prefix_rfl⟩
    lists m _     := (lists_congr (hobj messages).left m).trans
    opened        := id
    answers       := List.prefix_rfl
    invalidations := rfl
  }

theorem Ordered.refresh (h : v.Ordered) : v.refresh.Sound :=
  h.invalidate.push rfl

theorem Ordered.suspend (h : v.Ordered) : v.suspend.Sound :=
  h.with_selection.invalidate

theorem Ordered.close (h : v.Ordered) : v.close.Sound :=
  h.with_selection.suspend

-- While there is a mutation, nothing is held that its end could make wrong.
theorem Sound.endMutation (h : v.Sound) (refresh : Bool) : (v.endMutation refresh).Sound := by
  let w : View := { v with mutations := v.mutations - 1 }
  have hw : w.Sound := {
    toOrdered := h.toOrdered.with_selection
    slots s o hso := (h.slots s o hso).agree {
      value         := rfl
      generation    := rfl
      since         := rfl
      reads _ hr _  := hr
      settled _ hq _ := .inl hq
      asks _        := SameSelection.asks ⟨rfl, rfl, rfl, rfl, rfl, rfl, List.prefix_rfl⟩
      lists _ _     := id
      opened hopen  := ⟨hopen.left, congrArg (· - 1) hopen.right.left, hopen.right.right⟩
      answers       := List.prefix_rfl
      invalidations := rfl
    }
  }
  cases refresh
  case false => exact hw
  case true  => exact hw.toOrdered.refresh

theorem Sound.act (h : v.Sound) (a : Action) : (v.act a).Sound := by
  have ho := h.toOrdered
  cases a
  case invalidate           => exact ho.invalidate
  case refresh              => exact ho.refresh
  case openInbox origin     => exact ho.with_selection.refresh
  case resolveInbox more    => exact h.resolveInbox more
  case chooseVendor vendorId =>
    simp only [View.act, View.chooseVendor]
    split
    · split
      · exact Sound.push ho.with_selection.invalidate rfl
      · exact h
    · exact h
  case selectVendor vendor  => exact ho.with_selection.refresh
  case selectAccount account =>
    simp only [View.act, View.selectAccount]
    split
    · exact h
    · exact ho.with_selection.refresh
  case openThread thread    => exact h.openThread thread
  case backToThreads        =>
    simp only [View.act, View.backToThreads]
    split
    · exact ho.close
    · exact ho.with_selection.refresh
  case close                => exact ho.close
  case suspend              => exact ho.suspend
  case resume               => exact ho.with_selection.refresh
  case beginMutation        => exact ho.with_selection.invalidate
  case endMutation refresh  => exact h.endMutation refresh
  case loadThreads more     => exact h.loadThreads more
  case loadMessages more    => exact h.loadMessages more
  case openBody m           => exact h.openBody m
  case closeBody m          => exact h.removeChildren (· = .bodies m)
  case openCopies m         =>
    simp only [View.act, View.openCopies]
    split
    · exact h
    · exact (h.closeCopies m).push rfl
  case loadCopies m more    => exact h.loadCopies m more
  case closeCopies m        => exact h.closeCopies m
  case openInventory m c    =>
    simp only [View.act, View.openInventory]
    split
    · split
      · exact Sound.push (h.removeChildren _) rfl
      · exact h
    · exact h
  case loadInventory m c more => exact h.loadInventory m c more
  case closeInventory m c   => exact h.removeChildren (· = .inventory m c)

theorem Sound.goOn (h : v.Sound) {f : Frame} (hf : (v.push f).Sound) : (v.goOn f).Sound := by
  cases f
  case load r               => exact h.load hf
  case refresh              =>
    simp only [View.goOn]
    split
    · exact h.resolveInbox false
    · split
      · exact h.loadMessages false
      · exact h.loadThreads false
  case resolveInbox         => exact h.resolveInbox false
  case loadMessages         => exact h.loadMessages false
  case failed               => exact h.note_failed (hf.failed List.mem_cons_self)
  case context id generation =>
    simp only [View.goOn]
    split
    · exact h.loadMessages false
    · exact h
  case openCopies m         => exact (h.addChild rfl).loadCopies m false
  case openInventory m c    => exact (h.addChild rfl).loadInventory m c false

end Actions

end View

end Threads
