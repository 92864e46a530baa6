import EmailWatcher.Threads.Selections

-- No selection is shown the data of another.
namespace Threads

namespace View

variable {v : View} {s : Slot} {o : Nat} {r : Read}

section Runs

theorem sound_initial : initial.Sound := by
  refine Ordered.sound_of_quiet ?_ (fun c hc => ?_) fun o _ => ⟨rfl, fun r hr => absurd hr List.not_mem_nil⟩
  · exact {
      allocated := Nat.le_refl _
      children c hc := absurd hc List.not_mem_nil
      distinct c hc := absurd hc List.not_mem_nil
      reads r hr := absurd hr List.not_mem_nil
      unique    := .nil
      since _   := Nat.le_refl _
      issued q hq := absurd hq List.not_mem_nil
      admits r hr := absurd hr List.not_mem_nil
      failed hf   := absurd hf List.not_mem_nil
    }
  · exact absurd hc List.not_mem_nil

theorem Sound.step {e : Event} {v' : View} (h : v.Sound) (hs : view.step v e = .ok v') : v'.Sound := by
  cases e <;> simp only [view] at hs
  case act a           =>
    cases hs
    exact h.act a
  case turn id current =>
    cases hs
    exact h.with_current v.selectionGeneration _
  case notified        =>
    split at hs
    · cases hs
    · rename_i f fs hf
      cases hs
      have hpop : ({ v with frames := fs } : View).Sound :=
        h.sublist (hf ▸ List.sublist_cons_self f fs) (.refl _) (.refl _)
      refine hpop.goOn ?_
      have hv : ({ v with frames := fs } : View).push f = v := by
        change ({ v with frames := f :: fs } : View) = v
        rw [← hf]
      rwa [hv]
  case settle k reply  =>
    split at hs
    · rename_i q _ hq
      cases hs
      exact h.settle hq reply
    · cases hs
  case proceed k       =>
    split at hs
    · rename_i q hf hq
      cases hs
      exact h.proceed hf hq
    · cases hs
  case conclude k      =>
    split at hs
    · rename_i id generation _ hq
      cases hs
      have hv : ({ v with concluding := v.concluding.eraseIdx k } : View).Sound :=
        h.sublist (.refl _) (.refl _) (.refl _)
      exact hv.conclude id generation
    · cases hs

theorem sound_run (es : List Event) : (view.run .initial es).Sound :=
  Machine.invariant (fun _ _ _ h hs => h.step hs) sound_initial es

end Runs

-- The loads of more that are under way for an object, of those since its last reset or first page.
def appending (v : View) (o : Nat) : List Read :=
  v.reads.filter fun r => r.more && decide (r.target = o ∧ (v.objects o).base < r.generation)

-- The loads of more that are issued for an object and have no reply.
def outstandingMore (v : View) (o : Nat) : List Request :=
  v.requests.filter fun q => q.read.more && decide (q.read.target = o)

-- Nothing that is held is of another selection.
structure Isolated (v : View) : Prop where
  -- What is held consists of answers since the value was last cleared, to requests since the last
  -- invalidation for what the selection asks for. They are the pages of one chain of cursors.
  source  : ∀ s o x, v.objectOf s = some o → (v.objects o).value = some x → ∃ chain, Pages chain x ∧
    ∀ a ∈ chain, a ∈ v.answers.drop (v.objects o).since ∧ a.issued = v.invalidations ∧ v.Asks s a.query ∧
      a.value.Answers a.query
  more    : ∀ o, (v.appending o).length ≤ 1
  -- The reply to a read of an earlier generation is ignored.
  late    : ∀ q ∈ v.settled, q.read.generation ≠ (v.objects q.read.target).generation →
    ∀ s, (v.proceed q).held s = v.held s
  listed  : ∀ s m, s.message = some m → (v.held s).isSome → v.lists m
  hidden  : ¬v.Open → ∀ s, v.held s = none

-- A load of more is backed by the state of its object, of which there is one generation.
theorem Ordered.appending_length (h : v.Ordered) (o : Nat) : (v.appending o).length ≤ 1 := by
  have hkeys : ∀ k ∈ (v.appending o).map Read.key, k = (o, (v.objects o).generation) := by
    intro k hk
    obtain ⟨r, hr, rfl⟩ := List.mem_map.mp hk
    obtain ⟨hmem, hr⟩ := List.mem_filter.mp hr
    simp only [Bool.and_eq_true, decide_eq_true_eq] at hr
    obtain ⟨-, rfl, hlt⟩ := hr
    exact Prod.ext rfl (h.admits r hmem hlt).right
  have hnodup : ((v.appending o).map Read.key).Nodup :=
    h.unique.sublist (List.filter_sublist.map Read.key)
  rw [List.eq_replicate_of_mem hkeys, List.nodup_replicate, List.length_map] at hnodup
  exact hnodup

theorem held_finish (v : View) (r : Read) (s : Slot) : (v.finish r).held s = v.held s := by
  simp only [finish]
  split
  · rfl
  · cases s <;> rfl

theorem proceed_late {q : Settled} (hq : q.read.generation ≠ (v.objects q.read.target).generation)
    (s : Slot) : (v.proceed q).held s = v.held s := by
  have hc : v.isCurrent q.read = false := by simp [isCurrent, hq]
  simp only [proceed, hc, Bool.not_false, if_true]
  exact held_finish v q.read s

theorem objectOf_of_held {x : Value} (h : v.held s = some x) :
    ∃ o, v.objectOf s = some o ∧ (v.objects o).value = some x :=
  Option.bind_eq_some_iff.mp h

theorem Sound.isolated (h : v.Sound) : v.Isolated where
  source s o x hso hx := ((h.slots s o hso).held x hx).right.right
  more     := h.toOrdered.appending_length
  late _ _ := proceed_late
  listed s m hm hs := by
    obtain ⟨x, hx⟩ := Option.isSome_iff_exists.mp hs
    obtain ⟨o, hso, hx⟩ := objectOf_of_held hx
    exact ((h.slots s o hso).held x hx).right.left m hm
  hidden hopen s := by
    refine Option.eq_none_iff_forall_ne_some.mpr fun x hx => hopen ?_
    obtain ⟨o, hso, hx⟩ := objectOf_of_held hx
    exact ((h.slots s o hso).held x hx).left

end View

-- Whatever the user does, and in whatever order the replies come.
theorem view_isolated (es : List Event) : (view.run .initial es).Isolated :=
  (View.sound_run es).isolated

namespace Sample

def vendor : ThreadVendor :=
  ⟨"v", "V"⟩

def page : Value :=
  .threads ⟨[], some "c"⟩

-- More threads are loaded, and again after a refresh that comes before the reply.
def events : List Event :=
  [.act (.selectVendor vendor), .notified, .notified, .settle 0 (.ok page), .proceed 0,
    .act (.loadThreads true), .notified, .act .refresh, .notified, .notified, .settle 1 (.ok page),
    .proceed 0, .act (.loadThreads true), .notified]

end Sample

-- A refresh does not cancel the requests under way.
theorem two_loads_of_more_outstanding :
    ¬∀ es o, ((view.run .initial es).outstandingMore o).length ≤ 1 := by
  intro h
  exact absurd (h Sample.events View.threads) (by decide)

end Threads
