import EmailWatcher.Threads.View
import Mathlib.Data.List.Chain

-- What keeps one selection's data apart from another's: the invariant of the view.
namespace Threads

section Kinds

inductive Kind
  | resolution
  | threads
  | messages
  | body
  | copies
  | inventory
  deriving DecidableEq, Repr

def Value.kind : Value → Kind
  | resolution _ => .resolution
  | threads _    => .threads
  | messages _   => .messages
  | body _       => .body
  | copies _     => .copies
  | inventory _  => .inventory

def Query.kind : Query → Kind
  | resolve _ _         => .resolution
  | list _ _            => .threads
  | messages _          => .messages
  | body _ _            => .body
  | copies _ _ none     => .copies
  | copies _ _ (some _) => .inventory

def Slot.kind : Slot → Kind
  | resolution    => .resolution
  | threads       => .threads
  | messages      => .messages
  | bodies _      => .body
  | copies _      => .copies
  | inventory _ _ => .inventory

-- The value without its items.
def Value.header : Value → Value
  | resolution (.chooseVendor m t o _ c) => resolution (.chooseVendor m t o [] c)
  | resolution (.resolved m c)           => resolution (.resolved m c)
  | threads p                            => threads { p with items := [] }
  | messages p                           => messages { p with items := [] }
  | body r                               => body r
  | copies p                             => copies { p with items := [] }
  | inventory p                          => inventory { p with items := [] }

namespace Value

variable {old fresh v w : Value} {q : Query}

theorem kind_of_answers (h : v.Answers q) : v.kind = q.kind := by
  rcases v with ⟨_⟩ | _ | _ | _ | _ | _ <;> rcases q with _ | _ | _ | _ | ⟨_, _, _ | _⟩ <;>
    first
      | rfl
      | simp [Answers] at h

theorem kind_header (v : Value) : v.header.kind = v.kind := by
  rcases v with ⟨_ | _⟩ | _ | _ | _ | _ | _ <;> rfl

theorem nextCursor_header (v : Value) : v.header.nextCursor = v.nextCursor := by
  rcases v with ⟨_ | _⟩ | _ | _ | _ | _ | _ <;> rfl

theorem header_merge (old fresh : Value) : (old.merge fresh).header = fresh.header := by
  rcases old with ⟨_ | _⟩ | _ | _ | _ | _ | _ <;> rcases fresh with ⟨_ | _⟩ | _ | _ | _ | _ | _ <;> rfl

theorem paged_merge : (old.merge fresh).Paged ↔ fresh.Paged := by
  rcases old with ⟨_ | _⟩ | _ | _ | _ | _ | _ <;> rcases fresh with ⟨_ | _⟩ | _ | _ | _ | _ | _ <;> rfl

theorem paged_of_nextCursor (h : v.nextCursor.isSome) : v.Paged := by
  rcases v with ⟨_ | _⟩ | _ | _ | _ | _ | _ <;> simp [nextCursor, Paged] at *

theorem items_merge (hk : old.kind = fresh.kind) (ho : old.Paged) (hf : fresh.Paged) :
    (old.merge fresh).items = old.items ++ fresh.items := by
  rcases old with ⟨_ | _⟩ | _ | _ | _ | _ | _ <;> rcases fresh with ⟨_ | _⟩ | _ | _ | _ | _ | _ <;>
    simp [kind, Paged, merge, items] at *

end Value

end Kinds

section Pages

-- The value is put together from the pages of one chain of cursors, which starts without one.
structure Pages (chain : List Answer) (v : Value) : Prop where
  first  : chain.head?.map Answer.cursor = some none
  linked : chain.IsChain fun a b => b.cursor.isSome ∧ b.cursor = truthy a.value.nextCursor
  items  : v.Paged → v.items = chain.flatMap fun a => a.value.items
  last   : ∃ a, chain.getLast? = some a ∧ v.header = a.value.header

variable {chain : List Answer} {old : Value} {a : Answer}

theorem Pages.single (h : a.cursor = none) : Pages [a] a.value where
  first  := by simp [h]
  linked := .singleton a
  items _ := by simp
  last   := ⟨a, rfl, rfl⟩

theorem Pages.kind_eq (h : Pages chain old) : ∃ a ∈ chain, old.kind = a.value.kind ∧ old.header = a.value.header := by
  obtain ⟨a, ha, hh⟩ := h.last
  refine ⟨a, List.mem_of_getLast? ha, ?_, hh⟩
  rw [← Value.kind_header, hh, Value.kind_header]

-- One more page.
theorem Pages.concat (h : Pages chain old) (hs : a.cursor.isSome) (hc : a.cursor = truthy old.nextCursor)
    (hk : old.kind = a.value.kind) : Pages (chain ++ [a]) (old.merge a.value) where
  first := by
    have hne : chain ≠ [] := by
      rintro rfl
      simpa using h.first
    rw [List.head?_append_of_ne_nil _ hne]
    exact h.first
  linked := by
    obtain ⟨b, hb, hh⟩ := h.last
    refine List.isChain_append.mpr ⟨h.linked, .singleton a, fun x hx y hy => ?_⟩
    cases hb.symm.trans hx
    cases hy
    refine ⟨hs, hc.trans ?_⟩
    rw [← Value.nextCursor_header, hh, Value.nextCursor_header]
  items hp := by
    have hold : old.Paged := by
      refine Value.paged_of_nextCursor ?_
      rw [hc] at hs
      cases hn : old.nextCursor
      · simp [hn, truthy] at hs
      · rfl
    rw [Value.items_merge hk hold (Value.paged_merge.mp hp), h.items hold, List.flatMap_append]
    simp
  last := ⟨a, by simp, Value.header_merge old a.value⟩

end Pages

def Frame.read : Frame → Option Read
  | .load r => some r
  | _       => none

-- Neither a read nor the note of an error.
def Frame.plain : Frame → Bool
  | .load _ => false
  | .failed => false
  | _       => true

theorem Frame.read_of_plain {f : Frame} (h : f.plain) : f.read = none := by
  cases f <;> first | rfl | cases h

def Read.key (r : Read) : Nat × Nat :=
  (r.target, r.generation)

-- What a read of a slot clears.
def Slot.clears : Slot → Clears
  | resolution => .children
  | messages   => .children
  | copies m   => .inventory m
  | _          => .nothing

namespace View

-- The reads that are under way.
def reads (v : View) : List Read :=
  v.frames.filterMap Frame.read ++ v.requests.map Request.read ++ v.settled.map Settled.read

section Selections

def AsksMessages (v : View) (q : Query) : Prop :=
  ∃ t selector, v.selectedThread = some t ∧ v.selectorFor t.threadRef = some selector ∧
    q = .messages selector

-- An answer has named the thread, to a request for the messages of the selection.
def Names (v : View) (threadRef : ThreadRef) : Prop :=
  ∃ a ∈ v.answers, a.issued = v.invalidations ∧ v.AsksMessages a.query ∧
    ∃ p, a.value = .messages p ∧ p.thread.threadRef = threadRef

def AsksChild (v : View) (q : ThreadSelector → Query) (q' : Query) : Prop :=
  ∃ threadRef selector, v.Names threadRef ∧ v.selectorFor threadRef = some selector ∧ q' = q selector

-- That the query is what the selection asks for in the slot.
def Asks (v : View) (s : Slot) (q : Query) : Prop :=
  match s with
  | .resolution    => ∃ entry, v.inbox = some entry ∧ q = .resolve entry.origin v.inboxVendor
  | .threads       =>
    v.inbox = none ∧ ∃ vendor, v.vendor = some vendor ∧ q = .list vendor.vendorId v.account
  | .messages      => v.AsksMessages q
  | .bodies m      => v.AsksChild (.body · m) q
  | .copies m      => v.AsksChild (.copies · m none) q
  | .inventory m c => v.AsksChild (.copies · m (some c)) q

-- Neither suspended, nor mutating, nor closed.
def Open (v : View) : Prop :=
  v.visible ∧ v.mutations = 0 ∧ (v.inbox.isSome ∨ v.vendor.isSome)

theorem kind_of_asks {v : View} {s : Slot} {q : Query} (h : v.Asks s q) : q.kind = s.kind := by
  cases s
  case resolution =>
    obtain ⟨_, _, rfl⟩ := h
    rfl
  case threads =>
    obtain ⟨_, _, _, rfl⟩ := h
    rfl
  case messages =>
    obtain ⟨_, _, _, _, rfl⟩ := h
    rfl
  case bodies =>
    obtain ⟨_, _, _, _, rfl⟩ := h
    rfl
  case copies =>
    obtain ⟨_, _, _, _, rfl⟩ := h
    rfl
  case inventory =>
    obtain ⟨_, _, _, _, rfl⟩ := h
    rfl

theorem open_of_allowed {v : View} (h : v.allowed) : v.Open := by
  simp only [allowed, Bool.and_eq_true, decide_eq_true_eq] at h
  refine ⟨h.left.left, h.left.right, ?_⟩
  cases hi : v.inbox
  case none =>
    rw [hi] at h
    exact .inr h.right
  case some => exact .inl rfl

end Selections

-- A load of more since the last reset or first page is the last read of its object, which is loading.
def Admits (s : ReadState) (generation : Nat) : Prop :=
  s.base < generation → s.status = .loading ∧ generation = s.generation

-- There is no resolution of which more could be loaded.
def Unresolved (v : View) : Prop :=
  (v.objects resolution).value = none ∧
  ∀ r ∈ v.reads, r.target = resolution → r.generation ≤ (v.objects resolution).base

-- The objects and the reads are in order. An error can be noted only where nothing is loaded.
structure Ordered (v : View) : Prop where
  allocated : 3 ≤ v.allocated
  children  : ∀ c ∈ v.children, 3 ≤ c.object ∧ c.object < v.allocated ∧ c.slot.message.isSome
  distinct  : ∀ c ∈ v.children, ∀ c' ∈ v.children, c.object = c'.object → c = c'
  reads     : ∀ r ∈ v.reads, r.target < v.allocated ∧ r.generation ≤ (v.objects r.target).generation
  unique    : (v.reads.map Read.key).Nodup
  since     : ∀ o, (v.objects o).since ≤ v.answers.length
  issued    : ∀ q ∈ v.requests, q.read.issued.isSome
  admits    : ∀ r ∈ v.reads, Admits (v.objects r.target) r.generation
  failed    : .failed ∈ v.frames → v.Unresolved

-- Where the value of a slot comes from.
def Source (v : View) (s : Slot) (o : Nat) (a : Answer) : Prop :=
  a ∈ v.answers.drop (v.objects o).since ∧ a.issued = v.invalidations ∧ v.Asks s a.query ∧
  a.value.Answers a.query

-- What holds of a read that can still change the value of a slot.
structure LiveRead (v : View) (s : Slot) (o : Nat) (r : Read) : Prop where
  query  : v.Asks s r.query
  clears : r.clears = s.clears
  sent   : r.sent = r.cursor
  issued : ∀ n, r.issued = some n → n = v.invalidations
  listed : ∀ m, s.message = some m → v.lists m
  value  : (v.objects o).value = r.previous
  cursor : r.cursor = r.previous.bind fun old => truthy old.nextCursor
  more   : r.previous.isSome → r.cursor.isSome

def Live (v : View) (o : Nat) (r : Read) : Prop :=
  r.target = o ∧ r.generation = (v.objects o).generation

structure SlotSound (v : View) (s : Slot) (o : Nat) : Prop where
  held    : ∀ x, (v.objects o).value = some x →
    v.Open ∧ (∀ m, s.message = some m → v.lists m) ∧ ∃ chain, Pages chain x ∧ ∀ a ∈ chain, v.Source s o a
  live    : ∀ r ∈ v.reads, v.Live o r → v.LiveRead s o r
  settled : ∀ q ∈ v.settled, v.Live o q.read → ∀ x, q.reply = .ok x →
    v.Source s o ⟨q.read.query, q.read.sent, v.invalidations, x⟩

structure Sound (v : View) : Prop extends v.Ordered where
  slots : ∀ s o, v.objectOf s = some o → v.SlotSound s o

section Objects

variable {v v' : View} {s s' : Slot} {o p : Nat} {st st' : ReadState}

-- What becomes of an object while nothing is read for it twice: a reset or a first page begins a new
-- generation, and a load of more is added only where nothing is loading.
structure Follows (st st' : ReadState) : Prop where
  generation : st.generation ≤ st'.generation
  value      : st.value = none → st'.value = none
  base       : st.generation ≤ st'.base ∨ st'.base = st.base ∧
    (st.status ≠ .loading ∨ st'.status = st.status ∧ st'.generation = st.generation)

theorem Follows.refl (st : ReadState) : Follows st st :=
  ⟨Nat.le_refl _, id, .inr ⟨rfl, .inr ⟨rfl, rfl⟩⟩⟩

theorem Follows.trans {st'' : ReadState} (h : Follows st st') (h' : Follows st' st'') :
    Follows st st'' where
  generation := Nat.le_trans h.generation h'.generation
  value hv   := h'.value (h.value hv)
  base       := by
    obtain hb | ⟨hb, hl⟩ := h.base
    · refine .inl ?_
      obtain hb' | ⟨hb', -⟩ := h'.base
      · exact Nat.le_trans h.generation hb'
      · exact hb' ▸ hb
    · obtain hb' | ⟨hb', hl'⟩ := h'.base
      · exact .inl (Nat.le_trans h.generation hb')
      · refine .inr ⟨hb'.trans hb, ?_⟩
        obtain hl | ⟨hs, hg⟩ := hl
        · exact .inl hl
        · exact hl'.imp (hs ▸ ·) fun hl' => ⟨hl'.left.trans hs, hl'.right.trans hg⟩

theorem Follows.admits (h : Follows st st') {n : Nat} (ha : Admits st n) (hle : n ≤ st.generation) :
    Admits st' n := by
  intro hlt
  obtain hb | ⟨hb, hl⟩ := h.base
  · omega
  · obtain ⟨hs, hg⟩ := ha (hb ▸ hlt)
    obtain hl | ⟨hs', hg'⟩ := hl
    · exact absurd hs hl
    · exact ⟨hs'.trans hs, hg.trans hg'.symm⟩

theorem Follows.le_base (h : Follows st st') {n : Nat} (hn : n ≤ st.base) (hle : n ≤ st.generation) :
    n ≤ st'.base := by
  obtain hb | ⟨hb, -⟩ := h.base
  · exact Nat.le_trans hle hb
  · exact hb ▸ hn

@[simp]
theorem set_objects_self : (v.set o st).objects o = st := by
  simp [set]

theorem set_objects_of_ne (h : p ≠ o) : (v.set o st).objects p = v.objects p := by
  simp [set, h]

theorem follows_reset (v : View) (o p : Nat) : Follows (v.objects p) ((v.reset o).objects p) := by
  by_cases hp : p = o
  · subst hp
    rw [reset, set_objects_self]
    exact ⟨Nat.le_succ _, fun _ => rfl, .inl (Nat.le_succ _)⟩
  · rw [reset, set_objects_of_ne hp]
    exact .refl _

theorem fold_reset (l : List Child) (v : View) :
    ∃ f, l.foldl (fun v c => v.reset c.object) v = { v with objects := f } ∧
      (∀ o, (∀ c ∈ l, c.object ≠ o) → f o = v.objects o) ∧
      ∀ o, Follows (v.objects o) (f o) ∧
        ((f o).since = (v.objects o).since ∨ (f o).since = v.answers.length) := by
  induction l generalizing v
  case nil => exact ⟨v.objects, rfl, fun _ _ => rfl, fun _ => ⟨.refl _, .inl rfl⟩⟩
  case cons c l ih =>
    obtain ⟨f, hf, hsame, hle⟩ := ih (v.reset c.object)
    refine ⟨f, hf, fun o ho => ?_, fun o => ?_⟩
    · rw [hsame o fun c' hc' => ho c' (List.mem_cons_of_mem _ hc')]
      exact set_objects_of_ne fun hc => ho c List.mem_cons_self hc.symm
    · obtain ⟨hfollows, hsince⟩ := hle o
      refine ⟨(follows_reset v c.object o).trans hfollows, ?_⟩
      by_cases hc : o = c.object
      · subst hc
        simp only [reset, set_objects_self] at hsince
        exact hsince.elim .inr .inr
      · simp only [reset, set_objects_of_ne hc] at hsince
        exact hsince

-- Only the children that are removed are reset.
theorem removeChildren_eq (v : View) (p : Slot → Bool) :
    ∃ f, v.removeChildren p = { v with objects := f, children := v.children.delete fun c => p c.slot } ∧
      (∀ o, (∀ c ∈ v.children, p c.slot → c.object ≠ o) → f o = v.objects o) ∧
      ∀ o, Follows (v.objects o) (f o) ∧
        ((f o).since = (v.objects o).since ∨ (f o).since = v.answers.length) := by
  obtain ⟨f, hf, hsame, hle⟩ := fold_reset (v.children.rows.filter fun c => p c.slot) v
  refine ⟨f, by rw [removeChildren, hf], fun o ho => hsame o fun c hc => ?_, hle⟩
  obtain ⟨hc, hp⟩ := List.mem_filter.mp hc
  exact ho c hc hp

-- The children that are left.
theorem mem_removeChildren {p : Slot → Bool} {c : Child} :
    c ∈ (v.removeChildren p).children ↔ c ∈ v.children ∧ p c.slot = false := by
  obtain ⟨f, hf, -⟩ := removeChildren_eq v p
  rw [hf]
  exact Table.mem_delete

theorem clearChildren_children (v : View) (c : Child) : c ∉ v.clearChildren.children := by
  simp [clearChildren, mem_removeChildren]

end Objects

section Slots

variable {v v' : View} {s s' : Slot} {o o' : Nat}

theorem objectOf_child (h : s.message.isSome) : v.objectOf s = (v.children.get s).map Child.object := by
  cases s <;> first | rfl | simp [Slot.message] at h

-- Where the object of a slot is.
theorem objectOf_cases (h : v.objectOf s = some o) :
    (s = .resolution ∧ o = 0) ∨ (s = .threads ∧ o = 1) ∨ (s = .messages ∧ o = 2) ∨
    s.message.isSome ∧ ∃ c ∈ v.children, c.slot = s ∧ c.object = o := by
  cases s
  case resolution => exact .inl ⟨rfl, (Option.some.inj h).symm⟩
  case threads    => exact .inr (.inl ⟨rfl, (Option.some.inj h).symm⟩)
  case messages   => exact .inr (.inr (.inl ⟨rfl, (Option.some.inj h).symm⟩))
  all_goals
    obtain ⟨c, hc, rfl⟩ := Option.map_eq_some_iff.mp h
    exact .inr (.inr (.inr ⟨rfl, c, Table.mem_of_get hc, Table.key_of_get hc, rfl⟩))

-- No object is in two slots.
theorem Ordered.slot_unique (h : v.Ordered) (hs : v.objectOf s = some o) (hs' : v.objectOf s' = some o) :
    s = s' := by
  have hchild {s : Slot} (hc : ∃ c ∈ v.children, c.slot = s ∧ c.object = o) : 3 ≤ o := by
    obtain ⟨c, hc, -, rfl⟩ := hc
    exact (h.children c hc).left
  obtain ⟨hs, ho⟩ | ⟨hs, ho⟩ | ⟨hs, ho⟩ | ⟨-, hc⟩ := objectOf_cases hs <;>
    obtain ⟨hs', ho'⟩ | ⟨hs', ho'⟩ | ⟨hs', ho'⟩ | ⟨-, hc'⟩ := objectOf_cases hs'
  case inr.inr.inr.inr.inr.inr =>
    obtain ⟨c, hc, rfl, rfl⟩ := hc
    obtain ⟨c', hc', rfl, ho⟩ := hc'
    rw [h.distinct c hc c' hc' ho.symm]
  all_goals
    first
      | exact hs.trans hs'.symm
      | omega
      | exact absurd (hchild hc) (by omega)
      | exact absurd (hchild hc') (by omega)

-- What is of a message is not the page of messages.
theorem Ordered.messages_ne (h : v.Ordered) (hs : v.objectOf s = some o) {m : String}
    (hm : s.message = some m) : messages ≠ o := by
  rintro rfl
  have hs : s = .messages := h.slot_unique hs rfl
  subst hs
  cases hm

theorem Ordered.object_lt (h : v.Ordered) (hs : v.objectOf s = some o) : o < v.allocated := by
  have hallocated := h.allocated
  obtain ⟨-, rfl⟩ | ⟨-, rfl⟩ | ⟨-, rfl⟩ | ⟨-, c, hc, -, rfl⟩ := objectOf_cases hs
  · exact Nat.lt_of_lt_of_le (by decide) hallocated
  · exact Nat.lt_of_lt_of_le (by decide) hallocated
  · exact Nat.lt_of_lt_of_le (by decide) hallocated
  · exact (h.children c hc).right.left

theorem Ordered.object_ne_allocated (h : v.Ordered) (s : Slot) (hs : v.objectOf s = some o) :
    o ≠ v.allocated :=
  Nat.ne_of_lt (h.object_lt hs)

end Slots

end View

end Threads
