import EmailWatcher.Threads.Operations
import Mathlib.Data.List.Perm.Basic

-- Reads keep the view in order, from their beginning to their end.
namespace Threads

namespace View

variable {v v' : View} {s s' : Slot} {o p : Nat} {r : Read} {q : Query}

section Children

theorem mem_addChild {c : Child} (h : c ∈ (v.addChild s).children) :
    c = ⟨s, v.allocated⟩ ∨ c ∈ v.children ∧ c.slot ≠ s :=
  Table.mem_put.mp h

theorem addChild_objects_of_ne (h : o ≠ v.allocated) : (v.addChild s).objects o = v.objects o :=
  set_objects_of_ne h

theorem objectOf_addChild_self (h : s.message.isSome) : (v.addChild s).objectOf s = some v.allocated := by
  rw [objectOf_child h]
  have hget : (v.addChild s).children.get s = some ⟨s, v.allocated⟩ := by
    simp only [addChild]
    rw [show (v.set v.allocated _).children = v.children from rfl, Table.get_put]
    simp [Keyed.key]
  rw [hget]
  rfl

theorem objectOf_addChild (h : (v.addChild s).objectOf s' = some o) :
    s' = s ∧ o = v.allocated ∨ v.objectOf s' = some o := by
  obtain ⟨rfl, rfl⟩ | ⟨rfl, rfl⟩ | ⟨rfl, rfl⟩ | ⟨hm, c, hc, rfl, rfl⟩ := objectOf_cases h
  · exact .inr rfl
  · exact .inr rfl
  · exact .inr rfl
  · obtain rfl | ⟨hc, -⟩ := mem_addChild hc
    · exact .inl ⟨rfl, rfl⟩
    · refine .inr ?_
      rw [objectOf_child hm, Option.map_eq_some_iff]
      exact ⟨c, Table.get_of_mem hc, rfl⟩

-- A new child is quiet.
theorem Sound.addChild (h : v.Sound) (hs : s.message.isSome) : (v.addChild s).Sound where
  allocated := Nat.le_succ_of_le h.allocated
  children c hc := by
    obtain rfl | ⟨hc, -⟩ := mem_addChild hc
    · exact ⟨h.allocated, Nat.lt_succ_self _, hs⟩
    · obtain ⟨hle, hlt, hm⟩ := h.children c hc
      exact ⟨hle, Nat.lt_succ_of_lt hlt, hm⟩
  distinct c hc c' hc' heq := by
    obtain rfl | ⟨hc, -⟩ := mem_addChild hc <;> obtain rfl | ⟨hc', -⟩ := mem_addChild hc'
    · rfl
    · exact absurd heq (Nat.ne_of_gt (h.children c' hc').right.left)
    · exact absurd heq (Nat.ne_of_lt (h.children c hc).right.left)
    · exact h.distinct c hc c' hc' heq
  reads r hr := by
    obtain ⟨hlt, hle⟩ := h.reads r hr
    refine ⟨Nat.lt_succ_of_lt hlt, ?_⟩
    rw [addChild_objects_of_ne (Nat.ne_of_lt hlt)]
    exact hle
  unique := h.unique
  since o := by
    by_cases ho : o = v.allocated
    · subst ho
      simp [View.addChild, set]
    · rw [addChild_objects_of_ne ho]
      exact h.since o
  issued := h.issued
  admits r hr := by
    rw [addChild_objects_of_ne (Nat.ne_of_lt (h.reads r hr).left)]
    exact h.admits r hr
  failed hfailed := by
    have hne : resolution ≠ v.allocated := Nat.ne_of_lt (Nat.lt_of_lt_of_le (by decide) h.allocated)
    rw [Unresolved, addChild_objects_of_ne hne]
    exact h.failed hfailed
  slots s' o hso := by
    have hlists : ((v.addChild s).objects messages).value = (v.objects messages).value := by
      rw [addChild_objects_of_ne (Nat.ne_of_lt (Nat.lt_of_lt_of_le (by decide) h.allocated))]
    obtain ⟨rfl, rfl⟩ | hso := objectOf_addChild hso
    · refine Quiet.sound ⟨by simp [View.addChild, set], fun r hr hl => ?_⟩
      exact Nat.ne_of_lt (h.reads r hr).left hl.left
    · have hobj := addChild_objects_of_ne (s := s) (Nat.ne_of_lt (h.object_lt hso))
      exact (h.slots s' o hso).agree {
        value         := congrArg _ hobj
        generation    := congrArg _ hobj
        since         := congrArg _ hobj
        reads _ hr _  := hr
        settled _ hq _ := .inl hq
        asks _        := SameSelection.asks ⟨rfl, rfl, rfl, rfl, rfl, rfl, List.prefix_rfl⟩
        lists m _ hm  := (lists_congr hlists m).trans hm
        opened        := id
        answers       := List.prefix_rfl
        invalidations := rfl
      }

end Children

section Beginnings

-- The object of a slot changes where no read is live.
theorem SlotSound.set_of_ne (h : v.SlotSound s o) (hne : o ≠ p) {st : ReadState}
    (hlists : ∀ m, s.message = some m → v.lists m → (v.set p st).lists m) :
    (v.set p st).SlotSound s o := by
  have hobj : (v.set p st).objects o = v.objects o := set_objects_of_ne hne
  exact h.agree {
    value         := congrArg _ hobj
    generation    := congrArg _ hobj
    since         := congrArg _ hobj
    reads _ hr _  := hr
    settled _ hq _ := .inl hq
    asks _        := SameSelection.asks ⟨rfl, rfl, rfl, rfl, rfl, rfl, List.prefix_rfl⟩
    lists         := hlists
    opened        := id
    answers       := List.prefix_rfl
    invalidations := rfl
  }

theorem lists_set_of_ne (hne : messages ≠ p) {st : ReadState} (m : String) :
    (v.set p st).lists m = v.lists m :=
  lists_congr (congrArg ReadState.value (set_objects_of_ne hne)) m

-- A read that goes on, or a new one.
theorem Ordered.push_load (h : v.Ordered)
    (hr : r.target < v.allocated ∧ r.generation ≤ (v.objects r.target).generation)
    (hkey : ∀ r' ∈ v.reads, r'.key ≠ r.key) (hadmits : Admits (v.objects r.target) r.generation)
    (hfailed : .failed ∈ v.frames → r.target = resolution → r.generation ≤ (v.objects resolution).base) :
    (v.push (.load r)).Ordered := by
  have hreads : (v.push (.load r)).reads = r :: v.reads := by simp [View.reads, View.push, Frame.read]
  refine ⟨h.allocated, h.children, h.distinct, fun r' hr' => ?_, ?_, h.since, h.issued, fun r' hr' => ?_,
    fun hf => ?_⟩
  · rw [hreads] at hr'
    obtain rfl | hr' := List.mem_cons.mp hr'
    · exact hr
    · exact h.reads r' hr'
  · rw [hreads, List.map_cons, List.nodup_cons]
    refine ⟨fun hk => ?_, h.unique⟩
    obtain ⟨r', hr', hk⟩ := List.mem_map.mp hk
    exact hkey r' hr' hk
  · rw [hreads] at hr'
    obtain rfl | hr' := List.mem_cons.mp hr'
    · exact hadmits
    · exact h.admits r' hr'
  · have hmem : .failed ∈ v.frames := by
      obtain he | hf := List.mem_cons.mp hf
      · cases he
      · exact hf
    refine ⟨(h.failed hmem).left, fun r' hr' ht => ?_⟩
    rw [hreads] at hr'
    obtain rfl | hr' := List.mem_cons.mp hr'
    · exact hfailed hmem ht
    · exact (h.failed hmem).right r' hr' ht

theorem Sound.push_load (h : v.Sound)
    (hr : r.target < v.allocated ∧ r.generation ≤ (v.objects r.target).generation)
    (hkey : ∀ r' ∈ v.reads, r'.key ≠ r.key) (hadmits : Admits (v.objects r.target) r.generation)
    (hfailed : .failed ∈ v.frames → r.target = resolution → r.generation ≤ (v.objects resolution).base)
    (hlive : ∀ s o, v.objectOf s = some o → v.Live o r → v.LiveRead s o r) :
    (v.push (.load r)).Sound := by
  have hreads : (v.push (.load r)).reads = r :: v.reads := by simp [View.reads, View.push, Frame.read]
  refine { h.toOrdered.push_load hr hkey hadmits hfailed with slots := fun s o hso => ?_ }
  have hslot := h.slots s o hso
  refine { held := hslot.held, live := fun r' hr' hl => ?_, settled := hslot.settled }
  rw [hreads] at hr'
  have hlr : v.LiveRead s o r' := by
    obtain rfl | hr' := List.mem_cons.mp hr'
    · exact hlive s o hso hl
    · exact hslot.live r' hr' hl
  exact ⟨hlr.query, hlr.clears, hlr.sent, hlr.issued, hlr.listed, hlr.value, hlr.cursor, hlr.more⟩

theorem truthy_bind (x : Option Value) :
    truthy (x.bind Value.nextCursor) = x.bind fun old => truthy old.nextCursor := by
  cases x <;> rfl

-- What a read is to be given: the query that the selection asks for, and the cursor of what is held.
structure Begins (v : View) (s : Slot) (o : Nat) (more : Bool) (q : Query) (c : Option String)
    (cl : Clears) : Prop where
  object : v.objectOf s = some o
  query  : v.Asks s q
  clears : cl = s.clears
  listed : ∀ m, s.message = some m → v.lists m
  cursor : c = if more then truthy ((v.objects o).value.bind Value.nextCursor) else none
  isSome : more → c.isSome
  sent   : c.isSome → ∀ origin vendorId, q ≠ .resolve origin (some vendorId)
  -- A first page of messages leaves no children behind.
  first  : s = .messages → more = false → ∀ c, c ∉ v.children

theorem Begins.sent_eq {more : Bool} {cursor : Option String} {clears : Clears}
    (h : v.Begins s o more q cursor clears) (hr : r.query = q) (hc : r.cursor = cursor) :
    r.sent = r.cursor := by
  subst hr hc
  simp only [Read.sent]
  split
  · rename_i hq
    cases hcursor : r.cursor
    · rfl
    · exact absurd hq (h.sent (by simp [hcursor]) _ _)
  · rfl

-- What a read begins with: the state of its object, and what it has in hand.
structure Begun (v : View) (o : Nat) (more : Bool) (q : Query) (c : Option String) (cl : Clears)
    (st : ReadState) (r : Read) : Prop where
  target     : r.target = o
  generation : r.generation = (v.objects o).generation + 1
  query      : r.query = q
  cursor     : r.cursor = c
  clears     : r.clears = cl
  issued     : r.issued = none
  previous   : st.value = r.previous
  last       : st.generation = r.generation
  loading    : st.status = .loading
  -- More is loaded only where nothing is loading.
  append     : more → r.previous = (v.objects o).value ∧ (v.objects o).status ≠ .loading ∧
    st.since = (v.objects o).since ∧ st.base = (v.objects o).base
  first      : more = false → r.previous = none ∧ st.since = v.answers.length ∧ st.base = r.generation

theorem read_cases (v : View) (o : Nat) (more : Bool) (q : Query) (cursor : Option String)
    (clears : Clears) (currency : Currency) :
    (∃ r, v.read o more q cursor clears currency = v.finish r) ∨
    ∃ st r, v.read o more q cursor clears currency = (v.set o st).push (.load r) ∧
      v.Begun o more q cursor clears st r := by
  simp only [View.read]
  split
  case isTrue       => exact .inl ⟨_, rfl⟩
  case isFalse hnot =>
    refine .inr ⟨_, _, rfl, ?_⟩
    cases more
    case false =>
      exact ⟨rfl, rfl, rfl, rfl, rfl, rfl, rfl, rfl, rfl, fun hm => absurd hm Bool.false_ne_true,
        fun _ => ⟨rfl, rfl, rfl⟩⟩
    case true  =>
      have hidle : (v.objects o).status ≠ .loading := fun hs => hnot ⟨rfl, hs⟩
      exact ⟨rfl, rfl, rfl, rfl, rfl, rfl, rfl, rfl, rfl, fun _ => ⟨rfl, hidle, rfl, rfl⟩,
        fun hm => absurd hm.symm Bool.false_ne_true⟩

section Begun

variable {more : Bool} {cursor : Option String} {clears : Clears} {st : ReadState} {s' : Slot} {o' : Nat}

theorem Begun.follows (h : v.Begun o more q cursor clears st r) : Follows (v.objects o) st := by
  have hgen : (v.objects o).generation ≤ r.generation := h.generation ▸ Nat.le_succ _
  refine ⟨h.last ▸ hgen, fun hnone => ?_, ?_⟩
  · rw [h.previous]
    cases more
    case false => exact (h.first rfl).left
    case true  => exact (h.append rfl).left.trans hnone
  · cases more
    case false => exact .inl ((h.first rfl).right.right ▸ hgen)
    case true  => exact .inr ⟨(h.append rfl).right.right.right, .inl (h.append rfl).right.left⟩

theorem Begun.since_le (h : v.Begun o more q cursor clears st r) (hv : v.Ordered) :
    st.since ≤ v.answers.length := by
  cases more
  case false => exact Nat.le_of_eq (h.first rfl).right.left
  case true  => exact (h.append rfl).right.right.left ▸ hv.since o

-- No other read is of the new generation.
theorem Begun.generation_lt (h : v.Begun o more q cursor clears st r) (hv : v.Ordered) {r' : Read}
    (hr : r' ∈ v.reads) (ht : r'.target = o) : r'.generation < r.generation := by
  rw [h.generation]
  exact Nat.lt_succ_of_le (ht ▸ (hv.reads r' hr).right)

-- What is listed stays listed, for what is of a message.
theorem Begun.lists (h : v.Begun o more q cursor clears st r) (hv : v.Ordered)
    (hb : v.Begins s o more q cursor clears) (hso : v.objectOf s' = some o') {m : String}
    (hm : s'.message = some m) (hl : v.lists m) : (v.set o st).lists m := by
  by_cases hne : messages = o
  case neg => exact (lists_set_of_ne hne m).trans hl
  case pos =>
    subst hne
    have hs : s = .messages := hv.slot_unique hb.object rfl
    subst hs
    cases more
    case true  =>
      refine (lists_congr ?_ m).trans hl
      rw [set_objects_self, h.previous]
      exact (h.append rfl).left
    case false =>
      obtain ⟨-, c, hc, -⟩ := ((objectOf_cases hso).resolve_left (by rintro ⟨rfl, -⟩; cases hm)
        |>.resolve_left (by rintro ⟨rfl, -⟩; cases hm)
        |>.resolve_left (by rintro ⟨rfl, -⟩; cases hm))
      exact absurd hc (hb.first rfl rfl c)

-- What is held before a read is held on, if more is read, and dropped otherwise.
theorem Begun.slotSound (h : v.Begun o more q cursor clears st r) (hv : v.Sound)
    (hb : v.Begins s o more q cursor clears) : (v.set o st).SlotSound s o := by
  have hnone {r' : Read} (hr : r' ∈ v.reads) (hl : (v.set o st).Live o r') : False := by
    have hlt := h.generation_lt hv.toOrdered hr hl.left
    rw [hl.right, set_objects_self, h.last] at hlt
    exact Nat.lt_irrefl _ hlt
  have hsel : SameSelection v (v.set o st) := ⟨rfl, rfl, rfl, rfl, rfl, rfl, List.prefix_rfl⟩
  refine {
    held := fun x hx => ?_
    live := fun r' hr hl => (hnone hr hl).elim
    settled := fun q' hq hl => (hnone (mem_reads_of_settled hq) hl).elim
  }
  rw [set_objects_self, h.previous] at hx
  cases more
  case false => cases (h.first rfl).left.symm.trans hx
  case true  =>
    obtain ⟨hvalue, -, hsince, -⟩ := h.append rfl
    obtain ⟨hopen, -, chain, hpages, hsource⟩ := (hv.slots s o hb.object).held x (hvalue ▸ hx)
    refine ⟨hopen, fun m hm => h.lists hv.toOrdered hb hb.object hm (hb.listed m hm), chain, hpages,
      fun a ha => ?_⟩
    obtain ⟨hmem, hi, hq, hx⟩ := hsource a ha
    refine ⟨?_, hi, hsel.asks hq, hx⟩
    rw [set_objects_self, hsince]
    exact hmem

theorem Begun.sound (h : v.Begun o more q cursor clears st r) (hv : v.Sound)
    (hb : v.Begins s o more q cursor clears) : (v.set o st).Sound := by
  refine { hv.toOrdered.set h.follows (h.since_le hv.toOrdered) with slots := fun s' o' hso => ?_ }
  have hso' : v.objectOf s' = some o' := hso
  by_cases ho : o' = o
  case neg =>
    exact (hv.slots s' o' hso').set_of_ne ho fun _ => h.lists hv.toOrdered hb hso'
  case pos =>
    subst ho
    cases hv.slot_unique hb.object hso'
    exact h.slotSound hv hb

theorem Begun.liveRead (h : v.Begun o more q cursor clears st r) (hv : v.Ordered)
    (hb : v.Begins s o more q cursor clears) : (v.set o st).LiveRead s o r := by
  have hsel : SameSelection v (v.set o st) := ⟨rfl, rfl, rfl, rfl, rfl, rfl, List.prefix_rfl⟩
  exact {
    query  := h.query ▸ hsel.asks hb.query
    clears := h.clears.trans hb.clears
    sent   := hb.sent_eq h.query h.cursor
    issued n hn := by
      rw [h.issued] at hn
      cases hn
    listed m hm := h.lists hv hb hb.object hm (hb.listed m hm)
    value  := by rw [set_objects_self, h.previous]
    cursor := by
      rw [h.cursor, hb.cursor]
      cases more
      case false => rw [(h.first rfl).left]; rfl
      case true  => rw [(h.append rfl).left, if_pos rfl, truthy_bind]
    more   := by
      rw [h.cursor]
      cases more
      case false =>
        rw [(h.first rfl).left]
        intro hnone
        cases hnone
      case true  => exact fun _ => hb.isSome rfl
  }

-- While an error waits to be noted, there is nothing of which more could be read.
theorem Begun.failed (h : v.Begun o more q cursor clears st r) (hv : v.Ordered)
    (hb : v.Begins s o more q cursor clears) (hf : .failed ∈ v.frames) (ht : r.target = resolution) :
    r.generation ≤ ((v.set o st).objects resolution).base := by
  obtain rfl : o = resolution := h.target.symm.trans ht
  rw [set_objects_self]
  cases more
  case false => exact Nat.le_of_eq (h.first rfl).right.right.symm
  case true  =>
    have hsome := hb.isSome rfl
    rw [hb.cursor, if_pos rfl, (hv.failed hf).left] at hsome
    cases hsome

end Begun

theorem Sound.read (h : v.Sound) {more : Bool} {cursor : Option String} {clears : Clears}
    (hb : v.Begins s o more q cursor clears) (currency : Currency) :
    (v.read o more q cursor clears currency).Sound := by
  obtain ⟨r, hread⟩ | ⟨st, r, hread, hr⟩ := read_cases v o more q cursor clears currency
  · rw [hread]
    exact h.finish r
  · rw [hread]
    have hset := hr.sound h hb
    obtain rfl := hr.target
    refine hset.push_load ⟨h.object_lt hb.object, ?_⟩ (fun r' hr' hk => ?_) ?_
      (hr.failed h.toOrdered hb) fun s' o' hso hl => ?_
    · rw [set_objects_self]
      exact Nat.le_of_eq hr.last.symm
    · have hlt := hr.generation_lt h.toOrdered hr' (congrArg Prod.fst hk)
      exact absurd (congrArg Prod.snd hk) (Nat.ne_of_lt hlt)
    · rw [set_objects_self]
      exact fun _ => ⟨hr.loading, hr.last.symm⟩
    · obtain rfl : r.target = o' := hl.left
      cases h.slot_unique hb.object hso
      exact hr.liveRead h.toOrdered hb

end Beginnings

section Loads

theorem mem_reads_issue {r' : Read} {guard : Option (Nat × Nat)} :
    r' ∈ (v.issue r guard).reads ↔ r' = { r with issued := some v.invalidations } ∨ r' ∈ v.reads := by
  simp only [View.reads, issue, List.map_append, List.map_cons, List.map_nil, List.mem_append,
    List.mem_singleton]
  tauto

theorem reads_issue_perm (guard : Option (Nat × Nat)) :
    (v.issue r guard).reads.Perm ({ r with issued := some v.invalidations } :: v.reads) := by
  have hreads : (v.issue r guard).reads =
      (v.frames.filterMap Frame.read ++ v.requests.map Request.read) ++
        { r with issued := some v.invalidations } :: v.settled.map Settled.read := by
    simp [View.reads, issue]
  rw [hreads]
  exact List.perm_middle

-- A read is issued as a request, as it stands.
theorem Sound.issue (h : v.Sound) (hr : (v.push (.load r)).Sound) (guard : Option (Nat × Nat)) :
    (v.issue r guard).Sound := by
  have hpush : (v.push (.load r)).reads = r :: v.reads := by simp [View.reads, View.push, Frame.read]
  have hmem : r ∈ (v.push (.load r)).reads := hpush ▸ List.mem_cons_self
  refine {
    allocated := h.allocated
    children  := h.children
    distinct  := h.distinct
    reads     := fun r' hr' => ?_
    unique    := ?_
    since     := h.since
    issued    := fun q hq => ?_
    admits    := fun r' hr' => ?_
    failed    := fun hf => ?_
    slots     := fun s o hso => ?_
  }
  · obtain rfl | hr' := mem_reads_issue.mp hr'
    · exact hr.reads r hmem
    · exact h.reads r' hr'
  · have hunique := hr.unique
    rw [hpush] at hunique
    exact ((reads_issue_perm guard).map Read.key).nodup_iff.mpr hunique
  · obtain hq | hq := List.mem_append.mp hq
    · exact h.issued q hq
    · cases List.mem_singleton.mp hq
      rfl
  · obtain rfl | hr' := mem_reads_issue.mp hr'
    · exact hr.admits r hmem
    · exact h.admits r' hr'
  · obtain ⟨hnone, hreads⟩ := hr.failed (List.mem_cons_of_mem _ hf)
    refine ⟨hnone, fun r' hr' ht => ?_⟩
    obtain rfl | hr' := mem_reads_issue.mp hr'
    · exact hreads r hmem ht
    · exact hreads r' (hpush ▸ List.mem_cons_of_mem _ hr') ht
  · have hso' : v.objectOf s = some o := hso
    have hslot := h.slots s o hso'
    refine { held := hslot.held, live := fun r' hr' hl => ?_, settled := hslot.settled }
    obtain rfl | hr' := mem_reads_issue.mp hr'
    · have hlive := (hr.slots s o hso').live r hmem hl
      exact {
        query    := hlive.query
        clears   := hlive.clears
        sent     := hlive.sent
        issued _ hn := (Option.some.inj hn).symm
        listed   := hlive.listed
        value    := hlive.value
        cursor   := hlive.cursor
        more     := hlive.more
      }
    · have hlive := hslot.live r' hr' hl
      exact ⟨hlive.query, hlive.clears, hlive.sent, hlive.issued, hlive.listed, hlive.value, hlive.cursor,
        hlive.more⟩

theorem Sound.load (h : v.Sound) (hr : (v.push (.load r)).Sound) : (v.load r).Sound := by
  simp only [View.load]
  split
  · exact h.issue hr _
  · exact h.finish r

end Loads

section Replies

theorem checked_answers {reply : Reply} {x : Value} (h : checked q reply = .ok x) : x.Answers q := by
  cases reply
  case error => cases h
  case ok y  =>
    simp only [checked] at h
    split at h
    · cases h
    · rename_i ha
      split at h
      · cases h
      · cases h
        simpa using ha

theorem perm_of_getElem? {α : Type} {l : List α} {k : Nat} {a : α} (h : l[k]? = some a) :
    l.Perm (a :: l.eraseIdx k) := by
  obtain ⟨hk, rfl⟩ := List.getElem?_eq_some_iff.mp h
  exact (List.getElem_cons_eraseIdx_perm hk).symm

-- What is settled is in the record of the answers.
theorem Sound.record (h : v.Sound) {k : Nat} {q : Request} (hq : v.requests[k]? = some q)
    (reply : Reply) :
    (({ v with requests := v.requests.eraseIdx k } : View).record q
      (checked q.read.query reply)).Sound := by
  generalize hc : checked q.read.query reply = result
  have hmem : q ∈ v.requests := List.mem_of_getElem? hq
  have hread : q.read ∈ v.reads := by
    simp only [View.reads, List.mem_append, List.mem_map]
    exact .inl (.inr ⟨q, hmem, rfl⟩)
  let v' := ({ v with requests := v.requests.eraseIdx k } : View).record q result
  have hperm : v'.reads.Perm v.reads := by
    have hreads : v'.reads = (v.frames.filterMap Frame.read ++ (v.requests.eraseIdx k).map Request.read) ++
        (v.settled.map Settled.read ++ [q.read]) := by
      simp [View.reads, v', View.record]
    have hrequests : (v.requests.map Request.read).Perm
        (q.read :: (v.requests.eraseIdx k).map Request.read) := (perm_of_getElem? hq).map Request.read
    rw [hreads, View.reads, ← List.append_assoc]
    refine (List.perm_append_singleton _ _).trans ?_
    refine .trans ?_ ((List.Perm.append_left _ hrequests).append_right _).symm
    simp only [List.append_assoc, List.cons_append]
    exact List.perm_middle.symm
  have hanswers : v.answers <+: v'.answers := by
    simp only [v', View.record]
    split
    · exact List.prefix_append _ _
    · exact List.prefix_rfl
  have hsel : SameSelection v v' := ⟨rfl, rfl, rfl, rfl, rfl, rfl, hanswers⟩
  exact {
    allocated := h.allocated
    children  := h.children
    distinct  := h.distinct
    reads r hr := h.reads r (hperm.subset hr)
    unique    := (hperm.map Read.key).nodup_iff.mpr h.unique
    since o   := Nat.le_trans (h.since o) hanswers.length_le
    issued q' hq' := h.issued q' ((List.eraseIdx_sublist _ _).subset hq')
    admits r hr := h.admits r (hperm.subset hr)
    failed hf   :=
      have hu := h.failed hf
      ⟨hu.left, fun r hr => hu.right r (hperm.subset hr)⟩
    slots s o hso := by
      have hslot := h.slots s o hso
      refine hslot.agree {
        value         := rfl
        generation    := rfl
        since         := rfl
        reads r hr _  := hperm.subset hr
        settled q' hq' hl := ?_
        asks _        := hsel.asks
        lists _ _     := id
        opened        := id
        answers       := hanswers
        invalidations := rfl
      }
      obtain hq' | hq' := List.mem_append.mp hq'
      · exact .inl hq'
      · cases List.mem_singleton.mp hq'
        refine .inr fun x hx => ?_
        have hlive := hslot.live q.read hread hl
        obtain ⟨n, hn⟩ := Option.isSome_iff_exists.mp (h.issued q hmem)
        have hx : result = .ok x := hx
        have hv' : v'.answers = v.answers ++ [⟨q.read.query, q.read.sent, v.invalidations, x⟩] := by
          simp [v', View.record, hx, hn, hlive.issued n hn]
        refine ⟨?_, rfl, hsel.asks hlive.query, checked_answers (hc.trans hx)⟩
        change _ ∈ v'.answers.drop (v.objects o).since
        rw [hv', List.drop_append_of_le_length (h.since o)]
        exact List.mem_append_right _ (List.mem_singleton.mpr rfl)
  }

theorem Sound.settle (h : v.Sound) {k : Nat} {q : Request} (hq : v.requests[k]? = some q)
    (reply : Reply) : (({ v with requests := v.requests.eraseIdx k } : View).settle q reply).Sound := by
  have hr := h.record hq reply
  simp only [View.settle]
  split
  · split
    · exact hr.toOrdered.invalidate.push_failed hr.toOrdered.unresolved_invalidate
    · exact hr
  · exact hr

end Replies

section Ends

-- Without children, the first objects are all there is.
theorem Ordered.sound_clearChildren (h : v.Ordered) (h0 : v.SlotSound .resolution 0)
    (h1 : v.SlotSound .threads 1) (h2 : v.SlotSound .messages 2) : v.clearChildren.Sound where
  toOrdered := h.removeChildren _
  slots s o hso := by
    have hchild {o : Nat} (ho : o < 3) : ∀ c ∈ v.children, true → c.object ≠ o :=
      fun c hc _ => h.child_ne ho c hc
    obtain ⟨rfl, rfl⟩ | ⟨rfl, rfl⟩ | ⟨rfl, rfl⟩ | ⟨-, c, hc, -⟩ := objectOf_cases hso
    · exact h0.removeChildren h (hchild (by decide))
    · exact h1.removeChildren h (hchild (by decide))
    · exact h2.removeChildren h (hchild (by decide))
    · exact absurd hc (clearChildren_children v c)

-- The value of a slot is dropped where no read is live.
theorem Sound.drop (h : v.Sound) (hdead : ∀ r ∈ v.reads, ¬v.Live p r) {st : ReadState}
    (hset : (v.set p st).Ordered) (hvalue : st.value = none)
    (hgen : st.generation = (v.objects p).generation) {cl : Clears}
    (hcl : p = messages → cl = .children) : ((v.set p st).clear cl).Sound := by
  have hquiet : (v.set p st).Quiet p := by
    refine ⟨by simp [hvalue], fun r hr hl => hdead r hr ⟨hl.left, ?_⟩⟩
    rw [← hgen, hl.right, set_objects_self]
  have hslot {s : Slot} {o : Nat} (hso : v.objectOf s = some o)
      (hs : ∀ m, s.message = some m → messages ≠ p) : (v.set p st).SlotSound s o := by
    by_cases ho : o = p
    · subst ho
      exact hquiet.sound
    · exact (h.slots s o hso).set_of_ne ho fun m hm hl => (lists_set_of_ne (hs m hm) m).trans hl
  by_cases hp : p = messages
  · rw [hcl hp]
    exact hset.sound_clearChildren (hslot (s := .resolution) rfl nofun) (hslot (s := .threads) rfl nofun)
      (hslot (s := .messages) rfl nofun)
  · have hsound : (v.set p st).Sound := { hset with slots := fun s o hso => hslot hso fun _ _ => Ne.symm hp }
    exact hsound.clear cl

-- The reads that are left when a settled one goes on are others.
theorem Sound.key_ne (h : v.Sound) {k : Nat} {q : Settled} (hq : v.settled[k]? = some q) {r : Read}
    (hr : r ∈ ({ v with settled := v.settled.eraseIdx k } : View).reads) : r.key ≠ q.read.key := by
  have hperm : v.reads.Perm (q.read :: ({ v with settled := v.settled.eraseIdx k } : View).reads) := by
    have hsettled := (perm_of_getElem? hq).map Settled.read
    rw [View.reads]
    exact (List.Perm.append_left _ hsettled).trans List.perm_middle
  have hunique := (hperm.map Read.key).nodup_iff.mp h.unique
  rw [List.map_cons, List.nodup_cons] at hunique
  exact fun hk => hunique.left (hk ▸ List.mem_map_of_mem hr)

-- Nothing more is being loaded for the object of a read that goes on.
theorem Sound.idle (h : v.Sound) {k : Nat} {q : Settled} (hq : v.settled[k]? = some q)
    (hgen : q.read.generation = (v.objects q.read.target).generation) :
    ∀ r ∈ ({ v with settled := v.settled.eraseIdx k } : View).reads, r.target = q.read.target →
      r.generation ≤ (v.objects q.read.target).base := by
  intro r hr ht
  by_contra hlt
  have hsublist : ({ v with settled := v.settled.eraseIdx k } : View).reads.Sublist v.reads :=
    (List.Sublist.refl _).append ((List.eraseIdx_sublist _ _).map Settled.read)
  have hadmits := h.admits r (hsublist.subset hr)
  rw [ht] at hadmits
  have hlast := (hadmits (Nat.not_le.mp hlt)).right
  exact h.key_ne hq hr (Prod.ext ht (hlast.trans hgen.symm))

theorem Sound.dead (h : v.Sound) {k : Nat} {q : Settled} (hq : v.settled[k]? = some q)
    (hgen : q.read.generation = (v.objects q.read.target).generation) :
    ∀ r ∈ ({ v with settled := v.settled.eraseIdx k } : View).reads, ¬v.Live q.read.target r :=
  fun _ hr hl => h.key_ne hq hr (Prod.ext hl.left (hl.right.trans hgen.symm))

-- A page of the same slot, behind what the slot holds.
theorem LiveRead.pages (hr : v.LiveRead s o r) (h : v.SlotSound s o) {fresh : Value}
    (hs : v.Source s o ⟨r.query, r.sent, v.invalidations, fresh⟩) :
    ∃ chain, Pages chain (r.combine fresh) ∧ ∀ a ∈ chain, v.Source s o a := by
  cases hprevious : r.previous
  case none =>
    refine ⟨[⟨r.query, r.sent, v.invalidations, fresh⟩], ?_, fun a ha => List.mem_singleton.mp ha ▸ hs⟩
    have hcursor : r.sent = none := by rw [hr.sent, hr.cursor, hprevious]; rfl
    simp only [Read.combine, hprevious]
    exact .single hcursor
  case some old =>
    obtain ⟨-, -, chain, hpages, hsource⟩ := h.held old (hr.value.trans hprevious)
    obtain ⟨a, ha, hkind, -⟩ := hpages.kind_eq
    have hcursor : r.sent = truthy old.nextCursor := by rw [hr.sent, hr.cursor, hprevious]; rfl
    have hsome : r.sent.isSome := by
      rw [hr.sent]
      exact hr.more (by simp [hprevious])
    have hk : old.kind = fresh.kind := by
      obtain ⟨-, -, hq, hx⟩ := hsource a ha
      obtain ⟨-, -, hq', hx'⟩ := hs
      rw [hkind, Value.kind_of_answers hx, Value.kind_of_answers hx', kind_of_asks hq, kind_of_asks hq']
    refine ⟨chain ++ [⟨r.query, r.sent, v.invalidations, fresh⟩], ?_, fun b hb => ?_⟩
    · simp only [Read.combine, hprevious]
      exact hpages.concat hsome hcursor hk
    · obtain hb | hb := List.mem_append.mp hb
      · exact hsource b hb
      · exact List.mem_singleton.mp hb ▸ hs

-- More messages list what there has been.
theorem LiveRead.lists_combine (hr : v.LiveRead .messages messages r) {fresh : Value}
    (hf : fresh.kind = .messages) {m : String} (hm : v.lists m) :
    ∃ p, r.combine fresh = .messages p ∧ p.items.any fun x => x.messageId = m := by
  simp only [lists, messagePage, hr.value] at hm
  cases hprevious : r.previous <;> simp only [hprevious] at hm
  case none => cases hm
  case some old =>
    cases old <;> simp only [Option.any_none, Option.any_some, Bool.false_eq_true] at hm
    case messages p =>
      cases fresh <;> cases hf
      case messages p' =>
        refine ⟨{ p' with items := p.items ++ p'.items }, by simp [Read.combine, hprevious, Value.merge], ?_⟩
        simp only [List.any_append, hm, Bool.true_or]

-- A live read gives its slot a value.
theorem Sound.give (h : v.Sound) (hf : v.frames = []) {k : Nat} {q : Settled}
    (hq : v.settled[k]? = some q) {fresh : Value} (hreply : q.reply = .ok fresh)
    (hgen : q.read.generation = (v.objects q.read.target).generation)
    (hallowed : v.allowed) {st : ReadState} (hvalue : st.value = some (q.read.combine fresh))
    (hstgen : st.generation = (v.objects q.read.target).generation)
    (hsince : st.since = (v.objects q.read.target).since)
    (hbase : st.base = (v.objects q.read.target).base) :
    (({ v with settled := v.settled.eraseIdx k } : View).set q.read.target st).Sound := by
  have hmem : q ∈ v.settled := List.mem_of_getElem? hq
  have hread := mem_reads_of_settled hmem
  have hw : ({ v with settled := v.settled.eraseIdx k } : View).Sound :=
    h.sublist (.refl _) (.refl _) (List.eraseIdx_sublist _ _)
  have hdead := h.dead hq hgen
  have hidle := h.idle hq hgen
  generalize hwdef : ({ v with settled := v.settled.eraseIdx k } : View) = w at hw hdead hidle ⊢
  have hset : (w.set q.read.target st).Ordered := by
    subst hwdef
    refine hw.toOrdered.set_idle hidle hstgen hbase (fun hfailed => ?_) (hsince ▸ h.since _)
    rw [hf] at hfailed
    exact absurd hfailed List.not_mem_nil
  refine { hset with slots := fun s o hso => ?_ }
  have hso' : v.objectOf s = some o := by
    subst hwdef
    exact hso
  have hslot := h.slots s o hso'
  have hsel : SameSelection v (w.set q.read.target st) := by
    subst hwdef
    exact ⟨rfl, rfl, rfl, rfl, rfl, rfl, List.prefix_rfl⟩
  have hobjects : w.objects = v.objects := by
    subst hwdef
    rfl
  by_cases ho : o = q.read.target
  · subst ho
    have hlive := hslot.live q.read hread ⟨rfl, hgen⟩
    have hnone {r : Read} (hr : r ∈ w.reads) (hl : (w.set q.read.target st).Live q.read.target r) : False := by
      refine hdead r hr ⟨hl.left, hl.right.trans ?_⟩
      rw [set_objects_self, hstgen]
    refine {
      held := fun x hx => ?_
      live := fun r hr hl => (hnone hr hl).elim
      settled := fun q' hq' hl => (hnone (mem_reads_of_settled hq') hl).elim
    }
    rw [set_objects_self, hvalue] at hx
    cases hx
    obtain ⟨chain, hpages, hsource⟩ :=
      hlive.pages hslot (hslot.settled q hmem ⟨rfl, hgen⟩ fresh hreply)
    refine ⟨?_, fun m hm => ?_, chain, hpages, fun a ha => ?_⟩
    · subst hwdef
      exact open_of_allowed hallowed
    · rw [lists_set_of_ne (h.messages_ne hso' hm)]
      subst hwdef
      exact hlive.listed m hm
    · obtain ⟨hdrop, hi, hq', hx⟩ := hsource a ha
      refine ⟨?_, hi.trans hsel.invalidations.symm, hsel.asks hq', hx⟩
      rw [set_objects_self, hsince]
      subst hwdef
      exact hdrop
  · refine (hw.slots s o (by subst hwdef; exact hso')).set_of_ne ho fun m hm hl => ?_
    by_cases hp : messages = q.read.target
    · have hlive := (h.slots .messages messages rfl).live q.read hread ⟨hp.symm, hp ▸ hgen⟩
      have hsource := (h.slots .messages messages rfl).settled q hmem ⟨hp.symm, hp ▸ hgen⟩ fresh hreply
      have hkind : fresh.kind = .messages := by
        rw [Value.kind_of_answers hsource.right.right.right, kind_of_asks hlive.query]
        rfl
      have hl : v.lists m := by
        subst hwdef
        exact hl
      obtain ⟨page, hpage, hany⟩ := hlive.lists_combine hkind hl
      simp only [lists, messagePage, ← hp, set_objects_self, hvalue, hpage, Option.any_some]
      exact hany
    · exact (lists_set_of_ne hp m).trans hl

end Ends

end View

end Threads
