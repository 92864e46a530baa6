import EmailWatcher.Gmail.Effects
import EmailWatcher.Library.Machine

-- A recovery that completes has gone through all pages of its listing.
namespace Gmail

variable [Codec]

section Runs

-- What the rest of the program may make of everything that a recovery reads. It may end a recovery,
-- but it does not write to one.
structure Surroundings where
  mail         : Mail.Store
  active       : List String
  selectorSets : Table SelectorSet
  selectors    : Table Selector
  mailboxes    : Table MailboxState
  ended        : List String

def Surroundings.apply (x : Surroundings) (s : Store) : Store where
  mail         := x.mail
  active       := x.active
  selectorSets := x.selectorSets
  selectors    := x.selectors
  recoveries   := s.recoveries.delete (·.accountId ∈ x.ended)
  mailboxes    := x.mailboxes

-- The store of a program that has not recovered anything yet.
def Surroundings.store (x : Surroundings) : Store where
  mail         := x.mail
  active       := x.active
  selectorSets := x.selectorSets
  selectors    := x.selectors
  recoveries   := ∅
  mailboxes    := x.mailboxes

inductive Action
  | call         (c : Call)
  | surroundings (x : Surroundings)

def Action.perform (s : Store) : Action → Except RecoveryError Unit × Store
  | call c         => c.perform s
  | surroundings x => (.ok (), x.apply s)

-- Whatever a call returns, the program goes on from the store that it has left.
def machine : Machine Store Action RecoveryError where
  step s a := .ok (a.perform s).snd

end Runs

section Listing

inductive Event
  | stored   (ids : List String) (nextPageToken : Option String)
  | finished (id : String)
  deriving DecidableEq, Repr

-- A page of the listing, as it was stored.
structure Page where
  ids           : List String
  nextPageToken : Option String
  deriving DecidableEq, Repr

-- A page is stored, and then each of its messages is finished.
def Page.events (p : Page) : List Event :=
  .stored p.ids p.nextPageToken :: p.ids.map .finished

-- The events of the recovery of each account, since its paging last started from the beginning.
abbrev Log := String → List Event

-- What a call that has succeeded adds to the log.
def Call.record (log : Log) : Call → Log
  | create q                           => Function.update log q.accountId []
  | storePage accountId _ ids token    =>
    Function.update log accountId (log accountId ++ [.stored ids token])
  | invalidPageToken accountId _ _     => Function.update log accountId []
  | restartPage accountId _ _          => Function.update log accountId []
  | finishCandidate c _                =>
    Function.update log c.accountId (log c.accountId ++ [.finished c.providerMessageId])
  | complete accountId _ _             => Function.update log accountId []
  | finishPage _ _                     => log
  | backoff _ _ _ _ _                  => log
  | clearBackoff _ _                   => log

def observe (log : Log) (s : Store) (a : Action) (_ : Store) : Log :=
  match a, (a.perform s).fst with
  | .call c, .ok _ => c.record log
  | _,       _     => log

def observed : Machine (Store × Log) Action RecoveryError :=
  machine.monitor observe

end Listing

section Invariant

-- What has happened to the page that is loaded.
def Recovery.currentEvents (r : Recovery) : List Event :=
  if r.pageLoaded then
    .stored r.currentPageIds r.pageToken :: (r.currentPageIds.take r.nextIndex).map .finished
  else
    []

-- What the row of a recovery says about the events that led to it: every page before the one that is
-- loaded was finished as a whole, and named the page after it.
structure Recovery.Follows (r : Recovery) (events : List Event) : Prop where
  unloaded : r.pageLoaded = false → r.currentPageIds = [] ∧ r.nextIndex = 0
  index    : r.nextIndex ≤ r.currentPageIds.length
  retries  : r.consecutiveRetryCount ≤ 31
  listed   : ∃ pages : List Page, (∀ p ∈ pages, p.nextPageToken.isSome ∧ p.ids.Nodup) ∧
    events = pages.flatMap Page.events ++ r.currentEvents

def Followed (x : Store × Log) : Prop :=
  ∀ accountId r, x.fst.recoveries.get accountId = some r → r.Follows (x.snd accountId)

namespace Recovery.Follows

variable {r r' : Recovery} {events : List Event}

omit [Codec] in
theorem of_unloaded (hl : r.pageLoaded = false) (hp : r.currentPageIds = []) (hn : r.nextIndex = 0)
    (hc : r.consecutiveRetryCount ≤ 31) : r.Follows [] where
  unloaded := fun _ => ⟨hp, hn⟩
  index    := by simp [hn]
  retries  := hc
  listed   := ⟨[], by simp, by simp [currentEvents, hl]⟩

omit [Codec] in
theorem load {ids : List String} {token : Option String} (h : r.Follows events)
    (hu : r.pageLoaded = false) : (r.load ids token).Follows (events ++ [.stored ids token]) where
  unloaded := by simp [Recovery.load]
  index    := by simp [Recovery.load]
  retries  := by simp [Recovery.load]
  listed   := by
    obtain ⟨pages, hp, rfl⟩ := h.listed
    exact ⟨pages, hp, by simp [currentEvents, hu, Recovery.load]⟩

-- The message that is next is finished.
omit [Codec] in
theorem advance {id : String} (h : r.Follows events) (hl : r.pageLoaded)
    (hn : r.currentPageIds[r.nextIndex]? = some id) :
    r.advance.Follows (events ++ [.finished id]) where
  unloaded := by simp [Recovery.advance, hl]
  index    := (List.getElem?_eq_some_iff.mp hn).choose
  retries  := by simp [Recovery.advance]
  listed   := by
    obtain ⟨pages, hp, rfl⟩ := h.listed
    refine ⟨pages, hp, ?_⟩
    simp [currentEvents, hl, Recovery.advance, List.take_add_one, hn]

omit [Codec] in
-- The events of a page that is drained are those of a page of the listing.
theorem currentEvents_of_drained (hl : r.pageLoaded) (hd : r.nextIndex = r.currentPageIds.length) :
    r.currentEvents = Page.events ⟨r.currentPageIds, r.pageToken⟩ := by
  simp [currentEvents, Page.events, hl, hd]

omit [Codec] in
theorem unload (h : r.Follows events) (hl : r.pageLoaded)
    (hd : r.nextIndex = r.currentPageIds.length) (ht : r.pageToken.isSome)
    (hn : r.currentPageIds.Nodup) : r.unload.Follows events where
  unloaded := fun _ => ⟨rfl, rfl⟩
  index    := Nat.zero_le _
  retries  := h.retries
  listed   := by
    obtain ⟨pages, hp, rfl⟩ := h.listed
    refine ⟨pages ++ [⟨r.currentPageIds, r.pageToken⟩], ?_, ?_⟩
    · intro p hmem
      obtain hmem | hmem := List.mem_append.mp hmem
      · exact hp p hmem
      · obtain rfl := List.mem_singleton.mp hmem
        exact ⟨ht, hn⟩
    · rw [currentEvents_of_drained hl hd]
      simp [currentEvents, Recovery.unload]

omit [Codec] in
-- Neither the page nor what has become of it changes.
theorem congr (h : r.Follows events) (hl : r'.pageLoaded = r.pageLoaded)
    (hp : r'.currentPageIds = r.currentPageIds) (hn : r'.nextIndex = r.nextIndex)
    (ht : r'.pageToken = r.pageToken) (hc : r'.consecutiveRetryCount ≤ 31) :
    r'.Follows events where
  unloaded := by rw [hl, hp, hn]; exact h.unloaded
  index    := by rw [hp, hn]; exact h.index
  retries  := hc
  listed   := by
    have he : r'.currentEvents = r.currentEvents := by simp [currentEvents, hl, hp, hn, ht]
    rw [he]
    exact h.listed

end Recovery.Follows

section Preservation

variable {s s' : Store} {log log' : Log} {accountId : String} {r r' : Recovery}

-- A call that rewrites one row is left to show what it does to the log of that row.
theorem Followed.rewrites (h : Followed (s, log)) (hw : Rewrites s s' accountId r r')
    (hlog : ∀ id ≠ accountId, log' id = log id)
    (hr : r.Follows (log accountId) → r'.Follows (log' accountId)) : Followed (s', log') := by
  intro id row hget
  simp only at hget ⊢
  rw [hw.written id] at hget
  split at hget
  case isTrue he =>
    obtain rfl := Option.some.inj hget
    subst he
    exact hr <| h _ _ hw.found
  case isFalse hne =>
    rw [hlog id hne]
    exact h id row hget

theorem Effect.followed {c : Call} (he : Effect s c s') (h : Followed (s, log)) :
    Followed (s', c.record log) := by
  cases he
  case create q row cutoff senders selectors hrow hnew hall hm =>
    intro id x hget
    simp only [Call.record] at hget ⊢
    rw [hall id] at hget
    split at hget
    case isTrue hid =>
      obtain rfl := Option.some.inj hget
      subst hid hrow
      rw [Function.update_self]
      exact .of_unloaded rfl rfl rfl (by simp [CreateRequest.row])
    case isFalse hne =>
      rw [Function.update_of_ne hne]
      exact h id x hget
  case storePage a key ids token r hu hp hw =>
    refine h.rewrites hw (fun id hne => Function.update_of_ne hne _ _) fun hf => ?_
    simpa [Call.record] using hf.load hu
  case ready => exact h
  case finishPage a key r hl hd ht hw =>
    refine h.rewrites hw (fun _ _ => rfl) fun hf => hf.unload hl hd ht ?_
    have := hw.valid.page
    simp only [validPage, Bool.and_eq_true, decide_eq_true_eq] at this
    exact this.left.right
  case backoff hw =>
    refine h.rewrites hw (fun _ _ => rfl) fun hf => ?_
    exact hf.congr rfl rfl rfl rfl (Nat.min_le_left _ _)
  case invalidPageToken a key retryAt r phase hw =>
    refine h.rewrites hw (fun id hne => Function.update_of_ne hne _ _) fun _ => ?_
    rw [Call.record, Function.update_self]
    exact .of_unloaded rfl rfl rfl (Nat.min_le_left _ _)
  case clearBackoff hw =>
    refine h.rewrites hw (fun _ _ => rfl) fun hf => ?_
    exact hf.congr rfl rfl rfl rfl hf.retries
  case restartPage a key scope r hw =>
    refine h.rewrites hw (fun id hne => Function.update_of_ne hne _ _) fun hf => ?_
    rw [Call.record, Function.update_self]
    exact .of_unloaded rfl rfl rfl hf.retries
  case finishCandidate c recompute r hl hn hw =>
    refine h.rewrites hw (fun id hne => Function.update_of_ne hne _ _) fun hf => ?_
    simpa [Call.record] using hf.advance hl hn
  case complete a key recompute r hg hv hl ht hd hall hm =>
    intro id x hget
    simp only [Call.record] at hget ⊢
    rw [hall id] at hget
    split at hget
    case isTrue     => cases hget
    case isFalse hne =>
      rw [Function.update_of_ne hne]
      exact h id x hget

omit [Codec] in
theorem Followed.apply (h : Followed (s, log)) (x : Surroundings) : Followed (x.apply s, log) := by
  intro id row hget
  exact h id row (Table.get_delete_eq_some.mp hget).left

theorem Followed.step {x x' : Store × Log} {a : Action} (h : Followed x)
    (hs : observed.step x a = .ok x') : Followed x' := by
  obtain ⟨hstep, hlog⟩ := Machine.monitor_step_eq_ok hs
  obtain ⟨s, log⟩ := x
  obtain ⟨s', log'⟩ := x'
  simp only [machine, Except.ok.injEq] at hstep hlog
  subst hstep hlog
  cases a
  case surroundings x => exact h.apply x
  case call c         =>
    simp only [Action.perform, observe]
    cases hc : (c.perform s).fst
    case ok u    => exact (perform_eq_ok (Prod.ext hc rfl)).followed h
    case error e =>
      rw [perform_error hc]
      exact h

end Preservation

end Invariant

section Recovered

variable {s s' : Store} {r r' : Recovery} {accountId : String}

-- A listing that has been gone through: every page names the next one but the last, which names none,
-- and the messages of each page were finished once and in their order before the next page was stored.
def Exhausted (events : List Event) : Prop :=
  ∃ (pages : List Page) (last : Page), events = (pages ++ [last]).flatMap Page.events ∧
    (∀ p ∈ pages, p.nextPageToken.isSome) ∧ last.nextPageToken = none ∧
    ∀ p ∈ pages ++ [last], p.ids.Nodup

omit [Codec] in
theorem Recovery.Follows.exhausted {events : List Event} (h : r.Follows events) (hl : r.pageLoaded)
    (hd : r.nextIndex = r.currentPageIds.length) (ht : r.pageToken = none)
    (hn : r.currentPageIds.Nodup) : Exhausted events := by
  obtain ⟨pages, hp, rfl⟩ := h.listed
  refine ⟨pages, ⟨r.currentPageIds, r.pageToken⟩, ?_, fun p hm => (hp p hm).left, ht, ?_⟩
  · rw [currentEvents_of_drained hl hd]
    simp
  · intro p hm
    obtain hm | hm := List.mem_append.mp hm
    · exact (hp p hm).right
    · obtain rfl := List.mem_singleton.mp hm
      exact hn

def Recovery.CountsLe (r r' : Recovery) : Prop :=
  r.pageCount ≤ r'.pageCount ∧ r.terminalCandidateCount ≤ r'.terminalCandidateCount

theorem Rewrites.countsLe {id : String} {x x' : Recovery} (h : Rewrites s s' accountId r r')
    (hr : r.CountsLe r') (hx : s.recoveries.get id = some x) (hx' : s'.recoveries.get id = some x') :
    x.CountsLe x' := by
  rw [h.written id] at hx'
  split at hx'
  case isTrue he =>
    subst he
    obtain rfl := Option.some.inj (h.found.symm.trans hx)
    obtain rfl := Option.some.inj hx'
    exact hr
  case isFalse =>
    obtain rfl := Option.some.inj (hx.symm.trans hx')
    exact ⟨le_rfl, le_rfl⟩

theorem Effect.countsLe {c : Call} {id : String} {x x' : Recovery} (h : Effect s c s')
    (hx : s.recoveries.get id = some x) (hx' : s'.recoveries.get id = some x') : x.CountsLe x' := by
  have hsame : s'.recoveries.get id = s.recoveries.get id → x.CountsLe x' := by
    intro he
    obtain rfl := Option.some.inj (hx.symm.trans (he.symm.trans hx'))
    exact ⟨le_rfl, le_rfl⟩
  cases h
  case create hrow hnew hall hm =>
    apply hsame
    rw [hall id, if_neg]
    rintro rfl
    simp [hnew] at hx
  case storePage hw        => exact hw.countsLe ⟨Nat.le_succ _, le_rfl⟩ hx hx'
  case ready               => exact hsame rfl
  case finishPage hw       => exact hw.countsLe ⟨le_rfl, le_rfl⟩ hx hx'
  case backoff hw          => exact hw.countsLe ⟨le_rfl, le_rfl⟩ hx hx'
  case invalidPageToken hw => exact hw.countsLe ⟨le_rfl, le_rfl⟩ hx hx'
  case clearBackoff hw     => exact hw.countsLe ⟨le_rfl, le_rfl⟩ hx hx'
  case restartPage hw      => exact hw.countsLe ⟨le_rfl, le_rfl⟩ hx hx'
  case finishCandidate hw  => exact hw.countsLe ⟨le_rfl, Nat.le_succ _⟩ hx hx'
  case complete hall hm    =>
    apply hsame
    rw [hall id, if_neg]
    rintro rfl
    simp [hall] at hx'

theorem step_countsLe {a : Action} {x x' : Recovery} (h : machine.step s a = .ok s')
    (hx : s.recoveries.get accountId = some x) (hx' : s'.recoveries.get accountId = some x') :
    x.CountsLe x' := by
  simp only [machine, Except.ok.injEq] at h
  subst h
  cases a
  case surroundings y =>
    obtain rfl := Option.some.inj (hx.symm.trans (Table.get_delete_eq_some.mp hx').left)
    exact ⟨le_rfl, le_rfl⟩
  case call c =>
    simp only [Action.perform] at hx'
    cases hc : (c.perform s).fst
    case ok u    => exact (perform_eq_ok (Prod.ext hc rfl)).countsLe hx hx'
    case error e =>
      rw [perform_error hc] at hx'
      obtain rfl := Option.some.inj (hx.symm.trans hx')
      exact ⟨le_rfl, le_rfl⟩

-- As long as a recovery is not ended, its counts grow.
theorem run_countsLe {as : List Action}
    (hp : machine.Always (fun s => (s.recoveries.get accountId).isSome) s as)
    (hx : s.recoveries.get accountId = some r)
    (hx' : (machine.run s as).recoveries.get accountId = some r') : r.CountsLe r' := by
  have h := Machine.relation (I := fun _ => True) (C := fun _ _ => True)
    (R := fun s s' : Store => ∀ r', s'.recoveries.get accountId = some r' →
      ∃ r, s.recoveries.get accountId = some r ∧ r.CountsLe r')
    (fun s r hr => ⟨r, hr, le_rfl, le_rfl⟩) ?_ (fun _ _ _ _ _ _ => trivial) ?_ trivial
    Machine.guarded_true hp
  · obtain ⟨_, hg, hle⟩ := h r' hx'
    obtain rfl := Option.some.inj (hx.symm.trans hg)
    exact hle
  · intro s₁ s₂ s₃ h₁₂ h₂₃ r₃ hr₃
    obtain ⟨r₂, hr₂, hle₂⟩ := h₂₃ r₃ hr₃
    obtain ⟨r₁, hr₁, hle₁⟩ := h₁₂ r₂ hr₂
    exact ⟨r₁, hr₁, hle₁.left.trans hle₂.left, hle₁.right.trans hle₂.right⟩
  · intro s a s' _ _ hsome _ hstep r' hr'
    obtain ⟨r, hr⟩ := Option.isSome_iff_exists.mp hsome
    exact ⟨r, hr, step_countsLe hstep hr hr'⟩

theorem Effect.mailboxes_ne {c : Call} (h : Effect s c s') (hne : s'.mailboxes ≠ s.mailboxes) :
    ∃ accountId key recompute r, c = .complete accountId key recompute ∧
      s.recoveries.get accountId = some r ∧ s'.recoveries.get accountId = none ∧
      s'.mailboxes = s.mailboxes.put ⟨accountId, r.replacementHistoryCursor, r.createdAt⟩ := by
  cases h
  case complete a key recompute r hg hv hl ht hd hall hm =>
    exact ⟨a, key, recompute, r, rfl, hg, by simp [hall], hm⟩
  case create hm           => exact absurd hm hne
  case ready               => exact absurd rfl hne
  case storePage hw        => exact absurd hw.mailboxes hne
  case finishPage hw       => exact absurd hw.mailboxes hne
  case backoff hw          => exact absurd hw.mailboxes hne
  case invalidPageToken hw => exact absurd hw.mailboxes hne
  case clearBackoff hw     => exact absurd hw.mailboxes hne
  case restartPage hw      => exact absurd hw.mailboxes hne
  case finishCandidate hw  => exact absurd hw.mailboxes hne

-- What holds of the recoveries in a store and of the events that have led to it.
structure NeverSkips (x : Store × Log) : Prop where
  unloaded  : ∀ r ∈ x.fst.recoveries, r.pageLoaded = false → r.currentPageIds = [] ∧ r.nextIndex = 0
  index     : ∀ r ∈ x.fst.recoveries, r.nextIndex ≤ r.currentPageIds.length
  retries   : ∀ r ∈ x.fst.recoveries, r.consecutiveRetryCount ≤ 31
  counts    : ∀ (as : List Action) (accountId : String) (r r' : Recovery),
    machine.Always (fun s => (s.recoveries.get accountId).isSome) x.fst as →
    x.fst.recoveries.get accountId = some r →
    (machine.run x.fst as).recoveries.get accountId = some r' →
    r.pageCount ≤ r'.pageCount ∧ r.terminalCandidateCount ≤ r'.terminalCandidateCount
  failing   : ∀ (c : Call) (e : RecoveryError),
    (c.perform x.fst).fst = .error e → (c.perform x.fst).snd = x.fst
  completed : ∀ (accountId key : String) (recompute : Mail.Store → Except StoreError Mail.Store),
    ((Call.complete accountId key recompute).perform x.fst).fst = .ok () → Exhausted (x.snd accountId)
  cursor    : ∀ c : Call, (c.perform x.fst).snd.mailboxes ≠ x.fst.mailboxes →
    ∃ accountId key recompute r, c = .complete accountId key recompute ∧
      (c.perform x.fst).fst = .ok () ∧ x.fst.recoveries.get accountId = some r ∧
      (c.perform x.fst).snd.recoveries.get accountId = none ∧
      (c.perform x.fst).snd.mailboxes =
        x.fst.mailboxes.put ⟨accountId, r.replacementHistoryCursor, r.createdAt⟩

theorem Followed.neverSkips {x : Store × Log} (h : Followed x) : NeverSkips x where
  unloaded r hr  := (h _ r (Table.get_of_mem hr)).unloaded
  index r hr     := (h _ r (Table.get_of_mem hr)).index
  retries r hr   := (h _ r (Table.get_of_mem hr)).retries
  counts as accountId r r' hp hx hx' := run_countsLe hp hx hx'
  failing c e    := perform_error
  completed accountId key recompute hok := by
    have he := perform_eq_ok (Prod.ext hok rfl)
    cases he with
    | complete hg hv hl ht hd hall hm =>
      have hp := hv.page
      simp only [validPage, Bool.and_eq_true, decide_eq_true_eq] at hp
      exact (h _ _ hg).exhausted hl hd ht hp.left.right
  cursor c hne   := by
    cases hc : (c.perform x.fst).fst
    case error e => exact absurd (by rw [perform_error hc]) hne
    case ok u    =>
      obtain ⟨a, key, recompute, r, hcall, hg, hnone, hm⟩ :=
        (perform_eq_ok (Prod.ext hc rfl)).mailboxes_ne hne
      exact ⟨a, key, recompute, r, hcall, rfl, hg, hnone, hm⟩

-- Whatever is called in whatever order, and whichever calls fail: no message of a listing is skipped.
theorem recovery_never_skips (x : Surroundings) (as : List Action) :
    NeverSkips (observed.run (x.store, fun _ => []) as) := by
  refine Followed.neverSkips (Machine.invariant (fun _ _ _ h hs => h.step hs) ?_ as)
  intro id r hget
  simp [Surroundings.store] at hget

end Recovered

end Gmail
