import Mathlib.Data.List.Dedup
import EmailWatcher.Library.Ranking
import EmailWatcher.Connect.Dispatch

-- The views of the Connect queue: how many jobs are ahead, which heads are due, when to wake up.
namespace Connect

open Transaction Ranking

namespace State

-- The columns of the `ORDER BY` that all views of a lane share.
def queueKey (e : Job × Dispatch) : Lex (Nat × Lex (Instant × String)) :=
  toLex (laneRank e.snd.state, toLex (e.fst.createdAt, e.fst.jobId))

-- The jobs that are in the queue of some lane.
def queue (s : State) : List (Job × Dispatch) :=
  s.jobs.rows.filterMap fun j =>
    (s.dispatches.get j.jobId).bind fun d => if queued j d then some (j, d) else none

-- `WITH ranked AS`: every job in a queue with its rank in the lane.
def ranked (s : State) : List ((Job × Dispatch) × Nat) :=
  s.queue.map fun e =>
    (e, rowNumber queueKey (s.queue.filter (·.fst.lane = e.fst.lane)) e)

def connectQueueAhead (s : State) (jobId : String) : Nat :=
  match s.ranked.find? (·.fst.fst.jobId = jobId) with
  | some (_, laneRank) => laneRank - 1
  | none               => 0

def inFlight : DispatchState → Bool
  | .dispatching | .reconciling | .providerOwned => true
  | _                                            => false

-- `WHERE lane_rank = 1 AND ...`
def laneHeads (s : State) : List (Job × Dispatch) :=
  s.ranked.filter (fun (e, laneRank) => laneRank = 1 &&
    (e.snd.automationPausedAt = none || inFlight e.snd.state))
    |>.map (·.fst)

def wakeup (now : Instant) (d : Dispatch) : Instant :=
  if d.state = .dispatching then now else d.nextAttemptAt.getD now

-- The jobs that expire some day unless they are claimed.
def expirable (j : Job) (d : Dispatch) : Bool :=
  j.protocolVersion = .v2 && j.status = .requested && d.state = .waiting &&
  !d.submissionPossible && d.automationPausedAt = none

def deadlines (s : State) : List (String × Instant) :=
  s.jobs.rows.filterMap fun j =>
    (s.dispatches.get j.jobId).bind fun d =>
      if expirable j d then some (j.jobId, d.admissionDeadline) else none

def connectQueueWakeups (s : State) (now : Instant) : List (String × Instant) :=
  s.laneHeads.map (fun (j, d) => (j.jobId, wakeup now d)) ++ s.deadlines

def due (now : Instant) (d : Dispatch) : Bool :=
  d.state = .dispatching || d.nextAttemptAt.all (· ≤ now)

def dueConnectLaneHeads (s : State) (now : Instant) (limit : Int) :
    Except StoreError (State × List Job) := do
  require (1 ≤ limit ∧ limit ≤ connectQueueMaxJobs) <|
    .value "Connect queue pump limit must be between 1 and 25"
  let s := s.expireWaitingConnectJobs now
  let heads := s.laneHeads.filter fun (_, d) => due now d
  return (s, (ordered (fun j => toLex (j.createdAt, j.jobId)) (heads.map (·.fst))).take limit.toNat)

section Hydrate

-- The variables of the loop in `_hydrate_inbox_rows` that numbers the jobs of each lane.
structure Numbering where
  queuePositions : Table (String × Nat)
  currentLane    : Option Lane
  lanePosition   : Nat

def Numbering.next (n : Numbering) (e : Job × Dispatch) : Numbering :=
  let position := if n.currentLane = some e.fst.lane then n.lanePosition else 0
  {
    queuePositions := n.queuePositions.put (e.fst.jobId, position)
    currentLane    := some e.fst.lane
    lanePosition   := position + 1
  }

def inboxKey (e : Job × Dispatch) :
    Lex (String × Lex (String × Lex (Nat × Lex (Instant × String)))) :=
  toLex (e.fst.providerAppId, toLex (e.fst.providerInstanceId, queueKey e))

def Numbering.empty : Numbering where
  queuePositions := ∅
  currentLane    := none
  lanePosition   := 0

def queuePositions (s : State) : Table (String × Nat) :=
  (ordered inboxKey s.queue).foldl Numbering.next .empty |>.queuePositions

-- `item["queue_ahead"]`
def inboxQueueAhead (s : State) (jobId : String) : Nat :=
  (s.queuePositions.get jobId).elim 0 (·.snd)

end Hydrate

-- The store after the first `n` jobs that the lane serves have left it.
def served (s : State) (lane : Lane) : Nat → State
  | 0     => s
  | n + 1 =>
    let s := s.served lane n
    match s.laneHead lane with
    | none        => s
    | some (j, _) => { s with
        jobs       := s.jobs.delete (·.jobId = j.jobId)
        dispatches := s.dispatches.delete (·.jobId = j.jobId)
      }

-- The lanes with a job in their queue.
def lanes (s : State) : List Lane :=
  (s.queue.map (·.fst.lane)).dedup

section Queue

variable {s : State} {lane : Lane} {j : Job} {d : Dispatch} {e : Job × Dispatch} {now : Instant}

theorem laneQueue_eq_filter : s.laneQueue lane = s.queue.filter (·.fst.lane = lane) := by
  unfold laneQueue queue
  rw [List.filter_filterMap]
  congr 1
  funext j
  cases hd : s.dispatches.get j.jobId
  case none => rfl
  case some d => by_cases hl : j.lane = lane <;> by_cases hq : queued j d <;> simp [hl, hq, Option.filter]

theorem mem_queue : (j, d) ∈ s.queue ↔ s.entry j.jobId = some (j, d) ∧ queued j d := by
  have h : (j, d) ∈ s.laneQueue j.lane ↔ _ := mem_laneQueue
  rw [laneQueue_eq_filter] at h
  simpa using h

theorem queue_nodup (s : State) : (s.queue.map (·.fst.jobId)).Nodup := by
  refine s.jobs.nodup.sublist ?_
  unfold queue
  induction s.jobs.rows
  case nil => exact .slnil
  case cons j rows ih =>
    cases hd : s.dispatches.get j.jobId
    case none => simpa [hd] using ih.cons _
    case some d =>
      by_cases hq : queued j d
      case pos => simpa [hd, hq, Keyed.key] using ih
      case neg => simpa [hd, hq] using ih.cons _

theorem jobId_eq_of_queueKey_eq {e₁ e₂ : Job × Dispatch} (h : queueKey e₁ = queueKey e₂) :
    e₁.fst.jobId = e₂.fst.jobId := by
  have h := congrArg ofLex (Prod.ext_iff.mp (congrArg ofLex h)).right
  exact (Prod.ext_iff.mp h).right

-- No two jobs share a place in the order.
theorem queueKey_nodup {l : List (Job × Dispatch)} (h : l.Sublist s.queue) :
    (l.map queueKey).Nodup := by
  have hn : (l.map (·.fst.jobId)).Nodup := s.queue_nodup.sublist (h.map _)
  refine List.Nodup.map_on ?_ (List.Nodup.of_map _ hn)
  exact fun e₁ h₁ e₂ h₂ hk => List.inj_on_of_nodup_map hn h₁ h₂ (jobId_eq_of_queueKey_eq hk)

theorem laneQueue_nodup (s : State) (lane : Lane) : ((s.laneQueue lane).map queueKey).Nodup := by
  rw [laneQueue_eq_filter]
  exact queueKey_nodup List.filter_sublist

theorem laneHead_iff_ahead :
    s.laneHead lane = some e ↔ e ∈ s.laneQueue lane ∧ ahead queueKey (s.laneQueue lane) e = 0 :=
  argmin_eq_some_iff_ahead (s.laneQueue_nodup lane)

theorem mem_ranked {n : Nat} :
    (e, n) ∈ s.ranked ↔ e ∈ s.queue ∧ n = ahead queueKey (s.laneQueue e.fst.lane) e + 1 := by
  simp only [ranked, List.mem_map, Prod.mk.injEq, ← laneQueue_eq_filter]
  constructor
  case mp =>
    rintro ⟨e, he, rfl, rfl⟩
    refine ⟨he, rowNumber_eq_ahead (s.laneQueue_nodup _) ?_⟩
    simpa [laneQueue_eq_filter] using he
  case mpr =>
    rintro ⟨he, rfl⟩
    refine ⟨e, he, rfl, rowNumber_eq_ahead (s.laneQueue_nodup _) ?_⟩
    simpa [laneQueue_eq_filter] using he

theorem eq_of_jobId_eq {e₁ e₂ : Job × Dispatch} (h₁ : e₁ ∈ s.queue) (h₂ : e₂ ∈ s.queue)
    (h : e₁.fst.jobId = e₂.fst.jobId) : e₁ = e₂ :=
  List.inj_on_of_nodup_map s.queue_nodup h₁ h₂ h

theorem connectQueueAhead_of_mem (h : e ∈ s.queue) :
    s.connectQueueAhead e.fst.jobId = ahead queueKey (s.laneQueue e.fst.lane) e := by
  unfold connectQueueAhead
  split
  case h_1 e' n hf =>
    have hm := mem_ranked.mp (List.mem_of_find?_eq_some hf)
    have he : e'.fst.jobId = e.fst.jobId := by simpa using List.find?_some hf
    rw [eq_of_jobId_eq hm.left h he] at hm
    rw [hm.right, Nat.add_sub_cancel]
  case h_2 hf =>
    have hm := mem_ranked.mpr ⟨h, rfl⟩
    simpa using List.find?_eq_none.mp hf _ hm

theorem connectQueueAhead_of_forall_ne {jobId : String} (h : ∀ e ∈ s.queue, e.fst.jobId ≠ jobId) :
    s.connectQueueAhead jobId = 0 := by
  unfold connectQueueAhead
  split
  case h_1 e n hf =>
    have hm := mem_ranked.mp (List.mem_of_find?_eq_some hf)
    exact absurd (by simpa using List.find?_some hf) (h e hm.left)
  case h_2 => rfl

theorem queued_unpaused (h : queued j d) : d.automationPausedAt = none ∨ inFlight d.state := by
  simp only [queued, Bool.and_eq_true, Bool.or_eq_true, decide_eq_true_eq] at h
  obtain ⟨⟨-, ht⟩, hp⟩ := h
  refine hp.imp_right fun hw => ?_
  cases hs : d.state <;> simp_all [inFlight]

-- The first in a lane by rank is the one that a claim takes.
theorem mem_laneHeads : (j, d) ∈ s.laneHeads ↔ s.laneHead j.lane = some (j, d) := by
  simp only [laneHeads, List.mem_map, List.mem_filter, laneHead_iff_ahead, laneQueue_eq_filter]
  constructor
  case mp =>
    rintro ⟨⟨e, n⟩, ⟨hm, hc⟩, rfl⟩
    obtain ⟨hq, hn⟩ := mem_ranked.mp hm
    simp only [Bool.and_eq_true, decide_eq_true_eq] at hc
    rw [laneQueue_eq_filter] at hn
    exact ⟨by simpa using hq, Nat.succ.inj (hn.symm.trans hc.left)⟩
  case mpr =>
    rintro ⟨hm, ha⟩
    have hq : (j, d) ∈ s.queue := by simpa using hm
    refine ⟨((j, d), 1), ⟨mem_ranked.mpr ⟨hq, by rw [laneQueue_eq_filter, ha]⟩, ?_⟩, rfl⟩
    simpa using queued_unpaused (mem_queue.mp hq).right

theorem laneHeads_sublist : s.laneHeads.Sublist s.queue := by
  have h : s.ranked.map (·.fst) = s.queue := by simp [ranked, Function.comp_def]
  exact h ▸ List.filter_sublist.map _

theorem laneHeads_nodup : s.laneHeads.Nodup :=
  (List.Nodup.of_map _ s.queue_nodup).sublist laneHeads_sublist

-- A lane has one head at most.
theorem length_laneHeads_le : s.laneHeads.length ≤ s.lanes.length := by
  have hn : (s.laneHeads.map (·.fst.lane)).Nodup := by
    refine List.Nodup.map_on ?_ laneHeads_nodup
    rintro ⟨j₁, d₁⟩ h₁ ⟨j₂, d₂⟩ h₂ hl
    have h₁ := mem_laneHeads.mp h₁
    have h₂ := mem_laneHeads.mp h₂
    rw [show j₁.lane = j₂.lane from hl] at h₁
    exact Option.some.inj (h₁.symm.trans h₂)
  have hs : s.laneHeads.map (·.fst.lane) ⊆ s.lanes := by
    intro lane h
    obtain ⟨e, he, rfl⟩ := List.mem_map.mp h
    exact List.mem_dedup.mpr <| List.mem_map_of_mem <| laneHeads_sublist.subset he
  simpa using (List.subperm_of_subset hn hs).length_le

end Queue

section Served

variable {s : State} {lane : Lane} {j : Job} {d : Dispatch} {e : Job × Dispatch}

theorem laneQueue_leave {id : String} :
    { s with
      jobs       := s.jobs.delete (·.jobId = id)
      dispatches := s.dispatches.delete (·.jobId = id)
    }.laneQueue lane = (s.laneQueue lane).filter (·.fst.jobId ≠ id) := by
  have hj : (s.jobs.delete (·.jobId = id)).rows = s.jobs.rows.filter fun j => !decide (j.jobId = id) :=
    rfl
  have hd : ∀ k, (s.dispatches.delete (·.jobId = id)).get k =
      if k = id then none else s.dispatches.get k :=
    fun k => Table.get_delete_key fun _ => rfl
  simp only [laneQueue, hj, hd]
  rw [List.filter_filterMap, List.filterMap_filter]
  refine List.filterMap_congr fun j _ => ?_
  cases s.dispatches.get j.jobId
  case none => simp
  case some d =>
    by_cases hk : j.jobId = id <;> by_cases hq : j.lane = lane ∧ queued j d
    all_goals simp [hk, hq, Option.filter]

theorem ahead_inj {e₁ e₂ : Job × Dispatch} (h₁ : e₁ ∈ s.laneQueue lane)
    (h₂ : e₂ ∈ s.laneQueue lane)
    (h : ahead queueKey (s.laneQueue lane) e₁ = ahead queueKey (s.laneQueue lane) e₂) : e₁ = e₂ :=
  List.inj_on_of_nodup_map (s.laneQueue_nodup lane) h₁ h₂ <|
    le_antisymm ((ahead_le_iff h₁ h₂).mp h.le) ((ahead_le_iff h₂ h₁).mp h.ge)

theorem laneQueue_subset (h : e ∈ s.laneQueue lane) : e ∈ s.queue := by
  rw [laneQueue_eq_filter] at h
  exact (List.mem_filter.mp h).left

-- Whoever has `n` jobs ahead is at the head once `n` jobs have left.
theorem laneHead_of_laneQueue {n : Nat} {s' : State}
    (h : s'.laneQueue lane = (s.laneQueue lane).filter (n ≤ ahead queueKey (s.laneQueue lane) ·)) :
    s'.laneHead lane = some e ↔
    e ∈ s.laneQueue lane ∧ ahead queueKey (s.laneQueue lane) e = n := by
  rw [← argmin_filter_ahead (s.laneQueue_nodup lane), ← h]
  rfl

theorem laneQueue_served (s : State) (lane : Lane) (n : Nat) :
    (s.served lane n).laneQueue lane =
    (s.laneQueue lane).filter (n ≤ ahead queueKey (s.laneQueue lane) ·) := by
  induction n
  case zero => simp [served]
  case succ n ih =>
    simp only [served]
    split
    case h_1 hn =>
      rw [ih]
      refine List.filter_congr fun e he => ?_
      have hne : ahead queueKey (s.laneQueue lane) e ≠ n := by
        intro h
        simpa [hn] using (laneHead_of_laneQueue ih).mpr ⟨he, h⟩
      rw [Bool.eq_iff_iff, decide_eq_true_eq, decide_eq_true_eq]
      omega
    case h_2 j d hs =>
      obtain ⟨hm, ha⟩ := (laneHead_of_laneQueue ih).mp hs
      rw [laneQueue_leave, ih, List.filter_filter]
      refine List.filter_congr fun e he => ?_
      have hid : e.fst.jobId = j.jobId ↔ ahead queueKey (s.laneQueue lane) e = n := by
        constructor
        case mp =>
          intro h
          rw [eq_of_jobId_eq (laneQueue_subset he) (laneQueue_subset hm) h, ha]
        case mpr => exact fun h => by rw [ahead_inj he hm (h.trans ha.symm)]
      rw [Bool.eq_iff_iff]
      simp only [ne_eq, hid, Bool.and_eq_true, decide_eq_true_eq]
      omega

end Served

section Hydrate

variable {s : State} {e : Job × Dispatch} {P S : List (Job × Dispatch)}

def ofLane (lane : Lane) (e : Job × Dispatch) : Bool :=
  e.fst.lane = lane

-- What the loop has found out after the rows `P`.
structure Numbering.Covers (P : List (Job × Dispatch)) (n : Numbering) : Prop where
  lane     : n.currentLane = P.getLast?.map (·.fst.lane)
  position : ∀ lane, n.currentLane = some lane → n.lanePosition = P.countP (ofLane lane)
  numbered : ∀ P₁ e P₂, P = P₁ ++ e :: P₂ →
    n.queuePositions.get e.fst.jobId = some (e.fst.jobId, P₁.countP (ofLane e.fst.lane))
  others   : ∀ k, (∀ e ∈ P, e.fst.jobId ≠ k) → n.queuePositions.get k = none

theorem lane_le_of_inboxKey_le {e₁ e₂ : Job × Dispatch} (h : inboxKey e₁ ≤ inboxKey e₂) :
    toLex e₁.fst.lane ≤ toLex e₂.fst.lane := by
  simp only [inboxKey, Prod.Lex.toLex_le_toLex] at h
  refine Prod.Lex.toLex_le_toLex.mpr <| h.imp_right fun ⟨ha, hi⟩ => ⟨ha, ?_⟩
  exact hi.elim le_of_lt fun ⟨hi, _⟩ => hi.le

theorem queueKey_le_of_inboxKey_le {e₁ e₂ : Job × Dispatch} (h : inboxKey e₁ ≤ inboxKey e₂)
    (hl : e₁.fst.lane = e₂.fst.lane) : queueKey e₁ ≤ queueKey e₂ := by
  obtain ⟨ha, hi⟩ := Prod.mk.inj hl
  simp only [inboxKey, Prod.Lex.toLex_le_toLex, ha, hi] at h
  simpa using h

-- In the order of the loop, the rows of a lane follow each other.
theorem countP_ofLane_eq_zero {l : Job × Dispatch}
    (h : (P ++ [e]).Pairwise (inboxKey · ≤ inboxKey ·)) (hl : P.getLast? = some l)
    (hne : l.fst.lane ≠ e.fst.lane) : P.countP (ofLane e.fst.lane) = 0 := by
  obtain ⟨P₀, rfl⟩ : ∃ P₀, P = P₀ ++ [l] := List.getLast?_eq_some_iff.mp hl
  rw [List.pairwise_append] at h
  obtain ⟨hP, -, hPe⟩ := h
  have hle : toLex l.fst.lane ≤ toLex e.fst.lane :=
    lane_le_of_inboxKey_le <| hPe l (by simp) e (by simp)
  have hlt : toLex l.fst.lane < toLex e.fst.lane :=
    lt_of_le_of_ne hle fun he => hne (toLex.injective he)
  refine List.countP_eq_zero.mpr fun x hx hxe => ?_
  have hxe : x.fst.lane = e.fst.lane := by simpa [ofLane] using hxe
  have hxl : toLex x.fst.lane ≤ toLex l.fst.lane := by
    cases List.mem_append.mp hx
    case inl hx =>
      exact lane_le_of_inboxKey_le <| (List.pairwise_append.mp hP).right.right x hx l (by simp)
    case inr hx => rw [List.mem_singleton.mp hx]
  exact absurd (hxl.trans_lt hlt) (by rw [hxe]; exact lt_irrefl _)

theorem Numbering.Covers.empty : Numbering.empty.Covers [] where
  lane     := rfl
  position := fun _ h => nomatch h
  numbered := by simp
  others   := fun _ _ => rfl

theorem Numbering.Covers.next {n : Numbering} (h : n.Covers P)
    (hs : (P ++ [e]).Pairwise (inboxKey · ≤ inboxKey ·))
    (hn : ((P ++ [e]).map (·.fst.jobId)).Nodup) : (n.next e).Covers (P ++ [e]) := by
  have hp : (if n.currentLane = some e.fst.lane then n.lanePosition else 0) =
      P.countP (ofLane e.fst.lane) := by
    split
    case isTrue hc => exact h.position _ hc
    case isFalse hc =>
      cases hP : P.getLast?
      case none => rw [List.getLast?_eq_none_iff.mp hP, List.countP_nil]
      case some l =>
        refine (countP_ofLane_eq_zero hs hP fun he => hc ?_).symm
        rw [h.lane, hP, Option.map_some, he]
  constructor
  case lane => simp [Numbering.next]
  case position =>
    intro lane hl
    have hl : e.fst.lane = lane := Option.some.inj hl
    subst hl
    simp [Numbering.next, hp, List.countP_append, ofLane]
  case numbered =>
    intro P₁ e' P₂ heq
    simp only [Numbering.next, hp, Table.get_put, Keyed.key]
    cases List.eq_nil_or_concat P₂
    case inl h₂ =>
      rw [h₂] at heq
      obtain ⟨rfl, he⟩ := List.append_inj' heq rfl
      cases List.singleton_inj.mp he
      simp
    case inr h₂ =>
      obtain ⟨P₃, x, rfl⟩ := h₂
      have heq' : P ++ [e] = (P₁ ++ e' :: P₃) ++ [x] := by simpa using heq
      obtain ⟨rfl, he⟩ := List.append_inj' heq' rfl
      have hne : e.fst.jobId ≠ e'.fst.jobId := by
        rw [List.map_append, List.nodup_append] at hn
        exact Ne.symm <| hn.right.right _ (by simp) _ (by simp)
      rw [if_neg hne]
      exact h.numbered P₁ e' P₃ rfl
  case others =>
    intro k hk
    simp only [Numbering.next, Table.get_put, Keyed.key]
    rw [if_neg (hk e (by simp))]
    exact h.others k fun e' he' => hk e' (by simp [he'])

theorem covers_foldl (L : List (Job × Dispatch)) (hs : L.Pairwise (inboxKey · ≤ inboxKey ·))
    (hn : (L.map (·.fst.jobId)).Nodup) : (L.foldl Numbering.next .empty).Covers L := by
  induction L using List.reverseRecOn
  case nil => exact .empty
  case append_singleton P e ih =>
    rw [List.foldl_append]
    refine (ih ?_ ?_).next hs hn
    · exact (List.pairwise_append.mp hs).left
    · rw [List.map_append, List.nodup_append] at hn
      exact hn.left

theorem queuePositions_covers (s : State) :
    ∃ n : Numbering, n.queuePositions = s.queuePositions ∧ n.Covers (ordered inboxKey s.queue) :=
  ⟨_, rfl, covers_foldl _ ordered_pairwise <|
    (ordered_perm.map _).nodup_iff.mpr s.queue_nodup⟩

-- The position in the loop counts the jobs of the lane that come first.
theorem countP_ofLane_eq_ahead (h : ordered inboxKey s.queue = P ++ e :: S) :
    P.countP (ofLane e.fst.lane) = ahead queueKey (s.laneQueue e.fst.lane) e := by
  have hp : ((P ++ e :: S).filter (ofLane e.fst.lane)).Perm (s.laneQueue e.fst.lane) := by
    rw [← h, laneQueue_eq_filter]
    exact ordered_perm.filter _
  have hf : (P ++ e :: S).filter (ofLane e.fst.lane) =
      P.filter (ofLane e.fst.lane) ++ e :: S.filter (ofLane e.fst.lane) := by
    simp [ofLane]
  rw [hf] at hp
  rw [← ahead_of_perm hp, ahead_of_pairwise, List.countP_eq_length_filter]
  · rw [← hf]
    have hs : (P ++ e :: S).Pairwise (inboxKey · ≤ inboxKey ·) := h ▸ ordered_pairwise
    refine (hs.filter _).imp_of_mem fun h₁ h₂ hle => queueKey_le_of_inboxKey_le hle ?_
    have h₁ := (List.mem_filter.mp h₁).right
    have h₂ := (List.mem_filter.mp h₂).right
    simp only [ofLane, decide_eq_true_eq] at h₁ h₂
    exact h₁.trans h₂.symm
  · exact (hp.map queueKey).nodup_iff.mpr (s.laneQueue_nodup _)

theorem inboxQueueAhead_eq (s : State) (jobId : String) :
    s.inboxQueueAhead jobId = s.connectQueueAhead jobId := by
  obtain ⟨n, hn, hc⟩ := s.queuePositions_covers
  unfold inboxQueueAhead
  rw [← hn]
  by_cases h : ∃ e ∈ s.queue, e.fst.jobId = jobId
  case pos =>
    obtain ⟨e, he, rfl⟩ := h
    have he' : e ∈ ordered inboxKey s.queue := mem_ordered.mpr he
    obtain ⟨P, S, hPS⟩ := List.append_of_mem he'
    rw [hc.numbered P e S hPS, connectQueueAhead_of_mem he, Option.elim_some]
    exact countP_ofLane_eq_ahead hPS
  case neg =>
    have hne : ∀ e ∈ s.queue, e.fst.jobId ≠ jobId := fun e he hk => h ⟨e, he, hk⟩
    rw [connectQueueAhead_of_forall_ne hne, hc.others jobId fun e he => hne e (mem_ordered.mp he)]
    rfl

end Hydrate

section Views

variable {s : State} {lane : Lane} {j : Job} {d : Dispatch} {now : Instant}

theorem expireWaitingConnectJobs_of_nil (h : s.expiringJobs now = []) :
    s.expireWaitingConnectJobs now = s := by
  rw [expireWaitingConnectJobs, h]
  rfl

-- The jobs that a claim may not take, although they are due.
def withheld (content : String → Bool) (j : Job) (d : Dispatch) : Prop :=
  d.state = .waiting ∧ d.submissionPossible = false ∧ content j.messageId = false

theorem claimable_eq_some {content : String → Bool} :
    s.claimable lane none content now = some (j, d) ↔
    s.laneHead lane = some (j, d) ∧ due now d ∧ ¬withheld content j d := by
  rw [claimable, Option.filter_eq_some_iff]
  refine and_congr_right fun _ => ?_
  simp only [Option.all_none, Bool.true_and, Bool.and_eq_true, due, withheld]
  refine and_congr_right fun _ => ?_
  cases content j.messageId <;> cases d.submissionPossible <;> simp

theorem claimConnectLaneHead_iff {content : String → Bool} (h : s.expiringJobs now = []) :
    (∃ claimed, (s.claimConnectLaneHead lane none content now).snd = some (j, claimed)) ↔
    ∃ d, s.laneHead lane = some (j, d) ∧ due now d ∧ ¬withheld content j d := by
  simp only [claimConnectLaneHead, expireWaitingConnectJobs_of_nil h, ← claimable_eq_some]
  cases hc : s.claimable lane none content now
  case none => simp
  case some e => simp [Prod.ext_iff]

theorem length_due_le (p : Job × Dispatch → Bool) : (s.laneHeads.filter p).length ≤ s.lanes.length :=
  (List.length_filter_le _ _).trans length_laneHeads_le

theorem laneHeads_fst_nodup (p : Job × Dispatch → Bool) :
    ((s.laneHeads.filter p).map (·.fst)).Nodup := by
  have hn : ((s.laneHeads.filter p).map (·.fst.jobId)).Nodup :=
    s.queue_nodup.sublist <| (List.filter_sublist.trans laneHeads_sublist).map _
  refine List.Nodup.of_map (·.jobId) ?_
  simpa [Function.comp_def] using hn

theorem dueConnectLaneHeads_eq_ok {limit : Int} (h : s.expiringJobs now = []) (h₁ : 1 ≤ limit)
    (h₂ : limit ≤ connectQueueMaxJobs) (hl : s.lanes.length ≤ limit) :
    ∃ jobs, s.dueConnectLaneHeads now limit = .ok (s, jobs) ∧ jobs.Nodup ∧
      ∀ j, j ∈ jobs ↔ ∃ d, s.laneHead j.lane = some (j, d) ∧ due now d := by
  let heads := s.laneHeads.filter fun (_, d) => due now d
  let jobs := ordered (fun j : Job => toLex (j.createdAt, j.jobId)) (heads.map (·.fst))
  have hp : jobs.Perm (heads.map (·.fst)) := ordered_perm
  have hlen : jobs.length ≤ limit.toNat := by
    rw [hp.length_eq, List.length_map]
    have hle : heads.length ≤ s.lanes.length := s.length_due_le _
    omega
  refine ⟨jobs, ?_, hp.nodup_iff.mpr (laneHeads_fst_nodup _), fun j => ?_⟩
  · simp only [dueConnectLaneHeads, require, h₁, h₂, and_self, if_true,
      expireWaitingConnectJobs_of_nil h]
    refine congrArg (fun jobs => Except.ok (s, jobs)) ?_
    exact List.take_of_length_le hlen
  · rw [hp.mem_iff]
    simp [heads, mem_laneHeads]

-- Nothing becomes due and nothing expires before the first wake-up.
theorem exists_wakeup_le {t : Instant} (hnow : now ≤ t)
    (h : (∃ lane j d, (s.expireWaitingConnectJobs t).laneHead lane = some (j, d) ∧ due t d) ∨
      s.expiringJobs t ≠ []) :
    ∃ w ∈ (s.connectQueueWakeups now).map (·.snd), w ≤ t := by
  by_cases hx : s.expiringJobs t = []
  case pos =>
    obtain ⟨lane, j, d, hl, hd⟩ := h.resolve_right (not_not.mpr hx)
    rw [expireWaitingConnectJobs_of_nil hx] at hl
    have hj : j.lane = lane := (mem_laneQueue.mp (laneHead_eq_some hl).left).right.left
    refine ⟨wakeup now d, ?_, ?_⟩
    · refine List.mem_map.mpr ⟨(j.jobId, wakeup now d), ?_, rfl⟩
      refine List.mem_append_left _ <| List.mem_map.mpr ⟨(j, d), ?_, rfl⟩
      exact mem_laneHeads.mpr (hj ▸ hl)
    · unfold wakeup
      simp only [due, Bool.or_eq_true, decide_eq_true_eq] at hd
      split
      case isTrue => exact hnow
      case isFalse hs =>
        have hd := hd.resolve_left hs
        cases hn : d.nextAttemptAt
        case none => exact hnow
        case some w => simpa [hn] using hd
  case neg =>
    obtain ⟨k, hk⟩ := List.exists_mem_of_ne_nil _ hx
    obtain ⟨j, d, he, e⟩ := mem_expiringJobs_iff_expiring.mp hk
    obtain ⟨hj, hd⟩ := entry_eq_some.mp he
    refine ⟨d.admissionDeadline, ?_, e.due⟩
    refine List.mem_map.mpr ⟨(j.jobId, d.admissionDeadline), List.mem_append_right _ ?_, rfl⟩
    refine List.mem_filterMap.mpr ⟨j, Table.mem_of_get hj, ?_⟩
    rw [jobId_of_get hj, hd]
    simp [expirable, e.v2, e.requested, e.waiting, e.possible, e.running]

theorem exists_min?_le {l : List Instant} {t : Instant} (h : ∃ w ∈ l, w ≤ t) :
    ∃ w, l.min? = some w ∧ w ≤ t := by
  obtain ⟨w, hw, hle⟩ := h
  obtain ⟨m, hm⟩ := Option.isSome_iff_exists.mp <|
    List.isSome_min?_of_mem hw
  exact ⟨m, hm, ((List.min?_eq_some_iff.mp hm).right w hw).trans hle⟩

end Views

-- All views of the lanes of `s` tell the same at the instant `now`.
structure LaneViews (s : State) (now : Instant) : Prop where
  due : ∀ limit : Int, 1 ≤ limit → limit ≤ connectQueueMaxJobs → s.lanes.length ≤ limit →
    ∃ jobs, s.dueConnectLaneHeads now limit = .ok (s, jobs) ∧ jobs.Nodup ∧
      ∀ content lane j,
        (∃ d, (s.claimConnectLaneHead lane none content now).snd = some (j, d)) ↔
        j ∈ jobs ∧ j.lane = lane ∧
        ∀ d, s.dispatches.get j.jobId = some d → d.state = .waiting → !d.submissionPossible →
          content j.messageId
  position : ∀ j d, s.entry j.jobId = some (j, d) → queued j d →
    (s.served j.lane (s.connectQueueAhead j.jobId)).laneHead j.lane = some (j, d)
  head : ∀ j d, s.entry j.jobId = some (j, d) → queued j d →
    (s.connectQueueAhead j.jobId = 0 ↔ s.laneHead j.lane = some (j, d))
  inbox : ∀ jobId, s.inboxQueueAhead jobId = s.connectQueueAhead jobId
  wakeup : ∀ t, now ≤ t →
    ((∃ lane j d, (s.expireWaitingConnectJobs t).laneHead lane = some (j, d) ∧ State.due t d) ∨
      s.expiringJobs t ≠ []) →
    ∃ w, ((s.connectQueueWakeups now).map (·.snd)).min? = some w ∧ w ≤ t

end State

open State in
theorem lane_views_agree (s : State) (now : Instant) (h : s.expiringJobs now = []) :
    s.LaneViews now where
  due := by
    intro limit h₁ h₂ hl
    obtain ⟨jobs, hok, hn, hm⟩ := dueConnectLaneHeads_eq_ok h h₁ h₂ hl
    refine ⟨jobs, hok, hn, fun content lane j => ?_⟩
    rw [claimConnectLaneHead_iff h, hm]
    constructor
    case mp =>
      rintro ⟨d, hl, hd, hw⟩
      obtain ⟨he, rfl, -⟩ := mem_laneQueue.mp (laneHead_eq_some hl).left
      refine ⟨⟨d, hl, hd⟩, rfl, fun d' hd' hs hp => ?_⟩
      cases (entry_eq_some.mp he).right.symm.trans hd'
      by_contra hc
      exact hw ⟨hs, by simpa using hp, by simpa using hc⟩
    case mpr =>
      rintro ⟨⟨d, hl, hd⟩, rfl, hc⟩
      refine ⟨d, hl, hd, fun hw => ?_⟩
      have he := (mem_laneQueue.mp (laneHead_eq_some hl).left).left
      have := hc d (entry_eq_some.mp he).right hw.left (by simp [hw.right.left])
      simp [hw.right.right] at this
  position := by
    intro j d he hq
    have hm : (j, d) ∈ s.laneQueue j.lane := mem_laneQueue.mpr ⟨he, rfl, hq⟩
    rw [laneHead_of_laneQueue (s.laneQueue_served _ _)]
    exact ⟨hm, (connectQueueAhead_of_mem (laneQueue_subset hm)).symm⟩
  head := by
    intro j d he hq
    have hm : (j, d) ∈ s.laneQueue j.lane := mem_laneQueue.mpr ⟨he, rfl, hq⟩
    have ha := connectQueueAhead_of_mem (laneQueue_subset hm)
    simp only at ha
    simp [laneHead_iff_ahead, hm, ha]
  inbox  := s.inboxQueueAhead_eq
  wakeup := fun _ hnow ht => exists_min?_le <| exists_wakeup_le hnow ht

namespace Sample

def summarize (jobId partId : String) (now : Instant) : State.JobRequest where
  jobId                          := jobId
  messageId                      := "message"
  partId                         := partId
  protocolVersion                := .v2
  capabilityId                   := "document.summarize"
  capabilityVersion              := "1.0"
  providerAppId                  := "summary-service"
  providerInstanceId             := "local"
  invocationFingerprint          := .ok partId
  inputByteSize                  := 1
  inputSha256                    := "e3b0c44298fc1c149afbf4c8996fb92427ae41e4649b934ca495991b7852b855"
  inputDisplayName               := none
  capabilityExternalEffects      := false
  capabilityConfirmationRequired := false
  now                            := now

def earlierJobId : String := "5b0f9a52-58d4-4a5c-9d0e-3f5f0f6f1b01"

def laterJobId : String := "5b0f9a52-58d4-4a5c-9d0e-3f5f0f6f1b02"

-- Two jobs in one lane.
def pair : State :=
  let admitted : Except StoreError State := do
    let (s, _) ← (∅ : State).createConnectJob (summarize earlierJobId "2" 0) true true
    let (s, _) ← s.createConnectJob (summarize laterJobId "3" Instant.second) true true
    return s
  admitted.toOption.getD ∅

end Sample

open Sample in
theorem lane_views_agree_pair :
    pair.expiringJobs (2 * Instant.second) = [] ∧ pair.connectQueueAhead laterJobId = 1 ∧
      pair.LaneViews (2 * Instant.second) := by
  have h : pair.expiringJobs (2 * Instant.second) = [] := by decide +kernel
  exact ⟨h, by decide +kernel, lane_views_agree pair _ h⟩

end Connect
