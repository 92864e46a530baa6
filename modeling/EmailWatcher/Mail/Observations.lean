import Mathlib.Data.Bool.Basic
import Mathlib.Data.List.Dedup
import Mathlib.Data.List.Perm.Basic
import Mathlib.Data.Prod.Lex
import Mathlib.Order.Bounds.Defs
import Mathlib.Order.WithBot
import EmailWatcher.Mail.Schema

-- What has been observed of the sources of a message: when its headers were read, and when its
-- folders were last looked at.
namespace Mail

open Transaction

-- The identity of a source.
structure SourceId where
  scope             : Scope
  providerMessageId : String
  deriving DecidableEq, Repr

-- A row of `message_source_observations`.
structure Observation where
  messageId         : String
  source            : SourceId
  headersObservedAt : Option Instant
  folderObservedAt  : Instant
  folderComplete    : Bool
  deriving DecidableEq, Repr

instance : Keyed Observation SourceId where
  key := Observation.source

-- The confirmation of a source, which all of its locations carry.
def Observation.recordedAt (o : Observation) : Option Instant :=
  if o.folderComplete ∧ o.headersObservedAt.isSome then some o.folderObservedAt else none

-- A row of `message_locations`, with its confirmation.
structure RecordedLocation where
  messageId  : String
  source     : SourceId
  location   : Folder
  recordedAt : Option Instant
  receivedAt : Option String
  deriving DecidableEq, Repr

instance : Keyed RecordedLocation (SourceId × Folder) where
  key r := (r.source, r.location)

structure Observed where
  observations : Table Observation
  locations    : Table RecordedLocation
  -- The temporary table `derived_returned_sources`.
  returned     : List String

-- The arguments of `_record_locations`.
structure Sighting where
  messageId       : String
  source          : SourceId
  locations       : List String
  observedAt      : String
  scopeComplete   : Bool
  headersObserved : Bool
  receivedAt      : Option String
  deriving DecidableEq, Repr

def Folder.named : String → Option Folder
  | "inbox" => some .inbox
  | "sent"  => some .sent
  | _       => none

namespace Sighting

variable (c : Sighting)

-- The checks that do not read the store: the folders, in their order, and the time.
def reading [Codec] : Except StoreError (List Folder × Instant) := do
  let folders ← find (c.locations.mapM Folder.named) <| .value "unknown message location"
  require (c.headersObserved → folders ≠ []) <|
    .value "header observation requires an admitted location"
  let stamp ← find (Codec.fromIsoFormat c.observedAt) <|
    .value "source observation time requires a timezone"
  return ([Folder.inbox, .sent].filter (· ∈ folders), stamp)

-- The observation that the store has after the sighting. The later look at the folders counts, and of
-- two looks at the same time both have to be complete.
def observe (stamp : Instant) (earlier : Option Observation) : Observation where
  messageId         := c.messageId
  source            := c.source
  headersObservedAt :=
    let headerAt := if c.headersObserved then some stamp else none
    match earlier.bind (·.headersObservedAt) with
    | none       => headerAt
    | some prior => if headerAt = none ∨ stamp < prior then some prior else headerAt
  folderObservedAt  :=
    match earlier with
    | none   => stamp
    | some e => if stamp < e.folderObservedAt then e.folderObservedAt else stamp
  folderComplete    :=
    match earlier with
    | none   => c.scopeComplete
    | some e =>
      if stamp < e.folderObservedAt then e.folderComplete
      else if e.folderObservedAt = stamp then c.scopeComplete && e.folderComplete
      else c.scopeComplete

def location (recordedAt : Option Instant) (folder : Folder) : RecordedLocation where
  messageId  := c.messageId
  source     := c.source
  location   := folder
  recordedAt := recordedAt
  receivedAt := c.receivedAt

-- The form in which a gap of an account is recorded for one of its sources.
def gap (messageId : String) (source : SourceId) (stamp : String) : Sighting where
  messageId       := messageId
  source          := source
  locations       := []
  observedAt      := stamp
  scopeComplete   := false
  headersObserved := false
  receivedAt      := none

end Sighting

namespace Observed

variable [Codec]

omit [Codec] in
-- `note_returned_source`
def noteReturnedSource (s : Observed) (messageId : String) : List String :=
  if messageId ∈ s.returned then s.returned else s.returned ++ [messageId]

-- `_record_locations`
def recordLocations (s : Observed) (c : Sighting) : Except StoreError Observed := do
  let returned := if c.locations = [] then s.returned else s.noteReturnedSource c.messageId
  let (folders, stamp) ← c.reading
  let o := c.observe stamp (s.observations.get c.source)
  let recorded := (folders.map (c.location o.recordedAt)).foldl Table.insertOrIgnore s.locations
  return {
    observations := s.observations.put o
    locations    := recorded.update (·.source = c.source) fun r => { r with
      recordedAt := o.recordedAt
      receivedAt := c.receivedAt.or r.receivedAt
    }
    returned     := returned
  }

-- `_clear_location_stamps`
def clearLocationStamps (s : Observed) (scope : Scope) (stamp : String) :
    Except StoreError Observed :=
  (s.locations.rows.filter (·.source.scope = scope)).map (fun r => (r.messageId, r.source))
    |>.dedup.foldlM (fun s (messageId, source) => s.recordLocations (.gap messageId source stamp)) s

-- A call that raises is rolled back.
def next (s : Observed) (c : Sighting) : Observed :=
  match s.recordLocations c with
  | .ok s'   => s'
  | .error _ => s

def run (s : Observed) (cs : List Sighting) : Observed :=
  cs.foldl next s

end Observed

-- What is known of the header and of the folders of a source. Knowledge is ordered by how much it
-- overrides: a later time overrides an earlier one, and at one time an incomplete look a complete one.
abbrev Evidence := WithBot Instant × WithBot (Instant ×ₗ Boolᵒᵈ)

def Observation.evidence (o : Observation) : Evidence :=
  (o.headersObservedAt.elim ⊥ (↑·), ↑(toLex (o.folderObservedAt, OrderDual.toDual o.folderComplete)))

def evidence (o : Option Observation) : Evidence :=
  o.elim ⊥ Observation.evidence

def Sighting.evidence (c : Sighting) (stamp : Instant) : Evidence :=
  (if c.headersObserved then (stamp : WithBot Instant) else ⊥,
    ↑(toLex (stamp, OrderDual.toDual c.scopeComplete)))

section Evidence

variable {c c₁ c₂ : Sighting} {stamp stamp₁ stamp₂ : Instant} {o₁ o₂ : Observation}

theorem header_observe (c : Sighting) (stamp : Instant) (earlier : Option Observation) :
    (c.observe stamp earlier).evidence.fst = (evidence earlier).fst ⊔ (c.evidence stamp).fst := by
  simp only [Sighting.observe, Observation.evidence, Sighting.evidence]
  cases h : earlier.bind (·.headersObservedAt)
  case none =>
    have he : (evidence earlier).fst = ⊥ := by
      cases earlier
      case none   => rfl
      case some e => simp_all [evidence, Observation.evidence]
    rw [he, bot_sup_eq]
    cases c.headersObserved <;> rfl
  case some prior =>
    have he : (evidence earlier).fst = prior := by
      cases earlier
      case none   => cases h
      case some e => simp_all [evidence, Observation.evidence]
    rw [he]
    cases c.headersObserved
    case false => simp
    case true =>
      simp only [↓reduceIte, reduceCtorEq, false_or, ← WithBot.coe_sup]
      split
      case isTrue hlt  => rw [sup_of_le_left hlt.le]; rfl
      case isFalse hge => rw [sup_of_le_right (not_lt.mp hge)]; rfl

theorem folder_observe (c : Sighting) (stamp : Instant) (earlier : Option Observation) :
    (c.observe stamp earlier).evidence.snd = (evidence earlier).snd ⊔ (c.evidence stamp).snd := by
  cases earlier
  case none   => simp [Sighting.observe, Observation.evidence, Sighting.evidence, evidence]
  case some e =>
    simp only [Sighting.observe, Observation.evidence, Sighting.evidence, evidence, Option.elim_some,
      ← WithBot.coe_sup]
    congr 1
    obtain hlt | heq | hgt := lt_trichotomy stamp e.folderObservedAt
    case inl =>
      rw [if_pos hlt, if_pos hlt, sup_of_le_left]
      exact Prod.Lex.toLex_le_toLex.mpr <| .inl hlt
    case inr.inl =>
      -- At one time the looks at the folders are compared, and an incomplete one wins.
      simp only [heq, lt_irrefl, ↓reduceIte]
      cases c.scopeComplete
      case false =>
        rw [Bool.false_and, sup_of_le_right]
        exact Prod.Lex.toLex_le_toLex.mpr <| .inr ⟨rfl, OrderDual.toDual_le_toDual.mpr bot_le⟩
      case true =>
        rw [Bool.true_and, sup_of_le_left]
        exact Prod.Lex.toLex_le_toLex.mpr <| .inr ⟨rfl, OrderDual.toDual_le_toDual.mpr le_top⟩
    case inr.inr =>
      rw [if_neg hgt.le.not_gt, if_neg hgt.le.not_gt, if_neg hgt.ne, sup_of_le_right]
      exact Prod.Lex.toLex_le_toLex.mpr <| .inl hgt

-- A sighting adds its evidence to what is known.
theorem evidence_observe (c : Sighting) (stamp : Instant) (earlier : Option Observation) :
    (c.observe stamp earlier).evidence = evidence earlier ⊔ c.evidence stamp :=
  Prod.ext (header_observe c stamp earlier) (folder_observe c stamp earlier)

-- What is known of a source says everything about its observation.
theorem eq_of_evidence (hm : o₁.messageId = o₂.messageId) (hs : o₁.source = o₂.source)
    (he : o₁.evidence = o₂.evidence) : o₁ = o₂ := by
  obtain ⟨m₁, k₁, h₁, f₁, b₁⟩ := o₁
  obtain ⟨m₂, k₂, h₂, f₂, b₂⟩ := o₂
  obtain ⟨hh, hf⟩ := Prod.mk.inj he
  have hf := Prod.mk.inj (toLex.injective (WithBot.coe_injective hf))
  have hh : h₁ = h₂ := by
    cases h₁ <;> cases h₂ <;> simp_all
  simp_all

end Evidence

section View

-- What the store holds of one source.
@[ext]
structure View where
  observation : Option Observation
  location    : Folder → Option RecordedLocation

def Observed.view (s : Observed) (k : SourceId) : View where
  observation := s.observations.get k
  location    := fun folder => s.locations.get (k, folder)

-- What a sighting of the source makes of it.
def View.record (v : View) (c : Sighting) (folders : List Folder) (stamp : Instant) : View :=
  let o := c.observe stamp v.observation
  {
    observation := some o
    location    := fun folder =>
      (v.location folder).or (if folder ∈ folders then some (c.location o.recordedAt folder) else none)
        |>.map fun r => { r with
          recordedAt := o.recordedAt
          receivedAt := c.receivedAt.or r.receivedAt
        }
  }

variable {s s' : Observed} {c : Sighting} {k : SourceId}

theorem get_foldl_insertOrIgnore (t : Table RecordedLocation) (rs : List RecordedLocation)
    (key : SourceId × Folder) :
    (rs.foldl Table.insertOrIgnore t).get key = (t.get key).or (rs.find? (Keyed.key · = key)) := by
  induction rs generalizing t
  case nil => simp
  case cons r rs ih =>
    rw [List.foldl_cons, ih, Table.get_insertOrIgnore, List.find?_cons]
    split <;> simp_all

theorem find_location (folders : List Folder) (at' : Option Instant) (k : SourceId)
    (folder : Folder) :
    (folders.map (c.location at')).find? (Keyed.key · = (k, folder)) =
    if k = c.source ∧ folder ∈ folders then some (c.location at' folder) else none := by
  induction folders
  case nil => simp
  case cons f fs ih =>
    have hk : Keyed.key (c.location at' f) = (c.source, f) := rfl
    rw [List.map_cons, List.find?_cons, hk, ih]
    by_cases hc : k = c.source
    case pos => by_cases hf : folder = f <;> simp [hc, hf, eq_comm]
    case neg => simp [hc, Ne.symm hc]

variable [Codec]

-- A call that succeeds changes nothing but its own source, which it changes as its view tells.
theorem recordLocations_ok (h : s.recordLocations c = .ok s') :
    ∃ folders stamp, c.reading = .ok (folders, stamp) ∧
      s'.view c.source = (s.view c.source).record c folders stamp ∧
      (∀ k, k ≠ c.source → s'.view k = s.view k) ∧
      s'.returned = if c.locations = [] then s.returned else s.noteReturnedSource c.messageId := by
  simp only [Observed.recordLocations, bind_eq_ok, pure_eq_ok] at h
  obtain ⟨⟨folders, stamp⟩, hr, rfl⟩ := h
  refine ⟨folders, stamp, hr, ?_, ?_, rfl⟩
  · refine View.ext ?_ ?_
    · exact (Table.get_put ..).trans <| if_pos rfl
    · funext folder
      simp only [Observed.view, View.record, Table.get_update, get_foldl_insertOrIgnore,
        find_location, true_and]
      refine Option.map_congr ?_
      intro r hr
      have hs : r.source = c.source := by
        cases hg : s.locations.get (c.source, folder)
        case some r' =>
          rw [hg, Option.some_or, Option.some.injEq] at hr
          exact hr ▸ (Prod.mk.inj <| Table.key_of_get hg).left
        case none =>
          rw [hg, Option.none_or, Option.ite_none_right_eq_some] at hr
          cases hr.right
          rfl
      rw [if_pos (decide_eq_true hs)]
  · intro k hk
    refine View.ext ?_ ?_
    · exact (Table.get_put ..).trans <| if_neg (Ne.symm hk)
    · funext folder
      simp only [Observed.view, Table.get_update, get_foldl_insertOrIgnore, find_location, hk,
        false_and, ↓reduceIte, Option.or_none]
      cases hg : s.locations.get (k, folder)
      case none => rfl
      case some r =>
        have hs : r.source = k := (Prod.mk.inj <| Table.key_of_get hg).left
        simp [hs, hk]

-- What a call makes of a source, also if it raises.
def View.next (v : View) (c : Sighting) : View :=
  match c.reading with
  | .ok (folders, stamp) => v.record c folders stamp
  | .error _             => v

theorem view_next (s : Observed) (c : Sighting) (k : SourceId) :
    (s.next c).view k = if k = c.source then (s.view k).next c else s.view k := by
  unfold Observed.next View.next
  cases h : s.recordLocations c
  case ok s' =>
    obtain ⟨folders, stamp, hr, hc, hn, _⟩ := recordLocations_ok h
    simp only [hr]
    by_cases hk : k = c.source
    case pos => rw [if_pos hk, hk, hc]
    case neg => rw [if_neg hk, hn k hk]
  case error e =>
    have he : ∃ e, c.reading = .error e := by
      cases hr : c.reading
      case error e => exact ⟨e, rfl⟩
      case ok      => simp [Observed.recordLocations, hr, bind, Except.bind, pure, Except.pure] at h
    obtain ⟨e, he⟩ := he
    simp [he]

end View

section Merge

-- The call is for the given source, under the given message, and does not tell a time of receipt.
structure Sighting.About (c : Sighting) (k : SourceId) (messageId : String) : Prop where
  source    : c.source = k
  messageId : c.messageId = messageId
  received  : c.receivedAt = none

variable {c c₁ c₂ : Sighting} {k : SourceId} {id : String} {fs fs₁ fs₂ : List Folder}
  {t t₁ t₂ : Instant}

-- The order of two sightings does not matter for what is known.
theorem observe_comm (h₁ : c₁.About k id) (h₂ : c₂.About k id) (o : Option Observation) :
    c₂.observe t₂ (c₁.observe t₁ o) = c₁.observe t₁ (c₂.observe t₂ o) := by
  refine eq_of_evidence ?_ ?_ ?_
  · exact h₂.messageId.trans h₁.messageId.symm
  · exact h₂.source.trans h₁.source.symm
  · have he (c : Sighting) (t : Instant) (o : Option Observation) :
        Mail.evidence (some (c.observe t o)) = Mail.evidence o ⊔ c.evidence t :=
      evidence_observe c t o
    rw [evidence_observe, evidence_observe, he, he]
    exact sup_right_comm ..

theorem observe_idem (c : Sighting) (t : Instant) (o : Option Observation) :
    c.observe t (c.observe t o) = c.observe t o := by
  refine eq_of_evidence rfl rfl ?_
  rw [evidence_observe c t (some _)]
  change (c.observe t o).evidence ⊔ _ = _
  rw [evidence_observe, sup_assoc, sup_idem]

theorem record_comm (h₁ : c₁.About k id) (h₂ : c₂.About k id) (v : View) :
    (v.record c₁ fs₁ t₁).record c₂ fs₂ t₂ = (v.record c₂ fs₂ t₂).record c₁ fs₁ t₁ := by
  have ho : c₂.observe t₂ (c₁.observe t₁ v.observation) = c₁.observe t₁ (c₂.observe t₂ v.observation) :=
    observe_comm h₁ h₂ v.observation
  refine View.ext ?_ ?_
  · simp [View.record, ho]
  · funext folder
    simp only [View.record, ho, h₁.received, h₂.received, Option.none_or]
    cases v.location folder
    case some => simp
    case none =>
      by_cases hf₁ : folder ∈ fs₁ <;> by_cases hf₂ : folder ∈ fs₂ <;>
        simp [hf₁, hf₂, Sighting.location, h₁.source, h₂.source, h₁.messageId, h₂.messageId,
          h₁.received, h₂.received]

theorem record_idem (h : c.About k id) (v : View) :
    (v.record c fs t).record c fs t = v.record c fs t := by
  have ho := observe_idem c t v.observation
  refine View.ext ?_ ?_
  · simp [View.record, ho]
  · funext folder
    simp only [View.record, ho, h.received, Option.none_or]
    cases v.location folder
    case some => simp
    case none => by_cases hf : folder ∈ fs <;> simp [hf]

variable [Codec]

theorem next_comm (h₁ : c₁.About k id) (h₂ : c₂.About k id) (v : View) :
    (v.next c₁).next c₂ = (v.next c₂).next c₁ := by
  unfold View.next
  cases c₁.reading <;> cases c₂.reading <;> first | rfl | exact record_comm h₁ h₂ v

theorem next_idem (h : c.About k id) (v : View) : (v.next c).next c = v.next c := by
  unfold View.next
  cases c.reading
  case error => rfl
  case ok    => exact record_idem h v

-- The view of the source after some calls for it.
theorem view_run (s : Observed) {cs : List Sighting} (h : ∀ c ∈ cs, c.source = k) :
    (s.run cs).view k = cs.foldl View.next (s.view k) := by
  induction cs generalizing s
  case nil => rfl
  case cons c cs ih =>
    have hc : (s.next c).view k = (s.view k).next c := by
      rw [view_next, if_pos (h c (by simp)).symm]
    rw [List.foldl_cons, ← hc]
    exact ih (s.next c) fun c hc => h c (by simp [hc])

omit [Codec] in
-- What is folded in by commuting steps, each of which does nothing more a second time, is in for good.
theorem foldl_absorb {α β : Type} [DecidableEq β] {f : α → β → α} {l : List β} {b : β} (hb : b ∈ l)
    (hc : ∀ x ∈ l, ∀ y ∈ l, ∀ a, f (f a x) y = f (f a y) x) (hi : ∀ a, f (f a b) b = f a b)
    (a : α) : f (l.foldl f a) b = l.foldl f a := by
  have hp : l.Perm (l.erase b ++ [b]) :=
    (List.perm_cons_erase hb).trans (List.perm_append_singleton b _).symm
  rw [hp.foldl_eq' hc, List.foldl_append, List.foldl_cons, List.foldl_nil, hi]

-- The sources that have been noted as returned stay noted.
theorem returned_next (s : Observed) (c : Sighting) :
    (s.next c).returned = s.returned ∨
    (s.next c).returned = s.noteReturnedSource c.messageId := by
  unfold Observed.next
  cases h : s.recordLocations c
  case error => exact .inl rfl
  case ok s' =>
    obtain ⟨_, _, _, _, _, hr⟩ := recordLocations_ok h
    simp only [hr]
    split
    case isTrue  => exact .inl rfl
    case isFalse => exact .inr rfl

omit [Codec] in
theorem mem_noteReturnedSource (s : Observed) : id ∈ s.noteReturnedSource id := by
  unfold Observed.noteReturnedSource
  split <;> simp_all

theorem mem_returned_run (s : Observed) (h : id ∈ s.returned) (cs : List Sighting) :
    id ∈ (s.run cs).returned := by
  induction cs generalizing s
  case nil => exact h
  case cons c cs ih =>
    refine ih (s.next c) ?_
    obtain hr | hr := returned_next s c
    case inl => rwa [hr]
    case inr =>
      rw [hr, Observed.noteReturnedSource]
      split
      case isTrue  => exact h
      case isFalse => exact List.mem_append_left _ h

-- A call that has been made before notes nothing new.
theorem returned_again (s : Observed) {cs : List Sighting} (hc : c ∈ cs) :
    ((s.run cs).next c).returned = (s.run cs).returned := by
  cases h : (s.run cs).recordLocations c
  case error => simp [Observed.next, h]
  case ok s' =>
    obtain ⟨fs, t, hr, _, _, hret⟩ := recordLocations_ok h
    simp only [Observed.next, h, hret]
    split
    case isTrue => rfl
    case isFalse hl =>
      have hm : c.messageId ∈ (s.run cs).returned := by
        obtain ⟨bs, ds, rfl⟩ := List.append_of_mem hc
        have hrun : s.run (bs ++ c :: ds) = ((s.run bs).next c).run ds := by
          simp [Observed.run]
        rw [hrun]
        refine mem_returned_run _ ?_ ds
        have hok : ∃ s₁, (s.run bs).recordLocations c = .ok s₁ := by
          simp [Observed.recordLocations, hr, bind, Except.bind, pure, Except.pure]
        obtain ⟨s₁, h₁⟩ := hok
        obtain ⟨_, _, _, _, _, hret⟩ := recordLocations_ok h₁
        rw [Observed.next, h₁, hret, if_neg hl]
        exact mem_noteReturnedSource _
      rw [Observed.noteReturnedSource, if_pos hm]

-- The locations of a source carry the confirmation that its observation gives.
def Stamped (s : Observed) (k : SourceId) : Prop :=
  ∃ o, s.observations.get k = some o ∧
    ∀ r ∈ s.locations, r.source = k → r.recordedAt = o.recordedAt

theorem stamped_recordLocations {s s' : Observed} (h : s.recordLocations c = .ok s') :
    Stamped s' c.source := by
  obtain ⟨fs, t, _, hv, _, _⟩ := recordLocations_ok h
  refine ⟨_, congrArg View.observation hv, ?_⟩
  intro r hr hs
  have hg : (s'.view c.source).location r.location = some r := by
    rw [← hs]
    exact Table.get_of_mem hr
  simp only [hv, View.record, Option.map_eq_some_iff] at hg
  obtain ⟨_, _, rfl⟩ := hg
  rfl

-- What some calls for one source make of it, in one order and in another.
structure Merged (s : Observed) (k : SourceId) (cs ds : List Sighting) : Prop where
  ordered  : (s.run cs).view k = (s.run ds).view k
  repeated : ∀ c ∈ cs, ((s.run cs).next c).returned = (s.run cs).returned ∧
    ∀ k', ((s.run cs).next c).view k' = (s.run cs).view k'
  stamped  : ∀ bs, ∀ c ∈ cs, ∀ s', (s.run bs).recordLocations c = .ok s' → Stamped s' k

theorem observations_merge (s : Observed) {cs ds : List Sighting} (h : ∀ c ∈ cs, c.About k id)
    (hp : cs.Perm ds) : Merged s k cs ds where
  ordered  := by
    rw [view_run s fun c hc => (h c hc).source, view_run s fun c hc => (h c (hp.mem_iff.mpr hc)).source]
    exact hp.foldl_eq' (fun x hx y hy v => next_comm (h x hx) (h y hy) v) _
  repeated := by
    intro c hc
    refine ⟨returned_again s hc, ?_⟩
    intro k'
    rw [view_next]
    split
    case isFalse => rfl
    case isTrue hk =>
      rw [hk, (h c hc).source, view_run s fun c hc => (h c hc).source]
      exact foldl_absorb hc (fun x hx y hy v => next_comm (h x hx) (h y hy) v)
        (fun v => next_idem (h c hc) v) _
  stamped  := by
    intro bs c hc s' hs
    rw [← (h c hc).source]
    exact stamped_recordLocations hs

-- A gap of an account is a run of sightings, one for each of its sources, and merges as they do.
theorem clearLocationStamps_run {s s' : Observed} {scope : Scope} {stamp : String}
    (h : s.clearLocationStamps scope stamp = .ok s') :
    s' = s.run (((s.locations.rows.filter (·.source.scope = scope)).map fun r => (r.messageId, r.source)).dedup.map
      fun source => .gap source.fst source.snd stamp) := by
  unfold Observed.clearLocationStamps at h
  generalize ((s.locations.rows.filter (·.source.scope = scope)).map fun r => (r.messageId, r.source)).dedup =
    sources at h ⊢
  induction sources generalizing s
  case nil                    =>
    cases h
    rfl
  case cons source sources ih =>
    obtain ⟨messageId, source⟩ := source
    simp only [List.foldlM_cons] at h
    cases hs : s.recordLocations (.gap messageId source stamp)
    case error e =>
      rw [hs] at h
      cases h
    case ok s₁   =>
      rw [hs] at h
      have hnext : s.next (.gap messageId source stamp) = s₁ := by rw [Observed.next, hs]
      simp only [List.map_cons, Observed.run, List.foldl_cons, hnext]
      exact ih h

end Merge

section Latest

-- The calls that do not raise, with their times.
def looks [Codec] (cs : List Sighting) : List (Sighting × Instant) :=
  cs.filterMap fun c => c.reading.toOption.map fun x => (c, x.snd)

def times (l : List (Sighting × Instant)) : Set Instant :=
  {t | ∃ c, (c, t) ∈ l}

def headerLooks (l : List (Sighting × Instant)) : List (Sighting × Instant) :=
  l.filter (·.fst.headersObserved)

-- What is known after some looks: the latest times, and whether all looks at the latest time were
-- complete.
structure Latest (l : List (Sighting × Instant)) (o : Observation) : Prop where
  headers  : ∀ t, o.headersObservedAt = some t → IsGreatest (times (headerLooks l)) t
  unread   : o.headersObservedAt = none → headerLooks l = []
  folder   : IsGreatest (times l) o.folderObservedAt
  complete : o.folderComplete ↔ ∀ c, (c, o.folderObservedAt) ∈ l → c.scopeComplete

variable {l : List (Sighting × Instant)} {o : Observation} {t prior : Instant} {c : Sighting}

theorem isGreatest_times_single (c : Sighting) (t : Instant) : IsGreatest (times [(c, t)]) t := by
  refine ⟨⟨c, List.mem_singleton.mpr rfl⟩, ?_⟩
  rintro _ ⟨c', hc'⟩
  exact le_of_eq (Prod.mk.inj (List.mem_singleton.mp hc')).right

theorem isGreatest_times_append (h : IsGreatest (times l) prior) (c : Sighting) (t : Instant) :
    IsGreatest (times (l ++ [(c, t)])) (if t < prior then prior else t) := by
  obtain ⟨⟨c', hc'⟩, hle⟩ := h
  have hupper : ∀ b, prior ≤ b → t ≤ b → b ∈ upperBounds (times (l ++ [(c, t)])) := by
    rintro b hp ht t' ⟨c'', hc''⟩
    obtain hc'' | hc'' := List.mem_append.mp hc''
    · exact (hle ⟨c'', hc''⟩).trans hp
    · exact (Prod.mk.inj (List.mem_singleton.mp hc'')).right ▸ ht
  split
  case isTrue hlt  => exact ⟨⟨c', List.mem_append_left _ hc'⟩, hupper _ le_rfl hlt.le⟩
  case isFalse hge => exact ⟨⟨c, List.mem_append_right _ (by simp)⟩, hupper _ (not_lt.mp hge) le_rfl⟩

theorem headerLooks_append (l : List (Sighting × Instant)) (c : Sighting) (t : Instant) :
    headerLooks (l ++ [(c, t)]) = if c.headersObserved then headerLooks l ++ [(c, t)] else headerLooks l := by
  unfold headerLooks
  rw [List.filter_append]
  cases hc : c.headersObserved <;> simp [hc]

theorem latest_first (c : Sighting) (t : Instant) : Latest [(c, t)] (c.observe t none) := by
  have hlooks : headerLooks [(c, t)] = if c.headersObserved then [(c, t)] else [] :=
    headerLooks_append [] c t
  refine ⟨fun t' ht => ?_, fun hn => ?_, isGreatest_times_single c t, by simp [Sighting.observe]⟩
  all_goals
    rw [hlooks]
    cases hc : c.headersObserved <;> simp [Sighting.observe, hc] at *
  · exact ht ▸ isGreatest_times_single c t

-- One look more.
theorem Latest.observe (h : Latest l o) (c : Sighting) (t : Instant) :
    Latest (l ++ [(c, t)]) (c.observe t (some o)) where
  headers t' ht := by
    rw [headerLooks_append]
    cases hc : c.headersObserved <;> cases hp : o.headersObservedAt <;>
      simp [Sighting.observe, hc, hp] at ht
    case false.some prior => exact ht ▸ h.headers prior hp
    case true.none        =>
      rw [h.unread hp]
      exact ht ▸ isGreatest_times_single c t
    case true.some prior  =>
      have hg := isGreatest_times_append (h.headers prior hp) c t
      split at ht <;> simp_all
  unread hn := by
    rw [headerLooks_append]
    cases hc : c.headersObserved <;> cases hp : o.headersObservedAt <;>
      simp [Sighting.observe, hc, hp] at hn
    · exact h.unread hp
    · split at hn <;> cases hn
  folder   := isGreatest_times_append h.folder c t
  complete := by
    have hcomplete := h.complete
    obtain hlt | rfl | hgt := lt_trichotomy t o.folderObservedAt
    case inl =>
      simp only [Sighting.observe, if_pos hlt, hcomplete, List.mem_append, List.mem_singleton,
        Prod.mk.injEq, hlt.ne', and_false, or_false]
    case inr.inl =>
      -- Another look at the same time.
      simp only [Sighting.observe, lt_irrefl, if_false, if_true, Bool.and_eq_true, hcomplete,
        List.mem_append, List.mem_singleton, Prod.mk.injEq, and_true, or_imp, forall_and, forall_eq]
      exact and_comm
    case inr.inr =>
      have hnone : ∀ c', (c', t) ∉ l := fun c' hc' => (h.folder.right ⟨c', hc'⟩).not_gt hgt
      simp only [Sighting.observe, if_neg hgt.not_gt, if_neg hgt.ne, List.mem_append, hnone, false_or,
        List.mem_singleton, Prod.mk.injEq, and_true, forall_eq]

-- The merged observation of a source that has not been observed before: it does not depend on the
-- order of the calls, for neither do the looks.
theorem latest_run [Codec] {k : SourceId} (s : Observed) {cs : List Sighting} (h : ∀ c ∈ cs, c.source = k)
    (hs : s.observations.get k = none) :
    ((s.run cs).observations.get k = none ∧ looks cs = []) ∨
    ∃ o, (s.run cs).observations.get k = some o ∧ Latest (looks cs) o := by
  induction cs using List.reverseRecOn
  case nil => exact .inl ⟨hs, rfl⟩
  case append_singleton cs c ih =>
    have ih := ih fun c' hc' => h c' (List.mem_append_left _ hc')
    have hc : c.source = k := h c (List.mem_append_right _ (List.mem_singleton.mpr rfl))
    have hrun : s.run (cs ++ [c]) = (s.run cs).next c := by simp [Observed.run]
    have hlooks : looks (cs ++ [c]) = looks cs ++ looks [c] := List.filterMap_append
    have hview : (s.run (cs ++ [c])).observations.get k = (((s.run cs).view k).next c).observation := by
      rw [hrun]
      exact congrArg View.observation ((view_next _ c k).trans (if_pos hc.symm))
    rw [hview, hlooks]
    unfold View.next
    cases hr : c.reading
    case error e =>
      have hnone : looks [c] = [] := by simp [looks, hr, Except.toOption]
      rw [hnone, List.append_nil]
      exact ih
    case ok x    =>
      have hone : looks [c] = [(c, x.snd)] := by simp [looks, hr, Except.toOption]
      rw [hone]
      refine .inr ⟨_, rfl, ?_⟩
      obtain ⟨hnone, hnil⟩ | ⟨o, ho, hlatest⟩ := ih
      case inl =>
        have hobserved : ((s.run cs).view k).observation = none := hnone
        rw [hnil, hobserved]
        exact latest_first c x.snd
      case inr =>
        have hobserved : ((s.run cs).view k).observation = some o := ho
        rw [hobserved]
        exact hlatest.observe c x.snd

end Latest

namespace Sample

-- A clock that reads the times of the sightings below.
@[reducible]
def isoClock : Codec where
  requestHash _ _   := ""
  signature _ _ _ _ := ""
  sha256 text       := text
  fromIsoFormat text :=
    if text = "2026-01-01T00:00:00+00:00" then some 0
    else if text = "2026-01-01T00:00:01+00:00" then some Instant.second
    else none
  isPrintable _     := true
  isSpace c         := c = ' '

def inboxSource : SourceId where
  scope             := ⟨.gmail, "primary", "mailbox"⟩
  providerMessageId := "m1"

def sighting (observedAt : String) (scopeComplete headersObserved : Bool) : Sighting where
  messageId       := "mail-1"
  source          := inboxSource
  locations       := ["inbox"]
  observedAt      := observedAt
  scopeComplete   := scopeComplete
  headersObserved := headersObserved
  receivedAt      := none

-- A complete and an incomplete look at one time, and an earlier reading of the headers.
theorem observations_merge_tie :
    letI := isoClock
    letI looks := [
      sighting "2026-01-01T00:00:01+00:00" true false,
      sighting "2026-01-01T00:00:01+00:00" false false,
      sighting "2026-01-01T00:00:00+00:00" true true
    ]
    Merged ⟨∅, ∅, []⟩ inboxSource looks looks.reverse := by
  let := isoClock
  refine @observations_merge inboxSource "mail-1" _ _ _ _ ?_ (List.reverse_perm _).symm
  intro c hc
  simp only [List.mem_cons, List.not_mem_nil, or_false] at hc
  obtain rfl | rfl | rfl := hc <;> exact ⟨rfl, rfl, rfl⟩

end Sample

end Mail
