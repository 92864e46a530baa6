import EmailWatcher.Library.Ranking

-- Lists that are read page by page, each page from a snapshot of its own.
namespace Paging

variable {σ τ α ε ν : Type}

-- What has been read from the snapshots, and the token that asks for the next page.
inductive Read (call : σ → Option τ → Except ε (List α × Option τ)) : List σ → List α → Option τ → Prop
  | first {s items next} : call s none = .ok (items, next) → Read call [s] items next
  | next {snapshots items token s more next} : Read call snapshots items (some token) →
      call s (some token) = .ok (more, next) → Read call (snapshots ++ [s]) (items ++ more) next

theorem Read.ne_nil {call : σ → Option τ → Except ε (List α × Option τ)} {snapshots : List σ} {items : List α}
    {next : Option τ} (h : Read call snapshots items next) : snapshots ≠ [] := by
  cases h <;> simp

theorem Read.exists_first {call : σ → Option τ → Except ε (List α × Option τ)} {snapshots : List σ} {items : List α}
    {next : Option τ} (h : Read call snapshots items next) : ∃ s ∈ snapshots, ∃ page, call s none = .ok page := by
  induction h
  case first s items next hc => exact ⟨s, by simp, _, hc⟩
  case next ih               =>
    obtain ⟨s, hs, hc⟩ := ih
    exact ⟨s, List.mem_append_left _ hs, hc⟩

section Fences

-- The page behind the first `n` rows of what is seen. Its token marks the place where the page ends.
def pageBehind (rows : ν → List α) (mark : ν → Nat → τ) (limit : Nat) (view : ν) (n : Nat) : List α × Option τ :=
  (((rows view).drop n).take limit, if n + limit < (rows view).length then some (mark view (n + limit)) else none)

-- A token holds for what was seen when it was issued, and for nothing else.
structure Fenced (call : σ → Option τ → Except ε (List α × Option τ)) (see : σ → Except ε ν) (rows : ν → List α)
    (mark : ν → Nat → τ) (limit : Nat) (stale : ε) (snapshots : List σ) : Prop where
  first : ∀ s ∈ snapshots, ∀ view, see s = .ok view → call s none = .ok (pageBehind rows mark limit view 0)
  again : ∀ s₀ ∈ snapshots, ∀ view, see s₀ = .ok view → ∀ s ∈ snapshots, see s = .ok view →
    ∀ n, 0 < n → n < (rows view).length → call s (some (mark view n)) = .ok (pageBehind rows mark limit view n)
  stale : ∀ s₀ ∈ snapshots, ∀ view₀, see s₀ = .ok view₀ → ∀ s ∈ snapshots, ∀ view, see s = .ok view →
    view ≠ view₀ → ∀ n, 0 < n → n < (rows view₀).length → call s (some (mark view₀ n)) = .error stale
  raises : ∀ s ∈ snapshots, ∀ e, see s = .error e → ∀ token, call s token = .error e

variable {call : σ → Option τ → Except ε (List α × Option τ)} {see : σ → Except ε ν} {rows : ν → List α}
  {mark : ν → Nat → τ} {limit : Nat} {stale : ε} {snapshots served : List σ} {items : List α} {next : Option τ}
  {view : ν} {s : σ}

-- What is behind the rows that have been read, if there is more.
def rest (rows : ν → List α) (mark : ν → Nat → τ) (view : ν) (n : Nat) : Option τ :=
  if n < (rows view).length then some (mark view n) else none

theorem rest_eq_some {n : Nat} {token : τ} (h : rest rows mark view n = some token) :
    n < (rows view).length ∧ token = mark view n := by
  unfold rest at h
  split at h
  case isTrue hn  => exact ⟨hn, (Option.some.inj h).symm⟩
  case isFalse hn => cases h

-- All pages show one state, whatever happened between them.
theorem Fenced.read (hf : Fenced call see rows mark limit stale snapshots) (hl : 0 < limit)
    (h : Read call served items next) (hs : served ⊆ snapshots) :
    ∃ view, (∀ s ∈ served, see s = .ok view) ∧ items = (rows view).take (limit * served.length) ∧
      next = rest rows mark view (limit * served.length) := by
  induction h
  case first s items next hc =>
    have hs : s ∈ snapshots := hs (by simp)
    cases hv : see s
    case error e => rw [hf.raises s hs e hv] at hc; cases hc
    case ok view =>
      rw [hf.first s hs view hv, pageBehind, Except.ok.injEq, Prod.mk.injEq] at hc
      obtain ⟨rfl, rfl⟩ := hc
      refine ⟨view, by simpa using hv, ?_, ?_⟩
      · simp
      · simp [rest]
  case next served items token s more next hr hc ih =>
    obtain ⟨view, hall, rfl, hnext⟩ := ih fun x hx => hs (by simp [hx])
    obtain ⟨hlt, rfl⟩ := rest_eq_some hnext.symm
    have hpos : 0 < limit * served.length := Nat.mul_pos hl (List.length_pos_of_ne_nil hr.ne_nil)
    have hmem : s ∈ snapshots := hs (by simp)
    obtain ⟨s₀, h₀⟩ := List.exists_mem_of_ne_nil _ hr.ne_nil
    have hseen : s₀ ∈ snapshots := hs (by simp [h₀])
    cases hv : see s
    case error e => rw [hf.raises s hmem e hv] at hc; cases hc
    case ok view' =>
      by_cases he : view' = view
      case neg =>
        rw [hf.stale s₀ hseen view (hall s₀ h₀) s hmem view' hv he _ hpos hlt] at hc
        cases hc
      case pos =>
        subst he
        rw [hf.again s₀ hseen view' (hall s₀ h₀) s hmem hv _ hpos hlt, pageBehind, Except.ok.injEq,
          Prod.mk.injEq] at hc
        obtain ⟨rfl, rfl⟩ := hc
        refine ⟨view', ?_, ?_, ?_⟩
        · intro x hx
          cases List.mem_append.mp hx
          case inl hx => exact hall x hx
          case inr hx => exact List.mem_singleton.mp hx ▸ hv
        · rw [List.length_append, List.length_singleton, Nat.mul_succ, List.take_add]
        · rw [List.length_append, List.length_singleton, Nat.mul_succ, rest]

-- A snapshot that shows the same is always read on.
theorem Fenced.progress (hf : Fenced call see rows mark limit stale snapshots) (hl : 0 < limit)
    (h : Read call served items (some token)) (hs : served ⊆ snapshots) (hm : s ∈ snapshots)
    (hv : ∀ x ∈ served, see x = see s) : ∃ more next, call s (some token) = .ok (more, next) := by
  obtain ⟨view, hall, -, hnext⟩ := hf.read hl h hs
  obtain ⟨hlt, rfl⟩ := rest_eq_some hnext.symm
  obtain ⟨s₀, h₀⟩ := List.exists_mem_of_ne_nil _ h.ne_nil
  have hpos : 0 < limit * served.length := Nat.mul_pos hl (List.length_pos_of_ne_nil h.ne_nil)
  exact ⟨_, _, hf.again s₀ (hs h₀) view (hall s₀ h₀) s hm ((hv s₀ h₀).symm.trans (hall s₀ h₀)) _ hpos hlt⟩

-- One that shows something else is refused.
theorem Fenced.refusal (hf : Fenced call see rows mark limit stale snapshots) (hl : 0 < limit)
    (h : Read call served items (some token)) (hs : served ⊆ snapshots) (hm : s ∈ snapshots) {x : σ} (hx : x ∈ served)
    (hv : see s = .ok view) (hne : see x ≠ see s) : call s (some token) = .error stale := by
  obtain ⟨view', hall, -, hnext⟩ := hf.read hl h hs
  obtain ⟨hlt, rfl⟩ := rest_eq_some hnext.symm
  have hpos : 0 < limit * served.length := Nat.mul_pos hl (List.length_pos_of_ne_nil h.ne_nil)
  refine hf.stale x (hs hx) view' (hall x hx) s hm view hv ?_ _ hpos hlt
  rintro rfl
  exact hne ((hall x hx).trans hv.symm)

-- What does not change is read to its end.
theorem Fenced.complete (hf : Fenced call see rows mark limit stale snapshots) (hl : 0 < limit) (hm : s ∈ snapshots)
    (hv : see s = .ok view) (k : Nat) (hk : limit * k < (rows view).length ∨ k = 0) :
    Read call (List.replicate (k + 1) s) ((rows view).take (limit * (k + 1))) (rest rows mark view (limit * (k + 1))) := by
  induction k
  case zero =>
    have hc := hf.first s hm view hv
    rw [pageBehind, List.drop_zero, Nat.zero_add] at hc
    rw [Nat.zero_add, Nat.mul_one, rest]
    exact .first hc
  case succ k ih =>
    have hlt : limit * (k + 1) < (rows view).length := hk.resolve_right (by simp)
    have ih := ih (.inl (Nat.lt_of_le_of_lt (Nat.mul_le_mul_left _ (Nat.le_succ k)) hlt))
    rw [rest, if_pos hlt] at ih
    have hc := hf.again s hm view hv s hm hv _ (Nat.mul_pos hl (Nat.succ_pos k)) hlt
    rw [List.replicate_succ', Nat.mul_succ limit (k + 1), List.take_add, rest]
    exact .next ih hc

end Fences

section Keysets

variable {κ : Type} [LinearOrder κ]

-- The rows behind a key, in the order of the keys.
def behind (key : α → κ) (rows : List α) (position : Option κ) : List α :=
  Ranking.ordered key (rows.filter fun a => position.all (· < key a))

-- A page of them. One row more is looked up, to see whether there is one, and the last row of the page is where the
-- next one continues.
def keysetPage (key : α → κ) (limit : Nat) (rows : List α) (position : Option κ) : List α × Option κ :=
  let found := (behind key rows position).take (limit + 1)
  (found.take limit, if limit < found.length then (found.take limit).getLast?.map key else none)

-- A token is the key of the row that the next page continues behind.
structure Keyset (call : σ → Option τ → Except ε (List α × Option τ)) (rows : σ → List α) (key : α → κ)
    (token : κ → τ) (limit : Nat) (snapshots : Set σ) : Prop where
  nodup : ∀ s ∈ snapshots, ((rows s).map key).Nodup
  first : ∀ s ∈ snapshots, call s none =
    .ok ((keysetPage key limit (rows s) none).map id (Option.map token))
  again : ∀ s₀ ∈ snapshots, ∀ a ∈ rows s₀, ∀ s ∈ snapshots, call s (some (token (key a))) =
    .ok ((keysetPage key limit (rows s) (some (key a))).map id (Option.map token))

variable {call : σ → Option τ → Except ε (List α × Option τ)} {rows : σ → List α} {key : α → κ} {token : κ → τ}
  {limit : Nat} {snapshots : Set σ} {served : List σ} {items l : List α} {next : Option τ} {position : Option κ} {a b : α}

theorem mem_behind : a ∈ behind key l position ↔ a ∈ l ∧ position.all (· < key a) := by
  rw [behind, Ranking.mem_ordered, List.mem_filter]

theorem behind_strict (h : (l.map key).Nodup) : (behind key l position).Pairwise (key · < key ·) := by
  have hle : (behind key l position).Pairwise (key · ≤ key ·) := Ranking.ordered_pairwise
  have hp : (behind key l position).Perm (l.filter fun a => position.all (· < key a)) := Ranking.ordered_perm
  have hn : ((behind key l position).map key).Nodup :=
    (hp.map key).nodup_iff.mpr (h.sublist (List.filter_sublist.map key))
  have hne := List.pairwise_map.mp hn
  exact hle.imp₂ (fun _ _ hab hn => lt_of_le_of_ne hab hn) hne

theorem keysetPage_fst :
    (keysetPage key limit l position).fst = (behind key l position).take limit := by
  rw [keysetPage, List.take_take, Nat.min_eq_left (Nat.le_succ limit)]

-- Without a next page, the page is all that there is.
theorem keysetPage_none (hl : 0 < limit) (h : (keysetPage key limit l position).snd = none) :
    (keysetPage key limit l position).fst = behind key l position := by
  rw [keysetPage_fst]
  apply List.take_of_length_le
  by_contra hlt
  have hlen : limit < ((behind key l position).take (limit + 1)).length := by
    rw [List.length_take]
    omega
  rw [keysetPage, if_pos hlen, Option.map_eq_none_iff, List.getLast?_eq_none_iff, List.take_eq_nil_iff] at h
  obtain h | h := h
  · exact absurd h (Nat.pos_iff_ne_zero.mp hl)
  · rw [h] at hlen
    exact absurd hlen (Nat.not_lt_zero _)

-- With one, the page is full, and it ends at the key.
theorem keysetPage_some {k : κ} (h : (keysetPage key limit l position).snd = some k) :
    ∃ front a rest, (keysetPage key limit l position).fst = front ++ [a] ∧ key a = k ∧
      behind key l position = front ++ a :: rest ∧ (front ++ [a]).length = limit ∧ rest ≠ [] := by
  rw [keysetPage] at h
  split at h
  case isFalse       => cases h
  case isTrue hlen =>
    rw [List.take_take, Nat.min_eq_left (Nat.le_succ limit)] at h
    obtain ⟨a, ha, hk⟩ := Option.map_eq_some_iff.mp h
    obtain ⟨front, hfront⟩ := List.getLast?_eq_some_iff.mp ha
    rw [List.length_take] at hlen
    refine ⟨front, a, (behind key l position).drop limit, by rw [keysetPage_fst, hfront], hk, ?_, ?_, ?_⟩
    · rw [← List.singleton_append, ← List.append_assoc, ← hfront, List.take_append_drop]
    · rw [← hfront, List.length_take]
      omega
    · rw [ne_eq, List.drop_eq_nil_iff]
      omega

-- What a page has: the rows behind the position, up to its own last row or to the end.
structure Page (key : α → κ) (limit : Nat) (l : List α) (position : Option κ) (page : List α) (next : Option κ) :
    Prop where
  sorted : page.Pairwise (key · < key ·)
  sound  : ∀ a ∈ page, a ∈ l ∧ position.all (· < key a)
  whole  : next = none → ∀ a ∈ l, position.all (· < key a) → a ∈ page
  full   : ∀ k, next = some k → ∃ front last, page = front ++ [last] ∧ key last = k ∧ page.length = limit ∧
    ∀ a ∈ l, position.all (· < key a) → key a ≤ k → a ∈ page

theorem page_keysetPage (hl : 0 < limit) (h : (l.map key).Nodup) :
    Page key limit l position (keysetPage key limit l position).fst (keysetPage key limit l position).snd := by
  have hstrict : (behind key l position).Pairwise (key · < key ·) := behind_strict h
  constructor
  case sorted =>
    rw [keysetPage_fst]
    exact hstrict.sublist (List.take_sublist _ _)
  case sound =>
    intro a ha
    rw [keysetPage_fst] at ha
    exact mem_behind.mp (List.mem_of_mem_take ha)
  case whole =>
    intro hnone a ha hp
    rw [keysetPage_none hl hnone]
    exact mem_behind.mpr ⟨ha, hp⟩
  case full =>
    intro k hsome
    obtain ⟨front, last, rest, hpage, rfl, hbehind, hlen, -⟩ := keysetPage_some hsome
    refine ⟨front, last, hpage, rfl, by rw [hpage, hlen], fun a ha hp hle => ?_⟩
    have hmem := mem_behind.mpr ⟨ha, hp⟩
    rw [hbehind] at hmem hstrict
    rw [hpage]
    cases List.mem_append.mp hmem
    case inl hm => exact List.mem_append_left _ hm
    case inr hm =>
      cases List.mem_cons.mp hm
      case inl he => exact List.mem_append_right _ (List.mem_singleton.mpr he)
      case inr hm =>
        have hlt := (List.pairwise_cons.mp (List.pairwise_append.mp hstrict).right.left).left a hm
        exact absurd hle (not_le.mpr hlt)

-- What has been read up to a key: no row twice, no row that never was there, and each row that was there throughout,
-- whatever else of it has changed.
structure Covered (rows : σ → List α) (key : α → κ) (served : List σ) (items : List α) (upTo : κ → Prop) : Prop where
  sorted   : items.Pairwise (key · < key ·)
  sound    : ∀ a ∈ items, ∃ s ∈ served, a ∈ rows s
  complete : ∀ k, (∀ s ∈ served, k ∈ (rows s).map key) → upTo k → k ∈ items.map key

theorem Keyset.read (hk : Keyset call rows key token limit snapshots) (hl : 0 < limit)
    (h : Read call served items next) (hs : ∀ s ∈ served, s ∈ snapshots) :
    (next = none ∧ Covered rows key served items fun _ => True) ∨
    ∃ front last, items = front ++ [last] ∧ next = some (token (key last)) ∧
      items.length = limit * served.length ∧ Covered rows key served items fun k => k ≤ key last := by
  induction h
  case first s items next hc =>
    have hs : s ∈ snapshots := hs s (by simp)
    have hp : Page key limit (rows s) none _ _ := page_keysetPage hl (hk.nodup s hs)
    rw [hk.first s hs, Except.ok.injEq, Prod.map_def, Prod.mk.injEq] at hc
    obtain ⟨hitems, rfl⟩ := hc
    rw [id_eq] at hitems
    rw [hitems] at hp
    cases hn : (keysetPage key limit (rows s) none).snd
    case none =>
      refine .inl ⟨rfl, hp.sorted, fun a ha => ⟨s, by simp, (hp.sound a ha).left⟩, fun k hall _ => ?_⟩
      obtain ⟨a, ha, rfl⟩ := List.mem_map.mp (hall s (by simp))
      exact List.mem_map_of_mem (hp.whole hn a ha rfl)
    case some k =>
      obtain ⟨front, last, hlast, rfl, hlen, hfull⟩ := hp.full k hn
      refine .inr ⟨front, last, hlast, rfl, by simpa using hlen, hp.sorted, ?_, ?_⟩
      · exact fun a ha => ⟨s, by simp, (hp.sound a ha).left⟩
      · intro k hall hle
        obtain ⟨a, ha, rfl⟩ := List.mem_map.mp (hall s (by simp))
        exact List.mem_map_of_mem (hfull a ha rfl hle)
  case next served items t s more next hr hc ih =>
    have ih := ih fun x hx => hs x (by simp [hx])
    have hmem : s ∈ snapshots := hs s (by simp)
    obtain ⟨hnone, -⟩ | ⟨front, last, hitems, ht, hlen, hcovered⟩ := ih
    · cases hnone
    · cases ht
      obtain ⟨s₀, hs₀, hlast⟩ := hcovered.sound last (by simp [hitems])
      have hp : Page key limit (rows s) (some (key last)) _ _ := page_keysetPage hl (hk.nodup s hmem)
      rw [hk.again s₀ (hs s₀ (by simp [hs₀])) last hlast s hmem, Except.ok.injEq, Prod.map_def, Prod.mk.injEq] at hc
      obtain ⟨hmore, rfl⟩ := hc
      rw [id_eq] at hmore
      rw [hmore] at hp
      have hle : ∀ a ∈ items, key a ≤ key last := by
        intro a ha
        have hsorted := hcovered.sorted
        rw [hitems] at ha hsorted
        cases List.mem_append.mp ha
        case inl ha => exact ((List.pairwise_append.mp hsorted).right.right a ha last (by simp)).le
        case inr ha => exact (List.mem_singleton.mp ha ▸ le_rfl)
      have hlt : ∀ b ∈ more, key last < key b := fun b hb => by simpa using (hp.sound b hb).right
      have hsorted : (items ++ more).Pairwise (key · < key ·) :=
        List.pairwise_append.mpr ⟨hcovered.sorted, hp.sorted, fun a ha b hb => lt_of_le_of_lt (hle a ha) (hlt b hb)⟩
      have hsound : ∀ a ∈ items ++ more, ∃ x ∈ served ++ [s], a ∈ rows x := by
        intro a ha
        cases List.mem_append.mp ha
        case inl ha =>
          obtain ⟨x, hx, hax⟩ := hcovered.sound a ha
          exact ⟨x, List.mem_append_left _ hx, hax⟩
        case inr ha => exact ⟨s, by simp, (hp.sound a ha).left⟩
      have hold : ∀ k, (∀ x ∈ served ++ [s], k ∈ (rows x).map key) → k ≤ key last → k ∈ (items ++ more).map key := by
        intro k hall hle
        rw [List.map_append]
        exact List.mem_append_left _ (hcovered.complete k (fun x hx => hall x (by simp [hx])) hle)
      cases hn : (keysetPage key limit (rows s) (some (key last))).snd
      case none =>
        refine .inl ⟨rfl, hsorted, hsound, fun k hall _ => ?_⟩
        cases le_or_gt k (key last)
        case inl hle => exact hold k hall hle
        case inr hgt =>
          obtain ⟨a, ha, rfl⟩ := List.mem_map.mp (hall s (by simp))
          exact List.mem_map_of_mem (List.mem_append_right _ (hp.whole hn a ha (by simpa using hgt)))
      case some k =>
        obtain ⟨front', last', hmore', rfl, hlen', hfull⟩ := hp.full k hn
        refine .inr ⟨items ++ front', last', by rw [hmore', List.append_assoc], rfl, ?_, hsorted, hsound, ?_⟩
        · rw [List.length_append, List.length_append, List.length_singleton, Nat.mul_succ, hlen, hlen']
        · intro k hall hle
          cases le_or_gt k (key last)
          case inl hle => exact hold k hall hle
          case inr hgt =>
            obtain ⟨a, ha, rfl⟩ := List.mem_map.mp (hall s (by simp))
            exact List.mem_map_of_mem (List.mem_append_right _ (hfull a ha (by simpa using hgt) hle))

-- A page is always followed, whatever has become of the rows.
theorem Keyset.progress {t : τ} {s : σ} (hk : Keyset call rows key token limit snapshots) (hl : 0 < limit)
    (h : Read call served items (some t)) (hs : ∀ s ∈ served, s ∈ snapshots) (hm : s ∈ snapshots) :
    ∃ more next, call s (some t) = .ok (more, next) := by
  obtain ⟨hnone, -⟩ | ⟨front, last, hitems, ht, -, hcovered⟩ := hk.read hl h hs
  · cases hnone
  · cases ht
    obtain ⟨s₀, hs₀, hlast⟩ := hcovered.sound last (by simp [hitems])
    exact ⟨_, _, hk.again s₀ (hs s₀ hs₀) last hlast s hm⟩

-- The first item is of the first snapshot.
theorem Keyset.head {s₀ : σ} (hk : Keyset call rows key token limit snapshots) (hl : 0 < limit)
    (h : Read call served items next) (hs : ∀ s ∈ served, s ∈ snapshots) (h₀ : served.head? = some s₀) :
    (∀ a ∈ items.head?, a ∈ rows s₀) ∧ (items = [] → next = none) := by
  induction h
  case first s items next hc =>
    obtain rfl := Option.some.inj h₀
    have hs : s ∈ snapshots := hs s (by simp)
    have hp : Page key limit (rows s) none _ _ := page_keysetPage hl (hk.nodup s hs)
    rw [hk.first s hs, Except.ok.injEq, Prod.map_def, Prod.mk.injEq] at hc
    obtain ⟨hitems, rfl⟩ := hc
    rw [id_eq] at hitems
    rw [hitems] at hp
    refine ⟨fun a ha => (hp.sound a (List.mem_of_mem_head? ha)).left, ?_⟩
    rintro rfl
    cases hn : (keysetPage key limit (rows s) none).snd
    case none   => rfl
    case some k =>
      obtain ⟨front, last, hlast, -⟩ := hp.full k hn
      exact absurd hlast.symm (by simp)
  case next served items t s more next hr hc ih =>
    have hne := hr.ne_nil
    rw [List.head?_append_of_ne_nil _ hne] at h₀
    obtain ⟨hhead, hempty⟩ := ih (fun x hx => hs x (by simp [hx])) h₀
    have hitems : items ≠ [] := fun he => nomatch hempty he
    constructor
    · rw [List.head?_append_of_ne_nil _ hitems]
      exact hhead
    · intro he
      exact absurd (List.append_eq_nil_iff.mp he).left hitems

-- Where rows are only deleted, and added in front of all others, the pages come to an end.
theorem Keyset.bounded {s₀ : σ} (hk : Keyset call rows key token limit snapshots) (hl : 0 < limit)
    (h : Read call served items next) (hs : ∀ s ∈ served, s ∈ snapshots) (h₀ : served.head? = some s₀)
    (hnew : ∀ s ∈ served, ∀ a ∈ rows s, key a ∈ (rows s₀).map key ∨ ∀ b ∈ rows s₀, key a < key b)
    (hnext : next ≠ none) : limit * served.length ≤ (rows s₀).length := by
  obtain ⟨hnone, -⟩ | ⟨front, last, -, -, hlen, hcovered⟩ := hk.read hl h hs
  · exact absurd hnone hnext
  · have hhead := (hk.head hl h hs h₀).left
    have hsub : items.map key ⊆ (rows s₀).map key := by
      intro k hk
      obtain ⟨a, ha, rfl⟩ := List.mem_map.mp hk
      obtain ⟨s, hs, has⟩ := hcovered.sound a ha
      cases hnew s hs a has
      case inl hmem => exact hmem
      case inr hlt  =>
        have hsorted := hcovered.sorted
        cases items
        case nil         => cases ha
        case cons b rest =>
          have hb := hhead b rfl
          cases List.mem_cons.mp ha
          case inl he => exact he ▸ List.mem_map_of_mem hb
          case inr hm =>
            have := (List.pairwise_cons.mp hsorted).left a hm
            exact absurd (hlt b hb) (lt_asymm this)
    have hn : (items.map key).Nodup :=
      List.pairwise_map.mpr (hcovered.sorted.imp fun hab he => absurd (he ▸ hab) (lt_irrefl _))
    have hle := (List.subperm_of_subset hn hsub).length_le
    rwa [List.length_map, List.length_map, hlen] at hle

-- So every reading of them does, after no more pages than the rows of the first snapshot can fill and one.
theorem Keyset.ends (hk : Keyset call rows key token limit snapshots) (hl : 0 < limit) (f : Nat → σ)
    (hf : ∀ i, f i ∈ snapshots)
    (hnew : ∀ i, ∀ a ∈ rows (f i), key a ∈ (rows (f 0)).map key ∨ ∀ b ∈ rows (f 0), key a < key b) :
    ∃ n items, n ≤ (rows (f 0)).length / limit + 1 ∧ Read call ((List.range n).map f) items none := by
  -- Up to any page, the reading has ended or goes on.
  have hgoes : ∀ n, (∃ m items, m ≤ n + 1 ∧ Read call ((List.range m).map f) items none) ∨
      ∃ items t, Read call ((List.range (n + 1)).map f) items (some t) := by
    intro n
    induction n
    case zero =>
      have hfirst : Read call ((List.range 1).map f) _ _ := .first (hk.first (f 0) (hf 0))
      generalize hnext : Option.map token _ = next at hfirst
      cases next
      case none   => exact .inl ⟨1, _, le_rfl, hfirst⟩
      case some t => exact .inr ⟨_, t, hfirst⟩
    case succ n ih =>
      obtain ⟨m, items, hm, hread⟩ | ⟨items, t, hread⟩ := ih
      · exact .inl ⟨m, items, Nat.le_succ_of_le hm, hread⟩
      · have hserved : ∀ s ∈ (List.range (n + 1)).map f, s ∈ snapshots := by
          intro s hs
          obtain ⟨i, -, rfl⟩ := List.mem_map.mp hs
          exact hf i
        obtain ⟨more, next, hc⟩ := hk.progress hl hread hserved (hf (n + 1))
        have hnext := Read.next hread hc
        rw [← List.map_singleton, ← List.map_append, ← List.range_succ] at hnext
        cases next
        case none   => exact .inl ⟨n + 2, _, le_rfl, hnext⟩
        case some t => exact .inr ⟨_, t, hnext⟩
  obtain h | ⟨items, t, hread⟩ := hgoes ((rows (f 0)).length / limit)
  · obtain ⟨m, items, hm, hread⟩ := h
    exact ⟨m, items, hm, hread⟩
  · have hhead : ((List.range ((rows (f 0)).length / limit + 1)).map f).head? = some (f 0) := by
      rw [List.range_succ_eq_map]
      rfl
    have hb := hk.bounded hl hread ?_ hhead ?_ nofun
    · rw [List.length_map, List.length_range] at hb
      have := Nat.lt_mul_div_succ (rows (f 0)).length hl
      exact absurd hb (Nat.not_le.mpr this)
    · intro s hs
      obtain ⟨i, -, rfl⟩ := List.mem_map.mp hs
      exact hf i
    · intro s hs
      obtain ⟨i, -, rfl⟩ := List.mem_map.mp hs
      exact hnew i

end Keysets

end Paging
