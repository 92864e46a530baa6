import Mathlib.Data.Set.Basic

-- Nodes that belong together in groups, where a node belongs to one group at most.
structure Components (ν : Type) where
  Together : ν → ν → Prop
  symm     : ∀ {x y}, Together x y → Together y x
  trans    : ∀ {x y z}, Together x y → Together y z → Together x z

namespace Components

variable {ν κ : Type} (c : Components ν) {x y : ν}

-- No node belongs to a group.
def empty : Components ν where
  Together _ _ := False
  symm h       := h
  trans h _    := h

-- The node is one of these, or belongs together with one.
def Meets (nodes : Set ν) (x : ν) : Prop :=
  x ∈ nodes ∨ ∃ y ∈ nodes, c.Together x y

variable {c} {nodes stays anchors : Set ν}

theorem Meets.of_together (h : c.Together x y) (hm : c.Meets nodes y) : c.Meets nodes x := by
  obtain hy | ⟨z, hz, hyz⟩ := hm
  · exact .inr ⟨y, hy, h⟩
  · exact .inr ⟨z, hz, c.trans h hyz⟩

variable (c)

-- The groups of these nodes become one group, to which all of the nodes belong.
def unite (nodes : Set ν) : Components ν where
  Together x y := c.Together x y ∨ c.Meets nodes x ∧ c.Meets nodes y
  symm         := by
    rintro x y (h | ⟨hx, hy⟩)
    · exact .inl (c.symm h)
    · exact .inr ⟨hy, hx⟩
  trans        := by
    rintro x y z (hxy | ⟨hx, hy⟩) (hyz | ⟨hy', hz⟩)
    · exact .inl (c.trans hxy hyz)
    · exact .inr ⟨hy'.of_together hxy, hz⟩
    · exact .inr ⟨hx, hy.of_together (c.symm hyz)⟩
    · exact .inr ⟨hx, hz⟩

-- Nodes go away, and so do the groups that are left without an anchor.
def keep (stays anchors : Set ν) : Components ν where
  Together x y := c.Together x y ∧ x ∈ stays ∧ y ∈ stays ∧ ∃ a ∈ anchors, c.Together x a
  symm         := by
    rintro x y ⟨h, hx, hy, a, ha, hxa⟩
    exact ⟨c.symm h, hy, hx, a, ha, c.trans (c.symm h) hxa⟩
  trans        := by
    rintro x y z ⟨hxy, hx, -, a, ha, hxa⟩ ⟨hyz, -, hz, -⟩
    exact ⟨c.trans hxy hyz, hx, hz, a, ha, hxa⟩

section Labels

-- The nodes of a group are those with its label.
def Labelled (label : ν → Option κ) : Prop :=
  ∀ x y, c.Together x y ↔ ∃ k, label x = some k ∧ label y = some k

variable {c} {label label' : ν → Option κ} {keys : Set κ} {survivor : κ}

theorem labelled_empty (h : ∀ x, label x = none) : (empty : Components ν).Labelled label := by
  intro x y
  rw [h x]
  exact ⟨False.elim, fun ⟨_, hx, _⟩ => nomatch hx⟩

-- Nodes of these, and of the groups with these labels, get the label of the group that is formed.
def Relabels (nodes : Set ν) (keys : Set κ) (survivor : κ) (label label' : ν → Option κ) : Prop :=
  ∀ x k', label' x = some k' ↔
    (∃ k, label x = some k ∧ (k ∈ keys ∧ k' = survivor ∨ k ∉ keys ∧ k' = k)) ∨
      label x = none ∧ x ∈ nodes ∧ k' = survivor

-- The labels are those of the groups that the nodes are in, and perhaps one that is new.
structure Sources (nodes : Set ν) (keys : Set κ) (label : ν → Option κ) : Prop where
  complete : ∀ x ∈ nodes, ∀ k, label x = some k → k ∈ keys
  sound    : ∀ k ∈ keys, (∃ x ∈ nodes, label x = some k) ∨ ∀ x, label x ≠ some k

theorem Labelled.meets_iff (h : c.Labelled label) (hs : Sources nodes keys label) :
    c.Meets nodes x ↔ x ∈ nodes ∨ ∃ k ∈ keys, label x = some k := by
  constructor
  case mp =>
    rintro (hx | ⟨y, hy, hxy⟩)
    · exact .inl hx
    · obtain ⟨k, hx, hk⟩ := (h x y).mp hxy
      exact .inr ⟨k, hs.complete y hy k hk, hx⟩
  case mpr =>
    rintro (hx | ⟨k, hkey, hx⟩)
    · exact .inl hx
    · obtain ⟨y, hy, hyk⟩ | hfree := hs.sound k hkey
      · exact .inr ⟨y, hy, (h x y).mpr ⟨k, hx, hyk⟩⟩
      · exact absurd hx (hfree x)

theorem Relabels.label_of_meets (hr : Relabels nodes keys survivor label label') (h : c.Labelled label)
    (hs : Sources nodes keys label) (hx : c.Meets nodes x) : label' x = some survivor := by
  apply (hr x survivor).mpr
  cases hl : label x
  case none   =>
    obtain hx | ⟨k, -, hk⟩ := (h.meets_iff hs).mp hx
    · exact .inr ⟨rfl, hx, rfl⟩
    · exact absurd (hl.symm.trans hk) (Option.some_ne_none k).symm
  case some k =>
    refine .inl ⟨k, rfl, .inl ⟨?_, rfl⟩⟩
    obtain hx | ⟨k', hk', hx⟩ := (h.meets_iff hs).mp hx
    · exact hs.complete x hx k hl
    · obtain rfl := Option.some.inj (hl.symm.trans hx)
      exact hk'

theorem Relabels.label_of_not_meets (hr : Relabels nodes keys survivor label label') (h : c.Labelled label)
    (hs : Sources nodes keys label) (hx : ¬c.Meets nodes x) : label' x = label x := by
  have hout := fun ho => hx ((h.meets_iff hs).mpr ho)
  apply Option.ext
  intro k'
  rw [hr x k']
  constructor
  case mp =>
    rintro (⟨k, hk, ⟨hkey, -⟩ | ⟨-, rfl⟩⟩ | ⟨-, hn, -⟩)
    · exact absurd (.inr ⟨k, hkey, hk⟩) hout
    · exact hk
    · exact absurd (.inl hn) hout
  case mpr =>
    intro hk
    exact .inl ⟨k', hk, .inr ⟨fun hkey => hout (.inr ⟨k', hkey, hk⟩), rfl⟩⟩

-- To unite groups, one of their labels, or a new one, is given to all of their nodes.
theorem Labelled.unite (h : c.Labelled label) (hs : Sources nodes keys label) (hk : survivor ∈ keys)
    (hr : Relabels nodes keys survivor label label') : (c.unite nodes).Labelled label' := by
  have hin : ∀ {z}, c.Meets nodes z → label' z = some survivor := hr.label_of_meets h hs
  have hout : ∀ {z}, ¬c.Meets nodes z → label' z = label z := hr.label_of_not_meets h hs
  have hfree : ∀ {z}, ¬c.Meets nodes z → label z ≠ some survivor :=
    fun hz hl => hz ((h.meets_iff hs).mpr (.inr ⟨survivor, hk, hl⟩))
  intro x y
  by_cases hx : c.Meets nodes x <;> by_cases hy : c.Meets nodes y
  · exact iff_of_true (.inr ⟨hx, hy⟩) ⟨survivor, hin hx, hin hy⟩
  · refine iff_of_false ?_ ?_
    · rintro (hxy | ⟨-, hy'⟩)
      · exact hy (hx.of_together (c.symm hxy))
      · exact hy hy'
    · rintro ⟨k, hxk, hyk⟩
      obtain rfl := Option.some.inj ((hin hx).symm.trans hxk)
      exact hfree hy ((hout hy).symm.trans hyk)
  · refine iff_of_false ?_ ?_
    · rintro (hxy | ⟨hx', -⟩)
      · exact hx (hy.of_together hxy)
      · exact hx hx'
    · rintro ⟨k, hxk, hyk⟩
      obtain rfl := Option.some.inj ((hin hy).symm.trans hyk)
      exact hfree hx ((hout hx).symm.trans hxk)
  · rw [hout hx, hout hy, ← h x y]
    exact ⟨fun hxy => hxy.resolve_right fun hm => hx hm.left, .inl⟩

theorem Labelled.unite_empty (h : c.Labelled label) : (c.unite ∅).Labelled label := by
  intro x y
  rw [← h x y]
  refine ⟨fun hxy => hxy.resolve_right ?_, .inl⟩
  rintro ⟨hx | ⟨z, hz, -⟩, -⟩
  · exact hx
  · exact hz

theorem Labelled.keep (h : c.Labelled label)
    (hl : ∀ x k, label' x = some k ↔ label x = some k ∧ x ∈ stays ∧ ∃ a ∈ anchors, label a = some k) :
    (c.keep stays anchors).Labelled label' := by
  intro x y
  constructor
  case mp =>
    rintro ⟨hxy, hx, hy, a, ha, hxa⟩
    obtain ⟨k, hxk, hyk⟩ := (h x y).mp hxy
    obtain ⟨k', hxk', hak⟩ := (h x a).mp hxa
    obtain rfl := Option.some.inj (hxk.symm.trans hxk')
    exact ⟨k, (hl x k).mpr ⟨hxk, hx, a, ha, hak⟩, (hl y k).mpr ⟨hyk, hy, a, ha, hak⟩⟩
  case mpr =>
    rintro ⟨k, hx, hy⟩
    obtain ⟨hxk, hx, a, ha, hak⟩ := (hl x k).mp hx
    obtain ⟨hyk, hy, -⟩ := (hl y k).mp hy
    exact ⟨(h x y).mpr ⟨k, hxk, hyk⟩, hx, hy, a, ha, (h x a).mpr ⟨k, hxk, hak⟩⟩

end Labels

end Components
