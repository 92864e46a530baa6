import EmailWatcher.SourceLocks.Exclusion

-- The units of a cleanup in groups that can be locked together.
namespace SourceLocks

open Script

section Groups

-- A unit is a key with its rows, which are deleted together or not at all.
structure CleanupUnit (κ : Type) where
  key  : κ
  rows : List String
  deriving DecidableEq, Repr

structure Group (κ : Type) where
  keys : List κ
  rows : List String
  deriving DecidableEq, Repr

variable {κ : Type}

-- `sorted` of a set.
def sorted (rows : List String) : List String :=
  rows.dedup.mergeSort

-- The group that is being collected.
structure Collected (κ : Type) where
  keys : List κ       := []
  rows : List String  := []

def Collected.add (g : Collected κ) (u : CleanupUnit κ) : Collected κ where
  keys := g.keys ++ [u.key]
  rows := g.rows ++ u.rows

def Collected.close (g : Collected κ) : List (Group κ) :=
  if g.keys = [] then [] else [⟨g.keys, sorted g.rows⟩]

-- Whether a unit would make a group too large that is not empty.
def Collected.full (g : Collected κ) (u : CleanupUnit κ) : Option Nat → Bool
  | none       => false
  | some limit => g.keys ≠ [] && (g.rows ++ u.rows).dedup.length > limit

def cleanupGroups (legacyLimit : Option Nat) : List (CleanupUnit κ) → Collected κ → List (Group κ)
  | [],      g => g.close
  | u :: us, g =>
    if g.full u legacyLimit then g.close ++ cleanupGroups legacyLimit us ((⟨[], []⟩ : Collected κ).add u)
    else cleanupGroups legacyLimit us (g.add u)

-- The group of the units of a list.
def Group.of (us : List (CleanupUnit κ)) : Group κ where
  keys := us.map (·.key)
  rows := sorted (us.flatMap (·.rows))

def Collected.of (us : List (CleanupUnit κ)) : Collected κ where
  keys := us.map (·.key)
  rows := us.flatMap (·.rows)

variable {us b : List (CleanupUnit κ)} {u : CleanupUnit κ} {limit : Option Nat} {L : Nat}

theorem length_sorted {rows : List String} : (sorted rows).length = rows.dedup.length :=
  List.length_mergeSort _

theorem dedup_sorted {rows : List String} : (sorted rows).dedup = sorted rows :=
  List.dedup_eq_self.mpr <| (List.mergeSort_perm _ _).nodup_iff.mpr (List.nodup_dedup _)

theorem Collected.of_add : (Collected.of us).add u = Collected.of (us ++ [u]) := by
  simp [Collected.of, Collected.add]

theorem Collected.close_of : (Collected.of us).close = if us = [] then [] else [Group.of us] := by
  simp [Collected.of, Collected.close, Group.of]

-- A group is larger than allowed only where it is of one unit.
def Bounded (limit : Option Nat) (us : List (CleanupUnit κ)) : Prop :=
  ∀ L, limit = some L → L < (Group.of us).rows.length → us.length ≤ 1

theorem Bounded.concat (h : (Collected.of us).full u limit = false) : Bounded limit (us ++ [u]) := by
  rintro L rfl hlong
  by_contra hmany
  have hne : us ≠ [] := by
    rintro rfl
    exact hmany le_rfl
  simp [Collected.full, Collected.of, hne] at h
  simp [Group.of, length_sorted] at hlong
  omega

-- The groups are the lists of a partition of the units.
structure Partition (limit : Option Nat) (units : List (CleanupUnit κ)) (groups : List (Group κ))
    (blocks : List (List (CleanupUnit κ))) : Prop where
  flatten  : blocks.flatten = units
  groups   : groups = blocks.map Group.of
  nonempty : ∀ b ∈ blocks, b ≠ []
  bounded  : ∀ b ∈ blocks, Bounded limit b

theorem cleanupGroups_of (units : List (CleanupUnit κ)) (hb : Bounded limit us) :
    ∃ blocks, Partition limit (us ++ units) (cleanupGroups limit units (.of us)) blocks := by
  induction units generalizing us
  case nil =>
    rw [cleanupGroups, Collected.close_of, List.append_nil]
    split
    case isTrue he  => exact ⟨[], by simp [he], rfl, nofun, nofun⟩
    case isFalse hn => exact ⟨[us], by simp, rfl, by simpa, by simpa⟩
  case cons u units ih =>
    rw [cleanupGroups]
    cases hf : (Collected.of us).full u limit
    case true =>
      have hne : us ≠ [] := by
        rintro rfl
        cases limit <;> simp [Collected.full, Collected.of] at hf
      have hone : Bounded limit [u] := fun _ _ _ => le_rfl
      obtain ⟨blocks, hp⟩ := ih hone
      refine ⟨us :: blocks, ?_, ?_, ?_, ?_⟩
      · simpa using hp.flatten
      · rw [if_pos rfl, Collected.close_of, if_neg hne, List.map_cons, ← hp.groups]
        simp [Collected.add, Collected.of]
      · simpa using ⟨hne, hp.nonempty⟩
      · simpa using ⟨hb, hp.bounded⟩
    case false =>
      obtain ⟨blocks, hp⟩ := ih (Bounded.concat hf)
      refine ⟨blocks, ?_, ?_, hp.nonempty, hp.bounded⟩
      · simpa using hp.flatten
      · rw [if_neg nofun, Collected.of_add, hp.groups]

-- What is held back is one unit, and that is too large.
theorem Bounded.held {ready : Bool} (hb : Bounded (some L) b) (hne : b ≠ [])
    (h : cleanupHeld ready (Group.of b).rows.dedup.length L = true) :
    ∃ u, b = [u] ∧ L < u.rows.dedup.length := by
  simp only [cleanupHeld, Bool.and_eq_true, decide_eq_true_eq] at h
  have hlong : L < (Group.of b).rows.length := by
    simpa [Group.of, dedup_sorted] using h.right
  have hone := hb L rfl hlong
  obtain ⟨u, rfl⟩ := List.length_eq_one_iff.mp
    (le_antisymm hone (List.length_pos_iff.mpr hne))
  refine ⟨u, rfl, ?_⟩
  simpa [Group.of, length_sorted] using hlong

-- Whatever any number of threads do, and whenever they die, no two of them are at the mail of one
-- message; and a cleanup takes its units whole, of which it holds back only those that are too large.
theorem source_exclusion [Codec] {ι : Type} [DecidableEq ι] (protocol : Option String)
    (as : List (Turn ι Task)) (limit : Option Nat) (units : List (CleanupUnit κ)) :
    Exclusive (after protocol as) ∧
    ∃ blocks, Partition limit units (cleanupGroups limit units ⟨[], []⟩) blocks ∧
      ∀ L, limit = some L → ∀ b ∈ blocks, ∀ ready,
        cleanupHeld ready (Group.of b).rows.dedup.length L = true →
        ∃ u, b = [u] ∧ L < u.rows.dedup.length := by
  have hnone : Bounded limit ([] : List (CleanupUnit κ)) := fun _ _ _ => Nat.zero_le _
  obtain ⟨blocks, hp⟩ := cleanupGroups_of units hnone
  refine ⟨(after_sound protocol as).exclusive, blocks, hp, ?_⟩
  rintro L rfl b hb ready h
  exact (hp.bounded b hb).held (hp.nonempty b hb) h

end Groups

end SourceLocks
