import Mathlib.Data.List.Basic

-- JSON values, over the strings and the numbers of a language.
inductive Json (σ ν : Type)
  | null
  | bool   (b : Bool)
  | number (n : ν)
  | string (s : σ)
  | array  (items : List (Json σ ν))
  | object (members : List (σ × Json σ ν))
  deriving Repr

namespace Json

variable {σ ν : Type} [DecidableEq σ]

def member (j : Json σ ν) (k : σ) : Option (Json σ ν) :=
  match j with
  | object members => (members.find? (·.fst = k)).map Prod.snd
  | _              => none

section Readers

variable {α : Type}

def asString : Json σ ν → Option σ
  | string s => some s
  | _        => none

def asArray : Json σ ν → Option (List (Json σ ν))
  | array items => some items
  | _           => none

-- A value, or `null`.
def nullable (f : Json σ ν → Option α) : Json σ ν → Option (Option α)
  | null => some none
  | j    => (f j).map some

def items (f : Json σ ν → Option α) (j : Json σ ν) : Option (List α) :=
  j.asArray.bind (·.mapM f)

-- The members of an object that has none but the given names, and none of these twice.
def fields (names : List σ) : Json σ ν → Option (σ → Option (Json σ ν))
  | object members =>
    if (members.map Prod.fst).Nodup ∧ members.map Prod.fst ⊆ names then some (object members).member else none
  | _              => none

-- An object that has just the given names.
theorem fields_object {members : List (σ × Json σ ν)} {names : List σ} (h : members.map Prod.fst = names)
    (hn : names.Nodup) : (object members).fields names = some (object members).member := by
  rw [fields, if_pos ⟨h ▸ hn, h ▸ List.Subset.refl _⟩]

def ofOption (f : α → Json σ ν) : Option α → Json σ ν
  | some a => f a
  | none   => null

omit [DecidableEq σ] in
@[simp]
theorem asString_string (s : σ) : (string s : Json σ ν).asString = some s :=
  rfl

omit [DecidableEq σ] in
@[simp]
theorem nullable_string (o : Option σ) :
    (ofOption string o : Json σ ν).nullable asString = some o := by
  cases o <;> rfl

omit [DecidableEq σ] in
-- Where every item can be read, the array can.
theorem items_of_forall {f : Json σ ν → Option α} {P : α → Prop} {l : List (Json σ ν)}
    (h : ∀ j ∈ l, ∃ a, f j = some a ∧ P a) : ∃ as, (array l).items f = some as ∧ ∀ a ∈ as, P a := by
  change ∃ as, l.mapM f = some as ∧ ∀ a ∈ as, P a
  induction l
  case nil          => exact ⟨[], rfl, nofun⟩
  case cons j l ih =>
    obtain ⟨a, ha, hp⟩ := h j List.mem_cons_self
    obtain ⟨as, has, hall⟩ := ih fun j hj => h j (List.mem_cons_of_mem _ hj)
    refine ⟨a :: as, ?_, List.forall_mem_cons.mpr ⟨hp, hall⟩⟩
    rw [List.mapM_cons, ha, has]
    rfl

end Readers

-- How many members an object has.
def size (j : Json σ ν) : Nat :=
  match j with
  | object members => members.length
  | _              => 0

end Json
