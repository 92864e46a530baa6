import Mathlib.Logic.Basic
import Mathlib.Tactic.Common

-- Statements on a connection. What a statement has written stays written when a later one raises;
-- only the end of the session decides what becomes of it.
def Session (σ ε α : Type) := σ → Except ε α × σ

namespace Session

variable {σ ε α β : Type}

instance : Monad (Session σ ε) where
  pure a     := fun s => (.ok a, s)
  bind x f   := fun s =>
    match x s with
    | (.ok a, s')    => f a s'
    | (.error e, s') => (.error e, s')

def query (f : σ → α) : Session σ ε α :=
  fun s => (.ok (f s), s)

def write (g : σ → σ) : Session σ ε Unit :=
  fun s => (.ok (), g s)

def raise (e : ε) : Session σ ε α :=
  fun s => (.error e, s)

-- `if not c: raise e`.
def require (c : Prop) [Decidable c] (e : ε) : Session σ ε Unit :=
  if c then pure () else raise e

-- `if row is None: raise e`.
def find (o : Option α) (e : ε) : Session σ ε α :=
  match o with
  | some a => pure a
  | none   => raise e

-- A call that reads and writes nothing.
def lift (x : Except ε α) : Session σ ε α :=
  fun s => (x, s)

-- The end of a session: its writes are committed, or all of them are rolled back.
def commit (x : Session σ ε α) (s : σ) : Except ε α × σ :=
  match x s with
  | (.ok a, s')   => (.ok a, s')
  | (.error e, _) => (.error e, s)

-- The session runs from `s` to its end, where it returns `a`.
def Returns (x : Session σ ε α) (s : σ) (a : α) (s' : σ) : Prop :=
  x s = (.ok a, s')

-- The session stops with an exception.
def Raises (x : Session σ ε α) (s : σ) (e : ε) : Prop :=
  (x s).fst = .error e

variable {x : Session σ ε α} {f : α → Session σ ε β} {s s' s'' : σ} {a a' : α} {b : β} {e : ε}

theorem commit_eq_ok : x.commit s = (.ok a, s') ↔ x.Returns s a s' := by
  unfold commit Returns
  split <;> simp_all

theorem snd_commit_of_error (h : (x.commit s).fst = .error e) : (x.commit s).snd = s := by
  unfold commit at h ⊢
  split at h <;> simp_all

-- An exception after some statements have returned.
theorem raises_bind (h : x.Returns s a s') (hf : (f a).Raises s' e) : (x >>= f).Raises s e := by
  unfold Returns at h
  simpa [Raises, bind, h] using hf

theorem raises_find_none : (find none e >>= f).Raises s e :=
  rfl

section Rules

@[simp]
theorem returns_pure : (pure a : Session σ ε α).Returns s a' s' ↔ a = a' ∧ s = s' := by
  simp [Returns, pure]

-- A sequence of statements returns exactly if its first statement does and the rest does after it.
@[simp]
theorem returns_bind :
    (x >>= f).Returns s b s'' ↔ ∃ a s', x.Returns s a s' ∧ (f a).Returns s' b s'' := by
  simp only [Returns, bind]
  obtain ⟨r, s₁⟩ := x s
  cases r <;> simp

@[simp]
theorem returns_query {g : σ → α} : (query g : Session σ ε α).Returns s a s' ↔ g s = a ∧ s = s' := by
  simp [Returns, query]

@[simp]
theorem returns_write {g : σ → σ} {u : Unit} :
    (write g : Session σ ε Unit).Returns s u s' ↔ g s = s' := by
  simp [Returns, write]

@[simp]
theorem returns_raise : (raise e : Session σ ε α).Returns s a s' ↔ False := by
  simp [Returns, raise]

@[simp]
theorem returns_require {c : Prop} [Decidable c] {u : Unit} :
    (require c e : Session σ ε Unit).Returns s u s' ↔ c ∧ s = s' := by
  unfold require
  split <;> simp_all

@[simp]
theorem returns_find {o : Option α} :
    (find o e : Session σ ε α).Returns s a s' ↔ o = some a ∧ s = s' := by
  cases o <;> simp [find]

@[simp]
theorem returns_lift {r : Except ε α} :
    (lift r : Session σ ε α).Returns s a s' ↔ r = .ok a ∧ s = s' := by
  simp [Returns, lift]

@[simp]
theorem returns_discard {u : Unit} : (discard x).Returns s u s' ↔ ∃ a, x.Returns s a s' := by
  change (x >>= fun _ => pure ()).Returns s u s' ↔ _
  simp

section Sequences

-- The statements that leave the state alone, followed by others.
variable {γ : Type} {f : γ → Session σ ε β}

theorem returns_query_bind {g : σ → γ} :
    (query g >>= f).Returns s b s' ↔ (f (g s)).Returns s b s' := by
  simp

theorem returns_require_bind {c : Prop} [Decidable c] {f : Unit → Session σ ε β} :
    (require c e >>= f).Returns s b s' ↔ c ∧ (f ()).Returns s b s' := by
  simp only [returns_bind, returns_require]
  exact ⟨fun ⟨_, _, ⟨hc, rfl⟩, h⟩ => ⟨hc, h⟩, fun ⟨hc, h⟩ => ⟨_, _, ⟨hc, rfl⟩, h⟩⟩

theorem returns_find_bind {o : Option γ} :
    (find o e >>= f).Returns s b s' ↔ ∃ a, o = some a ∧ (f a).Returns s b s' := by
  simp

theorem returns_lift_bind {r : Except ε γ} :
    (lift r >>= f).Returns s b s' ↔ ∃ a, r = .ok a ∧ (f a).Returns s b s' := by
  simp

theorem returns_write_bind {g : σ → σ} {f : Unit → Session σ ε β} :
    (write g >>= f).Returns s b s' ↔ (f ()).Returns (g s) b s' := by
  simp only [returns_bind, returns_write]
  exact ⟨fun ⟨_, _, rfl, h⟩ => h, fun h => ⟨_, _, rfl, h⟩⟩

end Sequences

-- The rule for a loop all of whose passes preserve a relation to the state before the loop.
theorem forM_relation {R : σ → σ → Prop} {l : List α} {f : α → Session σ ε Unit} {u : Unit}
    (hr : ∀ s, R s s) (ht : ∀ s₁ s₂ s₃, R s₁ s₂ → R s₂ s₃ → R s₁ s₃)
    (hs : ∀ s, ∀ a ∈ l, ∀ u s', (f a).Returns s u s' → R s s') (h : (l.forM f).Returns s u s') :
    R s s' := by
  induction l generalizing s
  case nil =>
    simp only [List.forM, returns_pure] at h
    exact h.right ▸ hr s
  case cons a l ih =>
    simp only [List.forM, returns_bind] at h
    obtain ⟨_, s₁, h₁, h₂⟩ := h
    refine ht _ _ _ (hs _ _ (by simp) _ _ h₁) (ih ?_ h₂)
    exact fun s b hb => hs s b (by simp [hb])

end Rules

end Session
