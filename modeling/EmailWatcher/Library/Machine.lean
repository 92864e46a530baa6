import Mathlib.Data.List.Induction

-- A machine whose actions are transactions: an action either commits a new state or fails, and a
-- failed action leaves the state it started from.
structure Machine (σ α ε : Type) where
  step : σ → α → Except ε σ

namespace Machine

variable {σ α ε : Type} (m : Machine σ α ε)

def next (s : σ) (a : α) : σ :=
  match m.step s a with
  | .ok s'   => s'
  | .error _ => s

-- An interleaving of any number of parties is the list of their actions in the order in which they
-- commit.
def run (s : σ) (as : List α) : σ :=
  as.foldl m.next s

variable {m} {s s' : σ} {a : α} {as bs : List α}

theorem next_of_ok (h : m.step s a = .ok s') : m.next s a = s' := by
  simp [next, h]

theorem next_of_error {e : ε} (h : m.step s a = .error e) : m.next s a = s := by
  simp [next, h]

-- Every property of the next state is a property of the committed or of the unchanged state.
theorem next_cases (m : Machine σ α ε) (s : σ) (a : α) :
    m.step s a = .ok (m.next s a) ∨ m.next s a = s := by
  cases h : m.step s a
  case ok    => exact .inl <| by rw [next_of_ok h]
  case error => exact .inr <| next_of_error h

@[simp]
theorem run_nil : m.run s [] = s :=
  rfl

@[simp]
theorem run_cons : m.run s (a :: as) = m.run (m.next s a) as :=
  rfl

theorem run_append : m.run s (as ++ bs) = m.run (m.run s as) bs :=
  List.foldl_append

theorem run_concat : m.run s (as ++ [a]) = m.next (m.run s as) a := by
  simp [run_append]

-- Every step of the run from `s` meets `C` in the state it is taken from.
def Guarded (m : Machine σ α ε) (C : σ → α → Prop) : σ → List α → Prop
  | _, []      => True
  | s, a :: as => C s a ∧ Guarded m C (m.next s a) as

-- Every state of the run from `s`, the first and the last included, meets `p`.
def Always (m : Machine σ α ε) (p : σ → Prop) : σ → List α → Prop
  | s, []      => p s
  | s, a :: as => p s ∧ Always m p (m.next s a) as

-- Some step of the run from `s` commits and is an `E`.
def Occurs (m : Machine σ α ε) (E : σ → α → σ → Prop) : σ → List α → Prop
  | _, []      => False
  | s, a :: as => (∃ s', m.step s a = .ok s' ∧ E s a s') ∨ Occurs m E (m.next s a) as

instance Guarded.decidable (m : Machine σ α ε) (C : σ → α → Prop) [∀ s a, Decidable (C s a)] :
    (s : σ) → (as : List α) → Decidable (m.Guarded C s as)
  | _, []      => .isTrue trivial
  | s, a :: as =>
    haveI := Guarded.decidable m C (m.next s a) as
    inferInstanceAs <| Decidable (C s a ∧ m.Guarded C (m.next s a) as)

instance Always.decidable (m : Machine σ α ε) (p : σ → Prop) [DecidablePred p] :
    (s : σ) → (as : List α) → Decidable (m.Always p s as)
  | s, []      => inferInstanceAs <| Decidable (p s)
  | s, a :: as =>
    haveI := Always.decidable m p (m.next s a) as
    inferInstanceAs <| Decidable (p s ∧ m.Always p (m.next s a) as)

-- The machine together with an observer, who keeps a log of the steps that commit.
def monitor {γ : Type} (m : Machine σ α ε) (u : γ → σ → α → σ → γ) : Machine (σ × γ) α ε where
  step x a := (fun s' => (s', u x.snd x.fst a s')) <$> m.step x.fst a

theorem monitor_step_eq_ok {γ : Type} {u : γ → σ → α → σ → γ} {x x' : σ × γ}
    (h : (m.monitor u).step x a = .ok x') :
    m.step x.fst a = .ok x'.fst ∧ x'.snd = u x.snd x.fst a x'.fst := by
  simp only [monitor] at h
  cases hs : m.step x.fst a
  case error e =>
    rw [hs] at h
    cases h
  case ok s' =>
    rw [hs] at h
    cases h
    exact ⟨rfl, rfl⟩

-- The observer does not interfere.
theorem fst_run_monitor {γ : Type} {u : γ → σ → α → σ → γ} (x : σ × γ) (as : List α) :
    ((m.monitor u).run x as).fst = m.run x.fst as := by
  induction as generalizing x
  case nil => rfl
  case cons a as ih =>
    rw [run_cons, run_cons, ih]
    congr 1
    simp only [next, monitor]
    cases m.step x.fst a <;> rfl

-- A guard that does not ask for the log holds with the observer as it does without.
theorem guarded_monitor {γ : Type} {u : γ → σ → α → σ → γ} {C : σ → α → Prop} {x : σ × γ} :
    (m.monitor u).Guarded (fun x a => C x.fst a) x as ↔ m.Guarded C x.fst as := by
  induction as generalizing x
  case nil          => rfl
  case cons a as ih =>
    have hnext : ((m.monitor u).next x a).fst = m.next x.fst a := fst_run_monitor x [a]
    simp only [Guarded, ih, hnext]

section Rules

variable {I p : σ → Prop} {C : σ → α → Prop} {E : σ → α → σ → Prop}

theorem Always.head : {as : List α} → m.Always p s as → p s
  | [],     h => h
  | _ :: _, h => h.left

theorem Always.last (h : m.Always p s as) : p (m.run s as) := by
  induction as generalizing s
  case nil          => exact h
  case cons a as ih => exact ih h.right

theorem Guarded.append :
    m.Guarded C s (as ++ bs) ↔ m.Guarded C s as ∧ m.Guarded C (m.run s as) bs := by
  induction as generalizing s
  case nil          => simp [Guarded]
  case cons a as ih => simp [Guarded, ih, and_assoc]

theorem Occurs.append :
    m.Occurs E s (as ++ bs) ↔ m.Occurs E s as ∨ m.Occurs E (m.run s as) bs := by
  induction as generalizing s
  case nil          => simp [Occurs]
  case cons a as ih => simp [Occurs, ih, or_assoc]

theorem Occurs.concat :
    m.Occurs E s (as ++ [a]) ↔
    m.Occurs E s as ∨ ∃ s', m.step (m.run s as) a = .ok s' ∧ E (m.run s as) a s' := by
  simp [Occurs.append, Occurs]

theorem Occurs.exists_mem : {as : List α} → {s : σ} → m.Occurs E s as →
    ∃ a ∈ as, ∃ s s', m.step s a = .ok s' ∧ E s a s'
  | _ :: _, s, .inl ⟨s', h⟩ => ⟨_, by simp, s, s', h⟩
  | _ :: _, _, .inr h       =>
    have ⟨a, ha, h⟩ := Occurs.exists_mem h
    ⟨a, by simp [ha], h⟩

-- The invariant rule for runs whose steps all meet a guard.
theorem guarded_invariant
    (hs : ∀ s a s', I s → C s a → m.step s a = .ok s' → I s') (h : I s) (hg : m.Guarded C s as) :
    I (m.run s as) := by
  induction as generalizing s
  case nil => exact h
  case cons a as ih =>
    refine ih ?_ hg.right
    cases m.next_cases s a
    case inl hok => exact hs _ _ _ h hg.left hok
    case inr heq => rwa [heq]

theorem invariant
    (hs : ∀ s a s', I s → m.step s a = .ok s' → I s') (h : I s) (as : List α) :
    I (m.run s as) := by
  induction as generalizing s
  case nil => exact h
  case cons a as ih =>
    apply ih
    cases m.next_cases s a
    case inl hok => exact hs _ _ _ h hok
    case inr heq => rwa [heq]

-- What holds in a state that meets `p` may rest on an invariant of the machine.
theorem Always.imp {q : σ → Prop} (hs : ∀ s a s', I s → m.step s a = .ok s' → I s')
    (hpq : ∀ s, I s → p s → q s) (h : I s) (hp : m.Always p s as) : m.Always q s as := by
  induction as generalizing s
  case nil => exact hpq _ h hp
  case cons a as ih =>
    refine ⟨hpq _ h hp.left, ih ?_ hp.right⟩
    exact invariant hs h [a]

-- What every step preserves between two states in which `p` holds, a run preserves as long as `p`
-- holds along all of it. The steps may use an invariant of the machine.
theorem relation {R : σ → σ → Prop} (hr : ∀ s, R s s) (ht : ∀ s₁ s₂ s₃, R s₁ s₂ → R s₂ s₃ → R s₁ s₃)
    (hi : ∀ s a s', I s → C s a → m.step s a = .ok s' → I s')
    (hs : ∀ s a s', I s → C s a → p s → p s' → m.step s a = .ok s' → R s s')
    (h : I s) (hg : m.Guarded C s as) (hp : m.Always p s as) : R s (m.run s as) := by
  induction as generalizing s
  case nil => exact hr _
  case cons a as ih =>
    cases m.next_cases s a
    case inl hok =>
      have hd := hs _ _ _ h hg.left hp.left hp.right.head hok
      exact ht _ _ _ hd <| ih (hi _ _ _ h hg.left hok) hg.right hp.right
    case inr heq =>
      have h' : I (m.next s a) := by rwa [heq]
      have hr' := ih h' hg.right hp.right
      rw [run_cons]
      rwa [heq] at hr' ⊢

theorem Guarded.of_forall (h : ∀ s a, C s a) : m.Guarded C s as := by
  induction as generalizing s
  case nil          => trivial
  case cons a as ih => exact ⟨h s a, ih⟩

theorem guarded_true : m.Guarded (fun _ _ => True) s as :=
  .of_forall fun _ _ => trivial

-- The rule for properties of a state together with the actions that led to it.
theorem history {P : List α → σ → Prop} (h : P [] s)
    (hok : ∀ as a s', P as (m.run s as) → C (m.run s as) a → m.step (m.run s as) a = .ok s' →
      P (as ++ [a]) s')
    (herr : ∀ as a, P as (m.run s as) → P (as ++ [a]) (m.run s as))
    (hg : m.Guarded C s as) : P as (m.run s as) := by
  induction as using List.reverseRecOn
  case nil => exact h
  case append_singleton as a ih =>
    obtain ⟨hg, hc⟩ := Guarded.append.mp hg
    rw [run_concat]
    cases m.next_cases (m.run s as) a
    case inl h => exact hok _ _ _ (ih hg) hc.left h
    case inr h =>
      rw [h]
      exact herr _ _ (ih hg)

-- A rank that no action raises, and that every action of a kind lowers.
theorem countdown (rank : σ → Nat) (k : α → Bool) (hi : ∀ s a, I s → I (m.next s a))
    (hr : ∀ s a, I s → rank (m.next s a) ≤ rank s - (if k a then 1 else 0)) (h : I s) :
    rank (m.run s as) ≤ rank s - as.countP k := by
  induction as generalizing s
  case nil          => simp
  case cons a as ih =>
    have ih := ih (hi s a h)
    have hr := hr s a h
    rw [run_cons, List.countP_cons]
    cases hk : k a <;> simp only [hk, if_true, Bool.false_eq_true, if_false] at hr ⊢ <;> omega

end Rules

end Machine
