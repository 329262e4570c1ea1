/-
How an action takes its course.

An action made of two parts runs the first and, unless that fails, the second on what
the first left behind.  `bind_cases` says this once; everything that is proved of a
longer action takes it apart by these two cases.
-/
import Ideas.Store

namespace Ideas

variable {ε τ α β : Type}

/-- A first part that succeeds hands over to the second one. -/
theorem bind_eq_of_ok {act : ExceptT ε (StateM τ) α} {f : α → ExceptT ε (StateM τ) β}
    {t mid : τ} {a : α} (h : act t = (.ok a, mid)) : (act >>= f) t = f a mid := by
  show StateT.bind act (ExceptT.bindCont f) t = f a mid
  rw [StateT.bind]
  simp only [h]
  rfl

/-- A first part that fails is the end of it. -/
theorem bind_eq_of_error {act : ExceptT ε (StateM τ) α} {f : α → ExceptT ε (StateM τ) β}
    {t mid : τ} {e : ε} (h : act t = (.error e, mid)) : (act >>= f) t = (.error e, mid) := by
  show StateT.bind act (ExceptT.bindCont f) t = (.error e, mid)
  rw [StateT.bind]
  simp only [h]
  rfl

/-- An action made of two parts either fails with the first, or ends as the second does. -/
theorem bind_cases {act : ExceptT ε (StateM τ) α} {f : α → ExceptT ε (StateM τ) β}
    {t t' : τ} {r : Except ε β} (h : (act >>= f) t = (r, t')) :
    (∃ e, act t = (.error e, t') ∧ r = .error e) ∨
      ∃ a mid, act t = (.ok a, mid) ∧ f a mid = (r, t') := by
  rcases hact : act t with ⟨e | a, mid⟩
  · rw [bind_eq_of_error hact] at h
    cases h
    exact Or.inl ⟨e, rfl, rfl⟩
  · rw [bind_eq_of_ok hact] at h
    exact Or.inr ⟨a, mid, rfl, h⟩

/-- Two actions that begin alike, and go on alike from wherever that leads, are alike. -/
theorem bind_eq_bind {act act' : ExceptT ε (StateM τ) α} {f g : α → ExceptT ε (StateM τ) β}
    {t : τ} (h : act t = act' t) (hfg : ∀ a mid, act t = (.ok a, mid) → f a mid = g a mid) :
    (act >>= f) t = (act' >>= g) t := by
  rcases hact : act t with ⟨e | a, mid⟩
  · rw [bind_eq_of_error hact, bind_eq_of_error (h ▸ hact)]
  · rw [bind_eq_of_ok hact, bind_eq_of_ok (h ▸ hact)]
    exact hfg a mid hact

end Ideas
