/-
Two stores in step.

One action may be run on two kinds of states, and the outcomes compared.  They agree if
they are the same value, or failures that tell the same apart from their wording
(`Agree`).  Two actions are `InStep` if they agree from every two states that are paired,
and leave two states that are paired again.

That may be promised for some ends of the first action only: those where its state is
still fine.  An action therefore also has to make sure that a state which ends fine was
fine at each point before, so that the promise of its first part can be called in when
only the end of the second is known to be fine.  A promise may rest on something that is
`given`, and what an action yields may be what the promise of the next one rests on.
-/
import Ideas.Proofs.Action
import Ideas.Unification

namespace Ideas

/-! ### Outcomes that agree -/

/-- What a failure tells apart from its wording. -/
inductive EngineError.Kind where
  | nodeNotFound (id : NodeId)
  | cycleDetected (id : NodeId)
  | incompatibleLeaves (left right : String)
  | integrity
  | storeUnavailable
deriving DecidableEq, Repr

/-- The kind of a failure. -/
def EngineError.kind : EngineError → Kind
  | .nodeNotFound id => .nodeNotFound id
  | .cycleDetected id => .cycleDetected id
  | .incompatibleLeaves left right => .incompatibleLeaves left right
  | .integrity _ => .integrity
  | .storeUnavailable _ => .storeUnavailable

/-- The kind of a failure tells whether another try is worth it. -/
theorem EngineError.isRetryable_eq (e : EngineError) :
    e.isRetryable = decide (e.kind = .storeUnavailable) := by
  cases e <;> rfl

/-- The same value, or failures of the same kind that both or neither are worth another try. -/
inductive Agree {α : Type} : Except EngineError α → Except EngineError α → Prop
  | ok (a : α) : Agree (.ok a) (.ok a)
  | error {e e' : EngineError} (hkind : e.kind = e'.kind)
      (hretry : e.isRetryable = e'.isRetryable) : Agree (.error e) (.error e')

theorem Agree.of_kind_eq {α : Type} {e e' : EngineError} (h : e.kind = e'.kind) :
    Agree (.error e : Except EngineError α) (.error e') :=
  .error h (by rw [e.isRetryable_eq, e'.isRetryable_eq, h])

theorem Agree.refl {α : Type} (r : Except EngineError α) : Agree r r := by
  cases r with
  | ok a => exact .ok a
  | error e => exact .of_kind_eq rfl

theorem Agree.map {α β : Type} {r r' : Except EngineError α} (h : Agree r r') (f : α → β) :
    Agree (r.map f) (r'.map f) := by
  cases h with
  | ok a => exact .ok (f a)
  | error hkind hretry => exact .error hkind hretry

/-! ### Actions in step -/

/-- When two states are paired, and which of the first kind are fine. -/
structure Pairing (τ τ' : Type) where
  paired : τ → τ' → Prop
  fine : τ → Prop

variable {τ τ' α β : Type} {p : Pairing τ τ'} {given given' : Prop} {yields : α → Prop}
  {yields' : β → Prop}

/-- Two ends that agree, in states that are paired again, and with a value that `yields` says
something of. -/
structure Ends (p : Pairing τ τ') (yields : α → Prop) (result : Except EngineError α × τ)
    (result' : Except EngineError α × τ') : Prop where
  agree : Agree result.1 result'.1
  paired : p.paired result.2 result'.2
  yields : ∀ a, result.1 = .ok a → yields a

/-- Two actions that end alike from paired states, on what is given and wherever the first one ends
in a state that is fine. -/
structure InStep (p : Pairing τ τ') (given : Prop) (yields : α → Prop)
    (act : ExceptT EngineError (StateM τ) α) (act' : ExceptT EngineError (StateM τ') α) : Prop where
  fine_before : ∀ {t}, p.fine (act t).2 → p.fine t
  ends : given → ∀ {t t'}, p.paired t t' → p.fine (act t).2 → Ends p yields (act t) (act' t')

theorem inStep_pure {a : α} (h : given → yields a) :
    InStep p given yields (pure a) (pure a) := by
  refine ⟨id, fun hgiven t t' hpaired _ => ⟨.ok a, hpaired, ?_⟩⟩
  rintro _ ⟨⟩
  exact h hgiven

theorem inStep_throw (e : EngineError) : InStep p given yields (throw e) (throw e) := by
  refine ⟨id, fun _ t t' hpaired _ => ⟨.of_kind_eq rfl, hpaired, ?_⟩⟩
  rintro _ ⟨⟩

namespace InStep

variable {act : ExceptT EngineError (StateM τ) α} {act' : ExceptT EngineError (StateM τ') α}
  {f : α → ExceptT EngineError (StateM τ) β} {f' : α → ExceptT EngineError (StateM τ') β}

/-- More may be given than the promise rests on. -/
theorem of_given (h : InStep p given yields act act') (hgiven : given' → given) :
    InStep p given' yields act act' :=
  ⟨h.fine_before, fun hg => h.ends (hgiven hg)⟩

/-- Nothing need be said of the value. -/
theorem forget (h : InStep p given yields act act') :
    InStep p given (fun _ => True) act act' :=
  ⟨h.fine_before, fun hgiven _ _ hpaired hfine =>
    ⟨(h.ends hgiven hpaired hfine).agree, (h.ends hgiven hpaired hfine).paired,
      fun _ _ => trivial⟩⟩

/-- Parts in step make a whole in step. -/
theorem bind (h : InStep p given yields act act')
    (hf : ∀ a, InStep p (given ∧ yields a) yields' (f a) (f' a)) :
    InStep p given yields' (act >>= f) (act' >>= f') := by
  have fine_first : ∀ {t}, p.fine ((act >>= f) t).2 → p.fine (act t).2 := by
    intro t hfine
    rcases hact : act t with ⟨e | a, mid⟩
    · rwa [bind_eq_of_error hact] at hfine
    · rw [bind_eq_of_ok hact] at hfine
      exact (hf a).fine_before hfine
  refine ⟨fun hfine => h.fine_before (fine_first hfine), ?_⟩
  intro hgiven t t' hpaired hfine
  have hfirst := h.ends hgiven hpaired (fine_first hfine)
  rcases hact : act t with ⟨r, mid⟩
  rcases hact' : act' t' with ⟨r', mid'⟩
  rw [hact, hact'] at hfirst
  obtain ⟨hagree, hmid, hyields⟩ := hfirst
  cases hagree with
  | ok a =>
    rw [bind_eq_of_ok hact] at hfine ⊢
    rw [bind_eq_of_ok hact']
    exact (hf a).ends ⟨hgiven, hyields a rfl⟩ hmid hfine
  | error hkind hretry =>
    rw [bind_eq_of_error hact, bind_eq_of_error hact']
    refine ⟨.error hkind hretry, hmid, ?_⟩
    rintro _ ⟨⟩

end InStep

end Ideas
