/-
The calls that unify nodes or write a merged view, from request to outcome.

`unifyCore` is a course from a fresh start, with its list of forwardings for an answer
(`unifyCore_writes`).  `unify` goes on from there: it reads where the first node has got
to and what its copy is, and writes a merged view where something was forwarded
(`unify_cases`).  A store may fail at any request of any of them, and the outcome is told
for that too.
-/
import Ideas.Proofs.Materialization
import Ideas.Proofs.Unification.Account
import Ideas.Proofs.Unification.Depth

namespace Ideas

open NodeStore Backed

variable {σ : Type} [NodeStore σ] {s s' : σ} {a b copy : NodeId}

/-- The outcome of a run, as a call tells it. -/
theorem unifyCore_eq {outcome : Except EngineError Unit} {run : Run σ}
    (h : Run.unify s a b = (outcome, run)) :
    unifyCore a b s = (outcome.map fun _ => run.forwarded, run.store) := by
  rw [unifyCore, h]

variable [Backed σ]

/-- A unification that succeeds is a course from a fresh start, and reports its forwardings. -/
theorem course_of_unifyCore {fs : List Forwarding} (h : unifyCore a b s = (.ok fs, s')) :
    ∃ run, Run.Course (fails σ) (.nodes a b) { store := contents s } (.ok ()) run ∧
      run.forwarded = fs ∧ run.store = contents s' := by
  rcases hrun : Run.unify s a b with ⟨outcome, run⟩
  rw [unifyCore_eq hrun] at h
  cases outcome with
  | error e => cases h
  | ok _ =>
      cases h
      exact ⟨run.view, Run.course_of_unify hrun, rfl, rfl⟩

/-- Forward references are written, and reported if the unification succeeds; if it fails, a stamp
may follow that nothing carries. -/
theorem unifyCore_writes {r : Except EngineError (List Forwarding)}
    (h : unifyCore a b s = (r, s')) :
    ∃ mid, (contents s).Writes (Run.unify s a b).2.forwarded mid ∧
      (r = .ok (Run.unify s a b).2.forwarded ∧ contents s' = mid ∨
        ∃ e, r = .error e ∧ (contents s' = mid ∨ ∃ owner, contents s' = mid.stamp owner)) := by
  rcases hrun : Run.unify s a b with ⟨outcome, run⟩
  obtain ⟨mid, hwrites, hends⟩ := (Run.course_of_unify hrun).writes
  rw [unifyCore_eq hrun] at h
  cases h
  refine ⟨mid, hwrites, ?_⟩
  cases outcome with
  | ok _ =>
      rcases hends with hstore | ⟨e, _, hr, -⟩
      · exact Or.inl ⟨rfl, hstore⟩
      · cases hr
  | error e =>
      refine Or.inr ⟨e, rfl, ?_⟩
      rcases hends with hstore | ⟨_, owner, -, hstore⟩
      · exact Or.inl hstore
      · exact Or.inr ⟨owner, hstore⟩

/-- A full unification fails before its view is made, has nothing to make one for, or goes on to
make it. -/
theorem unify_cases {r : Except EngineError Unified} (h : unify copy a b s = (r, s')) :
    (∃ e core mid, r = .error e ∧ unifyCore a b s = (core, mid) ∧ contents s' = contents mid) ∨
      ∃ fs mid, unifyCore a b s = (.ok fs, mid) ∧
        (fs = [] ∧ r.map Unified.forwarded = .ok fs ∧ contents s' = contents mid ∨
          fs ≠ [] ∧ ∃ made, Materializes (contents mid) copy a made (contents s') ∧
            r.map Unified.forwarded = made.map fun _ => fs) := by
  rw [unify] at h
  rcases bind_cases h with ⟨e, hcore, rfl⟩ | ⟨fs, mid, hcore, h⟩
  · exact Or.inl ⟨e, _, s', rfl, hcore, rfl⟩
  rcases bind_cases h with ⟨e, hread, rfl⟩ | ⟨canonical, mid', hread, h⟩
  · exact Or.inl ⟨e, _, mid, rfl, hcore, ((reads_dereference a).cases hread).1⟩
  have hsame := ((reads_dereference a).cases hread).1
  cases hempty : fs.isEmpty with
  | true =>
      simp only [hempty, if_true] at h
      rcases bind_cases h with ⟨e, hcopy, rfl⟩ | ⟨_, read, hcopy, h⟩
      · have hkept := ((reads_existingCopy a).cases hcopy).1
        exact Or.inl ⟨e, _, mid, rfl, hcore, hkept.trans hsame⟩
      have hkept := ((reads_existingCopy a).cases hcopy).1
      cases h
      exact Or.inr ⟨fs, mid, hcore,
        Or.inl ⟨List.isEmpty_iff.mp hempty, rfl, hkept.trans hsame⟩⟩
  | false =>
      simp only [hempty, Bool.false_eq_true, if_false] at h
      have hne : fs ≠ [] := List.isEmpty_eq_false_iff.mp hempty
      refine Or.inr ⟨fs, mid, hcore, Or.inr ⟨hne, ?_⟩⟩
      rw [← hsame]
      rcases bind_cases h with ⟨e, hmade, rfl⟩ | ⟨view, made, hmade, h⟩
      · exact ⟨_, materializes hmade, rfl⟩
      cases h
      exact ⟨_, materializes hmade, rfl⟩

/-- A full unification that succeeds names the canonical node of the first id, and the view that it
made where something was forwarded. -/
theorem unify_ok_cases {u : Unified} (h : unify copy a b s = (.ok u, s')) :
    ∃ core n, unifyCore a b s = (.ok u.forwarded, core) ∧ (contents core).Canonical a n ∧
      u.canonical = n.id ∧
      (u.forwarded = [] ∧ contents s' = contents core ∨
        u.forwarded ≠ [] ∧ ∃ view,
          Materializes (contents core) copy a (.ok view) (contents s') ∧ u.result = view.id) := by
  rw [unify] at h
  rcases bind_cases h with ⟨_, -, hr⟩ | ⟨fs, core, hcore, h⟩
  · cases hr
  rcases bind_cases h with ⟨_, -, hr⟩ | ⟨n, core', hread, h⟩
  · cases hr
  obtain ⟨hsame, ⟨_, -, hr⟩ | hn⟩ := (reads_dereference a).cases hread
  · cases hr
  have left : (contents core).Canonical a n := Memory.dereference_eq_ok_iff.mp hn
  by_cases hempty : fs.isEmpty = true
  · simp only [hempty, if_true] at h
    rcases bind_cases h with ⟨_, -, hr⟩ | ⟨_, read, hcopy, h⟩
    · cases hr
    have hkept := ((reads_existingCopy a).cases hcopy).1
    cases h
    exact ⟨core, n, hcore, left, rfl, Or.inl ⟨List.isEmpty_iff.mp hempty, hkept.trans hsame⟩⟩
  · simp only [hempty, Bool.false_eq_true, if_false] at h
    rcases bind_cases h with ⟨_, -, hr⟩ | ⟨view, made, hmade, h⟩
    · cases hr
    cases h
    have hne : fs ≠ [] := fun hnil => hempty (List.isEmpty_iff.mpr hnil)
    exact ⟨core, n, hcore, left, rfl,
      Or.inr ⟨hne, view, hsame ▸ materializes hmade, rfl⟩⟩

end Ideas
