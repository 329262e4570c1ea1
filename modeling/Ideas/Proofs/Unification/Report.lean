/-
The report of a unification tells all that changed.

If a unification succeeds, the forwardings that it reports account for the memory after
it (`Memory.Accounts`): the nodes on the list, each once, were forwarded as the list
says, and nothing else changed but the counters, which went on by the stamps on the list.
A full unification that reports anything adds the merged view of the first node and
points the node at it (`Memory.Copied`), and nothing more.

If it fails, what was forwarded until then is accounted for in the same way, so that no
node is left half forwarded.  Besides that there may be a stamp that nothing carries, or a
merged view that nothing points at.
-/
import Ideas.Proofs.Unification.Call

namespace Ideas

open Backed

namespace Memory

/-- The merged view of `id` was stored as a new node `copy`, and `id` points at it. -/
structure Copied (before : Memory) (copy id : NodeId) (after : Memory) : Prop where
  new : before.node? copy = none
  made : ∃ view, before.IsView copy id view ∧ after.node? copy = some view
  pointed : ∃ n, before.node? id = some n ∧ after.node? id = some { n with copy := some copy }
  others : ∀ x, x ≠ copy → x ≠ id → after.node? x = before.node? x
  ids_eq : after.nodes.map Node.id = before.nodes.map Node.id ++ [copy]
  ideas_eq : after.ideas = before.ideas
  generation_eq : ∀ owner, after.generation owner = before.generation owner

variable {m m' : Memory} {copy id : NodeId} {view : Node}

theorem ids_copyTo (m : Memory) (id : NodeId) (view : Node) :
    (m.copyTo id view).nodes.map Node.id = m.nodes.map Node.id ++ [view.id] := by
  rw [copyTo, ids_modifyNode _ _ (Update.id_applyTo _), addNode, List.map_append,
    List.map_singleton]

theorem IsView.copied (h : m.IsView copy id view) (new : m.node? copy = none) :
    m.Copied copy id (m.copyTo id view) := by
  obtain ⟨n, found⟩ := h.found
  have hcopy : view.id = copy := h.id_eq
  have hne : copy ≠ id := h.copy_ne new
  have hnode := node?_copyTo (hcopy ▸ new) found
  rw [hcopy] at hnode
  refine ⟨new, ⟨view, h, ?_⟩, ⟨n, found, ?_⟩, ?_, ?_, rfl, fun _ => rfl⟩
  · rw [hnode, if_neg hne, if_pos rfl]
  · rw [hnode, if_pos rfl]
  · intro x hx hid
    rw [hnode, if_neg hid, if_neg hx]
  · rw [ids_copyTo, hcopy]

theorem Writes.eq_of_nil (h : m.Writes [] m') : m' = m := by
  generalize hfs : ([] : List Forwarding) = fs at h
  cases h with
  | nil => rfl
  | snoc => simp at hfs

end Memory

theorem Materializes.copied {m m' : Memory} {copy id : NodeId} {view : Node}
    (h : Materializes m copy id (.ok view) m') : m.Copied copy id m' := by
  cases h with
  | done isView new => exact isView.copied new

/-- A view that failed to be written may be there, with nothing that points at it. -/
theorem Materializes.eq_of_error {m m' : Memory} {copy id : NodeId} {e : EngineError}
    (h : Materializes m copy id (.error e) m') :
    m' = m ∨ ∃ view, m.node? copy = none ∧ view.id = copy ∧ m' = m.addNode view := by
  cases h with
  | unwritten => exact Or.inl rfl
  | unpointed isView new => exact Or.inr ⟨_, new, isView.id_eq, rfl⟩

/-- What a unification that fails may leave behind: what it reported until then, and at most a
stamp. -/
def Interrupted (before after : Memory) : Prop :=
  ∃ fs mid, before.Accounts fs mid ∧ (after = mid ∨ ∃ owner, after = mid.stamp owner)

variable {σ : Type} [NodeStore σ] [Backed σ] {s s' : σ} {a b copy : NodeId}

theorem unifyCore_accounts {fs : List Forwarding} (h : unifyCore a b s = (.ok fs, s')) :
    (contents s).Writes fs (contents s') ∧ (contents s).Accounts fs (contents s') := by
  obtain ⟨mid, hwrites, ⟨hr, rfl⟩ | ⟨_, hr, -⟩⟩ := unifyCore_writes h
  · cases hr
    exact ⟨hwrites, hwrites.accounts⟩
  · cases hr

theorem unifyCore_interrupted {r : Except EngineError (List Forwarding)}
    (h : unifyCore a b s = (r, s')) : Interrupted (contents s) (contents s') := by
  obtain ⟨mid, hwrites, ⟨-, hmid⟩ | ⟨_, -, hmid⟩⟩ := unifyCore_writes h
  · exact ⟨_, mid, hwrites.accounts, Or.inl hmid⟩
  · exact ⟨_, mid, hwrites.accounts, hmid⟩

/-- A full unification that succeeds adds nothing to an empty report, and a copy to any other. -/
theorem unify_copied {u : Unified} (h : unify copy a b s = (.ok u, s')) :
    ∃ core, unifyCore a b s = (.ok u.forwarded, core) ∧
      (u.forwarded = [] ∧ contents s' = contents s ∨
        u.forwarded ≠ [] ∧ (contents core).Copied copy a (contents s')) := by
  rcases unify_cases h with ⟨_, _, _, hr, -⟩ |
    ⟨fs, core, hcore, ⟨rfl, hr, hsame⟩ | ⟨hne, made, hmade, hr⟩⟩
  · cases hr
  · have hforwarded : u.forwarded = [] := Except.ok.inj hr
    rw [hforwarded]
    exact ⟨core, hcore, Or.inl ⟨rfl, hsame.trans (unifyCore_accounts hcore).1.eq_of_nil⟩⟩
  · cases made with
    | error e => cases hr
    | ok view =>
        have hforwarded : u.forwarded = fs := Except.ok.inj hr
        rw [hforwarded]
        exact ⟨core, hcore, Or.inr ⟨hne, hmade.copied⟩⟩

/-- A full unification that fails may also leave a merged view behind. -/
theorem unify_interrupted {e : EngineError} (h : unify copy a b s = (.error e, s')) :
    Interrupted (contents s) (contents s') ∨
      ∃ fs mid view, (contents s).Accounts fs mid ∧ mid.node? copy = none ∧ view.id = copy ∧
        contents s' = mid.addNode view := by
  rcases unify_cases h with ⟨_, _, core, -, hcore, hsame⟩ |
    ⟨fs, core, hcore, ⟨-, hr, -⟩ | ⟨-, made, hmade, hr⟩⟩
  · rw [hsame]
    exact Or.inl (unifyCore_interrupted hcore)
  · cases hr
  · cases made with
    | ok view => cases hr
    | error e' =>
        have accounts := (unifyCore_accounts hcore).2
        rcases hmade.eq_of_error with hsame | ⟨view, new, hview, hadded⟩
        · exact Or.inl ⟨fs, contents core, accounts, Or.inl hsame⟩
        · exact Or.inr ⟨fs, contents core, view, accounts, new, hview, hadded⟩

/-- The forwardings reported are exactly what changed.  A full unification adds one node and points
the first node at it, where something was forwarded, and else nothing.  One that fails has
forwarded some nodes, each of them wholly, and left at most a stamp or that one node
besides. -/
theorem report_is_all_that_changed (s : σ) (copy a b : NodeId) :
    (∀ fs, (unifyCore a b s).1 = .ok fs →
      (contents s).Accounts fs (contents (unifyCore a b s).2)) ∧
    (∀ u, (unify copy a b s).1 = .ok u →
      (unifyCore a b s).1 = .ok u.forwarded ∧
      (u.forwarded = [] ∧ contents (unify copy a b s).2 = contents s ∨
        u.forwarded ≠ [] ∧
          (contents (unifyCore a b s).2).Copied copy a (contents (unify copy a b s).2))) ∧
    (∀ e, (unifyCore a b s).1 = .error e →
      Interrupted (contents s) (contents (unifyCore a b s).2)) ∧
    ∀ e, (unify copy a b s).1 = .error e →
      Interrupted (contents s) (contents (unify copy a b s).2) ∨
        ∃ fs mid view, (contents s).Accounts fs mid ∧ mid.node? copy = none ∧ view.id = copy ∧
          contents (unify copy a b s).2 = mid.addNode view := by
  refine ⟨?_, ?_, ?_, ?_⟩
  · intro fs hfs
    exact (unifyCore_accounts (Prod.ext hfs rfl)).2
  · intro u hu
    obtain ⟨core, hcore, hcopied⟩ := unify_copied (Prod.ext hu rfl)
    rw [hcore]
    exact ⟨rfl, hcopied⟩
  · intro e _
    exact unifyCore_interrupted rfl
  · intro e he
    exact unify_interrupted (Prod.ext he rfl)

-- An update that does not reach the data leaves the stamp behind that was issued for it.
example : (contents (unifyCore ⟨1⟩ ⟨2⟩
    ({ inner := { nodes := [.leaf ⟨1⟩ "ann" "tea", .complex ⟨2⟩ "ann" []] }
       fault := some ⟨.update, 1⟩ } : Monitored Memory)).2).generation "ann"
      = generationSeed + 1 := by cbv

end Ideas
