/-
What a unification writes, and the account it gives of it.

`Writes` lists the forward references that were written, in the order of writing, each
of them where it may be written at that moment.  Every course leaves such a list behind
and reports it (`Course.writes`).

`Accounts` compares the memory before and after by a list of forwardings alone: the
nodes on the list were forwarded as the list says, all the rest is as it was, and the
stamps of an owner are the numbers that its counter went through.  The list that a
unification reports is such an account (`Writes.accounts`), by induction on the writing:
a node that was just forwarded cannot have been on the list before, since it pointed
nowhere.
-/
import Mathlib.Data.List.Nodup
import Ideas.Proofs.Unification.Course

namespace Ideas

namespace Memory

/-- The forward references `fs` were written in this order, each where it may be. -/
inductive Writes (m : Memory) : List Forwarding → Memory → Prop
  | nil : Writes m [] m
  | snoc {fs : List Forwarding} {now : Memory} {n k : Node} {arcs : List Arc}
      (before : Writes m fs now) (may : now.MayForward n k)
      (hnew : ∀ arc ∈ arcs, arc.label ∉ Arcs.labels n.arcs) :
      Writes m (fs ++ [⟨n.id, k.id, now.generation n.owner + 1, arcs.length⟩])
        (now.forwardNode n k.id arcs)

/-- The stamps among the forwardings of the nodes of an owner, in order. -/
def stampsOf (m : Memory) (fs : List Forwarding) (owner : String) : List Nat :=
  (fs.filter fun f => (m.node? f.node).map Node.owner = some owner).map Forwarding.generation

/-- A node was forwarded as an entry says: it pointed nowhere, and only its forward reference, its
stamp and its received arcs changed, the last by arcs whose labels it lacked. -/
def Forwarded (before after : Memory) (f : Forwarding) : Prop :=
  ∃ n arcs, before.node? f.node = some n ∧ n.forward = none ∧ arcs.length = f.received ∧
    (∀ arc ∈ arcs, arc.label ∉ Arcs.labels n.arcs) ∧
    after.node? f.node = some { n with
      complement := n.complement ++ arcs
      forward := some f.target
      generation := f.generation }

/-- The forwardings `fs` account for all that changed. -/
structure Accounts (before : Memory) (fs : List Forwarding) (after : Memory) : Prop where
  nodup : (fs.map Forwarding.node).Nodup
  forwarded : ∀ f ∈ fs, before.Forwarded after f
  others : ∀ id, id ∉ fs.map Forwarding.node → after.node? id = before.node? id
  ids_eq : after.nodes.map Node.id = before.nodes.map Node.id
  ideas_eq : after.ideas = before.ideas
  /-- An owner's counter has advanced by the number of its entries. -/
  counted : ∀ owner,
    after.generation owner = before.generation owner + (before.stampsOf fs owner).length
  /-- The entries of an owner carry the values of its counter, one after the other. -/
  successive : ∀ owner, before.stampsOf fs owner
    = List.range' (before.generation owner + 1) (before.stampsOf fs owner).length

variable {m m' now : Memory} {fs : List Forwarding}

/-! ### One more entry -/

theorem accounts_nil (m : Memory) : m.Accounts [] m :=
  ⟨List.nodup_nil, fun _ hf => (List.not_mem_nil hf).elim, fun _ _ => rfl, rfl, rfl,
    fun _ => rfl, fun _ => rfl⟩

/-- A node that points nowhere is not on the list. -/
theorem Accounts.notMem (h : m.Accounts fs now) {n : Node} (found : now.node? n.id = some n)
    (hn : n.forward = none) : n.id ∉ fs.map Forwarding.node := by
  intro hmem
  obtain ⟨f, hf, hid⟩ := List.mem_map.mp hmem
  obtain ⟨_, _, -, -, -, -, hafter⟩ := h.forwarded f hf
  rw [hid, found] at hafter
  rw [Option.some.inj hafter] at hn
  cases hn

/-- It is what it was at first. -/
theorem Accounts.found_before (h : m.Accounts fs now) {n : Node}
    (found : now.node? n.id = some n) (hn : n.forward = none) : m.node? n.id = some n := by
  rw [← h.others n.id (h.notMem found hn)]
  exact found

theorem stampsOf_snoc (m : Memory) (fs : List Forwarding) {n : Node}
    (found : m.node? n.id = some n) (target : NodeId) (generation received : Nat)
    (owner : String) :
    m.stampsOf (fs ++ [⟨n.id, target, generation, received⟩]) owner
      = m.stampsOf fs owner ++ if owner = n.owner then [generation] else [] := by
  rw [stampsOf, List.filter_append, List.map_append, ← stampsOf]
  by_cases howner : owner = n.owner
  · simp [found, howner]
  · simp [found, howner, Ne.symm howner]

/-- An account goes on with the node that is forwarded next. -/
theorem Accounts.snoc (h : m.Accounts fs now) {n k : Node} {arcs : List Arc}
    (may : now.MayForward n k) (hnew : ∀ arc ∈ arcs, arc.label ∉ Arcs.labels n.arcs) :
    m.Accounts (fs ++ [⟨n.id, k.id, now.generation n.owner + 1, arcs.length⟩])
      (now.forwardNode n k.id arcs) := by
  have hnode := h.notMem may.found may.forward_eq_none
  have found := h.found_before may.found may.forward_eq_none
  have hstamps := stampsOf_snoc m fs found k.id (now.generation n.owner + 1) arcs.length
  refine ⟨?_, ?_, ?_, ?_, h.ideas_eq, ?_, ?_⟩
  · rw [List.map_append, List.map_singleton, ← List.concat_eq_append]
    exact List.Nodup.concat hnode h.nodup
  · intro f hf
    rcases List.mem_append.mp hf with hf | hf
    · obtain ⟨x, extra, hbefore, hx, hlen, hlabels, hafter⟩ := h.forwarded f hf
      have hne : f.node ≠ n.id := by
        rintro heq
        exact hnode (List.mem_map.mpr ⟨f, hf, heq⟩)
      refine ⟨x, extra, hbefore, hx, hlen, hlabels, ?_⟩
      rw [node?_forwardNode may.found, if_neg hne]
      exact hafter
    · rw [List.mem_singleton.mp hf]
      refine ⟨n, arcs, found, may.forward_eq_none, rfl, hnew, ?_⟩
      rw [node?_forwardNode may.found, if_pos rfl]
      rfl
  · intro id hid
    rw [List.map_append, List.mem_append, not_or] at hid
    have hne : id ≠ n.id := fun heq => hid.2 (List.mem_singleton.mpr heq)
    rw [node?_forwardNode may.found, if_neg hne]
    exact h.others id hid.1
  · rw [ids_forwardNode]
    exact h.ids_eq
  · intro owner
    rw [hstamps, generation_forwardNode, generation_stamp]
    have hcounted := h.counted owner
    split
    · next howner =>
        subst howner
        rw [List.length_append, List.length_singleton]
        omega
    · rw [List.append_nil]
      exact hcounted
  · intro owner
    rw [hstamps]
    split
    · next howner =>
        subst howner
        -- The new stamp follows on those that were issued before.
        rw [List.length_append, List.length_singleton, List.range'_1_concat,
          ← h.successive, h.counted]
        congr 2
        omega
    · rw [List.append_nil]
      exact h.successive owner

/-- What was written in order is accounted for. -/
theorem Writes.accounts (h : m.Writes fs m') : m.Accounts fs m' := by
  induction h with
  | nil => exact accounts_nil m
  | snoc _ may hnew ih => exact ih.snoc may hnew

/-- An id that is not stored is not accounted for, and stays so. -/
theorem Accounts.missing (h : m.Accounts fs m') {id : NodeId} (hid : m.node? id = none) :
    m'.node? id = none := by
  rw [h.others id, hid]
  intro hmem
  obtain ⟨f, hf, rfl⟩ := List.mem_map.mp hmem
  obtain ⟨_, _, found, -⟩ := h.forwarded f hf
  rw [hid] at found
  cases found

/-! ### What was written breaks no path -/

theorem Writes.evolves (h : m.Writes fs m') : m.Evolves m' := by
  induction h with
  | nil => exact Evolves.refl m
  | snoc _ may hnew ih =>
      exact ih.trans (evolves_forwardNode may.found may.forward_eq_none _ hnew)

theorem Writes.extends (h : m.Writes fs m') : m.Extends m' := by
  induction h with
  | nil => exact Extends.refl m
  | snoc _ may _ ih => exact ih.trans (may.extends _)

end Memory

namespace Run

variable {run run' : Run Memory}

/-- A run writes what it reports. -/
theorem Steps.writes {m : Memory} (h : Steps run run')
    (before : m.Writes run.forwarded run.store) : m.Writes run'.forwarded run'.store := by
  induction h with
  | refl => exact before
  | tail _ hstep ih =>
      cases hstep with
      | enter => exact ih
      | forward may hnew => exact ih.snoc may hnew

/-- A course from a fresh start writes what it reports; only if it fails, a stamp may follow that
nothing carries. -/
theorem Course.writes {fails : EngineError → Prop} {t : Task} {m : Memory}
    {r : Except EngineError Unit} (h : Course fails t { store := m } r run') :
    ∃ mid, m.Writes run'.forwarded mid ∧
      (run'.store = mid ∨ ∃ e owner, r = .error e ∧ run'.store = mid.stamp owner) := by
  obtain ⟨mid, steps, ends⟩ := h.steps
  have hwrites := steps.writes .nil
  rcases ends with rfl | ⟨e, owner, hr, rfl⟩
  · exact ⟨run'.store, hwrites, Or.inl rfl⟩
  · exact ⟨mid.store, hwrites, Or.inr ⟨e, owner, hr, rfl⟩⟩

end Run

end Ideas
