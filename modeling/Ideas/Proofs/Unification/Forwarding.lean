/-
Forwarding one node in a memory.

Everything that unification does to the data is `forwardNode`: count the generation of a
node's owner up, and write the forward reference, the stamp and the received arcs of the
node with one update.  `MayForward` says when that is safe, and the lemmas say what it
does: to the node, to the other nodes, to the counters, and to the forward paths, none
of which is cut off or turned aside.

`Evolves` is what is left of this when the order of events is forgotten: every node is
what it was, or was forwarded once.
-/
import Ideas.Proofs.ForwardPath
import Ideas.Unification

namespace Ideas

theorem Node.isLeaf_eq_false_iff {n : Node} : n.isLeaf = false ↔ n.kind = .complex := by
  cases n with
  | mk id owner kind => cases kind <;> simp [Node.isLeaf]

theorem Node.isSuperseded_eq_false_iff {n : Node} : n.isSuperseded = false ↔ n.forward = none :=
  Option.isSome_eq_false_iff.trans Option.isNone_iff_eq_none

/-- The node after it was forwarded. -/
def Node.forwarded (n : Node) (target : NodeId) (arcs : List Arc) (generation : Nat) : Node :=
  { n with complement := n.complement ++ arcs, forward := some target, generation }

/-- The update that forwards a node. -/
def Update.forwarding (n : Node) (target : NodeId) (arcs : List Arc) (generation : Nat) :
    Update :=
  { complement := if arcs.isEmpty then none else some (n.complement ++ arcs)
    forward := some target
    generation := some generation }

theorem Update.applyTo_forwarding (n : Node) (target : NodeId) (arcs : List Arc)
    (generation : Nat) :
    (Update.forwarding n target arcs generation).applyTo n
      = n.forwarded target arcs generation := by
  cases arcs <;> simp [Update.forwarding, Update.applyTo, Node.forwarded]

/-- A node is what it was, or it pointed nowhere and was forwarded, and received arcs whose labels
it lacked. -/
def Node.Evolves (n n' : Node) : Prop :=
  n' = n ∨ n.forward = none ∧ ∃ target arcs generation,
    (∀ arc ∈ arcs, arc.label ∉ Arcs.labels n.arcs) ∧ n' = n.forwarded target arcs generation

namespace Node.Evolves

variable {n n' n'' : Node}

theorem trans (h : n.Evolves n') (h' : n'.Evolves n'') : n.Evolves n'' := by
  rcases h with rfl | ⟨hn, target, arcs, generation, hnew, rfl⟩
  · exact h'
  · rcases h' with rfl | ⟨hnone, -⟩
    · exact Or.inr ⟨hn, target, arcs, generation, hnew, rfl⟩
    · cases hnone

/-- A node that was forwarded stays as it is. -/
theorem eq_of_forward (h : n.Evolves n') {target : NodeId} (hn : n.forward = some target) :
    n' = n := by
  rcases h with rfl | ⟨hnone, -⟩
  · rfl
  · rw [hnone] at hn
    cases hn

/-- A node that points nowhere is what it was. -/
theorem eq_of_forward_eq_none (h : n.Evolves n') (hn : n'.forward = none) : n' = n := by
  rcases h with rfl | ⟨-, _, _, _, -, rfl⟩
  · rfl
  · cases hn

theorem arcs_eq (h : n.Evolves n') : n'.arcs = n.arcs := by
  rcases h with rfl | ⟨-, _, _, _, -, rfl⟩ <;> rfl

theorem kind_eq (h : n.Evolves n') : n'.kind = n.kind := by
  rcases h with rfl | ⟨-, _, _, _, -, rfl⟩ <;> rfl

end Node.Evolves

namespace Memory

variable {m m' m'' : Memory}

/-- Count the generation of an owner up by one. -/
def stamp (m : Memory) (owner : String) : Memory :=
  m.setGeneration owner (m.generation owner + 1)

/-- Forward a node under a fresh stamp, and let it receive arcs. -/
def forwardNode (m : Memory) (n : Node) (target : NodeId) (arcs : List Arc) : Memory :=
  (m.stamp n.owner).modifyNode n.id
    (Update.forwarding n target arcs (m.generation n.owner + 1)).applyTo

/-- A node may be forwarded into another one: both are stored and point nowhere, they differ, and
the other one is complex. -/
structure MayForward (m : Memory) (n target : Node) : Prop where
  found : m.node? n.id = some n
  forward_eq_none : n.forward = none
  target_found : m.node? target.id = some target
  target_forward_eq_none : target.forward = none
  target_complex : target.kind = .complex
  ne : n.id ≠ target.id

/-! ### What forwarding does -/

@[simp] theorem node?_stamp (m : Memory) (owner : String) (id : NodeId) :
    (m.stamp owner).node? id = m.node? id := rfl

theorem generation_stamp (m : Memory) (owner other : String) :
    (m.stamp owner).generation other
      = if other = owner then m.generation owner + 1 else m.generation other :=
  generation_setGeneration m owner _ other

theorem generation_forwardNode (m : Memory) (n : Node) (target : NodeId) (arcs : List Arc)
    (other : String) :
    (m.forwardNode n target arcs).generation other = (m.stamp n.owner).generation other := rfl

/-- Forwarding changes one node. -/
theorem node?_forwardNode {n : Node} (found : m.node? n.id = some n) (target : NodeId)
    (arcs : List Arc) (id : NodeId) :
    (m.forwardNode n target arcs).node? id
      = if id = n.id then some (n.forwarded target arcs (m.generation n.owner + 1))
        else m.node? id := by
  rw [forwardNode, node?_modifyNode _ _ (Update.id_applyTo _), node?_stamp]
  split
  · next hid =>
      subst hid
      rw [found, Option.map_some, Update.applyTo_forwarding]
  · rfl

theorem ids_modifyNode (m : Memory) (id : NodeId) {f : Node → Node} (hf : ∀ n, (f n).id = n.id) :
    (m.modifyNode id f).nodes.map Node.id = m.nodes.map Node.id := by
  rw [modifyNode, List.map_map]
  refine List.map_congr_left fun n _ => ?_
  rw [Function.comp_apply]
  split
  · exact hf n
  · rfl

@[simp] theorem ids_forwardNode (m : Memory) (n : Node) (target : NodeId) (arcs : List Arc) :
    (m.forwardNode n target arcs).nodes.map Node.id = m.nodes.map Node.id :=
  ids_modifyNode _ _ (Update.id_applyTo _)

/-- Forwarding where it is safe takes every path on and breaks none. -/
theorem MayForward.extends {n k : Node} (h : m.MayForward n k) (arcs : List Arc) :
    m.Extends (m.forwardNode n k.id arcs) := by
  refine extends_of_forwarded (n.forwarded k.id arcs (m.generation n.owner + 1))
    (canonical_self h.found h.forward_eq_none)
    (canonical_self h.target_found h.target_forward_eq_none) h.ne ?_ rfl ?_
  · rw [node?_forwardNode h.found, if_pos rfl]
  · intro id hid
    rw [node?_forwardNode h.found, if_neg hid]

theorem extends_stamp (m : Memory) (owner : String) : m.Extends (m.stamp owner) :=
  extends_of_forward_eq fun found => ⟨_, found, rfl⟩

/-! ### Nodes that were forwarded or not -/

/-- Every node evolves, and no node comes or goes. -/
def Evolves (m m' : Memory) : Prop :=
  ∀ id, Option.Rel Node.Evolves (m.node? id) (m'.node? id)

theorem Evolves.refl (m : Memory) : m.Evolves m := by
  intro id
  cases m.node? id with
  | none => exact .none
  | some n => exact .some (Or.inl rfl)

theorem Evolves.trans (h : m.Evolves m') (h' : m'.Evolves m'') : m.Evolves m'' := by
  intro id
  have h := h id
  have h' := h' id
  generalize m.node? id = x at h
  generalize m'.node? id = y at h h'
  generalize m''.node? id = z at h'
  cases h with
  | none => exact h'
  | some h =>
      cases h' with
      | some h' => exact .some (h.trans h')

theorem Evolves.found (h : m.Evolves m') {id : NodeId} {n : Node} (found : m.node? id = some n) :
    ∃ n', m'.node? id = some n' ∧ n.Evolves n' := by
  have h := h id
  rw [found] at h
  generalize m'.node? id = y at h
  cases h with
  | some h => exact ⟨_, rfl, h⟩

theorem Evolves.found_before (h : m.Evolves m') {id : NodeId} {n' : Node}
    (found : m'.node? id = some n') : ∃ n, m.node? id = some n ∧ n.Evolves n' := by
  have h := h id
  rw [found] at h
  generalize m.node? id = x at h
  cases h with
  | some h => exact ⟨_, rfl, h⟩

/-- An id that is not stored stays so, and was not stored before. -/
theorem Evolves.node?_eq_none_iff (h : m.Evolves m') {id : NodeId} :
    m'.node? id = none ↔ m.node? id = none := by
  have h := h id
  generalize m.node? id = x at h ⊢
  generalize m'.node? id = y at h ⊢
  cases h with
  | none => exact Iff.rfl
  | some _ => exact ⟨nofun, nofun⟩

/-- A node that points nowhere is what it was at first. -/
theorem Evolves.found_of_canonical (h : m.Evolves m') {id : NodeId} {n : Node}
    (hn : m'.Canonical id n) : m.node? n.id = some n := by
  obtain ⟨n₀, found, hn₀⟩ := h.found_before hn.found
  obtain rfl := hn₀.eq_of_forward_eq_none hn.forward_eq_none
  exact found

theorem evolves_stamp (m : Memory) (owner : String) : m.Evolves (m.stamp owner) :=
  Evolves.refl m

theorem evolves_forwardNode {n : Node} (found : m.node? n.id = some n) (hn : n.forward = none)
    (target : NodeId) {arcs : List Arc} (hnew : ∀ arc ∈ arcs, arc.label ∉ Arcs.labels n.arcs) :
    m.Evolves (m.forwardNode n target arcs) := by
  intro id
  rw [node?_forwardNode found]
  split
  · next hid =>
      subst hid
      rw [found]
      exact .some (Or.inr ⟨hn, target, arcs, _, hnew, rfl⟩)
  · exact Evolves.refl m id

end Memory

end Ideas
