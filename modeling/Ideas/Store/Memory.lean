/-
A store in memory.

Nodes and ideas are kept in lists in the order of their creation, and the generation
counters in a list of owners.  Every operation either fails and leaves the state as
it was, or does all it should do.  The lemmas say of each change what is found after
it.

The counters have no end.  Counters of sixty-four bits do the same until one of them is
to count beyond these, and that takes almost as many calls as there are such numbers.
-/
import Ideas.Store

namespace Ideas

/-- A store in memory. -/
structure Memory where
  nodes : List Node := []
  ideas : List Idea := []
  /-- The last generation issued to each owner that was issued one, as a number without a bound. -/
  generations : List (String × Nat) := []

namespace Memory

/-- The node with an id. -/
def node? (m : Memory) (id : NodeId) : Option Node :=
  m.nodes.find? fun n => n.id = id

/-- The idea with an id. -/
def idea? (m : Memory) (id : NodeId) : Option Idea :=
  m.ideas.find? fun i => i.id = id

/-- The generation counter of an owner. -/
def generation (m : Memory) (owner : String) : Nat :=
  (m.generations.lookup owner).getD generationSeed

/-- Add a node. -/
def addNode (m : Memory) (node : Node) : Memory :=
  { m with nodes := m.nodes ++ [node] }

/-- Change the node with an id. -/
def modifyNode (m : Memory) (id : NodeId) (f : Node → Node) : Memory :=
  { m with nodes := m.nodes.map fun n => if n.id = id then f n else n }

/-- Add an idea. -/
def addIdea (m : Memory) (idea : Idea) : Memory :=
  { m with ideas := m.ideas ++ [idea] }

/-- Change the idea with an id. -/
def modifyIdea (m : Memory) (id : NodeId) (f : Idea → Idea) : Memory :=
  { m with ideas := m.ideas.map fun i => if i.id = id then f i else i }

/-- Set the generation counter of an owner. -/
def setGeneration (m : Memory) (owner : String) (generation : Nat) : Memory :=
  { m with generations := (owner, generation) :: m.generations.filter (·.1 ≠ owner) }

/-! ### What a change does to what is found -/

theorem id_of_node? {m : Memory} {id : NodeId} {n : Node} (h : m.node? id = some n) :
    n.id = id := by
  simpa using List.find?_some h

theorem id_of_idea? {m : Memory} {id : NodeId} {i : Idea} (h : m.idea? id = some i) :
    i.id = id := by
  simpa using List.find?_some h

theorem node?_addNode {m : Memory} {node : Node} (h : m.node? node.id = none) (id : NodeId) :
    (m.addNode node).node? id = if id = node.id then some node else m.node? id := by
  rw [node?, addNode, List.find?_append, ← node?]
  split
  · next hid => rw [hid, h]; simp
  · next hid => simp [Ne.symm hid]

/-- Changing the entries with a key leaves all keys alone, so the same entries are found. -/
theorem find?_map_ite {α : Type} {key : α → NodeId} {f : α → α} (hf : ∀ a, key (f a) = key a)
    (id j : NodeId) (l : List α) :
    (l.map fun a => if key a = id then f a else a).find? (fun a => key a = j)
      = if j = id then (l.find? fun a => key a = j).map f else l.find? fun a => key a = j := by
  have hkey : ∀ a, key (if key a = id then f a else a) = key a := by
    intro a
    split
    · exact hf a
    · rfl
  induction l with
  | nil => simp
  | cons a rest ih =>
    rw [List.map_cons, List.find?_cons, List.find?_cons, ih, hkey]
    by_cases hj : key a = j
    · simp only [hj, decide_true, Option.map_some]
      split <;> rfl
    · simp only [hj, decide_false]

theorem node?_modifyNode (m : Memory) (id : NodeId) {f : Node → Node}
    (hf : ∀ n, (f n).id = n.id) (j : NodeId) :
    (m.modifyNode id f).node? j = if j = id then (m.node? j).map f else m.node? j :=
  find?_map_ite hf id j m.nodes

theorem lookup_setGeneration (m : Memory) (owner : String) (generation : Nat) (other : String) :
    (m.setGeneration owner generation).generations.lookup other
      = if other = owner then some generation else m.generations.lookup other := by
  rw [setGeneration, List.lookup_cons]
  by_cases h : other = owner
  · simp [h]
  · have hfilter : (m.generations.filter (·.1 ≠ owner)).lookup other
        = m.generations.lookup other := by
      induction m.generations with
      | nil => rfl
      | cons entry rest ih => grind
    rw [beq_false_of_ne h, if_neg h, hfilter]

theorem generation_setGeneration (m : Memory) (owner : String) (generation : Nat)
    (other : String) :
    (m.setGeneration owner generation).generation other
      = if other = owner then generation else m.generation other := by
  rw [Memory.generation, lookup_setGeneration]
  split <;> rfl

instance : NodeStore Memory where
  nodeCount m := m.nodes.length
  get id := do
    return (← getThe Memory).node? id
  create node := do
    if ((← getThe Memory).node? node.id).isSome then
      throw (.integrity (.duplicateNode node.id))
    modify (·.addNode node)
  update id u := do
    match (← getThe Memory).node? id with
    | none => throw (.nodeNotFound id)
    | some node =>
      if u.forward.isSome && node.forward.isSome then
        throw (.storeUnavailable (.forwardConflict id))
      modify (·.modifyNode id u.applyTo)
  nextGeneration owner := do
    let next := (← getThe Memory).generation owner + 1
    modify (·.setGeneration owner next)
    return next
  getIdea id := do
    return (← getThe Memory).idea? id
  createIdea idea node := do
    if idea.id ≠ node.id then
      throw (.integrity (.idMismatch idea.id node.id))
    if ((← getThe Memory).node? node.id).isSome then
      throw (.integrity (.duplicateNode node.id))
    modify fun m => (m.addNode node).addIdea idea
  listActive owner := do
    return (← getThe Memory).ideas.filter fun i => i.owner = owner ∧ i.archived = false
  archiveIdea id := do
    if ((← getThe Memory).idea? id).isNone then
      throw (.nodeNotFound id)
    modify (·.modifyIdea id fun i => { i with archived := true })

end Memory

end Ideas
