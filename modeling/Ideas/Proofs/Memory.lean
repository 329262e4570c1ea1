/-
The requests of a memory, and what comes of each.

A request that writes either does all it should do or is refused and changes nothing, and
which of the two is told by what is stored under the id that it is about.
-/
import Ideas.Proofs.Action
import Ideas.Store.Memory

namespace Ideas

open NodeStore

namespace Memory

variable {m : Memory} {id : NodeId} {u : Update}

theorem node?_eq_none_iff : m.node? id = none ↔ id ∉ m.nodes.map Node.id := by
  simp [node?]

/-- A change that keeps the entries with a key keeps all entries. -/
theorem map_ite_eq_self {α : Type} {key : α → NodeId} {f : α → α} {l : List α}
    (h : ∀ a ∈ l, key a = id → f a = a) :
    (l.map fun a => if key a = id then f a else a) = l := by
  have hkeeps : ∀ a ∈ l, (if key a = id then f a else a) = a := by
    intro a ha
    split
    · next hid => exact h a ha hid
    · rfl
  exact (List.map_congr_left hkeeps).trans (List.map_id l)

/-- An update that names no field changes nothing. -/
theorem modifyNode_of_isEmpty (h : u.isEmpty = true) : m.modifyNode id u.applyTo = m := by
  rw [modifyNode, map_ite_eq_self fun n _ _ => Update.applyTo_of_isEmpty h n]

/-- Where there is no idea with the id, none is changed. -/
theorem modifyIdea_of_missing {f : Idea → Idea} (h : m.idea? id = none) :
    m.modifyIdea id f = m := by
  have hother := List.find?_eq_none.mp h
  rw [modifyIdea, map_ite_eq_self fun i hi hid => absurd (decide_eq_true hid) (hother i hi)]

/-- Whether an update finds a node that takes it: one with the id, and without a forward reference
where the update has one. -/
def takes (m : Memory) (id : NodeId) (u : Update) : Bool :=
  (m.node? id).any fun n => u.forward.isNone || n.forward.isNone

theorem takes_iff : m.takes id u = true ↔
    ∃ n, m.node? id = some n ∧ (u.forward.isSome → n.forward.isNone) := by
  rw [takes, Option.any_eq_true]
  refine exists_congr fun n => and_congr_right fun _ => ?_
  cases u.forward <;> simp

/-! ### Outcomes -/

theorem create_eq (m : Memory) (n : Node) :
    (create n : Action Memory Unit) m = if (m.node? n.id).isSome
      then (.error (.integrity (.duplicateNode n.id)), m) else (.ok (), m.addNode n) := by
  have hget : (getThe Memory : Action Memory Memory) m = (.ok m, m) := rfl
  refine (bind_eq_of_ok hget).trans ?_
  split <;> rfl

theorem update_eq (m : Memory) (id : NodeId) (u : Update) :
    (update id u : Action Memory Unit) m = if m.takes id u then (.ok (), m.modifyNode id u.applyTo)
      else if (m.node? id).isSome then (.error (.storeUnavailable (.forwardConflict id)), m)
      else (.error (.nodeNotFound id), m) := by
  have hget : (getThe Memory : Action Memory Memory) m = (.ok m, m) := rfl
  refine (bind_eq_of_ok hget).trans ?_
  rw [takes]
  cases m.node? id with
  | none => rfl
  | some n => cases hu : u.forward <;> cases hn : n.forward <;> simp [hn] <;> rfl

theorem createIdea_eq (m : Memory) (i : Idea) (n : Node) :
    (createIdea i n : Action Memory Unit) m =
      if i.id ≠ n.id then (.error (.integrity (.idMismatch i.id n.id)), m)
      else if (m.node? n.id).isSome then (.error (.integrity (.duplicateNode n.id)), m)
      else (.ok (), (m.addNode n).addIdea i) := by
  have hget : (getThe Memory : Action Memory Memory) m = (.ok m, m) := rfl
  by_cases hid : i.id = n.id
  · rw [if_neg (not_not_intro hid)]
    show (if i.id ≠ n.id then _ else _ : Action Memory Unit) m = _
    rw [if_neg (not_not_intro hid)]
    refine (bind_eq_of_ok hget).trans ?_
    split <;> rfl
  · rw [if_pos hid]
    show (if i.id ≠ n.id then _ else _ : Action Memory Unit) m = _
    rw [if_pos hid]
    rfl

theorem archiveIdea_eq (m : Memory) (id : NodeId) :
    (archiveIdea id : Action Memory Unit) m = if (m.idea? id).isNone
      then (.error (.nodeNotFound id), m)
      else (.ok (), m.modifyIdea id fun i => { i with archived := true }) := by
  have hget : (getThe Memory : Action Memory Memory) m = (.ok m, m) := rfl
  refine (bind_eq_of_ok hget).trans ?_
  split <;> rfl

end Memory

end Ideas
