/-
The walk along forward references, in a store of any kind.

`Route` is where the references lead, step by step, and without an end: from an id over the
nodes of a list to a next id.  `Halts` are the ways in which such a route is given up: at a
node that points nowhere, at an id that was passed before, at an id that is not stored, or at
one whose node cannot be read.  Since a node points at one id only, the routes from an id are
the starts of one another, and of those that pass no id twice just one is given up
(`Walks.unique`).

The walk keeps to this route (`followForward_walks`).  What it has passed are different ids of
nodes that can be read, and of these there are no more than the store counts; so the bound on
its steps is never met, and a larger one makes no difference.  All of this needs no more of a
store than that its nodes can be looked up (`Lookup`), which a memory and a database offer, the
latter whatever its rows hold.
-/
import Ideas.Proofs.Database.Forwarding

namespace Ideas

open NodeStore

/-! ### Stores that can be looked up -/

/-- What is read under an id: a node, nothing, or why what is there cannot be read. -/
def held {σ : Type} [NodeStore σ] (s : σ) (id : NodeId) : Except EngineError (Option Node) :=
  (get id s).1

/-- Nodes are read under their own ids, no more of them than are counted, and reading changes
nothing.  Where it fails, the store does. -/
class Lookup (σ : Type) [NodeStore σ] : Prop where
  get_snd : ∀ (id : NodeId) (s : σ), ((get id : Action σ _) s).2 = s
  id_of_held : ∀ {s : σ} {id : NodeId} {n : Node}, held s id = .ok (some n) → n.id = id
  ofStore_of_held : ∀ {s : σ} {id : NodeId} {e : EngineError},
    held s id = .error e → ∃ cause, e = .ofStore cause
  exists_ids : ∀ s : σ, ∃ ids : List NodeId, ids.length ≤ nodeCount s ∧
    ∀ id n, held s id = .ok (some n) → id ∈ ids

theorem Memory.held_eq (m : Memory) (id : NodeId) : held m id = .ok (m.node? id) := rfl

instance : Lookup Memory where
  get_snd _ _ := rfl
  id_of_held h := Memory.id_of_node? (Except.ok.inj h)
  ofStore_of_held h := nomatch h
  exists_ids m := ⟨m.nodes.map Node.id, (List.length_map _).le,
    fun _ _ h => Memory.mem_ids_of_node? (Except.ok.inj h)⟩

namespace Database

variable {db : Database} {id : NodeId}

theorem held_cases (db : Database) (id : NodeId) :
    (db.nodeRow? id = none ∧ held db id = .ok none) ∨
      (∃ n, held db id = .ok (some n) ∧ n.id = id ∧ db.Sees n) ∨
      ∃ row cause, db.nodeRow? id = some row ∧ row.toNode = .error cause ∧
        held db id = .error (.ofStore cause) := by
  have hget : (get id : Action Database _) db = (held db id, db) := Prod.ext rfl rfl
  exact (get_cases hget).2

/-- The ids that rows have for their keys. -/
def rowIds (db : Database) : List NodeId :=
  db.nodes.toList.filterMap fun r => r.id.bind NodeId.read?

theorem mem_rowIds {row : NodeRow} (found : db.nodeRow? id = some row) : id ∈ db.rowIds := by
  refine List.mem_filterMap.mpr ⟨row, List.mem_of_find?_eq_some found, ?_⟩
  rw [key_of_nodeRow? found, Option.bind_some, NodeId.read?_text]

instance : Lookup Database where
  get_snd id db := (get_cases (Prod.eta (get id db)).symm).1
  id_of_held {db id n} h := by
    rcases held_cases db id with ⟨-, hheld⟩ | ⟨k, hheld, hid, -⟩ | ⟨_, _, -, -, hheld⟩ <;>
      cases hheld.symm.trans h
    exact hid
  ofStore_of_held {db id e} h := by
    rcases held_cases db id with ⟨-, hheld⟩ | ⟨k, hheld, -, -⟩ | ⟨_, cause, -, -, hheld⟩ <;>
      cases hheld.symm.trans h
    exact ⟨cause, rfl⟩
  exists_ids db := by
    refine ⟨db.rowIds, List.length_filterMap_le _ _, fun id n h => ?_⟩
    cases hrow : db.nodeRow? id with
    | some row => exact mem_rowIds hrow
    | none =>
        rw [held, get_eq, hrow] at h
        cases h

end Database

variable {σ : Type} [NodeStore σ] {s : σ} {id next x y : NodeId} {n : Node} {path rest : List Node}
  {r r' : Except EngineError (List Node)}

/-! ### Routes -/

/-- From an id the forward references pass the nodes of `path` and come to `x`. -/
inductive Route (s : σ) : NodeId → List Node → NodeId → Prop
  | start {id : NodeId} : Route s id [] id
  | go {id next x : NodeId} {n : Node} {path : List Node} (found : held s id = .ok (some n))
      (hn : n.forward = some next) (rest : Route s next path x) : Route s id (n :: path) x

theorem Route.append (h : Route s id path x) (h' : Route s x rest y) :
    Route s id (path ++ rest) y := by
  induction h with
  | start => exact h'
  | go found hn _ ih => exact .go found hn (ih h')

/-- Of two routes from one id the longer continues the shorter. -/
theorem Route.compare (h : Route s id path x) {path' : List Node} (h' : Route s id path' y) :
    (∃ rest, path' = path ++ rest ∧ Route s x rest y) ∨
      ∃ rest, path = path' ++ rest ∧ Route s y rest x := by
  induction h generalizing path' with
  | start => exact Or.inl ⟨path', rfl, h'⟩
  | @go id next x n path found hn hrest ih =>
      cases h' with
      | start => exact Or.inr ⟨n :: path, rfl, .go found hn hrest⟩
      | go found' hn' hrest' =>
          obtain rfl := Option.some.inj (Except.ok.inj (found.symm.trans found'))
          obtain rfl := Option.some.inj (hn.symm.trans hn')
          rcases ih hrest' with ⟨rest, rfl, h⟩ | ⟨rest, rfl, h⟩
          · exact Or.inl ⟨rest, rfl, h⟩
          · exact Or.inr ⟨rest, rfl, h⟩

/-- A route can be cut off behind any of its nodes. -/
theorem Route.cut (h : Route s id (path ++ rest) x) :
    ∃ y, Route s id path y ∧ Route s y rest x := by
  induction path generalizing id with
  | nil => exact ⟨id, .start, h⟩
  | cons n path ih =>
      cases h with
      | go found hn hrest =>
          obtain ⟨y, hfront, hback⟩ := ih hrest
          exact ⟨y, .go found hn hfront, hback⟩

/-- How a walk ends that has passed `path` and comes to `x`. -/
inductive Halts (s : σ) (path : List Node) (x : NodeId) : Except EngineError (List Node) → Prop
  | arrives {last : Node} (found : held s x = .ok (some last)) (hlast : last.forward = none) :
      Halts s path x (.ok (path ++ [last]))
  | returns (again : x ∈ path.map Node.id) : Halts s path x (.error (.cycleDetected x))
  | leaves (missing : held s x = .ok none) : Halts s path x (.error (.nodeNotFound x))
  | fails {e : EngineError} (unread : held s x = .error e) : Halts s path x (.error e)

/-- How the walk from an id ends: it is given up at the end of a route that passes no id twice. -/
def Walks (s : σ) (id : NodeId) (r : Except EngineError (List Node)) : Prop :=
  ∃ path x, Route s id path x ∧ (path.map Node.id).Nodup ∧ Halts s path x r

variable [Lookup σ]

open Lookup

/-- What a route has passed points on. -/
theorem Route.of_mem (h : Route s id path x) (hn : n ∈ path) :
    held s n.id = .ok (some n) ∧ ∃ next, n.forward = some next := by
  induction h with
  | start => cases hn
  | @go id next x k path found hk _ ih =>
      rcases List.mem_cons.mp hn with rfl | hn
      · rw [id_of_held found]
        exact ⟨found, next, hk⟩
      · exact ih hn

theorem Route.of_mem_ids (h : Route s id path x) (hy : y ∈ path.map Node.id) :
    ∃ n next, held s y = .ok (some n) ∧ n.forward = some next := by
  obtain ⟨n, hn, rfl⟩ := List.mem_map.mp hy
  obtain ⟨found, next, hnext⟩ := h.of_mem hn
  exact ⟨n, next, found, hnext⟩

/-- A route without repetition is no longer than there are nodes. -/
theorem Route.length_le (h : Route s id path x) (hnodup : (path.map Node.id).Nodup) :
    path.length ≤ nodeCount s := by
  obtain ⟨ids, hcount, hids⟩ := exists_ids s
  have hsub : path.map Node.id ⊆ ids := by
    intro y hy
    obtain ⟨n, _, found, -⟩ := h.of_mem_ids hy
    exact hids y n found
  have hle := hnodup.length_le_of_subset hsub
  rw [List.length_map] at hle
  exact hle.trans hcount

/-! ### One way to end -/

theorem Halts.unique (leads : Route s id path x) (h : Halts s path x r) (h' : Halts s path x r') :
    r = r' := by
  have hagain : x ∈ path.map Node.id →
      ∃ n next, held s x = .ok (some n) ∧ n.forward = some next := leads.of_mem_ids
  cases h <;> cases h' <;> grind

/-- A route that is given up does not go on without a repetition. -/
theorem Halts.eq_nil (h : Halts s path x r) (hrest : Route s x rest y)
    (hnodup : ((path ++ rest).map Node.id).Nodup) : rest = [] := by
  cases hrest with
  | start => rfl
  | @go _ next y n rest found hn _ =>
      exfalso
      cases h with
      | arrives found' hlast =>
          obtain rfl := Option.some.inj (Except.ok.inj (found.symm.trans found'))
          cases hlast.symm.trans hn
      | returns again =>
          rw [List.map_append, List.nodup_append] at hnodup
          exact hnodup.2.2 x again n.id List.mem_cons_self (id_of_held found).symm
      | leaves missing => cases found.symm.trans missing
      | fails unread => cases found.symm.trans unread

/-- The walk from an id ends in one way. -/
theorem Walks.unique (h : Walks s id r) (h' : Walks s id r') : r = r' := by
  obtain ⟨path, x, leads, hnodup, halts⟩ := h
  obtain ⟨path', y, leads', hnodup', halts'⟩ := h'
  rcases leads.compare leads' with ⟨rest, rfl, hrest⟩ | ⟨rest, rfl, hrest⟩
  · obtain rfl := halts.eq_nil hrest hnodup'
    cases hrest
    rw [List.append_nil] at halts'
    exact halts.unique leads halts'
  · obtain rfl := halts'.eq_nil hrest hnodup
    cases hrest
    rw [List.append_nil] at halts
    exact halts.unique leads' halts'

/-- A route that passes an id twice, or comes to it again, has done so for a first time. -/
theorem Route.returns (h : Route s id path x) (hrepeats : ¬ (path.map Node.id ++ [x]).Nodup) :
    ∃ y, Walks s id (.error (.cycleDetected y)) := by
  induction path using List.reverseRecOn generalizing x with
  | nil => exact absurd (List.nodup_singleton x) hrepeats
  | append_singleton path n ih =>
      by_cases hnodup : ((path ++ [n]).map Node.id).Nodup
      · refine ⟨x, _, x, h, hnodup, .returns ?_⟩
        by_contra hnew
        refine hrepeats (List.nodup_append.mpr ⟨hnodup, List.nodup_singleton x, ?_⟩)
        rintro a ha b hb rfl
        exact hnew (List.mem_singleton.mp hb ▸ ha)
      · obtain ⟨y, hfront, hback⟩ := h.cut
        cases hback with
        | go found _ _ =>
            refine ih hfront ?_
            rwa [List.map_append, List.map_singleton, id_of_held found] at hnodup

/-! ### The walk -/

theorem get_eq_held (s : σ) (id : NodeId) : (get id : Action σ _) s = (held s id, s) :=
  Prod.ext rfl (get_snd id s)

theorem require_of_held_some (found : held s id = .ok (some n)) :
    (require id : Action σ Node) s = (.ok n, s) := by
  rw [require, bind_eq_of_ok ((get_eq_held s id).trans (congrArg (·, s) found))]
  rfl

theorem require_of_held_none (missing : held s id = .ok none) :
    (require id : Action σ Node) s = (.error (.nodeNotFound id), s) := by
  rw [require, bind_eq_of_ok ((get_eq_held s id).trans (congrArg (·, s) missing))]
  rfl

theorem require_of_held_error {e : EngineError} (unread : held s id = .error e) :
    (require id : Action σ Node) s = (.error e, s) := by
  rw [require, bind_eq_of_error ((get_eq_held s id).trans (congrArg (·, s) unread))]

/-- A walk that has passed a route without repetition, and has more steps left than there are nodes
that it has not passed, goes on along the route until that is given up. -/
theorem followForward_walks {origin : NodeId} : ∀ (steps : Nat) {path : List Node} {x : NodeId},
    Route s origin path x → (path.map Node.id).Nodup → nodeCount s < steps + path.length →
      ∃ r, followForward steps (path.map Node.id).reverse x s = (r, s) ∧
        Walks s origin (r.map (path ++ ·)) := by
  intro steps
  induction steps with
  | zero =>
      intro path x leads hnodup hroom
      have hle := leads.length_le hnodup
      omega
  | succ steps ih =>
      intro path x leads hnodup hroom
      by_cases hseen : x ∈ (path.map Node.id).reverse
      · rw [followForward, if_pos hseen]
        exact ⟨_, rfl, path, x, leads, hnodup, .returns (List.mem_reverse.mp hseen)⟩
      rw [followForward_of_notMem hseen]
      cases hheld : held s x with
      | error e =>
          rw [bind_eq_of_error (require_of_held_error hheld)]
          exact ⟨_, rfl, path, x, leads, hnodup, .fails hheld⟩
      | ok found =>
          cases found with
          | none =>
              rw [bind_eq_of_error (require_of_held_none hheld)]
              exact ⟨_, rfl, path, x, leads, hnodup, .leaves hheld⟩
          | some n =>
              rw [bind_eq_of_ok (require_of_held_some hheld)]
              cases hn : n.forward with
              | none => exact ⟨_, rfl, path, x, leads, hnodup, .arrives hheld hn⟩
              | some next =>
                  have hpassed : ((path ++ [n]).map Node.id).reverse
                      = x :: (path.map Node.id).reverse := by
                    rw [List.map_append, List.reverse_append, List.map_singleton,
                      id_of_held hheld]
                    rfl
                  have hnodup' : ((path ++ [n]).map Node.id).Nodup := by
                    rw [← List.nodup_reverse, hpassed]
                    exact List.nodup_cons.mpr ⟨hseen, List.nodup_reverse.mpr hnodup⟩
                  obtain ⟨r, hrun, hwalks⟩ := ih (leads.append (.go hheld hn .start)) hnodup'
                    (by rw [List.length_append, List.length_singleton]; omega)
                  rw [hpassed] at hrun
                  dsimp only
                  cases r with
                  | error e => exact ⟨_, bind_eq_of_error hrun, hwalks⟩
                  | ok chain =>
                      refine ⟨.ok (n :: chain), bind_eq_of_ok hrun, ?_⟩
                      rwa [Except.map, List.append_assoc] at hwalks

theorem followForward_walks_of_lt {steps : Nat} (h : nodeCount s < steps) (id : NodeId) :
    ∃ r, followForward steps [] id s = (r, s) ∧ Walks s id r := by
  have hstart : Route s id [] id := .start
  obtain ⟨r, hrun, hwalks⟩ := followForward_walks steps hstart List.nodup_nil (by simpa using h)
  refine ⟨r, hrun, ?_⟩
  cases r <;> exact hwalks

/-- The walk answers as it ends, and leaves the store as it was. -/
theorem forwardChain_eq_iff {s' : σ} : forwardChain id s = (r, s') ↔ s' = s ∧ Walks s id r := by
  have hrun : forwardChain id s = followForward (nodeCount s + 1) [] id s := rfl
  obtain ⟨answer, hanswer, hwalks⟩ := followForward_walks_of_lt (Nat.lt_succ_self (nodeCount s)) id
  rw [hrun, hanswer]
  constructor
  · intro h
    cases h
    exact ⟨rfl, hwalks⟩
  · rintro ⟨rfl, h⟩
    rw [hwalks.unique h]

theorem forwardChain_fst_eq_iff : (forwardChain id s).1 = r ↔ Walks s id r := by
  constructor
  · rintro rfl
    exact (forwardChain_eq_iff.mp rfl).2
  · exact fun h => congrArg Prod.fst (forwardChain_eq_iff.mpr ⟨rfl, h⟩)

/-- More steps than there are nodes make no difference. -/
theorem followForward_eq_forwardChain {steps : Nat} (h : nodeCount s < steps) (id : NodeId) :
    followForward steps [] id s = forwardChain id s := by
  obtain ⟨r, hrun, hwalks⟩ := followForward_walks_of_lt h id
  rw [hrun, forwardChain_eq_iff.mpr ⟨rfl, hwalks⟩]

/-! ### How each answer comes about -/

theorem EngineError.ofStore_ne (cause : StoreError) (x : NodeId) :
    ofStore cause ≠ .cycleDetected x ∧ ofStore cause ≠ .nodeNotFound x := by
  unfold ofStore
  split <;> exact ⟨nofun, nofun⟩

/-- A chain is a route without repetition to a node that points nowhere. -/
theorem walks_ok_iff {chain : List Node} : Walks s id (.ok chain) ↔
    ∃ path last, chain = path ++ [last] ∧ (chain.map Node.id).Nodup ∧ Route s id path last.id ∧
      held s last.id = .ok (some last) ∧ last.forward = none := by
  constructor
  · rintro ⟨path, x, leads, hnodup, halts⟩
    cases halts with
    | @arrives last found hlast =>
        have hx : last.id = x := id_of_held found
        subst hx
        refine ⟨path, last, rfl, ?_, leads, found, hlast⟩
        rw [List.map_append, List.nodup_append]
        refine ⟨hnodup, List.nodup_singleton _, ?_⟩
        rintro a ha b hb rfl
        obtain ⟨n, next, hn, hnext⟩ := leads.of_mem_ids ha
        rw [List.mem_singleton.mp hb] at hn
        obtain rfl := Option.some.inj (Except.ok.inj (found.symm.trans hn))
        cases hlast.symm.trans hnext
  · rintro ⟨path, last, rfl, hnodup, leads, found, hlast⟩
    rw [List.map_append] at hnodup
    exact ⟨path, last.id, leads, hnodup.of_append_left, .arrives found hlast⟩

theorem walks_cycleDetected_iff : Walks s id (.error (.cycleDetected x)) ↔
    ∃ path, Route s id path x ∧ (path.map Node.id).Nodup ∧ x ∈ path.map Node.id := by
  constructor
  · rintro ⟨path, y, leads, hnodup, halts⟩
    cases halts with
    | returns again => exact ⟨path, leads, hnodup, again⟩
    | fails unread =>
        obtain ⟨cause, he⟩ := ofStore_of_held unread
        exact absurd he.symm (EngineError.ofStore_ne cause x).1
  · rintro ⟨path, leads, hnodup, again⟩
    exact ⟨path, x, leads, hnodup, .returns again⟩

theorem walks_nodeNotFound_iff : Walks s id (.error (.nodeNotFound x)) ↔
    ∃ path, Route s id path x ∧ (path.map Node.id).Nodup ∧ held s x = .ok none := by
  constructor
  · rintro ⟨path, y, leads, hnodup, halts⟩
    cases halts with
    | leaves missing => exact ⟨path, leads, hnodup, missing⟩
    | fails unread =>
        obtain ⟨cause, he⟩ := ofStore_of_held unread
        exact absurd he.symm (EngineError.ofStore_ne cause x).2
  · rintro ⟨path, leads, hnodup, missing⟩
    exact ⟨path, x, leads, hnodup, .leaves missing⟩

omit [Lookup σ] in
theorem walks_ofStore_iff {cause : StoreError} : Walks s id (.error (.ofStore cause)) ↔
    ∃ path x, Route s id path x ∧ (path.map Node.id).Nodup ∧
      held s x = .error (.ofStore cause) := by
  constructor
  · rintro ⟨path, x, leads, hnodup, halts⟩
    generalize hr : (.error (.ofStore cause) : Except EngineError (List Node)) = r at halts
    cases halts with
    | arrives _ _ => cases hr
    | returns _ => exact absurd (Except.error.inj hr) (EngineError.ofStore_ne cause x).1
    | leaves _ => exact absurd (Except.error.inj hr) (EngineError.ofStore_ne cause x).2
    | fails unread => exact ⟨path, x, leads, hnodup, Except.error.inj hr ▸ unread⟩
  · rintro ⟨path, x, leads, hnodup, unread⟩
    exact ⟨path, x, leads, hnodup, .fails unread⟩

/-- A walk fails by itself or with the store. -/
theorem Walks.error_cases {e : EngineError} (h : Walks s id (.error e)) :
    (∃ x, e = .cycleDetected x) ∨ (∃ x, e = .nodeNotFound x) ∨ ∃ cause, e = .ofStore cause := by
  obtain ⟨path, x, -, -, halts⟩ := h
  cases halts with
  | returns _ => exact Or.inl ⟨x, rfl⟩
  | leaves _ => exact Or.inr (Or.inl ⟨x, rfl⟩)
  | fails unread => exact Or.inr (Or.inr (ofStore_of_held unread))

end Ideas
