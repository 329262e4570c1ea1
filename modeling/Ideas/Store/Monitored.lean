/-
A store that is watched, and can be made to fail.

`Monitored` stands in front of another store.  It notes every operation that is
asked for, and it can hold one fault: the given operation fails the given number of
requests from now, once, before the request reaches the store behind.
-/
import Ideas.Store

namespace Ideas

/-- The operations of a store. -/
inductive Operation where
  | get
  | create
  | update
  | nextGeneration
  | getIdea
  | createIdea
  | listActive
  | archiveIdea
deriving DecidableEq, Repr

/-- A failure that waits for its turn. -/
structure Fault where
  operation : Operation
  /-- The request that fails, counted from one among those of the operation; for zero none does. -/
  turn : Nat
deriving DecidableEq, Repr

/-- A store with a watch on it. -/
structure Monitored (σ : Type) where
  inner : σ
  /-- The operations asked for so far, the latest one first. -/
  requests : List Operation := []
  fault : Option Fault := none

namespace Monitored

variable {σ : Type}

/-- The fault after one more request, and whether it strikes that request. -/
def strike (operation : Operation) : Option Fault → Bool × Option Fault
  | none => (false, none)
  | some fault =>
    if fault.operation ≠ operation then (false, some fault)
    else if fault.turn = 1 then (true, none)
    else (false, some { fault with turn := fault.turn - 1 })

/-- Pass a request on to the store behind, unless the fault strikes it. -/
def pass {α : Type} (operation : Operation) (act : Action σ α) : Action (Monitored σ) α :=
  fun m =>
    let (struck, fault) := strike operation m.fault
    let m := { m with requests := operation :: m.requests, fault }
    if struck then (.error (.storeUnavailable (.unreachable "injected failure")), m)
    else
      let (result, inner) := act m.inner
      (result, { m with inner })

/-- A request that the fault strikes is noted and does not reach the store behind. -/
theorem pass_of_strike {α : Type} {operation : Operation} (act : Action σ α) {m : Monitored σ}
    {fault : Option Fault} (h : strike operation m.fault = (true, fault)) :
    pass operation act m
      = (.error (.storeUnavailable (.unreachable "injected failure")),
          ⟨m.inner, operation :: m.requests, fault⟩) := by
  simp only [pass, h, if_true]

instance [NodeStore σ] : NodeStore (Monitored σ) where
  nodeCount m := NodeStore.nodeCount m.inner
  get id := pass .get (NodeStore.get id)
  create node := pass .create (NodeStore.create node)
  update id u := pass .update (NodeStore.update id u)
  nextGeneration owner := pass .nextGeneration (NodeStore.nextGeneration owner)
  getIdea id := pass .getIdea (NodeStore.getIdea id)
  createIdea idea node := pass .createIdea (NodeStore.createIdea idea node)
  listActive owner := pass .listActive (NodeStore.listActive owner)
  archiveIdea id := pass .archiveIdea (NodeStore.archiveIdea id)

end Monitored

end Ideas
