/-
What single requests keep, calls keep.

A property of a store is `Steady` if each request keeps it that reads or writes nodes, issues
a generation or reads ideas, however the request ends.  Then every call keeps it that is put
together from these (`Steady.run`), wherever it breaks off, and on a watched store, too
(`Steady.watched`).  All calls are, but those that create an idea or archive one.

This is a regime in which nothing is asked of what is seen, and nothing of how a call ends.
-/
import Ideas.Proofs.Discovery
import Ideas.Proofs.Request

namespace Ideas

open NodeStore

/-- The calls that write no ideas. -/
def Request.LeavesIdeas : Request → Prop
  | createIdea _ _ | authorIdea _ _ | archiveIdea _ => False
  | get _ | require _ | create _ | update _ _ | nextGeneration _ | getIdea _ | listActive _
  | unifyCore _ _ | unify _ _ _ | dereference _ | forwardChain _ | materialize _ _
  | discover _ _ => True

variable {σ : Type}

/-- A property that no request changes but those that write ideas; and nodes are found under their
ids. -/
structure Steady [NodeStore σ] (P : σ → Prop) : Prop where
  get : ∀ {s} id, P s → P ((get id : Action σ _) s).2
  finds : ∀ {s id n}, P s → ((NodeStore.get id : Action σ _) s).1 = .ok (some n) → n.id = id
  create : ∀ {s} n, P s → P ((create n : Action σ _) s).2
  update : ∀ {s} id u, P s → P ((update id u : Action σ _) s).2
  nextGeneration : ∀ {s} owner, P s → P ((nextGeneration owner : Action σ _) s).2
  getIdea : ∀ {s} id, P s → P ((getIdea id : Action σ _) s).2
  listActive : ∀ {s} owner, P s → P ((listActive owner : Action σ _) s).2

namespace Steady

/-- The property holds all the time, and that is all. -/
def regime (P : σ → Prop) : Regime σ where
  holds := P
  sees _ _ := True
  allows _ := P

variable {P : σ → Prop} {α : Type} {act : Action σ α} {pre : σ → Prop}

/-- To keep the property however a call ends is to keep to the regime. -/
theorem keeps_iff : (regime P).Keeps (fun s => s) pre act ↔ ∀ s, P s → pre s → P (act s).2 := by
  refine forall_congr' fun s => forall_congr' fun hs => forall_congr' fun hpre => ?_
  rcases act s with ⟨e | a, s'⟩
  · exact Iff.rfl
  · exact ⟨And.left, fun h => ⟨h, trivial⟩⟩

theorem of_keeps (h : (regime P).Keeps (fun s => s) (fun _ => True) act) {s : σ} (hs : P s) :
    P (act s).2 :=
  keeps_iff.mp h s hs trivial

theorem of_reads {post : α → σ → Prop}
    (h : (regime P).Reads (fun s => s) (fun _ => True) act post) {s : σ} (hs : P s) :
    P (act s).2 := by
  have hends := h s hs trivial
  rcases hact : act s with ⟨e | a, s'⟩ <;> rw [hact] at hends
  · exact hends
  · exact hends.1

/-- A request that does not reach the store behind the watch changes nothing there. -/
theorem pass (operation : Operation) (hact : ∀ s, P s → P (act s).2) {m : Monitored σ}
    (hm : P m.inner) : P (Monitored.pass operation act m).2.inner := by
  rcases Regime.pass_cases operation act m with ⟨_, _, hpass⟩ | ⟨_, _, hpass⟩ <;> rw [hpass]
  · exact hm
  · exact hact m.inner hm

variable [NodeStore σ] (h : Steady P)

include h

theorem lawful : (regime P).Lawful where
  fails _ hs := hs
  get id s hs _ := by
    have hkept := h.get id hs
    rcases hget : (NodeStore.get id : Action σ _) s with ⟨e | found, s'⟩ <;> rw [hget] at hkept
    · exact hkept
    · refine ⟨hkept, ?_, fun _ _ => trivial⟩
      rintro n rfl
      exact ⟨h.finds hs (congrArg Prod.fst hget), trivial⟩
  forward n k arcs _ _ _ := by
    have hstamp : (regime P).Keeps (fun s => s) (fun _ => True)
        (NodeStore.nextGeneration n.owner) := keeps_iff.mpr fun s hs _ => h.nextGeneration _ hs
    have hwrite (g : Nat) : (regime P).Keeps (fun s => s) (fun _ => True)
        (NodeStore.update n.id (.forwarding n k.id arcs g)) :=
      keeps_iff.mpr fun s hs _ => h.update _ _ hs
    refine Regime.Keeps.weaken (hstamp.bind fun g => ?_) fun _ _ => trivial
    exact (hwrite g).bind fun _ => Regime.keeps_pure g
  create n _ := keeps_iff.mpr fun s hs _ => h.create n hs
  point id copy := keeps_iff.mpr fun s hs _ => h.update id _ hs

/-- Discovery makes two requests that read ideas. -/
theorem discovery (settings : DiscoverySettings) (id : NodeId) {s : σ} (hs : P s) :
    P (discovery settings id s).2 := by
  have hidea := h.getIdea id hs
  show P (discoverRelations settings id s).2
  rcases hget : (NodeStore.getIdea id : Action σ _) s with ⟨e | i, s'⟩ <;> rw [hget] at hidea
  · rw [discoverRelations_of_error hget]
    exact hidea
  cases i with
  | none =>
      rw [discoverRelations_of_none hget]
      exact hidea
  | some target =>
      have hlisted := h.listActive target.owner hidea
      rcases hlist : (NodeStore.listActive target.owner : Action σ _) s' with ⟨e | pool, s''⟩ <;>
        rw [hlist] at hlisted
      · rw [discoverRelations_of_unlisted hget hlist]
        exact hlisted
      · rw [discoverRelations_of_listed hget hlist]
        exact hlisted

/-- Every call keeps what is steady, if it writes no ideas. -/
theorem run {r : Request} (hr : r.LeavesIdeas) {s : σ} (hs : P s) : P (r.run s).2 := by
  cases r with
  | get id => exact h.get id hs
  | require id => exact of_reads (h.lawful.require id) hs
  | create n => exact h.create n hs
  | update id u => exact h.update id u hs
  | nextGeneration owner => exact h.nextGeneration owner hs
  | getIdea id => exact h.getIdea id hs
  | listActive owner => exact h.listActive owner hs
  | unifyCore a b => exact of_keeps (h.lawful.unifyCore a b) hs
  | unify fresh a b => exact of_keeps (h.lawful.unify fresh a b) hs
  | dereference id => exact of_reads (h.lawful.dereference id) hs
  | forwardChain id => exact of_reads (h.lawful.forwardChain id) hs
  | materialize fresh id => exact of_keeps (h.lawful.materialize fresh id) hs
  | discover settings id => exact h.discovery settings id hs
  | createIdea | authorIdea | archiveIdea => exact hr.elim

theorem watched : Steady fun m : Monitored σ => P m.inner where
  get id hm := pass .get (fun _ hs => h.get id hs) hm
  finds {m id n} hm hget := by
    rcases Regime.pass_cases .get (NodeStore.get id) m with
      ⟨_, _, hpass⟩ | ⟨_, _, hpass⟩ <;>
      change (NodeStore.get id : Action (Monitored σ) _) m = _ at hpass <;> rw [hpass] at hget
    · cases hget
    · exact h.finds hm hget
  create n hm := pass .create (fun _ hs => h.create n hs) hm
  update id u hm := pass .update (fun _ hs => h.update id u hs) hm
  nextGeneration owner hm := pass .nextGeneration (fun _ hs => h.nextGeneration owner hs) hm
  getIdea id hm := pass .getIdea (fun _ hs => h.getIdea id hs) hm
  listActive owner hm := pass .listActive (fun _ hs => h.listActive owner hs) hm

/-- A call keeps it, too, if the requests that write ideas do. -/
theorem run_watched (hcreate : ∀ i n s, P s → P ((createIdea i n : Action σ _) s).2)
    (harchive : ∀ id s, P s → P ((archiveIdea id : Action σ _) s).2) (r : Request)
    {m : Monitored σ} (hm : P m.inner) : P (r.run m).2.inner := by
  by_cases hr : r.LeavesIdeas
  · exact h.watched.run hr hm
  · cases r with
    | createIdea i n => exact pass .createIdea (hcreate i n) hm
    | authorIdea i arcs => exact pass .createIdea (hcreate i _) hm
    | archiveIdea id => exact pass .archiveIdea (harchive id) hm
    | _ => exact absurd trivial hr

end Steady

end Ideas
