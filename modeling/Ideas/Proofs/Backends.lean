/-
A memory and a database cannot be told apart.

If both start empty, each call of a run ends alike on the two of them, and after it they
hold the same nodes, the same ideas, and the same active ideas of each owner in the same
order (`memory_and_database_agree`).

This is so as long as nothing is given that the tables cannot keep, and no generation is
issued that they cannot: a database fails where a memory goes on counting.  But it takes
more calls than there are such numbers to come so far (`Request.counting_after`).
-/
import Ideas.Proofs.Database.Operations

namespace Ideas

open NodeStore Database

namespace Request

/-- What is given with a call can be kept in the tables. -/
def Storable : Request → Prop
  | create node => node.Storable
  | update _ u => u.Storable
  | createIdea idea node => idea.Storable ∧ node.Storable
  | authorIdea idea arcs => idea.Storable ∧ Arcs.Storable arcs
  | _ => True

/-! ### One call and a run of calls -/

/-- Every call is in step. -/
theorem inStep (r : Request) : InStep mirroring r.Storable (fun _ => True) r.run r.run := by
  cases r with
  | get id => exact (inStep_get id).forget
  | require id => exact (inStep_require id).forget
  | create node => exact inStep_create node
  | update id u => exact inStep_update id u
  | nextGeneration owner => exact (inStep_nextGeneration owner).forget
  | createIdea idea node => exact inStep_createIdea idea node
  | authorIdea idea arcs => exact inStep_authorIdea idea arcs
  | getIdea id => exact inStep_getIdea id
  | listActive owner => exact inStep_listActive owner
  | archiveIdea id => exact inStep_archiveIdea id
  | unifyCore a b => exact inStep_unifyCore a b
  | unify fresh a b => exact inStep_unify fresh a b
  | dereference id => exact (inStep_dereference id).forget
  | forwardChain id => exact (inStep_forwardChain id).forget
  | materialize fresh id => exact inStep_materialize fresh id
  | discover settings id => exact inStep_discovery settings id

/-- A run that ends with its counters within the numbers of the tables began so. -/
theorem counting_of_after {requests : List Request} {m : Memory}
    (h : (after requests m).Counting) : m.Counting := by
  induction requests generalizing m with
  | nil => exact h
  | cons r requests ih => exact (inStep r).fine_before (ih h)

/-- No run comes to the end of the numbers that has fewer calls than there are numbers. -/
theorem counting_after {requests : List Request}
    (h : (generationSeed + requests.length : Nat) ≤ Decimal.greatestInt64) :
    (after requests ({} : Memory)).Counting := by
  intro owner
  have hissued := generation_after_le requests owner
  omega

/-- After the same calls the database still mirrors the memory. -/
theorem mirrors_after {requests : List Request} {m : Memory} {db : Database}
    (hgiven : ∀ r ∈ requests, r.Storable) (hissued : (after requests m).Counting)
    (h : Mirrors m db) : Mirrors (after requests m) (after requests db) := by
  induction requests generalizing m db with
  | nil => exact h
  | cons r requests ih =>
    obtain ⟨hr, hrest⟩ := List.forall_mem_cons.mp hgiven
    exact ih hrest hissued ((inStep r).ends hr h (counting_of_after hissued)).paired

end Request

/-! ### Both stores from empty ones -/

/-- A new database holds what an empty memory holds: nothing. -/
theorem mirrors_fresh : Mirrors {} Database.fresh :=
  ⟨rfl, rfl, fun _ => rfl, rfl, rfl, rfl, ⟨by simp, by simp, List.nodup_nil, by simp⟩⟩

/-- After any run from empty stores, one more call ends alike on a memory and on a database, with
the same value or with failures of the same kind, and leaves both with the same nodes, the same
ideas and the same lists of active ideas.

All generations have to be numbers of the tables, up to the greatest whole number of sixty-four
bits: those given with a call, which has to be storable in other respects as well (`hgiven`), and
those issued in the run (`hissued`).  Behind that number a database fails where a memory goes on
counting; no run of fewer calls than there are such numbers issues one of them
(`Request.counting_after`). -/
theorem memory_and_database_agree (requests : List Request) (r : Request)
    (hgiven : ∀ q ∈ requests ++ [r], q.Storable)
    (hissued : (Request.after (requests ++ [r]) ({} : Memory)).Counting) :
    let memory := Request.after requests ({} : Memory)
    let database := Request.after requests Database.fresh
    Agree (r.run memory).1 (r.run database).1 ∧
      (∀ id, (get id (r.run memory).2).1 = (get id (r.run database).2).1) ∧
      (∀ id, (getIdea id (r.run memory).2).1 = (getIdea id (r.run database).2).1) ∧
      ∀ owner, (listActive owner (r.run memory).2).1 = (listActive owner (r.run database).2).1 := by
  intro memory database
  obtain ⟨hbefore, hr⟩ := List.forall_mem_append.mp hgiven
  rw [Request.after_concat] at hissued
  have hmirrors : Mirrors memory database :=
    Request.mirrors_after hbefore (r.inStep.fine_before hissued) mirrors_fresh
  have hends := r.inStep.ends (hr r List.mem_cons_self) hmirrors hissued
  have hlast : Mirrors (r.run memory).2 (r.run database).2 := hends.paired
  refine ⟨hends.agree, fun id => ?_, fun id => ?_, fun owner => ?_⟩
  · exact (congrArg Prod.fst (toAction_eq (hlast.loadNode_eq id))).symm
  · exact (congrArg Prod.fst (toAction_eq (hlast.loadIdea_eq id))).symm
  · exact (congrArg Prod.fst (toAction_eq (hlast.listIdeas_eq owner))).symm

/-- An idea and a node that refer to one leaf. -/
def sharedReference : List Request :=
  [.authorIdea { id := ⟨1⟩, owner := "ann", title := "sort", energy := 3 } [⟨"next", .node ⟨2⟩⟩],
   .create (.leaf ⟨2⟩ "ann" "base"),
   .create (.complex ⟨3⟩ "ann" [⟨"next", .node ⟨2⟩⟩, ⟨"why", .text "fast"⟩])]

/-- The node of the idea is forwarded into the other one, and both stores make the merged view. -/
theorem memory_and_database_agree_sharedReference :
    let memory := Request.after sharedReference ({} : Memory)
    let database := Request.after sharedReference Database.fresh
    let r := Request.unify ⟨9⟩ ⟨1⟩ ⟨3⟩
    (unify ⟨9⟩ ⟨1⟩ ⟨3⟩ memory).1.toOption = some ⟨⟨9⟩, ⟨3⟩, [⟨⟨1⟩, ⟨3⟩, 11, 1⟩]⟩ ∧
      Agree (r.run memory).1 (r.run database).1 ∧
      (∀ id, (get id (r.run memory).2).1 = (get id (r.run database).2).1) ∧
      (∀ id, (getIdea id (r.run memory).2).1 = (getIdea id (r.run database).2).1) ∧
      ∀ owner, (listActive owner (r.run memory).2).1
        = (listActive owner (r.run database).2).1 := by
  intro memory database r
  have hidea : (Request.authorIdea { id := ⟨1⟩, owner := "ann", title := "sort", energy := 3 }
      [⟨"next", .node ⟨2⟩⟩]).Storable := ⟨by decide, by simp [Arcs.Storable]⟩
  have hleaf : (Request.create (.leaf ⟨2⟩ "ann" "base")).Storable := Node.storable_leaf _ _ _
  have hnode : (Request.create
      (.complex ⟨3⟩ "ann" [⟨"next", .node ⟨2⟩⟩, ⟨"why", .text "fast"⟩])).Storable :=
    Node.storable_complex _ _ (by simp [Arcs.Storable])
  have hgiven : ∀ q ∈ sharedReference ++ [r], q.Storable := by
    simp only [sharedReference, List.cons_append, List.nil_append, List.forall_mem_cons]
    exact ⟨hidea, hleaf, hnode, trivial, List.forall_mem_nil _⟩
  exact ⟨by decide +kernel,
    memory_and_database_agree sharedReference r hgiven (Request.counting_after (by decide))⟩

end Ideas
