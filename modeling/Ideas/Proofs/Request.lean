/-
Calls, and runs of them.

A `Request` is one call: of the store, of what is built on it to unify nodes and to follow
references, or of discovery.  A run is a list of them, and `Request.after` is where it
leads, whether its calls succeed or fail.

No run issues many generations.  A counter advances with the calls that ask it to and with
the nodes that are forwarded, and a node is forwarded once.  Counted together with the
nodes that may still be forwarded, a counter therefore advances by one with each call at
most (`Request.tally_run_le`): what a unification adds to the one it takes from the other.
-/
import Ideas.Discovery
import Ideas.Proofs.Memory
import Ideas.Proofs.Unification.Call

namespace Ideas

open NodeStore Backed

/-! ### Discovery as a call -/

/-- An attempt at an action that succeeds. -/
theorem attempt?_bind {σ α β : Type} {act : Action σ α} {f : Option α → StateM σ β} {s mid : σ}
    {a : α} (h : act s = (.ok a, mid)) : (attempt? act >>= f) s = f (some a) mid := by
  have hrun : act.run s = (.ok a, mid) := h
  have hattempt : attempt? act s = (some a, mid) := by
    rw [attempt?]
    show StateT.bind act.run _ s = _
    rw [StateT.bind, hrun]
    rfl
  show StateT.bind (attempt? act) f s = f (some a) mid
  rw [StateT.bind, hattempt]
  rfl

/-- What discovery finds where the idea and the active ideas of its owner can be read. -/
theorem discoverRelations_eq {σ : Type} [NodeStore σ] {s : σ} {id : NodeId} {i : Option Idea}
    {active : String → List Idea} (hidea : (getIdea id : Action σ _) s = (.ok i, s))
    (hactive : ∀ owner, (listActive owner : Action σ _) s = (.ok (active owner), s))
    (settings : DiscoverySettings) :
    discoverRelations settings id s
      = ((i.map fun target => discover settings target (active target.owner)).getD [], s) := by
  refine (attempt?_bind hidea).trans ?_
  cases i with
  | none => rfl
  | some target => exact attempt?_bind (hactive target.owner)

theorem Memory.discoverRelations_eq (m : Memory) (settings : DiscoverySettings) (id : NodeId) :
    discoverRelations settings id m
      = (((m.idea? id).map fun target => discover settings target
          (m.ideas.filter fun i => i.owner = target.owner ∧ i.archived = false)).getD [], m) :=
  Ideas.discoverRelations_eq (s := m) rfl (fun _ => rfl) settings

/-- Discovery, as an action that cannot fail. -/
def discovery {σ : Type} [NodeStore σ] (settings : DiscoverySettings) (id : NodeId) :
    Action σ (List (Candidate Float)) :=
  fun s => (.ok (discoverRelations settings id s).1, (discoverRelations settings id s).2)

/-! ### Calls -/

/-- One call.  Where it makes a node, that gets the id `fresh`. -/
inductive Request where
  | get (id : NodeId)
  | require (id : NodeId)
  | create (node : Node)
  | update (id : NodeId) (u : Update)
  | nextGeneration (owner : String)
  | createIdea (idea : Idea) (node : Node)
  | authorIdea (idea : Idea) (arcs : List Arc)
  | getIdea (id : NodeId)
  | listActive (owner : String)
  | archiveIdea (id : NodeId)
  | unifyCore (a b : NodeId)
  | unify (fresh a b : NodeId)
  | dereference (id : NodeId)
  | forwardChain (id : NodeId)
  | materialize (fresh id : NodeId)
  | discover (settings : DiscoverySettings) (id : NodeId)

namespace Request

/-- What a call answers with. -/
def Answer : Request → Type
  | get _ => Option Node
  | require _ | dereference _ | materialize _ _ => Node
  | create _ | update _ _ | createIdea _ _ | authorIdea _ _ | archiveIdea _ => Unit
  | nextGeneration _ => Nat
  | getIdea _ => Option Idea
  | listActive _ => List Idea
  | unifyCore _ _ => List Forwarding
  | unify _ _ _ => Unified
  | forwardChain _ => List Node
  | discover _ _ => List (Candidate Float)

/-- Make a call. -/
def run {σ : Type} [NodeStore σ] : (r : Request) → Action σ r.Answer
  | get id => NodeStore.get id
  | require id => NodeStore.require id
  | create node => NodeStore.create node
  | update id u => NodeStore.update id u
  | nextGeneration owner => NodeStore.nextGeneration owner
  | createIdea idea node => NodeStore.createIdea idea node
  | authorIdea idea arcs => NodeStore.authorIdea idea arcs
  | getIdea id => NodeStore.getIdea id
  | listActive owner => NodeStore.listActive owner
  | archiveIdea id => NodeStore.archiveIdea id
  | unifyCore a b => Ideas.unifyCore a b
  | unify fresh a b => Ideas.unify fresh a b
  | dereference id => Ideas.dereference id
  | forwardChain id => Ideas.forwardChain id
  | materialize fresh id => Ideas.materialize fresh id
  | discover settings id => discovery settings id

/-- The state after some calls, whether these succeed or fail. -/
def after {σ : Type} [NodeStore σ] (requests : List Request) (s : σ) : σ :=
  requests.foldl (fun s r => (r.run s).2) s

theorem after_cons {σ : Type} [NodeStore σ] (r : Request) (requests : List Request) (s : σ) :
    after (r :: requests) s = after requests (r.run s).2 := rfl

theorem after_concat {σ : Type} [NodeStore σ] (requests : List Request) (r : Request) (s : σ) :
    after (requests ++ [r]) s = (r.run (after requests s)).2 := by
  rw [after, List.foldl_append]
  rfl

end Request

/-! ### What advances with a call -/

namespace Memory

variable {m m' : Memory} {owner : String}

/-- How many nodes may still be forwarded. -/
def unforwarded (m : Memory) : Nat :=
  m.nodes.countP fun n => n.forward.isNone

/-- The counter of an owner, and the nodes that may still be forwarded. -/
def tally (m : Memory) (owner : String) : Nat :=
  m.generation owner + m.unforwarded

theorem tally_addNode_le (m : Memory) (n : Node) (owner : String) :
    (m.addNode n).tally owner ≤ m.tally owner + 1 := by
  have hcount : (m.addNode n).unforwarded ≤ m.unforwarded + 1 := by
    rw [unforwarded, addNode, List.countP_append, ← unforwarded]
    exact Nat.add_le_add_left List.countP_le_length _
  have hgeneration : (m.addNode n).generation owner = m.generation owner := rfl
  rw [tally, tally, hgeneration]
  omega

theorem tally_stamp_le (m : Memory) (stamped owner : String) :
    (m.stamp stamped).tally owner ≤ m.tally owner + 1 := by
  have hcount : (m.stamp stamped).unforwarded = m.unforwarded := rfl
  rw [tally, tally, generation_stamp, hcount]
  split
  · next h => subst h; omega
  · omega

/-- A change that takes no forward reference away. -/
theorem countP_unforwarded_le (id : NodeId) {f : Node → Node}
    (hf : ∀ n, (f n).forward = none → n.forward = none) (nodes : List Node) :
    (nodes.map fun n => if n.id = id then f n else n).countP (·.forward.isNone)
      ≤ nodes.countP (·.forward.isNone) := by
  rw [List.countP_map]
  refine List.countP_mono_left fun n _ hn => ?_
  simp only [Function.comp, Option.isNone_iff_eq_none] at hn ⊢
  split at hn
  · exact hf n hn
  · exact hn

theorem tally_modifyNode_le (m : Memory) (id : NodeId) {f : Node → Node}
    (hf : ∀ n, (f n).forward = none → n.forward = none) (owner : String) :
    (m.modifyNode id f).tally owner ≤ m.tally owner :=
  Nat.add_le_add_left (countP_unforwarded_le id hf m.nodes) _

/-- A node that is forwarded may not be forwarded again. -/
theorem unforwarded_modifyNode_lt {n : Node} (found : m.node? n.id = some n)
    (hn : n.forward = none) {f : Node → Node} (hf : ∀ n, (f n).forward ≠ none) :
    (m.modifyNode n.id f).unforwarded < m.unforwarded := by
  have hle := countP_unforwarded_le n.id (f := f) fun n h => absurd h (hf n)
  obtain ⟨front, rest, hnodes⟩ := List.append_of_mem (List.mem_of_find?_eq_some found)
  have hfront := hle front
  have hrest := hle rest
  have hforwarded : (f n).forward.isNone = false := Option.isNone_eq_false_iff.mpr
    (Option.isSome_iff_ne_none.mpr (hf n))
  rw [unforwarded, unforwarded, modifyNode, hnodes, List.map_append, List.map_cons, if_pos rfl,
    List.countP_append, List.countP_append,
    List.countP_cons_of_neg (by rw [hforwarded]; exact Bool.false_ne_true),
    List.countP_cons_of_pos (by rw [hn]; rfl)]
  omega

/-- Forwarding a node takes a stamp, and a node from those that may be forwarded. -/
theorem tally_forwardNode_le {n k : Node} (may : m.MayForward n k) (arcs : List Arc) :
    (m.forwardNode n k.id arcs).tally owner ≤ m.tally owner := by
  have found : (m.stamp n.owner).node? n.id = some n := may.found
  have hcount := unforwarded_modifyNode_lt found may.forward_eq_none
    (f := (Update.forwarding n k.id arcs (m.generation n.owner + 1)).applyTo)
    fun _ => Option.some_ne_none k.id
  have hstamp : (m.stamp n.owner).unforwarded = m.unforwarded := rfl
  rw [hstamp] at hcount
  rw [tally, tally, generation_forwardNode, generation_stamp, forwardNode]
  split
  · next h => subst h; omega
  · omega

theorem Writes.tally_le {fs : List Forwarding} (h : m.Writes fs m') :
    m'.tally owner ≤ m.tally owner := by
  induction h with
  | nil => exact Nat.le_refl _
  | snoc _ may _ ih => exact Nat.le_trans (tally_forwardNode_le may _) ih

end Memory

theorem Materializes.tally_le {m m' : Memory} {owner : String} {copy id : NodeId}
    {r : Except EngineError Node}
    (h : Materializes m copy id r m') : m'.tally owner ≤ m.tally owner + 1 := by
  cases h with
  | unwritten => exact Nat.le_succ _
  | unpointed => exact Memory.tally_addNode_le m _ owner
  | @done view =>
    have hpoint := (m.addNode view).tally_modifyNode_le id
      (f := ({ copy := some view.id } : Update).applyTo) (fun n h => h) owner
    exact Nat.le_trans hpoint (m.tally_addNode_le view owner)

theorem Memory.tally_createIdea_le (m : Memory) (i : Idea) (n : Node) (owner : String) :
    ((createIdea i n : Action Memory Unit) m).2.tally owner ≤ m.tally owner + 1 := by
  rw [createIdea_eq]
  split
  · exact Nat.le_succ _
  · split
    · exact Nat.le_succ _
    · exact m.tally_addNode_le n owner

/-- A unification that succeeds takes its stamps from the nodes it forwards; one that fails may
have issued another. -/
theorem tally_unifyCore_le {m m' : Memory} {owner : String} {a b : NodeId}
    {r : Except EngineError (List Forwarding)} (h : unifyCore a b m = (r, m')) :
    m'.tally owner ≤ m.tally owner + 1 := by
  obtain ⟨mid, hwrites, hends⟩ := unifyCore_writes h
  have hmid : mid.tally owner ≤ m.tally owner := hwrites.tally_le
  rcases hends with ⟨-, hsame⟩ | ⟨_, -, hsame | ⟨stamped, hsame⟩⟩
  · obtain rfl : m' = mid := hsame
    omega
  · obtain rfl : m' = mid := hsame
    omega
  · obtain rfl : m' = mid.stamp stamped := hsame
    have hstamp := mid.tally_stamp_le stamped owner
    omega

/-- The merged view takes no stamp, but it may be forwarded; where it is made, no stamp was lost. -/
theorem tally_unify_le {m m' : Memory} {owner : String} {fresh a b : NodeId}
    {r : Except EngineError Unified} (h : unify fresh a b m = (r, m')) :
    m'.tally owner ≤ m.tally owner + 1 := by
  rcases unify_cases h with
    ⟨_, core, mid, -, hcore, rfl⟩ | ⟨fs, mid, hcore, ⟨-, -, rfl⟩ | ⟨-, _, made, -⟩⟩
  · exact tally_unifyCore_le hcore
  · exact tally_unifyCore_le hcore
  · obtain ⟨_, hwrites, ⟨-, rfl⟩ | ⟨_, herror, -⟩⟩ := unifyCore_writes hcore
    · have hview : m'.tally owner ≤ mid.tally owner + 1 := made.tally_le
      exact Nat.le_trans hview (Nat.succ_le_succ hwrites.tally_le)
    · cases herror

namespace Request

theorem tally_le_of_reads {α : Type} {act : Action Memory α} (h : Reads act act) {m : Memory}
    {owner : String} : (act m).2.tally owner ≤ m.tally owner + 1 := by
  rw [h.unchanged]
  exact Nat.le_succ _

/-- A counter, together with the nodes that may still be forwarded, advances by one at most. -/
theorem tally_run_le (r : Request) (m : Memory) (owner : String) :
    (r.run m).2.tally owner ≤ m.tally owner + 1 := by
  cases r with
  | get _ | getIdea _ | listActive _ => exact Nat.le_succ _
  | require id => exact tally_le_of_reads (reads_require id)
  | dereference id => exact tally_le_of_reads (reads_dereference id)
  | forwardChain id => exact tally_le_of_reads (reads_forwardChain id)
  | discover settings id =>
    show (discovery settings id m).2.tally owner ≤ _
    rw [discovery, m.discoverRelations_eq]
    exact Nat.le_succ _
  | create n =>
    show ((NodeStore.create n : Action Memory _) m).2.tally owner ≤ _
    rw [Memory.create_eq]
    split
    · exact Nat.le_succ _
    · exact m.tally_addNode_le n owner
  | update id u =>
    show ((NodeStore.update id u : Action Memory _) m).2.tally owner ≤ _
    rw [Memory.update_eq]
    split
    · refine Nat.le_succ_of_le (m.tally_modifyNode_le id (fun n hn => ?_) owner)
      exact (Option.or_eq_none_iff.mp hn).2
    · split <;> exact Nat.le_succ _
  | nextGeneration stamped => exact m.tally_stamp_le stamped owner
  | createIdea i n => exact m.tally_createIdea_le i n owner
  | authorIdea i arcs => exact m.tally_createIdea_le i _ owner
  | archiveIdea id =>
    show ((NodeStore.archiveIdea id : Action Memory _) m).2.tally owner ≤ _
    rw [Memory.archiveIdea_eq]
    split <;> exact Nat.le_succ _
  | unifyCore a b => exact tally_unifyCore_le (Prod.eta (Ideas.unifyCore a b m)).symm
  | unify fresh a b => exact tally_unify_le (Prod.eta (Ideas.unify fresh a b m)).symm
  | materialize fresh id =>
    exact (materializes (Prod.eta (Ideas.materialize fresh id m)).symm).tally_le

/-- No run of calls issues more generations than it has calls. -/
theorem generation_after_le (requests : List Request) (owner : String) :
    (after requests ({} : Memory)).generation owner ≤ generationSeed + requests.length := by
  suffices ∀ (requests : List Request) (m : Memory),
      (after requests m).tally owner ≤ m.tally owner + requests.length by
    have hempty : ({} : Memory).tally owner = generationSeed := rfl
    have htally := this requests {}
    rw [hempty] at htally
    exact Nat.le_trans (Nat.le_add_right _ _) htally
  intro requests
  induction requests with
  | nil => exact fun m => Nat.le_refl _
  | cons r requests ih =>
    intro m
    have hfirst := tally_run_le r m owner
    have hrest := ih (r.run m).2
    rw [after_cons, List.length_cons]
    omega

end Request

end Ideas
