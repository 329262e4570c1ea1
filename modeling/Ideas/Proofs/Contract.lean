/-
The contract of a store, over all runs of calls.

Whatever is called, and with whatever arguments: a node that was stored stays stored under
its id, with its owner, its kind and its name; a forward reference that was written stays
as it is; a call that fails has done nothing; an update that succeeds has found a node that
takes it, and changed on it what it names; and the generations of an owner are issued one
by one, without regard to those of others.

The numbers have an end, and it is the one exception.  The first call for a number behind the
last one that a store issues fails and moves the counter of its owner.  Where a store is not
known to fail there, nothing is said of what it issues: this is how far the counter of a
memory, which has no end here, stands for one of sixty-four bits.

`Contract` says this of any kind of store, given what its entries are (`Keeping`).  It is a
statement about runs, and what has to be shown for it is a statement about one call
(`Upholds`): an invariant that knows how often each owner asked for a generation, and what
the call does to a state in which it holds.  A memory upholds it.
-/
import Mathlib.Data.List.Induction
import Ideas.Proofs.Request

namespace Ideas

open NodeStore

/-! ### The calls -/

namespace Request

/-- The calls that a store offers by itself. -/
def OfStore : Request → Prop
  | get _ | require _ | create _ | update _ _ | nextGeneration _ | createIdea _ _ | authorIdea _ _
  | getIdea _ | listActive _ | archiveIdea _ => True
  | unifyCore _ _ | unify _ _ _ | dereference _ | forwardChain _ | materialize _ _
  | discover _ _ => False

/-- Whether a call asks for a generation of an owner. -/
def asks (owner : String) : Request → Bool
  | nextGeneration o => o = owner
  | _ => false

/-- How many calls of a run ask for a generation of an owner. -/
def asked (requests : List Request) (owner : String) : Nat :=
  requests.countP (asks owner)

theorem asked_concat (requests : List Request) (r : Request) (owner : String) :
    asked (requests ++ [r]) owner = asked requests owner + if r.asks owner then 1 else 0 := by
  rw [asked, asked, List.countP_append, List.countP_singleton]

end Request

/-! ### The contract -/

/-- What of a node is settled when it is stored. -/
structure Identity where
  id : Option String
  owner : String
  kind : NodeKind
  name : Option String
deriving DecidableEq

/-- The identity of a node. -/
def Node.identity (n : Node) : Identity :=
  ⟨some n.id.text, n.owner, n.kind, n.name⟩

/-- What a kind of store keeps, and what its entries tell. -/
structure Keeping (σ : Type) where
  /-- What is kept of a node. -/
  Entry : Type
  /-- What is kept of all ideas together. -/
  Catalogue : Type
  /-- What is kept of the generations of an owner. -/
  Counter : Type
  entry? : σ → NodeId → Option Entry
  ideas : σ → Catalogue
  counter : σ → String → Counter
  identity : Entry → Identity
  forward : Entry → Option NodeId
  /-- The node that an entry is read as. -/
  read : Entry → Except EngineError Node
  /-- The entry with the fields of an update overwritten. -/
  write : Update → Entry → Entry
  /-- Whether all that an update writes can be read as it was given. -/
  givesBack : Update → Prop
  /-- Whether a number is issued when it is its turn. -/
  issues : Nat → Prop
  /-- Whether a call for a number fails when it is its turn. -/
  denies : Nat → Prop

namespace Keeping

variable {σ : Type} (k : Keeping σ)

/-- A number that is issued, but not the one behind it. -/
structure Last (n : Nat) : Prop where
  issues : k.issues n
  denies : k.denies (n + 1)

/-- An entry is still that of the same node, and points where it pointed if it pointed anywhere. -/
structure Remains (e e' : k.Entry) : Prop where
  identity : k.identity e' = k.identity e
  forward : ∀ target, k.forward e = some target → k.forward e' = some target

theorem remains_refl (e : k.Entry) : k.Remains e e :=
  ⟨rfl, fun _ h => h⟩

variable {k} in
theorem Remains.trans {e e' e'' : k.Entry} (h : k.Remains e e') (h' : k.Remains e' e'') :
    k.Remains e e'' :=
  ⟨h'.identity.trans h.identity, fun target he => h'.forward target (h.forward target he)⟩

/-- All entries and all ideas are the same. -/
structure SameData (s s' : σ) : Prop where
  entry? : ∀ id, k.entry? s' id = k.entry? s id
  ideas : k.ideas s' = k.ideas s

variable [NodeStore σ]

/-- How a node is read. -/
structure Reads (s : σ) : Prop where
  get : ∀ id, NodeStore.get id s = ((match k.entry? s id with
    | none => .ok none
    | some e => (k.read e).map some), s)
  shows : ∀ id e n, k.entry? s id = some e → k.read e = .ok n →
    k.identity e = n.identity ∧ k.forward e = n.forward

/-- What is there after a node was stored. -/
structure Stores (s s' : σ) (n : Node) : Prop where
  new : k.entry? s n.id = none
  entry : ∃ e, k.entry? s' n.id = some e ∧ k.identity e = n.identity ∧ k.forward e = n.forward
  others : ∀ j, j ≠ n.id → k.entry? s' j = k.entry? s j
  counter : k.counter s' = k.counter s

/-- What an update has found and done, if it succeeds. -/
structure Updates (s s' : σ) (id : NodeId) (u : Update) : Prop where
  entry : ∃ e, k.entry? s id = some e ∧ ¬(u.forward.isSome ∧ (k.forward e).isSome) ∧
    k.entry? s' id = some (k.write u e) ∧
    (k.givesBack u → ∀ n, k.read e = .ok n → k.read (k.write u e) = .ok (u.applyTo n))
  others : ∀ j, j ≠ id → k.entry? s' j = k.entry? s j
  ideas : k.ideas s' = k.ideas s
  counter : k.counter s' = k.counter s

/-- What has to be shown of one call, in a state that satisfies an invariant. -/
structure Upholds (inv : (String → Nat) → σ → Prop) : Prop where
  next : ∀ {asked s} (r : Request), inv asked s → r.OfStore →
    inv (fun owner => asked owner + if r.asks owner then 1 else 0) (r.run s).2
  reads : ∀ {asked s}, inv asked s → k.Reads s
  stores : ∀ {asked s}, inv asked s → ∀ n s', (NodeStore.create n s = (.ok (), s') ∨
    ∃ i, NodeStore.createIdea i n s = (.ok (), s')) → k.Stores s s' n
  remains : ∀ {asked s} (r : Request), inv asked s → r.OfStore → ∀ id e,
    k.entry? s id = some e → ∃ e', k.entry? (r.run s).2 id = some e' ∧ k.Remains e e'
  refuses : ∀ {asked s} (r : Request), inv asked s → r.OfStore → ∀ e s', r.run s = (.error e, s') →
    s' = s ∨ ∃ owner, r = .nextGeneration owner ∧ k.Last (generationSeed + asked owner) ∧
      k.SameData s s' ∧ ∀ o, o ≠ owner → k.counter s' o = k.counter s o
  updates : ∀ {asked s}, inv asked s → ∀ id u s', NodeStore.update id u s = (.ok (), s') →
    k.Updates s s' id u
  generations : ∀ {asked s}, inv asked s → ∀ owner,
    (k.issues (generationSeed + 1 + asked owner) →
      (NodeStore.nextGeneration owner s).1 = .ok (generationSeed + 1 + asked owner)) ∧
    (k.denies (generationSeed + 1 + asked owner) →
      ∃ e, (NodeStore.nextGeneration owner s).1 = .error e)

variable {k} {inv : (String → Nat) → σ → Prop} {start : σ}

/-- After a run the invariant counts its calls. -/
theorem Upholds.after (h : k.Upholds inv) (hstart : inv (fun _ => 0) start)
    (requests : List Request) (hcalls : ∀ r ∈ requests, r.OfStore) :
    inv (Request.asked requests) (Request.after requests start) := by
  induction requests using List.reverseRecOn with
  | nil => exact hstart
  | append_singleton requests r ih =>
      obtain ⟨hbefore, hr⟩ := List.forall_mem_append.mp hcalls
      have hnext := h.next r (ih hbefore) (hr r List.mem_cons_self)
      rw [Request.after_concat]
      have hasked : Request.asked (requests ++ [r])
          = fun owner => Request.asked requests owner + if r.asks owner then 1 else 0 :=
        funext (Request.asked_concat requests r)
      rwa [hasked]

end Keeping

/-! ### A memory upholds it -/

namespace Memory

/-- What a memory keeps: the nodes themselves.  A number of it has sixty-four bits. -/
abbrev keeping : Keeping Memory where
  Entry := Node
  Catalogue := List Idea
  Counter := Nat
  entry? := node?
  ideas := ideas
  counter := generation
  identity := Node.identity
  forward := Node.forward
  read := .ok
  write := Update.applyTo
  givesBack _ := True
  issues n := n ≤ Decimal.greatestWord
  denies _ := False

variable {m : Memory} {id : NodeId} {n : Node}

/-- A node that is overwritten remains if it takes the update. -/
theorem remains_applyTo {u : Update} (h : u.forward.isSome → n.forward.isNone) :
    keeping.Remains n (u.applyTo n) where
  identity := rfl
  forward target hn := by
    show u.forward.or n.forward = some target
    cases hu : u.forward with
    | none => exact hn
    | some _ =>
        have hnone := h (hu ▸ rfl)
        rw [show n.forward = some target from hn] at hnone
        cases hnone

theorem require_snd (m : Memory) (id : NodeId) :
    ((require id : Action Memory Node) m).2 = m :=
  (reads_require id : Reads (require id : Action Memory Node) (require id)).unchanged m

/-- What a call of the store has written, if it has written anything. -/
inductive Wrote (m : Memory) : Request → Memory → Prop
  /-- A new node, and maybe an idea. -/
  | node {r : Request} {n : Node} {ideas : List Idea} (unasked : ∀ owner, r.asks owner = false)
      (new : m.node? n.id = none) : Wrote m r { m.addNode n with ideas }
  | update {id : NodeId} {u : Update} (takes : m.takes id u = true) :
      Wrote m (.update id u) (m.modifyNode id u.applyTo)
  | ideas {r : Request} {ideas : List Idea} (unasked : ∀ owner, r.asks owner = false) :
      Wrote m r { m with ideas }
  | counter {owner : String} :
      Wrote m (.nextGeneration owner) (m.setGeneration owner (m.generation owner + 1))

theorem createIdea_cases {i : Idea} {added : Node} {r : Request}
    (unasked : ∀ owner, r.asks owner = false) {res : Except EngineError Unit} {m' : Memory}
    (h : createIdea i added m = (res, m')) : m' = m ∨ res = .ok () ∧ m.Wrote r m' := by
  rw [createIdea_eq] at h
  split at h
  · cases h
    exact Or.inl rfl
  · split at h
    · cases h
      exact Or.inl rfl
    · next hnew =>
        cases h
        exact Or.inr ⟨rfl, .node unasked (Option.not_isSome_iff_eq_none.mp hnew)⟩

/-- A call of the store leaves a memory as it was, or succeeds and has written.  A generation is
asked for by no call of the first kind. -/
theorem run_cases {r : Request} (hr : r.OfStore) {res : Except EngineError r.Answer} {m' : Memory}
    (h : r.run m = (res, m')) :
    ((∀ owner, r.asks owner = false) ∧ m' = m) ∨ (∃ a, res = .ok a) ∧ m.Wrote r m' := by
  cases r with
  | get _ | getIdea _ | listActive _ =>
      cases h
      exact Or.inl ⟨fun _ => rfl, rfl⟩
  | require j => exact Or.inl ⟨fun _ => rfl, (congrArg Prod.snd h).symm.trans (require_snd m j)⟩
  | nextGeneration owner =>
      cases h
      exact Or.inr ⟨⟨_, rfl⟩, .counter⟩
  | create added =>
      have h := (create_eq m added).symm.trans h
      split at h
      · cases h
        exact Or.inl ⟨fun _ => rfl, rfl⟩
      · next hnew =>
          cases h
          exact Or.inr ⟨⟨_, rfl⟩, .node (fun _ => rfl) (Option.not_isSome_iff_eq_none.mp hnew)⟩
  | update j u =>
      have h := (update_eq m j u).symm.trans h
      split at h
      · next htakes =>
          cases h
          exact Or.inr ⟨⟨_, rfl⟩, .update htakes⟩
      · split at h <;> cases h <;> exact Or.inl ⟨fun _ => rfl, rfl⟩
  | createIdea i added =>
      rcases createIdea_cases (r := .createIdea i added) (fun _ => rfl) h with h | ⟨h, wrote⟩
      · exact Or.inl ⟨fun _ => rfl, h⟩
      · exact Or.inr ⟨⟨_, h⟩, wrote⟩
  | authorIdea i arcs =>
      rcases createIdea_cases (r := .authorIdea i arcs) (fun _ => rfl) h with h | ⟨h, wrote⟩
      · exact Or.inl ⟨fun _ => rfl, h⟩
      · exact Or.inr ⟨⟨_, h⟩, wrote⟩
  | archiveIdea j =>
      have h := (archiveIdea_eq m j).symm.trans h
      split at h <;> cases h
      · exact Or.inl ⟨fun _ => rfl, rfl⟩
      · exact Or.inr ⟨⟨_, rfl⟩, .ideas fun _ => rfl⟩
  | unifyCore | unify | dereference | forwardChain | materialize | discover => exact hr.elim

/-- Only a call that asks for a generation moves a counter. -/
theorem Wrote.generation {r : Request} {m' : Memory} (h : m.Wrote r m') (owner : String) :
    m'.generation owner = m.generation owner + if r.asks owner then 1 else 0 := by
  cases h with
  | node unasked _ | ideas unasked =>
      simp only [unasked owner, Bool.false_eq_true, if_false]
      rfl
  | update takes => rfl
  | @counter stamped =>
      rw [generation_setGeneration]
      by_cases howner : owner = stamped
      · simp [Request.asks, howner]
      · simp [Request.asks, howner, Ne.symm howner]

theorem Wrote.remains {r : Request} {m' : Memory} (h : m.Wrote r m') (found : m.node? id = some n) :
    ∃ n', m'.node? id = some n' ∧ keeping.Remains n n' := by
  cases h with
  | @node _ added _ _ new =>
      have hother : id ≠ added.id := by
        rintro rfl
        cases new.symm.trans found
      have hkept : (m.addNode added).node? id = some n := by
        rw [node?_addNode new, if_neg hother, found]
      exact ⟨n, hkept, keeping.remains_refl n⟩
  | @update j u takes =>
      obtain ⟨x, hx, hforward⟩ := takes_iff.mp takes
      rw [node?_modifyNode _ _ (Update.id_applyTo u)]
      by_cases hid : id = j
      · subst hid
        obtain rfl := Option.some.inj (found.symm.trans hx)
        rw [if_pos rfl, found]
        exact ⟨_, rfl, remains_applyTo hforward⟩
      · rw [if_neg hid]
        exact ⟨n, found, keeping.remains_refl n⟩
  | ideas _ | counter => exact ⟨n, found, keeping.remains_refl n⟩

/-- A node that was stored is there, by itself or with its idea. -/
theorem stores_addNode {added : Node} (new : m.node? added.id = none) (ideas : List Idea) :
    keeping.Stores m { m.addNode added with ideas } added where
  new := new
  entry := ⟨added, (node?_addNode new _).trans (if_pos rfl), rfl, rfl⟩
  others j hj := (node?_addNode new j).trans (if_neg hj)
  counter := rfl

end Memory

end Ideas
