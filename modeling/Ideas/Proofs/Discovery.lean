/-
What discovery finds, and what it depends on.

Among a pool the candidates are found, ranked by their strengths, and to keep some of them is
to keep the strongest (`Finds`).  Whatever the strengths are, all that is asked of them is that
they can be compared.

Of a store discovery reads two things: the record of the target, and the records of the active
ideas of the target's owner.  Which these are is said of each kind of store (`Shelf`), and two
stores where they are the same are the same to discovery, whatever else is in them
(`Isolated`).  Nothing is written, and where one of the two cannot be read nothing is found.
-/
import Ideas.Proofs.Database.Statements
import Ideas.Proofs.Ranking
import Ideas.Proofs.Regime
import Ideas.Proofs.Strength
import Mathlib.Data.Int.Order.Basic

namespace Ideas

open NodeStore

/-! ### What is found in a pool -/

/-- What is found in a pool: its candidates in order, of which any number that is kept is the
strongest ones. -/
structure Finds {α : Type} (strength : Idea → α) (admits : α → Bool) (atLeast : α → α → Bool)
    (target : NodeId) (pool : List Idea) (found : List (Candidate α)) : Prop where
  ranked : Ranked (fun c d => atLeast c.strength d.strength)
    (candidates strength admits target pool) found
  capped : ∀ settings : DiscoverySettings, ∃ dropped, found = settings.cap found ++ dropped ∧
    (settings.cap found).length = min settings.limit found.length ∧
    ∀ c ∈ settings.cap found, ∀ d ∈ dropped, atLeast c.strength d.strength = true

theorem finds_rank {α : Type} {atLeast : α → α → Bool} (h : Comparable atLeast)
    (strength : Idea → α) (admits : α → Bool) (target : NodeId) (pool : List Idea) :
    Finds strength admits atLeast target pool (rank strength admits atLeast target pool) where
  ranked := ranked_rank h strength admits target pool
  capped settings := by
    obtain ⟨found, hfound⟩ : ∃ found, found = rank strength admits atLeast target pool := ⟨_, rfl⟩
    have hsplit : found = settings.cap found ++ found.drop settings.limit :=
      (List.take_append_drop settings.limit found).symm
    rw [← hfound]
    refine ⟨found.drop settings.limit, hsplit, List.length_take, fun c hc d hd => ?_⟩
    have hranked := ranked_rank h strength admits target pool
    rw [← hfound, hsplit] at hranked
    exact hranked.atLeast_of_append hc hd

/-- The places of doubles can be compared. -/
theorem comparable_strengthKey :
    Comparable fun x y : Float => decide (strengthKey y ≤ strengthKey x) :=
  (comparable_ge Int).on strengthKey

/-- What is found is stronger than the threshold, and so it is a number. -/
theorem mem_discover {settings : DiscoverySettings} {target : Idea} {pool : List Idea}
    {c : Candidate Float} (h : c ∈ discover settings target pool) :
    c.strength.isNaN = false ∧ ∃ i ∈ pool, c.id = i.id := by
  rw [discover, (ranked_rank comparable_strengthKey _ _ _ _).mem_iff] at h
  obtain ⟨i, hi, -, -, hadmits, rfl⟩ := mem_candidates.mp h
  exact ⟨Strength.isNaN_of_lt (of_decide_eq_true hadmits), i, hi, rfl⟩

/-- What is found earlier is at least as strong, as doubles are compared. -/
theorem pairwise_discover (settings : DiscoverySettings) (target : Idea) (pool : List Idea) :
    (discover settings target pool).Pairwise fun c d => d.strength ≤ c.strength := by
  have hsorted := (ranked_rank comparable_strengthKey (Similarity.score Float target)
    (fun x => decide (settings.threshold < x)) target.id pool).sorted
  refine List.Pairwise.imp_of_mem (fun {c d} hc hd hcd => ?_) hsorted
  exact Strength.le_of_strengthKey_le (mem_discover hd).1 (mem_discover hc).1
    (of_decide_eq_true hcd)

/-! ### What is read -/

/-- An attempt at an action that fails. -/
theorem attempt?_bind_of_error {σ α β : Type} {act : Action σ α} {f : Option α → StateM σ β}
    {s s' : σ} {e : EngineError} (h : act s = (.error e, s')) : (attempt? act >>= f) s = f none s' := by
  have hattempt : attempt? act s = (none, s') := by
    rw [attempt?]
    show StateT.bind act.run _ s = _
    rw [StateT.bind, show act.run s = (.error e, s') from h]
    rfl
  show StateT.bind (attempt? act) f s = f none s'
  rw [StateT.bind, hattempt]
  rfl

section

variable {σ : Type} [NodeStore σ] {settings : DiscoverySettings} {id : NodeId} {s s' : σ}

theorem discoverRelations_of_error {e : EngineError}
    (h : (getIdea id : Action σ _) s = (.error e, s')) :
    discoverRelations settings id s = ([], s') :=
  attempt?_bind_of_error h

theorem discoverRelations_of_none (h : (getIdea id : Action σ _) s = (.ok none, s')) :
    discoverRelations settings id s = ([], s') :=
  attempt?_bind h

theorem discoverRelations_of_unlisted {target : Idea} {e : EngineError} {s'' : σ}
    (h : (getIdea id : Action σ _) s = (.ok (some target), s'))
    (hlist : (listActive target.owner : Action σ _) s' = (.error e, s'')) :
    discoverRelations settings id s = ([], s'') :=
  (attempt?_bind h).trans (attempt?_bind_of_error hlist)

theorem discoverRelations_of_listed {target : Idea} {pool : List Idea} {s'' : σ}
    (h : (getIdea id : Action σ _) s = (.ok (some target), s'))
    (hlist : (listActive target.owner : Action σ _) s' = (.ok pool, s'')) :
    discoverRelations settings id s = (discover settings target pool, s'') :=
  (attempt?_bind h).trans (attempt?_bind hlist)

end

/-! ### What the result depends on -/

/-- Where a kind of store keeps its ideas. -/
structure Shelf (σ : Type) where
  /-- What is kept of an idea. -/
  Record : Type
  owner : Record → String
  /-- The record of an idea. -/
  record? : σ → NodeId → Option Record
  /-- The records of an owner's ideas that are not archived, in the order of their creation. -/
  active : σ → String → List Record
  read : Record → Except EngineError Idea
  readAll : List Record → Except EngineError (List Idea)

namespace Shelf

variable {σ : Type}

/-- What is found in certain records. -/
def found (k : Shelf σ) (settings : DiscoverySettings) (record : Option k.Record)
    (active : String → List k.Record) : List (Candidate Float) :=
  match record with
  | none => []
  | some r =>
    match k.read r, k.readAll (active (k.owner r)) with
    | .ok target, .ok pool => discover settings target pool
    | _, _ => []

/-- What is found is found of a target, in its pool. -/
theorem exists_of_mem_found {k : Shelf σ} {settings : DiscoverySettings} {record : Option k.Record}
    {active : String → List k.Record} {c : Candidate Float}
    (h : c ∈ k.found settings record active) : ∃ r target pool, record = some r ∧
      k.read r = .ok target ∧ k.readAll (active (k.owner r)) = .ok pool ∧
        c ∈ discover settings target pool := by
  rw [found.eq_def] at h
  split at h
  · cases h
  · next r =>
      split at h
      · next target pool hread hall => exact ⟨r, target, pool, rfl, hread, hall, h⟩
      · cases h

variable [NodeStore σ] {k : Shelf σ}

/-- Ideas are read from their records, and that changes nothing. -/
structure Serves (k : Shelf σ) : Prop where
  getIdea_of_none : ∀ {id s}, k.record? s id = none → (getIdea id : Action σ _) s = (.ok none, s)
  getIdea_of_some : ∀ {id s r}, k.record? s id = some r →
    (getIdea id : Action σ _) s = ((k.read r).map some, s)
  listActive_eq : ∀ owner s,
    (listActive owner : Action σ _) s = (k.readAll (k.active s owner), s)
  owner_of_read : ∀ r i, k.read r = .ok i → i.owner = k.owner r

theorem Serves.discoverRelations_eq (h : k.Serves) (settings : DiscoverySettings) (id : NodeId)
    (s : σ) : discoverRelations settings id s
      = (k.found settings (k.record? s id) (k.active s), s) := by
  cases hrecord : k.record? s id with
  | none => exact discoverRelations_of_none (h.getIdea_of_none hrecord)
  | some r =>
      have hget := h.getIdea_of_some hrecord
      rw [found.eq_def]
      dsimp only
      cases hread : k.read r with
      | error e =>
          rw [hread] at hget
          exact discoverRelations_of_error hget
      | ok target =>
          rw [hread] at hget
          have hlist := h.listActive_eq target.owner s
          rw [h.owner_of_read r target hread] at hlist
          cases hall : k.readAll (k.active s (k.owner r)) with
          | error e =>
              rw [hall, ← h.owner_of_read r target hread] at hlist
              exact discoverRelations_of_unlisted hget hlist
          | ok pool =>
              rw [hall, ← h.owner_of_read r target hread] at hlist
              exact discoverRelations_of_listed hget hlist

/-- To read an idea changes nothing. -/
theorem Serves.getIdea_snd (h : k.Serves) (id : NodeId) (s : σ) :
    ((getIdea id : Action σ _) s).2 = s := by
  cases hrecord : k.record? s id with
  | none => rw [h.getIdea_of_none hrecord]
  | some r => rw [h.getIdea_of_some hrecord]

end Shelf

/-- What discovery depends on in a kind of store, and what it does not do.  A store that is watched
may fail at either request. -/
structure Isolated {σ : Type} [NodeStore σ] (k : Shelf σ) : Prop where
  unchanged : ∀ settings id (s : σ), (discoverRelations settings id s).2 = s
  unknown : ∀ settings id (s : σ), k.record? s id = none → (discoverRelations settings id s).1 = []
  watched : ∀ settings id (m : Monitored σ), (discoverRelations settings id m).2.inner = m.inner ∧
    ((discoverRelations settings id m).1 = [] ∨
      (discoverRelations settings id m).1 = (discoverRelations settings id m.inner).1)
  alike : ∀ settings id (s t : σ), k.record? s id = k.record? t id →
    (∀ r, k.record? s id = some r → k.active s (k.owner r) = k.active t (k.owner r)) →
    (discoverRelations settings id s).1 = (discoverRelations settings id t).1

section

variable {σ : Type} [NodeStore σ] {k : Shelf σ}

/-- A watched store fails at a request that discovery makes, or finds what the store behind does. -/
theorem Shelf.Serves.watched (h : k.Serves) (settings : DiscoverySettings) (id : NodeId)
    (m : Monitored σ) : (discoverRelations settings id m).2.inner = m.inner ∧
      ((discoverRelations settings id m).1 = [] ∨
        (discoverRelations settings id m).1 = (discoverRelations settings id m.inner).1) := by
  have hget := h.getIdea_snd id m.inner
  rcases Regime.pass_cases .getIdea (getIdea id) m with
    ⟨requests, fault, hpass⟩ | ⟨requests, fault, hpass⟩ <;>
    change (getIdea id : Action (Monitored σ) _) m = _ at hpass
  · rw [discoverRelations_of_error hpass]
    exact ⟨rfl, Or.inl rfl⟩
  rcases hanswer : (getIdea id : Action σ _) m.inner with ⟨e | i, s⟩ <;>
    rw [hanswer] at hpass hget <;> obtain rfl : s = m.inner := hget
  · rw [discoverRelations_of_error hpass]
    exact ⟨rfl, Or.inl rfl⟩
  cases i with
  | none =>
      rw [discoverRelations_of_none hpass]
      exact ⟨rfl, Or.inl rfl⟩
  | some target =>
      have hlist := h.listActive_eq target.owner m.inner
      rcases Regime.pass_cases .listActive (listActive target.owner) ⟨m.inner, requests, fault⟩ with
        ⟨requests', fault', hpass'⟩ | ⟨requests', fault', hpass'⟩ <;>
        change (listActive target.owner : Action (Monitored σ) _) _ = _ at hpass'
      · rw [discoverRelations_of_unlisted hpass hpass']
        exact ⟨rfl, Or.inl rfl⟩
      rcases hanswer' : (listActive target.owner : Action σ _) m.inner with ⟨e | pool, s⟩ <;>
        rw [hanswer'] at hpass' hlist <;> obtain rfl : s = m.inner := congrArg Prod.snd hlist
      · rw [discoverRelations_of_unlisted hpass hpass']
        exact ⟨rfl, Or.inl rfl⟩
      · rw [discoverRelations_of_listed hpass hpass', discoverRelations_of_listed hanswer hanswer']
        exact ⟨rfl, Or.inr rfl⟩

theorem Shelf.Serves.isolated (h : k.Serves) : Isolated k where
  unchanged settings id s := by rw [h.discoverRelations_eq]
  unknown settings id s hnone := by rw [h.discoverRelations_eq, hnone, found]
  watched := h.watched
  alike settings id s t hrecord hactive := by
    rw [h.discoverRelations_eq, h.discoverRelations_eq, ← hrecord]
    cases hs : k.record? s id with
    | none => rfl
    | some r => simp only [found, hactive r hs]

end

/-- Where a memory keeps its ideas: as they are. -/
def Memory.shelf : Shelf Memory where
  Record := Idea
  owner := Idea.owner
  record? := idea?
  active m owner := m.ideas.filter fun i => i.owner = owner ∧ i.archived = false
  read := .ok
  readAll := .ok

theorem Memory.serves_shelf : Memory.shelf.Serves where
  getIdea_of_none {id m} h := by
    have hget : (getIdea id : Action Memory _) m = (.ok (m.idea? id), m) := rfl
    rw [hget, show m.idea? id = none from h]
  getIdea_of_some {id m i} h := by
    have hget : (getIdea id : Action Memory _) m = (.ok (m.idea? id), m) := rfl
    rw [hget, show m.idea? id = some i from h]
    rfl
  listActive_eq _ _ := rfl
  owner_of_read r i h := by
    cases h
    rfl

/-- Where a database keeps its ideas: in rows. -/
def Database.shelf : Shelf Database where
  Record := IdeaRow
  owner := IdeaRow.owner
  record? := ideaRow?
  active := activeRows
  read r := r.toIdea.mapError EngineError.ofStore
  readAll rows := (readIdeas rows).mapError EngineError.ofStore

theorem Database.serves_shelf : Database.shelf.Serves where
  getIdea_of_none h := getIdea_of_no_row h
  getIdea_of_some {id db r} h := by
    refine (getIdea_of_row h).trans ?_
    show _ = ((r.toIdea.mapError EngineError.ofStore).map some, db)
    cases r.toIdea <;> rfl
  listActive_eq owner db := listActive_eq db owner
  owner_of_read (r : IdeaRow) i h := by
    cases hread : r.toIdea with
    | error e =>
        have h : (r.toIdea.mapError EngineError.ofStore : Except EngineError Idea) = .ok i := h
        rw [hread] at h
        cases h
    | ok target =>
        have h : (r.toIdea.mapError EngineError.ofStore : Except EngineError Idea) = .ok i := h
        rw [hread] at h
        cases h
        exact IdeaRow.owner_of_toIdea hread

/-- Discovery finds just the candidates of a pool, each as often as it is there, the strongest first
and equally strong ones in the order of the pool, and whatever number of them is kept, none that is
left out is stronger.  That holds of strengths of any kind that are linearly ordered, and of the
doubles that are the scores.  Of a store discovery reads the target and the active ideas of its
owner; it finds nothing where one of the two cannot be had, depends on nothing else, and changes
nothing. -/
theorem discovery_ranked_and_isolated :
    (∀ (α : Type) [LinearOrder α] (strength : Idea → α) (threshold : α) (target : NodeId)
      (pool : List Idea),
      Finds strength (fun x => decide (threshold < x)) (fun x y => decide (y ≤ x)) target pool
        (rank strength (fun x => decide (threshold < x)) (fun x y => decide (y ≤ x)) target pool)) ∧
    (∀ (settings : DiscoverySettings) (target : Idea) (pool : List Idea),
      Finds (Similarity.score Float target) (fun x => decide (settings.threshold < x))
        (fun x y => decide (strengthKey y ≤ strengthKey x)) target.id pool
        (discover settings target pool) ∧
      (discover settings target pool).Pairwise fun c d => d.strength ≤ c.strength) ∧
    (∀ (σ : Type) [NodeStore σ] (settings : DiscoverySettings) (id : NodeId) (s : σ),
      ((∀ target, ((getIdea id : Action σ _) s).1 ≠ .ok (some target)) →
        (discoverRelations settings id s).1 = []) ∧
      ∀ target, ((getIdea id : Action σ _) s).1 = .ok (some target) →
        let listed := ((listActive target.owner : Action σ _) ((getIdea id : Action σ _) s).2).1
        (∀ e, listed = .error e → (discoverRelations settings id s).1 = []) ∧
        ∀ pool, listed = .ok pool →
          (discoverRelations settings id s).1 = discover settings target pool) ∧
    Isolated Memory.shelf ∧ Isolated Database.shelf := by
  refine ⟨fun α _ strength threshold target pool => finds_rank (comparable_ge α) _ _ _ _,
    fun settings target pool => ⟨finds_rank comparable_strengthKey _ _ _ _,
      pairwise_discover settings target pool⟩, ?_,
    Memory.serves_shelf.isolated, Database.serves_shelf.isolated⟩
  intro σ _ settings id s
  rcases hget : (getIdea id : Action σ _) s with ⟨answer, s'⟩
  constructor
  · intro hnone
    match answer with
    | .error e => rw [discoverRelations_of_error hget]
    | .ok none => rw [discoverRelations_of_none hget]
    | .ok (some target) => exact absurd rfl (hnone target)
  · rintro target rfl
    rcases hlist : (listActive target.owner : Action σ _) s' with ⟨listed, s''⟩
    constructor
    · rintro e rfl
      rw [discoverRelations_of_unlisted hget hlist]
    · rintro pool rfl
      rw [discoverRelations_of_listed hget hlist]

/-- Some ideas of two owners. -/
def shared : Memory where
  ideas := [{ id := ⟨1⟩, owner := "ann", title := "solar sail" },
    { id := ⟨2⟩, owner := "ann", title := "light sail" },
    { id := ⟨3⟩, owner := "bob", title := "solar sail" }]

/-- The same ideas, but those of the other owner have changed, and a node, an archived idea and a
counter are new. -/
def resettled : Memory where
  nodes := [.leaf ⟨4⟩ "ann" "sail"]
  ideas := [{ id := ⟨5⟩, owner := "bob", title := "sail" },
    { id := ⟨1⟩, owner := "ann", title := "solar sail" },
    { id := ⟨4⟩, owner := "ann", title := "sail", archived := true },
    { id := ⟨2⟩, owner := "ann", title := "light sail" }]
  generations := [("ann", 30)]

/-- The longer titles come first, and of three of the same length that stands first which is first
in the pool; what else is stored makes no difference; nothing is found of an id that is unknown,
and nothing where the ideas of the owner cannot be listed. -/
theorem discovery_ranked_and_isolated_shared :
    (let found := rank (fun i => i.title.length) (fun x => decide (4 < x))
        (fun x y => decide (y ≤ x)) ⟨9⟩ (shared.ideas ++ resettled.ideas);
      found.map Candidate.id = [⟨1⟩, ⟨2⟩, ⟨3⟩, ⟨1⟩, ⟨2⟩] ∧
      Finds (fun i => i.title.length) (fun x => decide (4 < x)) (fun x y => decide (y ≤ x)) ⟨9⟩
        (shared.ideas ++ resettled.ideas) found) ∧
    (discoverRelations {} ⟨1⟩ shared).1 = (discoverRelations {} ⟨1⟩ resettled).1 ∧
    (shared.idea? ⟨9⟩ = none ∧ (discoverRelations {} ⟨9⟩ shared).1 = []) ∧
    (discoverRelations {} ⟨1⟩
      ({ inner := shared, fault := some ⟨.listActive, 1⟩ } : Monitored Memory)).1 = [] := by
  obtain ⟨hranked, -, hsilent, hmemory, -⟩ := discovery_ranked_and_isolated
  refine ⟨⟨by cbv, hranked Nat _ _ _ _⟩, ?_, ⟨rfl, hmemory.unknown {} ⟨9⟩ shared rfl⟩, ?_⟩
  · refine hmemory.alike {} ⟨1⟩ shared resettled rfl ?_
    intro i hi
    obtain rfl := Option.some.inj hi
    rfl
  · exact ((hsilent (Monitored Memory) {} ⟨1⟩ _).2 _ rfl).1 _ rfl

end Ideas
