/-
Stamps are in the order of the forward references.

Each forward reference is written under a stamp of the node's owner.  A `Chart` shows what a
store holds of that, and nothing else: of each node its owner, where it points and its
generation, and of each owner the counter.  What is promised of a chart (`Chart.Stamped`) is
that stamps lie between the seed and the counter, that no two forwarded nodes of an owner
share one, and that they ascend along forward references.

The last promise compares nodes that may be far apart, and chains grow at their ends: a node
is forwarded that points nowhere so far, into another one that points nowhere.  So whatever
already leads to it was stamped before, and nothing leads on behind the other one
(`Chart.leads_forwarded`).  Three changes are all that a chart ever sees: a counter advances,
a node is added, a node is forwarded.
-/
import Mathlib.Logic.Relation
import Ideas.Proofs.Preservation
import Ideas.Proofs.Regime

namespace Ideas

open NodeStore Backed

/-- What a node shows of its forwarding. -/
structure Mark where
  owner : String
  forward : Option NodeId
  generation : Nat

/-- The mark of a node. -/
def Node.mark (n : Node) : Mark :=
  ⟨n.owner, n.forward, n.generation⟩

/-- The marks of all nodes of a store, and the counters of the owners. -/
@[ext]
structure Chart where
  mark? : NodeId → Option Mark
  counter : String → Nat

namespace Chart

variable {c c' : Chart} {id target x y : NodeId} {m k : Mark}

/-- A node points at another one. -/
def Points (c : Chart) (x y : NodeId) : Prop :=
  ∃ m, c.mark? x = some m ∧ m.forward = some y

/-- Forward references lead from a node to another one. -/
def Leads (c : Chart) : NodeId → NodeId → Prop :=
  Relation.TransGen c.Points

/-- The stamps of forwarded nodes are in order. -/
structure Stamped (c : Chart) : Prop where
  seed_le : ∀ owner, generationSeed ≤ c.counter owner
  bounded : ∀ {x m}, c.mark? x = some m → m.forward.isSome = true →
    generationSeed < m.generation ∧ m.generation ≤ c.counter m.owner
  distinct : ∀ {x y m k}, c.mark? x = some m → c.mark? y = some k → m.forward.isSome = true →
    k.forward.isSome = true → m.owner = k.owner → m.generation = k.generation → x = y
  ascending : ∀ {x y m k}, c.Leads x y → c.mark? x = some m → c.mark? y = some k →
    k.forward.isSome = true → m.owner = k.owner → m.generation < k.generation

/-- Where there are no nodes the stamps are in order. -/
theorem stamped_of_empty (hseed : ∀ owner, generationSeed ≤ c.counter owner)
    (hmark : ∀ id, c.mark? id = none) : c.Stamped where
  seed_le := hseed
  bounded {x _} hx := by cases (hmark x).symm.trans hx
  distinct {x _ _ _} hx := by cases (hmark x).symm.trans hx
  ascending {x _ _ _} _ hx := by cases (hmark x).symm.trans hx

/-! ### Changes -/

/-- The counter of an owner advances. -/
def count (c : Chart) (owner : String) : Chart :=
  { c with counter := fun o => if o = owner then c.counter owner + 1 else c.counter o }

/-- A node gets a mark. -/
def set (c : Chart) (id : NodeId) (m : Mark) : Chart :=
  { c with mark? := fun x => if x = id then some m else c.mark? x }

/-- A node is forwarded under the next stamp of its owner. -/
def forwarded (c : Chart) (id : NodeId) (owner : String) (target : NodeId) : Chart :=
  (c.count owner).set id ⟨owner, some target, c.counter owner + 1⟩

theorem mark?_set (c : Chart) (id : NodeId) (m : Mark) (x : NodeId) :
    (c.set id m).mark? x = if x = id then some m else c.mark? x := rfl

theorem counter_count (c : Chart) (owner o : String) :
    (c.count owner).counter o = if o = owner then c.counter owner + 1 else c.counter o := rfl

theorem counter_le_count (c : Chart) (owner o : String) :
    c.counter o ≤ (c.count owner).counter o := by
  rw [counter_count]
  split
  · next ho => exact ho ▸ Nat.le_succ _
  · exact Nat.le_refl _

/-- A node that leads anywhere is forwarded. -/
theorem Leads.isSome_forward (h : c.Leads x y) (hx : c.mark? x = some m) :
    m.forward.isSome = true := by
  obtain ⟨z, ⟨m', hm', hforward⟩, -⟩ := Relation.TransGen.head'_iff.mp h
  cases hx.symm.trans hm'
  rw [hforward]
  rfl

/-- What is promised of a chart does not depend on how far the counters are. -/
theorem Stamped.advance (h : c.Stamped) (hmark : c'.mark? = c.mark?)
    (hcounter : ∀ owner, c.counter owner ≤ c'.counter owner) : c'.Stamped := by
  have hleads {x y : NodeId} (hxy : c'.Leads x y) : c.Leads x y := by
    rwa [Leads, show c'.Points = c.Points by unfold Points; rw [hmark]] at hxy
  constructor
  · exact fun owner => Nat.le_trans (h.seed_le owner) (hcounter owner)
  · intro x m hx hm
    rw [hmark] at hx
    obtain ⟨hlow, hhigh⟩ := h.bounded hx hm
    exact ⟨hlow, Nat.le_trans hhigh (hcounter m.owner)⟩
  · intro x y m k hx hy
    rw [hmark] at hx hy
    exact h.distinct hx hy
  · intro x y m k hxy hx hy
    rw [hmark] at hx hy
    exact h.ascending (hleads hxy) hx hy

/-- A node that points nowhere leads nowhere. -/
theorem leads_of_leads_set (hm : m.forward = none) (h : (c.set id m).Leads x y) :
    c.Leads x y := by
  refine Relation.TransGen.mono ?_ _ _ h
  rintro x y ⟨k, hk, hforward⟩
  rw [mark?_set] at hk
  split at hk
  · cases hk
    rw [hm] at hforward
    cases hforward
  · exact ⟨k, hk, hforward⟩

/-- A node that points nowhere has no stamp to compare. -/
theorem Stamped.add (h : c.Stamped) (hm : m.forward = none) : (c.set id m).Stamped := by
  have hold {x : NodeId} {k : Mark} (hx : (c.set id m).mark? x = some k)
      (hk : k.forward.isSome = true) : c.mark? x = some k := by
    rw [mark?_set] at hx
    split at hx
    · cases hx
      rw [hm] at hk
      cases hk
    · exact hx
  constructor
  · exact h.seed_le
  · exact fun hx hm => h.bounded (hold hx hm) hm
  · exact fun hx hy hm hk => h.distinct (hold hx hm) (hold hy hk) hm hk
  · intro x y m' k hxy hx hy hk
    exact h.ascending (leads_of_leads_set hm hxy) (hold hx (hxy.isSome_forward hx))
      (hold hy hk) hk

/-- Behind a forwarded node comes its target, and nothing behind that. -/
theorem leads_forwarded (htarget : c.mark? target = some k) (hk : k.forward = none)
    {owner : String} (h : (c.forwarded id owner target).Leads x y) :
    y = target ∨ c.Leads x y := by
  have hpoints {x y : NodeId} (hxy : (c.forwarded id owner target).Points x y) :
      x = id ∧ y = target ∨ c.Points x y := by
    obtain ⟨m', hx, hforward⟩ := hxy
    rw [forwarded, mark?_set] at hx
    split at hx
    · next hxid =>
        cases hx
        exact Or.inl ⟨hxid, (Option.some.inj hforward).symm⟩
    · exact Or.inr ⟨m', hx, hforward⟩
  induction h with
  | single hxy =>
      rcases hpoints hxy with ⟨-, hy⟩ | hxy
      · exact Or.inl hy
      · exact Or.inr (.single hxy)
  | tail _ hzy ih =>
      rcases hpoints hzy with ⟨-, hy⟩ | hold
      · exact Or.inl hy
      · rcases ih with rfl | hxz
        · obtain ⟨k', hk', hforward⟩ := hold
          cases htarget.symm.trans hk'
          rw [hk] at hforward
          cases hforward
        · exact Or.inr (hxz.tail hold)

/-- A node that is forwarded gets the greatest stamp of its owner, and comes last on its chain. -/
theorem Stamped.forward (h : c.Stamped) (hid : c.mark? id = some m) (hm : m.forward = none)
    (htarget : c.mark? target = some k) (hk : k.forward = none) (hne : id ≠ target) :
    (c.forwarded id m.owner target).Stamped := by
  have hcases {x : NodeId} {m' : Mark}
      (hx : (c.forwarded id m.owner target).mark? x = some m') :
      x = id ∧ m' = ⟨m.owner, some target, c.counter m.owner + 1⟩ ∨
        x ≠ id ∧ c.mark? x = some m' := by
    rw [forwarded, mark?_set] at hx
    split at hx
    · next hxid => exact Or.inl ⟨hxid, (Option.some.inj hx).symm⟩
    · next hxid => exact Or.inr ⟨hxid, hx⟩
  -- Every stamp of the owner so far is below the one that is issued.
  have hbelow {x : NodeId} {m' : Mark} (hx : c.mark? x = some m') (hm' : m'.forward.isSome = true)
      (howner : m'.owner = m.owner) : m'.generation < c.counter m.owner + 1 := by
    have hle := (h.bounded hx hm').2
    rw [howner] at hle
    exact Nat.lt_succ_of_le hle
  constructor
  · exact fun owner => Nat.le_trans (h.seed_le owner) (counter_le_count c m.owner owner)
  · intro x m' hx hm'
    rcases hcases hx with ⟨-, rfl⟩ | ⟨-, hx⟩
    · refine ⟨Nat.lt_succ_of_le (h.seed_le m.owner), Nat.le_of_eq ?_⟩
      exact ((counter_count c m.owner m.owner).trans (if_pos rfl)).symm
    · obtain ⟨hlow, hhigh⟩ := h.bounded hx hm'
      exact ⟨hlow, Nat.le_trans hhigh (counter_le_count c m.owner _)⟩
  · intro x y m' k' hx hy hm' hk' howner hgeneration
    rcases hcases hx with ⟨hxid, rfl⟩ | ⟨-, hxold⟩ <;>
      rcases hcases hy with ⟨hyid, rfl⟩ | ⟨-, hyold⟩
    · exact hxid.trans hyid.symm
    · exact absurd hgeneration.symm (Nat.ne_of_lt (hbelow hyold hk' howner.symm))
    · exact absurd hgeneration (Nat.ne_of_lt (hbelow hxold hm' howner))
    · exact h.distinct hxold hyold hm' hk' howner hgeneration
  · intro x y m' k' hxy hx hy hk' howner
    rcases leads_forwarded htarget hk hxy with rfl | hleads
    · rcases hcases hy with ⟨hy, -⟩ | ⟨-, hy⟩
      · exact absurd hy.symm hne
      · cases htarget.symm.trans hy
        rw [hk] at hk'
        cases hk'
    · rcases hcases hx with ⟨rfl, -⟩ | ⟨-, hx⟩
      · have hforward := hleads.isSome_forward hid
        rw [hm] at hforward
        cases hforward
      · rcases hcases hy with ⟨-, rfl⟩ | ⟨-, hy⟩
        · exact hbelow hx (hleads.isSome_forward hx) howner
        · exact h.ascending hleads hx hy hk' howner

/-- Along a walk that sees what is charted the stamps of each owner ascend. -/
theorem Stamped.pairwise {σ : Type} {p : Regime σ} {s : σ} (h : c.Stamped)
    (hsees : ∀ n, p.sees s n → c.mark? n.id = some n.mark) {id : NodeId} {chain : List Node}
    (hwalk : p.Walk s id chain) :
    chain.Pairwise fun a b => b.isSuperseded = true → a.owner = b.owner →
      a.generation < b.generation := by
  -- The first node leads to each of the others.
  have hleads {id : NodeId} {chain : List Node} (hwalk : p.Walk s id chain) :
      ∀ b ∈ chain, c.mark? b.id = some b.mark ∧ (b.id = id ∨ c.Leads id b.id) := by
    induction hwalk with
    | last sees _ =>
        intro b hb
        obtain rfl := List.mem_singleton.mp hb
        exact ⟨hsees _ sees, Or.inl rfl⟩
    | @step n next rest sees hforward _ ih =>
        have hstep : c.Points n.id next := ⟨n.mark, hsees _ sees, hforward⟩
        intro b hb
        rcases List.mem_cons.mp hb with rfl | hb
        · exact ⟨hsees _ sees, Or.inl rfl⟩
        · obtain ⟨hmark, hsame | hrest⟩ := ih b hb
          · exact ⟨hmark, Or.inr (.single (hsame ▸ hstep))⟩
          · exact ⟨hmark, Or.inr (.head hstep hrest)⟩
  induction hwalk with
  | last => exact List.pairwise_singleton _ _
  | @step n next rest sees hforward tail ih =>
      refine List.pairwise_cons.mpr ⟨fun b hb hsuperseded howner => ?_, ih⟩
      have hstep : c.Points n.id next := ⟨n.mark, hsees _ sees, hforward⟩
      obtain ⟨hmark, hsame | hrest⟩ := hleads tail b hb
      · exact h.ascending (.single (hsame ▸ hstep)) (hsees _ sees) hmark hsuperseded howner
      · exact h.ascending (.head hstep hrest) (hsees _ sees) hmark hsuperseded howner

end Chart

/-- The stamps in a store are in order: those that are charted, and those that are read, of a node
by itself or along a forward chain. -/
structure InOrder {σ : Type} [NodeStore σ] (s : σ) (c : Chart) : Prop where
  stamped : c.Stamped
  read : ∀ {id n s'}, (get id : Action σ _) s = (.ok (some n), s') → c.mark? id = some n.mark
  chain : ∀ {id chain s'}, forwardChain id s = (.ok chain, s') →
    chain.Pairwise fun a b => b.isSuperseded = true → a.owner = b.owner →
      a.generation < b.generation

/-- What can be read is in order if what is charted is. -/
theorem inOrder_of_readable {σ : Type} [NodeStore σ] {p : Regime σ} (readable : p.Readable) {s : σ}
    (hs : p.holds s) {c : Chart} (stamped : c.Stamped)
    (hsees : ∀ s n, p.holds s → p.sees s n → c.mark? n.id = some n.mark) : InOrder s c where
  stamped := stamped
  read {id n s'} hget := by
    have hends := readable.get id s hs trivial
    rw [hget] at hends
    obtain ⟨hs', hfound, -⟩ := hends
    obtain ⟨rfl, hn⟩ := hfound n rfl
    exact hsees s' n hs' hn
  chain {id chain s'} hchain := by
    have hends := readable.forwardChain id s hs trivial
    rw [hchain] at hends
    obtain ⟨hs', hwalk, -⟩ := hends
    exact stamped.pairwise (fun n => hsees s' n hs') hwalk

/-! ### Memories -/

namespace Memory

variable {m : Memory}

/-- The marks and the counters of a memory. -/
def chart (m : Memory) : Chart :=
  ⟨fun id => (m.node? id).map Node.mark, m.generation⟩

theorem mark?_chart {id : NodeId} {n : Node} (h : m.node? id = some n) :
    m.chart.mark? id = some n.mark :=
  congrArg (Option.map Node.mark) h

theorem chart_stamp (m : Memory) (owner : String) : (m.stamp owner).chart = m.chart.count owner :=
  Chart.ext rfl (funext fun o => generation_stamp m owner o)

theorem chart_addNode {n : Node} (new : m.node? n.id = none) :
    (m.addNode n).chart = m.chart.set n.id n.mark := by
  refine Chart.ext (funext fun id => ?_) rfl
  rw [Chart.mark?_set]
  show ((m.addNode n).node? id).map Node.mark = _
  rw [node?_addNode new]
  split <;> rfl

theorem chart_forwardNode {n : Node} (found : m.node? n.id = some n) (target : NodeId)
    (arcs : List Arc) :
    (m.forwardNode n target arcs).chart = m.chart.forwarded n.id n.owner target := by
  refine Chart.ext (funext fun id => ?_) (funext fun o => generation_stamp m n.owner o)
  rw [Chart.forwarded, Chart.mark?_set]
  show ((m.forwardNode n target arcs).node? id).map Node.mark = _
  rw [node?_forwardNode found]
  split <;> rfl

theorem chart_point (m : Memory) (id copy : NodeId) :
    (m.modifyNode id (Update.applyTo { copy := some copy })).chart = m.chart := by
  refine Chart.ext (funext fun j => ?_) rfl
  show ((m.modifyNode id _).node? j).map Node.mark = (m.node? j).map Node.mark
  rw [node?_modifyNode m id (Update.id_applyTo _)]
  split
  · rw [Option.map_map]
    rfl
  · rfl

/-- The changes that calls are made of keep the stamps in order. -/
theorem kept_stamped : Memory.Kept fun m => m.chart.Stamped where
  stamp owner h := by
    rw [chart_stamp]
    exact h.advance rfl (Chart.counter_le_count _ owner)
  forward h may := by
    rw [chart_forwardNode may.found]
    exact h.forward (mark?_chart may.found) may.forward_eq_none (mark?_chart may.target_found)
      may.target_forward_eq_none may.ne
  addView h isView new := by
    rw [chart_addNode new]
    exact h.add isView.forward_eq_none
  point id copy h := by rwa [chart_point]

end Memory

theorem Node.Made.forward_eq_none {n : Node} (h : n.Made) : n.forward = none := by
  cases h <;> rfl

theorem Arisen.stamped {m : Memory} (h : Arisen m) : m.chart.Stamped := by
  refine h.preserves Memory.kept_stamped ?_ ?_ fun _ h => h
  · exact Chart.stamped_of_empty (fun _ => Nat.le_refl _) fun _ => rfl
  · intro m n h hn new
    rw [Memory.chart_addNode new]
    exact h.add hn.forward_eq_none

/-- What is read of a memory is what is stored. -/
theorem Memory.readable (m : Memory) :
    (Regime.still m fun m n => m.node? n.id = some n).Readable where
  fails _ h := h
  get id := by
    rintro m rfl -
    refine ⟨rfl, fun n found => ?_, fun n found => found⟩
    obtain rfl := Memory.id_of_node? found
    exact ⟨rfl, found⟩

/-- In memories that come about the stamps are in order. -/
theorem Arisen.inOrder {m : Memory} (h : Arisen m) : InOrder m m.chart :=
  inOrder_of_readable m.readable rfl h.stamped fun _ _ hs found =>
    Memory.mark?_chart (hs ▸ found)

end Ideas
