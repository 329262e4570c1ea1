/-
Stamps in a database.

A database keeps the mark of a node in three columns of its row, and these are read whether or
not the rest of the row is.  A counter is a cell that is counted up, and its numbers have an
end: beyond the greatest one it stands at a double that does not move any more, and from then
on the owner is issued no stamps (`Cell.Counts`).

Whatever is done to a database, by calls that succeed or fail at any request, the marks can be
read and the stamps are in order (`Charted`).  An atomic block that fails puts back the
counters along with the nodes, so that stamps are issued again; but the nodes that carried
them are gone as well.
-/
import Ideas.Proofs.Database.Forwarding
import Ideas.Proofs.Generations
import Ideas.Proofs.Request

namespace Ideas

open NodeStore

namespace Database

/-! ### Counters -/

namespace Cell

/-- How far a counter has come. -/
def counted : Cell → Nat
  | .integer n => n.toNat
  | .real x => x.toUInt64.toNat
  | .text _ => 0

/-- The counter behind the greatest number. -/
def exhausted : Cell :=
  .real (nearestReal (Decimal.greatestInt64 + 1))

/-- A counter that was counted up, and not otherwise written. -/
inductive Counts : Cell → Prop
  | issues {n : Nat} (seed_lt : generationSeed < n) (fits : (n : Int) ≤ Decimal.greatestInt64) :
      Counts (.integer n)
  | ended : Counts exhausted

theorem next_exhausted : exhausted.next = exhausted := by
  rfl

theorem counted_exhausted : exhausted.counted = Decimal.greatestInt64.toNat + 1 := by
  decide +kernel

/-- A counter is counted up by one and issues the number, or it issues nothing any more. -/
theorem Counts.next {c : Cell} (h : c.Counts) : c.next.Counts ∧
    (issued c.next = .ok (c.counted + 1) ∧ c.next.counted = c.counted + 1 ∨
      (∃ e, issued c.next = .error e) ∧ c.counted ≤ c.next.counted) := by
  cases h with
  | @issues n seed_lt fits =>
      by_cases hlast : ((n + 1 : Nat) : Int) ≤ Decimal.greatestInt64
      · have hnext : Cell.next (.integer n) = .integer (n + 1 : Nat) := by
          have hleast : Decimal.leastInt64 ≤ (n + 1 : Nat) := by
            rw [Decimal.leastInt64]
            omega
          rw [Cell.next, ofInteger]
          exact if_pos ⟨hleast, hlast⟩
        rw [hnext]
        refine ⟨.issues (Nat.lt_succ_of_lt seed_lt) hlast, Or.inl ⟨?_, rfl⟩⟩
        exact toCount_natCast (n + 1)
      · have hn : (n : Int) = Decimal.greatestInt64 := by omega
        have hnext : Cell.next (.integer n) = exhausted := by
          rw [hn]
          rfl
        rw [hnext]
        refine ⟨.ended, Or.inr ⟨⟨_, rfl⟩, ?_⟩⟩
        rw [counted_exhausted]
        show (n : Int).toNat ≤ Decimal.greatestInt64.toNat + 1
        rw [hn]
        exact Nat.le_succ _
  | ended =>
      rw [next_exhausted]
      exact ⟨.ended, Or.inr ⟨⟨_, rfl⟩, Nat.le_refl _⟩⟩

end Cell

/-! ### Marks -/

/-- The mark of a node as it stands in its row. -/
def NodeRow.mark? (r : NodeRow) : Option Mark :=
  match readOptionalId r.forward, issued r.generation with
  | .ok forward, .ok generation => some ⟨r.owner, forward, generation⟩
  | _, _ => none

theorem NodeRow.mark?_eq {r : NodeRow} {forward : Option NodeId} {generation : Nat}
    (hforward : readOptionalId r.forward = .ok forward)
    (hgeneration : issued r.generation = .ok generation) :
    r.mark? = some ⟨r.owner, forward, generation⟩ := by
  rw [mark?, hforward, hgeneration]

/-- A row that holds a node shows its mark. -/
theorem NodeRow.Holds.mark?_eq {r : NodeRow} {n : Node} (h : r.Holds n) :
    r.mark? = some n.mark := by
  obtain ⟨g, hg, hcount⟩ := h.generation
  have hissued : issued r.generation = .ok n.generation := by
    rw [hg]
    exact hcount
  rw [NodeRow.mark?_eq h.forward hissued, h.owner]
  rfl

theorem NodeRow.mark?_holding (n : Node) : (NodeRow.holding n).mark? = some n.mark :=
  mark?_eq (readOptionalId_text n.forward) (toCount_natCast n.generation)

/-- A row that is overwritten with a forward reference shows it, and its stamp. -/
theorem NodeRow.mark?_forwarding (r : NodeRow) (n : Node) (target : NodeId) (arcs : List Arc)
    (g : Nat) : (r.overwrite (.forwarding n target arcs g) (some (Int.ofNat g))).mark?
      = some ⟨r.owner, some target, g⟩ :=
  mark?_eq (readOptionalId_text (some target)) (toCount_natCast g)

variable {db db' : Database} {id : NodeId} {n : Node}

/-- How far the counter of an owner has come. -/
def counter (db : Database) (owner : String) : Nat :=
  match db.generationRow? owner with
  | none => generationSeed
  | some r => r.value.counted

/-- The marks and the counters of a database. -/
def chart (db : Database) : Chart :=
  ⟨fun id => (db.nodeRow? id).bind NodeRow.mark?, db.counter⟩

theorem mark?_chart {row : NodeRow} (h : db.nodeRow? id = some row) :
    db.chart.mark? id = row.mark? := by
  show (db.nodeRow? id).bind NodeRow.mark? = row.mark?
  rw [h, Option.bind_some]

theorem Sees.mark?_chart (h : db.Sees n) : db.chart.mark? n.id = some n.mark := by
  obtain ⟨row, hrow, holds⟩ := h
  exact (Database.mark?_chart hrow).trans holds.mark?_eq

/-- Every row shows a mark, every counter counts, and the stamps are in order. -/
structure Charted (db : Database) : Prop where
  keyed : db.Keyed
  marked : ∀ r ∈ db.nodes.toList, ∃ (id : NodeId) (m : Mark), r.id = some id.text ∧ r.mark? = some m
  counted : ∀ r ∈ db.generations.toList, r.value.Counts
  stamped : db.chart.Stamped

theorem charted_fresh : fresh.Charted where
  keyed := List.nodup_nil
  marked r hr := by cases hr
  counted r hr := by cases hr
  stamped := Chart.stamped_of_empty (fun _ => Nat.le_refl _) fun _ => rfl

/-- After an update each row is one that was there, or one of those overwritten. -/
theorem mem_overwritten {u : Update} {r : NodeRow} (h : r ∈ (db.overwritten id u).nodes.toList) :
    ∃ r₀ ∈ db.nodes.toList, r = r₀ ∨ r = r₀.overwrite u (u.generation.map Int.ofNat) := by
  rw [overwritten, Rows.toList_modify] at h
  obtain ⟨r₀, hr₀, rfl⟩ := List.mem_map.mp h
  refine ⟨r₀, hr₀, ?_⟩
  split
  · exact Or.inr rfl
  · exact Or.inl rfl

/-! ### What is charted after a change -/

theorem chart_insert (new : db.nodeRow? n.id = none) :
    ({ db with nodes := db.nodes.insert (.holding n) } : Database).chart
      = db.chart.set n.id n.mark := by
  refine Chart.ext (funext fun id => ?_) rfl
  rw [Chart.mark?_set]
  show ((nodeRow? _ id).bind NodeRow.mark?) = _
  rw [nodeRow?_insert rfl new]
  split
  · exact NodeRow.mark?_holding n
  · rfl

/-- A node that is pointed at its copy shows the mark that it showed before. -/
theorem chart_point (db : Database) (id copy : NodeId) :
    (db.overwritten id { copy := some copy }).chart = db.chart := by
  refine Chart.ext (funext fun j => ?_) rfl
  show ((nodeRow? _ j).bind NodeRow.mark?) = (db.nodeRow? j).bind NodeRow.mark?
  rw [nodeRow?_overwritten]
  cases db.nodeRow? j with
  | none => rfl
  | some r =>
      rw [Option.map_some, Option.bind_some, Option.bind_some]
      split <;> rfl

/-- A node that was forwarded shows where to, and its stamp. -/
theorem chart_forwarding (sees : db.Sees n) (hn : n.forward = none) (target : NodeId)
    (arcs : List Arc) (g : Nat) :
    (db.overwritten n.id (.forwarding n target arcs g)).chart
      = db.chart.set n.id ⟨n.owner, some target, g⟩ := by
  refine Chart.ext (funext fun id => ?_) rfl
  rw [Chart.mark?_set]
  show ((nodeRow? _ id).bind NodeRow.mark?) = if id = n.id then _ else (db.nodeRow? id).bind _
  rw [nodeRow?_overwritten]
  by_cases hid : id = n.id
  · subst hid
    obtain ⟨row, hrow, holds⟩ := sees
    have htakes : row.takes n.id (.forwarding n target arcs g) = true := by
      simp [NodeRow.takes, key_of_nodeRow? hrow, holds.forward_eq_none hn]
    rw [if_pos rfl, hrow, Option.map_some, Option.bind_some, if_pos htakes, ← holds.owner]
    exact NodeRow.mark?_forwarding row n target arcs g
  · rw [if_neg hid]
    cases hrow : db.nodeRow? id with
    | none => rfl
    | some row =>
        have htakes : row.takes n.id (.forwarding n target arcs g) = false := by
          simp [NodeRow.takes, key_of_nodeRow? hrow, NodeId.text_inj, hid]
        rw [Option.map_some, htakes, if_neg Bool.false_ne_true]

/-! ### What keeps the stamps in order -/

theorem Charted.insert (h : db.Charted) (new : db.nodeRow? n.id = none) (hn : n.forward = none) :
    ({ db with nodes := db.nodes.insert (.holding n) } : Database).Charted where
  keyed := h.keyed.insert new
  marked r hr := by
    rcases List.mem_cons.mp ((Rows.toList_insert_perm _ _).mem_iff.mp hr) with rfl | hr
    · exact ⟨n.id, n.mark, rfl, NodeRow.mark?_holding n⟩
    · exact h.marked r hr
  counted := h.counted
  stamped := by
    rw [chart_insert new]
    exact h.stamped.add hn

theorem Charted.point (h : db.Charted) (id copy : NodeId) :
    (db.overwritten id { copy := some copy }).Charted where
  keyed := h.keyed.overwritten id _
  marked r hr := by
    obtain ⟨r₀, hr₀, rfl | rfl⟩ := mem_overwritten hr
    · exact h.marked _ hr₀
    · obtain ⟨id, m, hid, hm⟩ := h.marked r₀ hr₀
      exact ⟨id, m, hid, hm⟩
  counted := h.counted
  stamped := by
    rw [chart_point]
    exact h.stamped

/-- The counter of an owner goes on to the next number, or has come to the end of the numbers. -/
theorem Charted.nextCell_counts (h : db.Charted) (owner : String) : (db.nextCell owner).Counts ∧
    (issued (db.nextCell owner) = .ok (db.counter owner + 1) ∧
        (db.nextCell owner).counted = db.counter owner + 1 ∨
      (∃ e, issued (db.nextCell owner) = .error e) ∧
        db.counter owner ≤ (db.nextCell owner).counted) := by
  rw [nextCell, counter]
  cases hrow : db.generationRow? owner with
  | none =>
      exact ⟨.issues (Nat.lt_succ_self _) (by decide), Or.inl ⟨rfl, rfl⟩⟩
  | some row => exact (h.counted row (List.mem_of_find?_eq_some hrow)).next

/-- A counter that is counted up keeps the stamps in order, and issues the next number if any. -/
theorem Charted.bump (h : db.Charted) {owner : String} {r : Except StoreError Nat}
    (hbump : bumpGeneration owner db = (r, db')) : db'.Charted ∧
      ∀ g, r = .ok g → g = db.counter owner + 1 ∧ db'.chart = db.chart.count owner := by
  obtain ⟨rfl, hnodes, hcells, hrows⟩ := bumpGeneration_writes hbump
  obtain ⟨hcounts, hcases⟩ := h.nextCell_counts owner
  have hmark : db'.chart.mark? = db.chart.mark? := by
    funext id
    show (db'.nodeRow? id).bind NodeRow.mark? = (db.nodeRow? id).bind NodeRow.mark?
    rw [nodeRow?, hnodes, nodeRow?]
  -- The cell counts even where it issues nothing, so the counter never falls behind a stamp.
  have hcounter : ∀ o, db'.counter o
      = if o = owner then (db.nextCell owner).counted else db.counter o := by
    intro o
    rw [counter, hrows o]
    by_cases ho : o = owner
    · rw [if_pos ho, if_pos ho]
    · rw [if_neg ho, if_neg ho, counter]
  refine ⟨⟨?_, ?_, ?_, ?_⟩, fun g hg => ?_⟩
  · rw [Keyed, hnodes]
    exact h.keyed
  · rw [hnodes]
    exact h.marked
  · intro row hrow
    rcases hcells row hrow with rfl | ⟨hold, -⟩
    · exact hcounts
    · exact h.counted row hold
  · refine h.stamped.advance hmark fun o => ?_
    show db.counter o ≤ db'.counter o
    rw [hcounter]
    split
    · next ho =>
        rcases hcases with ⟨-, hcounted⟩ | ⟨-, hcounted⟩
        · rw [hcounted, ho]
          exact Nat.le_succ _
        · exact ho ▸ hcounted
    · exact Nat.le_refl _
  · rcases hcases with ⟨hissued, hcounted⟩ | ⟨⟨e, he⟩, -⟩
    · refine ⟨Except.ok.inj (hg.symm.trans hissued), Chart.ext hmark (funext fun o => ?_)⟩
      rw [Chart.counter_count]
      show db'.counter o = if o = owner then db.counter owner + 1 else db.counter o
      rw [hcounter, hcounted]
    · cases he.symm.trans hg

/-- A node that is forwarded under the next stamp keeps the stamps in order. -/
theorem Charted.forward (h : db.Charted) {k : Node} (left : db.Sees n) (right : db.Sees k)
    (hn : n.forward = none) (hk : k.forward = none) (hne : n.id ≠ k.id) {g : Nat}
    (hbump : bumpGeneration n.owner db = (.ok g, db')) (arcs : List Arc) :
    (db'.overwritten n.id (.forwarding n k.id arcs g)).Charted := by
  obtain ⟨h', hnext⟩ := h.bump hbump
  obtain ⟨rfl, hchart⟩ := hnext g rfl
  obtain ⟨-, hnodes, -⟩ := bumpGeneration_writes hbump
  have left' : db'.Sees n := by
    rw [Sees, nodeRow?, hnodes]
    exact left
  refine ⟨h'.keyed.overwritten _ _, fun r hr => ?_, h'.counted, ?_⟩
  · obtain ⟨r₀, hr₀, rfl | rfl⟩ := mem_overwritten hr
    · exact h'.marked _ hr₀
    · obtain ⟨id, -, hid, -⟩ := h'.marked r₀ hr₀
      exact ⟨id, _, hid, NodeRow.mark?_forwarding r₀ n k.id arcs _⟩
  · rw [chart_forwarding left' hn, hchart]
    exact h.stamped.forward left.mark?_chart hn right.mark?_chart hk hne

/-! ### Requests and calls -/

/-- The stamps are in order in every state, and after every failure. -/
def charting : Regime Database where
  holds := Charted
  sees := Sees
  allows _ := Charted

/-- A new node points nowhere, and keeps the stamps in order if it is stored. -/
theorem Charted.save (h : db.Charted) (hn : n.forward = none) {r : Except StoreError Unit}
    (hsave : saveNode n db = (r, db')) : db'.Charted := by
  rcases saveNode_cases hsave with ⟨_, -, -, rfl⟩ | ⟨-, new, -, rfl⟩
  · exact h
  · exact h.insert new hn

theorem toAction_snd {α : Type} (q : Query α) (db : Database) : (q.toAction db).2 = (q db).2 :=
  congrArg Prod.snd (toAction_eq (Prod.eta (q db)).symm)

/-- An action that keeps the stamps in order however it ends. -/
theorem keeps_charting {α : Type} {pre : Database → Prop} {act : Action Database α}
    (hact : ∀ db, db.Charted → pre db → (act db).2.Charted) :
    charting.Keeps (fun s => s) pre act := by
  intro db h hpre
  have hends := hact db h hpre
  rcases hrun : act db with ⟨e | a, db'⟩ <;> rw [hrun] at hends
  · exact hends
  · exact ⟨hends, trivial⟩

theorem lawful_charting : charting.Lawful where
  toReadable := readable rfl (fun _ h => h) fun h _ => h
  forward n k arcs hn hk hne := by
    refine keeps_charting fun db h hsees => ?_
    obtain ⟨left, right⟩ := hsees
    rcases forwardRequests_cases left hn (Prod.eta (forwardRequests n k.id arcs db)).symm with
      ⟨cause, hbump, -⟩ | ⟨g, mid, hbump, ⟨_, -, -, hmid⟩ | ⟨-, hwritten⟩⟩
    · exact (h.bump hbump).1
    · exact hmid ▸ (h.bump hbump).1
    · exact hwritten ▸ h.forward left right hn hk hne hbump arcs
  create n hn := by
    refine keeps_charting fun db h _ => ?_
    rw [show ((create n : Action Database Unit) db).2 = (saveNode n db).2 from toAction_snd _ db]
    exact h.save hn (Prod.eta (saveNode n db)).symm
  point id copy := by
    refine keeps_charting fun db h _ => ?_
    rcases point_cases (Prod.eta (update id { copy := some copy } db)).symm with
      ⟨hsame, -⟩ | ⟨-, hwritten⟩
    · rw [hsame]
      exact h
    · rw [hwritten]
      exact h.point id copy

theorem charting_nextGeneration (owner : String) :
    charting.Keeps (fun s => s) (fun _ => True) (nextGeneration owner) := by
  refine keeps_charting fun db h _ => ?_
  rw [show ((nextGeneration owner : Action Database Nat) db).2 = (bumpGeneration owner db).2 from
    toAction_snd _ db]
  exact (h.bump (Prod.eta (bumpGeneration owner db)).symm).1

/-- An idea is stored with a node that points nowhere; of a failure inside a transaction that node
may be left. -/
theorem charting_createIdea (i : Idea) {n : Node} (hn : n.forward = none) :
    charting.Keeps (fun s => s) (fun _ => True) (createIdea i n) := by
  refine keeps_charting fun db h _ => ?_
  rw [show ((createIdea i n : Action Database Unit) db).2 = (saveIdea i n db).2 from
    toAction_snd _ db]
  rcases saveIdea_cases (Prod.eta (saveIdea i n db)).symm with
    ⟨_, -, -, hsame | ⟨-, hsave, -⟩⟩ | ⟨-, -, mid, hsave, hinsert⟩
  · rw [hsame]
    exact h
  · exact h.save hn hsave
  · have hmid := h.save hn hsave
    rcases insertIdea_cases hinsert with ⟨_, he, -⟩ | ⟨-, -, hafter⟩
    · cases he
    · rw [hafter]
      exact ⟨hmid.keyed, hmid.marked, hmid.counted, hmid.stamped⟩

end Database

/-! ### Histories -/

/-- The calls that store new nodes, issue stamps, unify nodes or make merged views. -/
inductive Request.Builds : Request → Prop
  | create {n : Node} (hn : n.Made) : Builds (.create n)
  | authorIdea (i : Idea) (arcs : List Arc) : Builds (.authorIdea i arcs)
  | nextGeneration (owner : String) : Builds (.nextGeneration owner)
  | unifyCore (a b : NodeId) : Builds (.unifyCore a b)
  | unify (fresh a b : NodeId) : Builds (.unify fresh a b)
  | materialize (fresh id : NodeId) : Builds (.materialize fresh id)

namespace Database

/-- What a watched database may become: by calls, by faults that are set for some of their requests,
and by blocks of all this that run atomically, inside one another, too. -/
inductive Becomes : Monitored Database → Monitored Database → Prop
  | start (d : Monitored Database) : Becomes d d
  | call {d d' : Monitored Database} (h : Becomes d d') {r : Request} (hr : r.Builds) :
      Becomes d (r.run d').2
  | fault {d d' : Monitored Database} (h : Becomes d d') (fault : Option Fault) :
      Becomes d { d' with fault }
  | block {d d' : Monitored Database} (h : Becomes d d') {ε α : Type}
      {act : Monitored Database → Except ε α × Monitored Database}
      (hact : ∀ inside, Becomes inside (act inside).2) :
      Becomes d (transaction Monitored.inner (fun db d => { d with inner := db }) act d').2

/-- Requests to a watched database keep the stamps in order. -/
theorem lawful_watched : charting.watched.Lawful :=
  lawful_charting.watched (fun _ h => h) charting_nextGeneration

theorem Charted.call {d : Monitored Database} (h : d.inner.Charted) {r : Request}
    (hr : r.Builds) : (r.run d).2.inner.Charted := by
  have hcall {α : Type} {act : Action (Monitored Database) α}
      (hact : charting.watched.Keeps (fun d => d) (fun _ => True) act) :
      (act d).2.inner.Charted := by
    have hends := hact d h trivial
    rcases hrun : act d with ⟨e | a, d'⟩ <;> rw [hrun] at hends
    · exact hends
    · exact hends.1
  have hpass {α : Type} {act : Action Database α}
      (operation : Operation) (hact : charting.Keeps (fun s => s) (fun _ => True) act) :
      ((Monitored.pass operation act : Action (Monitored Database) α) d).2.inner.Charted :=
    hcall (hact.pass (fun _ h => h) operation)
  cases hr with
  | create hn => exact hpass .create (lawful_charting.create _ hn.forward_eq_none)
  | authorIdea i arcs =>
      exact hpass .createIdea (charting_createIdea i (made_nodeOf i arcs).forward_eq_none)
  | nextGeneration owner => exact hpass .nextGeneration (charting_nextGeneration owner)
  | unifyCore a b => exact hcall (lawful_watched.unifyCore a b)
  | unify fresh a b => exact hcall (lawful_watched.unify fresh a b)
  | materialize fresh id => exact hcall (lawful_watched.materialize fresh id)

/-- Whether a transaction is open is not charted. -/
theorem Charted.within {db : Database} (h : db.Charted) (inside : Bool) :
    (db.within inside).Charted :=
  ⟨h.keyed, h.marked, h.counted, h.stamped⟩

/-- A block keeps the stamps in order if what is run in it does. -/
theorem Charted.block {d : Monitored Database} (h : d.inner.Charted) {ε α : Type}
    {act : Monitored Database → Except ε α × Monitored Database}
    (hact : ∀ inside : Monitored Database, inside.inner.Charted → (act inside).2.inner.Charted) :
    (transaction Monitored.inner (fun db d => { d with inner := db }) act d).2.inner.Charted := by
  cases hopen : d.inner.inTransaction with
  | true =>
      rw [transaction_of_inTransaction hopen]
      exact hact d h
  | false =>
      have hinside := hact { d with inner := d.inner.within true } (h.within true)
      rw [transaction]
      simp only [hopen, Bool.false_eq_true, if_false]
      rw [Database.within] at hinside
      rcases hrun : act { d with inner := { d.inner with inTransaction := true } } with
        ⟨e | a, after⟩ <;> rw [hrun] at hinside
      · exact h
      · exact hinside.within false

/-- Whatever becomes of a database, its stamps stay in order. -/
theorem Becomes.charted {d d' : Monitored Database} (hbecomes : Becomes d d')
    (h : d.inner.Charted) : d'.inner.Charted := by
  induction hbecomes with
  | start d => exact h
  | call _ hr ih => exact (ih h).call hr
  | fault _ _ ih => exact ih h
  | block _ _ ih ihInside => exact (ih h).block fun inside hinside => ihInside inside hinside

/-- What is read of a watched database is what its rows hold. -/
theorem readable_watched (db : Database) : (Regime.still db Sees).watched.Readable :=
  Regime.Readable.watched (fun _ h => h) (readable rfl (fun _ h => h) fun h _ => h)

/-- The rows of a charted database are charted under their keys. -/
theorem Charted.row {db : Database} (h : db.Charted) {row : NodeRow}
    (hrow : row ∈ db.nodes.toList) :
    ∃ id m, row.id = some (NodeId.text id) ∧ row.mark? = some m ∧ db.chart.mark? id = some m := by
  obtain ⟨id, m, hid, hm⟩ := h.marked row hrow
  exact ⟨id, m, hid, hm, (mark?_chart (h.keyed.nodeRow?_eq hrow hid)).trans hm⟩

end Database

/-- The stamps are in order in all that comes about, whichever requests fail and whichever blocks
are taken back: of each owner they lie between the seed and the counter, no two forwarded nodes
share one, and along forward references they ascend.  What is read of a node or of a forward chain
agrees with that; and every row of a database shows its mark, even one that cannot be read.  The
end of the numbers of a database is part of this, while a memory counts without one. -/
theorem generations_in_order :
    (∀ m : Memory, Arisen m → InOrder m m.chart) ∧
    ∀ d : Monitored Database, Database.Becomes { inner := Database.fresh } d →
      InOrder d d.inner.chart ∧ ∀ row ∈ d.inner.nodes.toList, ∃ id m,
        row.id = some (NodeId.text id) ∧ row.mark? = some m ∧ d.inner.chart.mark? id = some m := by
  refine ⟨fun m h => h.inOrder, fun d h => ?_⟩
  have charted : d.inner.Charted := h.charted Database.charted_fresh
  refine ⟨?_, fun row hrow => charted.row hrow⟩
  refine inOrder_of_readable (Database.readable_watched d.inner) rfl charted.stamped ?_
  intro d' n hd' hsees
  have hsees : d'.inner.Sees n := hsees
  rw [show d'.inner = d.inner from hd'] at hsees
  exact hsees.mark?_chart

namespace Database

/-- A block that issues a stamp and then fails. -/
def wasteful (d : Monitored Database) : Except Unit Unit × Monitored Database :=
  (.error (), ((Request.nextGeneration "ann").run d).2)

/-- Two nodes, in a database that took such a block back and will refuse the next request to update
a node. -/
def unsettled : Monitored Database :=
  let first := Request.create (.complex ⟨1⟩ "ann" [⟨"left", .text "l"⟩])
  let second := Request.create (.complex ⟨2⟩ "ann" [⟨"right", .text "r"⟩])
  let d : Monitored Database := (second.run (first.run { inner := fresh }).2).2
  { (transaction Monitored.inner (fun db d => { d with inner := db }) wasteful d).2 with
    fault := some ⟨.update, 1⟩ }

theorem becomes_unsettled : Becomes { inner := fresh } unsettled := by
  have first := Becomes.call (.start { inner := fresh })
    (.create (.complex ⟨1⟩ "ann" [⟨"left", .text "l"⟩]))
  have second := first.call (.create (.complex ⟨2⟩ "ann" [⟨"right", .text "r"⟩]))
  have hblock : ∀ inside, Becomes inside (wasteful inside).2 := fun inside =>
    (Becomes.start inside).call (.nextGeneration "ann")
  exact (second.block hblock).fault (some ⟨.update, 1⟩)

end Database

/-- The stamp of the block is issued again and lost with the request that is refused; the next one
is written. -/
theorem generations_in_order_unsettled :
    let core := Request.unifyCore ⟨1⟩ ⟨2⟩
    let d : Monitored Database := (core.run (core.run Database.unsettled).2).2
    Database.unsettled.inner.chart.counter "ann" = 10 ∧
      (d.inner.chart.counter "ann" = 12 ∧
        (d.inner.chart.mark? ⟨1⟩).map Mark.generation = some 12) ∧
      Database.Becomes { inner := Database.fresh } d ∧ InOrder d d.inner.chart := by
  intro core d
  have becomes : Database.Becomes { inner := Database.fresh } d :=
    (Database.becomes_unsettled.call (.unifyCore ⟨1⟩ ⟨2⟩)).call (.unifyCore ⟨1⟩ ⟨2⟩)
  obtain ⟨-, hdatabase⟩ := generations_in_order
  exact ⟨by decide +kernel, by decide +kernel, becomes, (hdatabase d becomes).1⟩

end Ideas
