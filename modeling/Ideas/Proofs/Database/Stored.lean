/-
What a row holds is what was put into it.

A node or an idea that is `Storable` reads back from its row as it is.  Texts, ids and
kinds always do.  A count has to fit into the tables, an energy has to be one that ideas
have, and a number of an arc has to be one that reads back from its own JSON text: no
number does that is not finite, and reading is not exact for every number that is.
-/
import Ideas.Database.Row
import Ideas.Materialization
import Ideas.Proofs.Json.Numbers

namespace Ideas

open Json Database

/-! ### Arcs -/

/-- A double that reads back from its own text as itself. -/
def ReadsBack (x : Float) : Prop :=
  (Json.read? (Json.ofFloat x).compact).bind Json.float? = some x

theorem readsBack_iff {x : Float} : ReadsBack x ↔ (Json.ofFloat x).float? = some x := by
  rw [ReadsBack, read?_compact (legible_ofFloat x), Option.bind_some]

/-- Only a finite double reads back. -/
theorem ReadsBack.isFinite {x : Float} (h : ReadsBack x) : Decimal.isFinite x := by
  rw [readsBack_iff, Json.ofFloat] at h
  split at h
  · next n hn =>
    rw [Decimal.Style.numeral?] at hn
    split at hn
    · next hx => rw [Decimal.isFinite, hx]
    · cases hn
  · cases h

/-- A number that the value is, if it is one, reads back. -/
def ArcValue.Storable (v : ArcValue) : Prop :=
  ∀ x, v = .number x → ReadsBack x

/-- The numbers in a list of arcs read back. -/
def Arcs.Storable (arcs : List Arc) : Prop :=
  ∀ a ∈ arcs, a.value.Storable

@[simp]
theorem ArcValue.storable_text (s : String) : (ArcValue.text s).Storable := by
  rintro x ⟨⟩

@[simp]
theorem ArcValue.storable_node (id : NodeId) : (ArcValue.node id).Storable := by
  rintro x ⟨⟩

theorem ArcValue.ofJson?_toJson {v : ArcValue} (h : v.Storable) :
    ofJson? v.toJson = some v := by
  have hkind : ∀ kind content, (Json.object [("kind", .string kind), ("value", content)]).record?
      ["kind", "value"] = some [some (.string kind), some content] := by
    intro kind content
    rfl
  cases v with
  | text s => simp [ofJson?, toJson, hkind, required, kind?, word?, ofContent?, string?]
  | number x =>
    have hx := readsBack_iff.mp (h x rfl)
    simp [ofJson?, toJson, hkind, required, kind?, word?, ofContent?, hx]
  | node id =>
    simp [ofJson?, toJson, hkind, required, kind?, word?, ofContent?, NodeId.ofJson?_toJson]

theorem Arc.ofJson?_toJson {a : Arc} (h : a.value.Storable) : ofJson? a.toJson = some a := by
  have hrecord : a.toJson.record? ["label", "value"]
      = some [some (.string a.label), some a.value.toJson] := rfl
  simp [ofJson?, hrecord, required, string?, ArcValue.ofJson?_toJson h]

theorem Arcs.ofJson?_toJson {arcs : List Arc} (h : Storable arcs) :
    ofJson? (toJson arcs) = some arcs :=
  list?_ofList Arc.ofJson? Arc.toJson fun a ha => Arc.ofJson?_toJson (h a ha)

theorem legible_pair {name name' : String} {v w : Json} (hv : v.Legible) (hw : w.Legible) :
    (Json.object [(name, v), (name', w)]).Legible :=
  legible_object (List.forall_mem_cons.mpr ⟨hv, List.forall_mem_singleton.mpr hw⟩)

theorem ArcValue.legible_toJson (v : ArcValue) : v.toJson.Legible := by
  cases v with
  | text s => exact legible_pair (legible_string _) (legible_string s)
  | number x => exact legible_pair (legible_string _) (legible_ofFloat x)
  | node id => exact legible_pair (legible_string _) (legible_string id.text)

theorem Arcs.legible_toJson (arcs : List Arc) : (toJson arcs).Legible :=
  legible_ofList fun a _ => legible_pair (legible_string a.label) a.value.legible_toJson

/-! ### What is done to lists of arcs -/

namespace Arcs

theorem storable_nil : Storable [] :=
  fun _ ha => absurd ha List.not_mem_nil

theorem Storable.append {arcs more : List Arc} (h : Storable arcs) (hmore : Storable more) :
    Storable (arcs ++ more) :=
  List.forall_mem_append.mpr ⟨h, hmore⟩

theorem Storable.filter {arcs : List Arc} (h : Storable arcs) (p : Arc → Bool) :
    Storable (arcs.filter p) :=
  fun a ha => h a (List.mem_of_mem_filter ha)

theorem Storable.union {arcs extra : List Arc} (h : Storable arcs) (hextra : Storable extra) :
    Storable (Arcs.union arcs extra) := by
  induction extra generalizing arcs with
  | nil => exact h
  | cons arc rest ih =>
    obtain ⟨harc, hrest⟩ := List.forall_mem_cons.mp hextra
    refine ih ?_ hrest
    rw [insertNew]
    split
    · exact h
    · exact h.append (List.forall_mem_singleton.mpr harc)

theorem Storable.dedup {arcs : List Arc} (h : Storable arcs) : Storable (Arcs.dedup arcs) :=
  storable_nil.union h

end Arcs

/-! ### Nodes and ideas -/

/-- A node that reads back from its row. -/
structure Node.Storable (n : Node) : Prop where
  arcs : Arcs.Storable n.arcs
  complement : Arcs.Storable n.complement
  generation_le : (n.generation : Int) ≤ Decimal.greatestInt64

theorem Node.storable_leaf (id : NodeId) (owner name : String) :
    (leaf id owner name).Storable :=
  ⟨Arcs.storable_nil, Arcs.storable_nil, show ((0 : Nat) : Int) ≤ _ by decide⟩

theorem Node.storable_complex (id : NodeId) (owner : String) {arcs : List Arc}
    (h : Arcs.Storable arcs) : (complex id owner arcs).Storable :=
  ⟨h.dedup, Arcs.storable_nil, show ((0 : Nat) : Int) ≤ _ by decide⟩

/-- An update that leaves nodes storable. -/
structure Update.Storable (u : Update) : Prop where
  arcs : ∀ arcs ∈ u.arcs, Arcs.Storable arcs
  complement : ∀ arcs ∈ u.complement, Arcs.Storable arcs
  generation_le : ∀ g ∈ u.generation, (g : Int) ≤ Decimal.greatestInt64

theorem holds_getD {α : Type} {p : α → Prop} {o : Option α} {a : α}
    (h : ∀ b ∈ o, p b) (ha : p a) : p (o.getD a) := by
  cases o with
  | none => exact ha
  | some b => exact h b rfl

theorem Update.Storable.applyTo {u : Update} (h : u.Storable) {n : Node} (hn : n.Storable) :
    (u.applyTo n).Storable :=
  ⟨holds_getD h.arcs hn.arcs, holds_getD h.complement hn.complement,
    holds_getD (p := fun g : Nat => (g : Int) ≤ Decimal.greatestInt64) h.generation_le
      hn.generation_le⟩

/-- An idea with an energy that ideas have. -/
def Idea.Storable (i : Idea) : Prop :=
  minEnergy ≤ i.energy ∧ i.energy ≤ maxEnergy

instance (i : Idea) : Decidable i.Storable :=
  inferInstanceAs (Decidable (minEnergy ≤ i.energy ∧ i.energy ≤ maxEnergy))

/-- What a chain of storable nodes has gathered is storable. -/
theorem storable_gatheredArcs {chain : List Node} (h : ∀ n ∈ chain, n.Storable) :
    Arcs.Storable (gatheredArcs chain) := by
  suffices ∀ (chain : List Node) (arcs : List Arc), (∀ n ∈ chain, n.Storable) →
      Arcs.Storable arcs → Arcs.Storable (chain.foldl
        (fun arcs node => Arcs.union (Arcs.union arcs node.arcs) node.complement) arcs) from
    this chain [] h Arcs.storable_nil
  intro chain
  induction chain with
  | nil => exact fun _ _ harcs => harcs
  | cons n rest ih =>
    intro arcs h harcs
    obtain ⟨hn, hrest⟩ := List.forall_mem_cons.mp h
    exact ih _ hrest ((harcs.union hn.arcs).union hn.complement)

namespace Database

/-- Computations that all succeed. -/
theorem mapM_eq_ok {ε α β : Type} {f : α → Except ε β} {g : α → β} {l : List α}
    (h : ∀ a ∈ l, f a = .ok (g a)) : l.mapM f = .ok (l.map g) := by
  induction l with
  | nil => rfl
  | cons a rest ih =>
    rw [List.mapM_cons, h a List.mem_cons_self, ih fun b hb => h b (List.mem_cons_of_mem a hb)]
    rfl

/-- The value of a JSON column that was written from `v`. -/
theorem readJson_compact {α : Type} {decode : Json → Option α} {v : Json} {a : α}
    (hv : v.Legible) (h : decode v = some a) : readJson decode v.compact = .ok a := by
  rw [readJson, read?_compact hv, Option.bind_some, h]

theorem readId_text (id : NodeId) : readId id.text = .ok id := by
  rw [readId, NodeId.read?_text]

theorem readOptionalId_text (id : Option NodeId) :
    readOptionalId (id.map NodeId.text) = .ok id := by
  cases id with
  | none => rfl
  | some id => rw [Option.map_some, readOptionalId, readId_text]; rfl

namespace NodeRow

/-- The row of a node, whatever its generation is. -/
def holding (n : Node) : NodeRow :=
  { id := some n.id.text
    owner := n.owner
    kind := n.kind.name
    name := n.name
    arcs := (Arcs.toJson n.arcs).compact
    complement := (Arcs.toJson n.complement).compact
    forward := n.forward.map NodeId.text
    copy := n.copy.map NodeId.text
    generation := .integer n.generation }

theorem ofNode_eq {n : Node} (h : n.Storable) : ofNode n = .ok (holding n) := by
  rw [ofNode, ofCount, if_pos h.generation_le]
  rfl

/-- A storable node is read from its row. -/
theorem toNode_holding {n : Node} (h : n.Storable) : (holding n).toNode = .ok n := by
  have harcs := readJson_compact (Arcs.legible_toJson n.arcs) (Arcs.ofJson?_toJson h.arcs)
  have hcomplement :=
    readJson_compact (Arcs.legible_toJson n.complement) (Arcs.ofJson?_toJson h.complement)
  have hcount : toCount (n.generation : Int) = .ok n.generation := by
    rw [toCount, if_pos (Int.natCast_nonneg _), Int.toNat_natCast]
  simp only [toNode, holding, readKey, Cell.toInteger, bind, Except.bind, readId_text,
    readOptionalId_text, NodeKind.ofStored_name, harcs, hcomplement, hcount, pure, Except.pure]

/-- Overwriting the row of a node makes the row of the node overwritten. -/
theorem overwrite_holding (n : Node) (u : Update) :
    (holding n).overwrite u (u.generation.map Int.ofNat) = holding (u.applyTo n) := by
  obtain ⟨arcs, complement, forward, copy, generation⟩ := u
  rw [overwrite, holding, holding, Update.applyTo]
  cases arcs <;> cases complement <;> cases forward <;> cases copy <;> cases generation <;> rfl

end NodeRow

namespace IdeaRow

/-- The checked columns of an idea. -/
def columnsOf (i : Idea) : Columns :=
  ⟨i.id.text, i.energy.toNat, i.archived⟩

theorem columns_ofIdea (i : Idea) : (ofIdea i).columns = .ok (columnsOf i) := by
  have harchived : Cell.toBool (.integer (if i.archived then 1 else 0)) = .ok i.archived := by
    cases i.archived <;> rfl
  simp only [columns, ofIdea, readKey, Cell.toInteger, bind, Except.bind, harchived, pure,
    Except.pure, columnsOf]

/-- An idea with an energy that ideas have is read from its row. -/
theorem ofColumns_ofIdea {i : Idea} (h : i.Storable) :
    (ofIdea i).ofColumns (columnsOf i) = .ok i := by
  have htags := readJson_compact (legible_ofList fun tag _ => legible_string tag)
    (list?_ofList string? .string fun tag (_ : tag ∈ i.tags) => rfl)
  have hbyte : ¬((i.energy.toNat : Int) < 0 ∨ 255 < (i.energy.toNat : Int)) := by
    have := i.energy.toNat_lt
    omega
  have henergy : clampEnergy (i.energy.toNat : Int).toNat.toUInt8 = i.energy := by
    rw [Int.toNat_natCast, Nat.toUInt8, UInt8.ofNat_toNat, clampEnergy_of_mem h.1 h.2]
  simp only [ofColumns, columnsOf, ofIdea, bind, Except.bind, pure, Except.pure, if_neg hbyte,
    readId_text, htags, henergy]

theorem toIdea_ofIdea {i : Idea} (h : i.Storable) : (ofIdea i).toIdea = .ok i := by
  rw [toIdea, columns_ofIdea]
  exact ofColumns_ofIdea h

end IdeaRow

end Database

end Ideas
