/-
What the database accepts, and what it gives back.

Nearly all that is accepted is given back as it was.  A count that does not fit is refused,
an energy that no idea has is moved to the nearest one that ideas have, and texts, ids, kinds
and what is missing come back whatever they are.  The numbers of arcs are another matter: all
of them are accepted, and a node is read again exactly if each of its numbers reads back from
its own text (`given_back`).  No number does that is not finite.  Such a number is written as
null, and a row with it can never be read: the node is there, its id is taken, and every call
that meets it fails (`not_given_back`).
-/
import Ideas.Proofs.Database.Statements

namespace Ideas

open NodeStore Json

/-! ### Numbers that read back, and numbers that do not -/

/-- A list is read as it was written if all its items are. -/
theorem list?_ofList_iff {α : Type} (decode : Json → Option α) (encode : α → Json)
    {items : List α} :
    list? decode (ofList encode items) = some items ↔ ∀ a ∈ items, decode (encode a) = some a := by
  refine ⟨fun h => ?_, list?_ofList decode encode⟩
  have h : (items.map encode).mapM decode = some items := h
  induction items with
  | nil => exact fun _ ha => absurd ha List.not_mem_nil
  | cons a rest ih =>
      rw [List.map_cons, List.mapM_cons] at h
      obtain ⟨b, hb, h⟩ := Option.bind_eq_some_iff.mp h
      obtain ⟨bs, hbs, h⟩ := Option.bind_eq_some_iff.mp h
      cases h
      exact List.forall_mem_cons.mpr ⟨hb, ih hbs hbs⟩

/-- One item that cannot be read is enough for a list not to be read. -/
theorem list?_eq_none {α : Type} {decode : Json → Option α} {encode : α → Json} {items : List α}
    {a : α} (ha : a ∈ items) (h : decode (encode a) = none) :
    list? decode (ofList encode items) = none := by
  show (items.map encode).mapM decode = none
  induction items with
  | nil => exact absurd ha List.not_mem_nil
  | cons b rest ih =>
      rw [List.map_cons, List.mapM_cons]
      rcases List.mem_cons.mp ha with rfl | ha
      · rw [h]
        rfl
      · rw [ih ha]
        cases decode (encode b) <;> rfl

theorem ArcValue.ofJson?_toJson_number (x : Float) :
    ofJson? (ArcValue.number x).toJson = (Json.ofFloat x).float?.map .number := by
  have hrecord : (ArcValue.number x).toJson.record? ["kind", "value"]
      = some [some (.string "number"), some (.ofFloat x)] := rfl
  rw [ofJson?, hrecord]
  rfl

theorem ArcValue.ofJson?_toJson_iff {v : ArcValue} :
    ofJson? v.toJson = some v ↔ v.Storable := by
  refine ⟨fun h x hx => ?_, ofJson?_toJson⟩
  subst hx
  rw [ofJson?_toJson_number] at h
  obtain ⟨y, hy, hxy⟩ := Option.map_eq_some_iff.mp h
  cases hxy
  exact readsBack_iff.mpr hy

theorem Arc.ofJson?_toJson_eq (a : Arc) :
    ofJson? a.toJson = (ArcValue.ofJson? a.value.toJson).map (Arc.mk a.label) := by
  have hrecord : a.toJson.record? ["label", "value"]
      = some [some (.string a.label), some a.value.toJson] := rfl
  rw [ofJson?, hrecord]
  show (some a.label).bind (fun label =>
    (ArcValue.ofJson? a.value.toJson).bind fun value => some (Arc.mk label value)) = _
  cases ArcValue.ofJson? a.value.toJson <;> rfl

theorem Arcs.ofJson?_toJson_iff {arcs : List Arc} :
    ofJson? (toJson arcs) = some arcs ↔ Storable arcs := by
  refine (list?_ofList_iff Arc.ofJson? Arc.toJson).trans (forall₂_congr fun a _ => ?_)
  rw [← ArcValue.ofJson?_toJson_iff, Arc.ofJson?_toJson_eq]
  constructor
  · intro h
    obtain ⟨v, hv, ha⟩ := Option.map_eq_some_iff.mp h
    rw [hv, ← ha]
  · intro h
    rw [h]
    rfl

/-- All numbers in a list of arcs are finite. -/
def Arcs.Finite (arcs : List Arc) : Prop :=
  ∀ a ∈ arcs, ∀ x, a.value = .number x → Decimal.isFinite x = true

/-- Only lists of finite numbers read back. -/
theorem Arcs.Storable.finite {arcs : List Arc} (h : Storable arcs) : Finite arcs :=
  fun a ha x hx => (h a ha x hx).isFinite

/-- A number that is not finite is written as null, which is no number. -/
theorem float?_ofFloat_eq_none {x : Float} (h : Decimal.isFinite x = false) :
    (Json.ofFloat x).float? = none := by
  have hnone : Decimal.Style.data.numeral? x = none := by
    rw [Decimal.isFinite] at h
    rw [Decimal.Style.numeral?]
    cases hx : Decimal.Binary.ofFloat x with
    | finite negative significand exponent =>
        rw [hx] at h
        cases h
    | _ => rfl
  rw [Json.ofFloat, hnone]
  rfl

theorem Arcs.ofJson?_toJson_eq_none {arcs : List Arc} (h : ¬ Finite arcs) :
    ofJson? (toJson arcs) = none := by
  simp only [Finite, not_forall] at h
  obtain ⟨a, ha, x, hx, hfinite⟩ := h
  refine list?_eq_none ha ?_
  rw [Arc.ofJson?_toJson_eq, hx, ArcValue.ofJson?_toJson_number,
    float?_ofFloat_eq_none (Bool.eq_false_iff.mpr hfinite)]
  rfl

namespace Database

/-! ### What a row holds -/

theorem readJson_eq_ok_iff {α : Type} {decode : Json → Option α} {v : Json} {a : α}
    (hv : v.Legible) : readJson decode v.compact = .ok a ↔ decode v = some a := by
  rw [readJson, read?_compact hv, Option.bind_some]
  cases decode v <;> simp

theorem readJson_eq_error {α : Type} {decode : Json → Option α} {v : Json} (hv : v.Legible)
    (h : decode v = none) : readJson decode v.compact = .error .json := by
  rw [readJson, read?_compact hv, Option.bind_some, h]

/-- A text in a JSON column is unreadable in one way only. -/
theorem readJson_eq_error_iff {α : Type} {decode : Json → Option α} {s : String}
    {cause : StoreError} :
    readJson decode s = .error cause ↔ (Json.read? s).bind decode = none ∧ cause = .json := by
  rw [readJson]
  cases (Json.read? s).bind decode <;> simp [eq_comm]

/-- Column by column, what is read from a row. -/
structure NodeRow.Holds (r : NodeRow) (n : Node) : Prop where
  id : ∃ key, r.id = some key ∧ readId key = .ok n.id
  owner : r.owner = n.owner
  kind : NodeKind.ofStored r.kind = n.kind
  name : r.name = n.name
  arcs : readJson Arcs.ofJson? r.arcs = .ok n.arcs
  complement : readJson Arcs.ofJson? r.complement = .ok n.complement
  forward : readOptionalId r.forward = .ok n.forward
  copy : readOptionalId r.copy = .ok n.copy
  generation : ∃ g, r.generation = .integer g ∧ toCount g = .ok n.generation

theorem NodeRow.toNode_eq_ok_iff {r : NodeRow} {n : Node} : r.toNode = .ok n ↔ r.Holds n := by
  rw [toNode]
  simp only [bind_eq_ok_iff]
  constructor
  · rintro ⟨key, hkey, g, hg, id, hid, arcs, harcs, complement, hcomplement, forward, hforward,
      copy, hcopy, generation, hgeneration, hn⟩
    cases hn
    refine ⟨⟨key, ?_, hid⟩, rfl, rfl, rfl, harcs, hcomplement, hforward, hcopy, g, ?_, hgeneration⟩
    · cases hid' : r.id with
      | none => rw [hid'] at hkey; cases hkey
      | some s => rw [hid'] at hkey; cases hkey; rfl
    · cases hcell : r.generation with
      | integer m => rw [hcell] at hg; cases hg; rfl
      | real x => rw [hcell] at hg; cases hg
      | text s => rw [hcell] at hg; cases hg
  · rintro ⟨⟨key, hkey, hid⟩, howner, hkind, hname, harcs, hcomplement, hforward, hcopy, g, hg,
      hgeneration⟩
    refine ⟨key, by rw [hkey]; rfl, g, by rw [hg]; rfl, _, hid, _, harcs, _, hcomplement, _,
      hforward, _, hcopy, _, hgeneration, ?_⟩
    rw [howner, hkind, hname]
    rfl

end Database

/-- The numbers of a node read back. -/
def Node.NumbersReadBack (n : Node) : Prop :=
  Arcs.Storable n.arcs ∧ Arcs.Storable n.complement

/-- The numbers that an update writes read back. -/
def Update.NumbersReadBack (u : Update) : Prop :=
  (∀ arcs, u.arcs = some arcs → Arcs.Storable arcs) ∧
    ∀ arcs, u.complement = some arcs → Arcs.Storable arcs

/-- The numbers of a node are finite. -/
def Node.Finite (n : Node) : Prop :=
  Arcs.Finite n.arcs ∧ Arcs.Finite n.complement

namespace Database

theorem readJson_arcs_iff {arcs : List Arc} :
    readJson Arcs.ofJson? (Arcs.toJson arcs).compact = .ok arcs ↔ Arcs.Storable arcs :=
  (readJson_eq_ok_iff (Arcs.legible_toJson arcs)).trans Arcs.ofJson?_toJson_iff

theorem toCount_natCast (n : Nat) : toCount (n : Int) = .ok n := by
  rw [toCount, if_pos (Int.natCast_nonneg _), Int.toNat_natCast]

/-- A node is read from its row exactly if its numbers read back. -/
theorem NodeRow.toNode_holding_iff {n : Node} :
    (holding n).toNode = .ok n ↔ n.NumbersReadBack := by
  rw [toNode_eq_ok_iff]
  constructor
  · exact fun h => ⟨readJson_arcs_iff.mp h.arcs, readJson_arcs_iff.mp h.complement⟩
  · rintro ⟨harcs, hcomplement⟩
    exact ⟨⟨_, rfl, readId_text n.id⟩, rfl, NodeKind.ofStored_name n.kind, rfl,
      readJson_arcs_iff.mpr harcs, readJson_arcs_iff.mpr hcomplement,
      readOptionalId_text n.forward, readOptionalId_text n.copy, _, rfl, toCount_natCast _⟩

/-- A row with a number that is not finite is not read. -/
theorem NodeRow.toNode_holding_of_not_finite {n : Node} (h : ¬ n.Finite) :
    (holding n).toNode = .error .json := by
  have hjson : ∀ {arcs : List Arc}, ¬ Arcs.Finite arcs →
      readJson Arcs.ofJson? (Arcs.toJson arcs).compact = .error .json := fun h =>
    readJson_eq_error (Arcs.legible_toJson _) (Arcs.ofJson?_toJson_eq_none h)
  -- All the other columns are read as they were written.
  have hread : (holding n).toNode = (do
      let arcs ← readJson Arcs.ofJson? (Arcs.toJson n.arcs).compact
      let complement ← readJson Arcs.ofJson? (Arcs.toJson n.complement).compact
      return { n with arcs, complement }) := by
    simp only [toNode, holding, readKey, Cell.toInteger, bind, Except.bind, readId_text,
      readOptionalId_text, NodeKind.ofStored_name, toCount_natCast, pure, Except.pure]
  rw [hread]
  by_cases harcs : Arcs.Finite n.arcs
  · rw [hjson fun hcomplement => h ⟨harcs, hcomplement⟩]
    cases hread : readJson Arcs.ofJson? (Arcs.toJson n.arcs).compact with
    | error e =>
        obtain ⟨-, rfl⟩ := readJson_eq_error_iff.mp hread
        rfl
    | ok arcs => rfl
  · rw [hjson harcs]
    rfl

/-- A row that is overwritten holds the node overwritten exactly if the numbers written read
back. -/
theorem NodeRow.Holds.overwrite_iff {r : NodeRow} {n : Node} (h : r.Holds n) (u : Update) :
    (r.overwrite u (u.generation.map Int.ofNat)).toNode = .ok (u.applyTo n) ↔
      u.NumbersReadBack := by
  rw [toNode_eq_ok_iff]
  constructor
  · intro h'
    refine ⟨fun arcs harcs => ?_, fun arcs harcs => ?_⟩
    · have hread := h'.arcs
      simp only [overwrite, Update.applyTo, harcs, Option.map_some, Option.getD_some] at hread
      exact readJson_arcs_iff.mp hread
    · have hread := h'.complement
      simp only [overwrite, Update.applyTo, harcs, Option.map_some, Option.getD_some] at hread
      exact readJson_arcs_iff.mp hread
  · rintro ⟨harcs, hcomplement⟩
    refine ⟨h.id, h.owner, h.kind, h.name, ?_, ?_, ?_, ?_, ?_⟩
    · cases hu : u.arcs with
      | none => simpa [overwrite, Update.applyTo, hu] using h.arcs
      | some arcs => simpa [overwrite, Update.applyTo, hu] using readJson_arcs_iff.mpr (harcs _ hu)
    · cases hu : u.complement with
      | none => simpa [overwrite, Update.applyTo, hu] using h.complement
      | some arcs =>
          simpa [overwrite, Update.applyTo, hu] using readJson_arcs_iff.mpr (hcomplement _ hu)
    · cases hu : u.forward with
      | none => simpa [overwrite, Update.applyTo, hu] using h.forward
      | some id => simpa [overwrite, Update.applyTo, hu] using readOptionalId_text (some id)
    · cases hu : u.copy with
      | none => simpa [overwrite, Update.applyTo, hu] using h.copy
      | some id => simpa [overwrite, Update.applyTo, hu] using readOptionalId_text (some id)
    · cases hu : u.generation with
      | none => simpa [overwrite, Update.applyTo, hu] using h.generation
      | some g =>
        exact ⟨g, by simp [overwrite], by simpa [Update.applyTo, hu] using toCount_natCast g⟩

/-! ### Ideas -/

/-- An idea is read from its row with an energy that ideas have. -/
theorem IdeaRow.toIdea_ofIdea_clamped (i : Idea) :
    (ofIdea i).toIdea = .ok { i with energy := clampEnergy i.energy } := by
  have htags := readJson_compact (legible_ofList fun tag _ => legible_string tag)
    (list?_ofList string? .string fun tag (_ : tag ∈ i.tags) => rfl)
  have hbyte : ¬((i.energy.toNat : Int) < 0 ∨ 255 < (i.energy.toNat : Int)) := by
    have := i.energy.toNat_lt
    omega
  have henergy : (i.energy.toNat : Int).toNat.toUInt8 = i.energy := by
    rw [Int.toNat_natCast, Nat.toUInt8, UInt8.ofNat_toNat]
  rw [toIdea, columns_ofIdea]
  simp only [ofColumns, columnsOf, ofIdea, bind, Except.bind, pure, Except.pure, if_neg hbyte,
    readId_text, htags, henergy]

/-! ### What is given back -/

variable {db db' : Database} {id : NodeId} {n : Node} {u : Update} {i : Idea}

/-- No key stands in two rows of nodes; that is a rule of the table. -/
def Keyed (db : Database) : Prop :=
  (db.nodes.toList.filterMap NodeRow.id).Nodup

theorem Keyed.insert (h : db.Keyed) (new : db.nodeRow? n.id = none) :
    Keyed { db with nodes := db.nodes.insert (.holding n) } := by
  have hperm := (Rows.toList_insert_perm (.holding n) db.nodes).filterMap NodeRow.id
  refine hperm.nodup_iff.mpr ?_
  rw [List.filterMap_cons_some (show (NodeRow.holding n).id = some n.id.text from rfl)]
  refine List.nodup_cons.mpr ⟨fun hmem => ?_, h⟩
  obtain ⟨r, hr, hkey⟩ := List.mem_filterMap.mp hmem
  exact nodeRow?_eq_none_iff.mp new (List.mem_map.mpr ⟨r, hr, hkey⟩)

theorem Keyed.overwritten (h : db.Keyed) (id : NodeId) (u : Update) :
    (db.overwritten id u).Keyed := by
  have hkeys : (db.overwritten id u).nodes.toList.filterMap NodeRow.id
      = db.nodes.toList.filterMap NodeRow.id := by
    show ((db.nodes.modify _ _).toList).filterMap NodeRow.id = _
    rw [Rows.toList_modify, List.filterMap_map]
    refine List.filterMap_congr fun r _ => ?_
    rw [Function.comp]
    split <;> rfl
  rw [Keyed, hkeys]
  exact h

/-- A key stands for one row. -/
theorem Keyed.nodeRow?_eq (h : db.Keyed) {r : NodeRow} (hr : r ∈ db.nodes.toList)
    (hkey : r.id = some id.text) : db.nodeRow? id = some r := by
  obtain ⟨front, rest, hlist⟩ := List.append_of_mem hr
  rw [Keyed, hlist, List.filterMap_append, List.filterMap_cons_some hkey] at h
  rw [nodeRow?, hlist, List.find?_append, List.find?_cons, hkey, decide_eq_true rfl]
  have hfront : front.find? (fun r => r.id = some id.text) = none := by
    refine List.find?_eq_none.mpr fun x hx => ?_
    rw [decide_eq_true_eq]
    intro hxkey
    have hmem : id.text ∈ front.filterMap NodeRow.id := List.mem_filterMap.mpr ⟨x, hx, hxkey⟩
    exact (List.nodup_append.mp h).2.2 _ hmem _ List.mem_cons_self rfl
  rw [hfront]
  rfl

/-- A node that was stored is read from the row that holds it. -/
theorem get_of_saved (h : saveNode n db = (.ok (), db')) :
    (get n.id db').1 = ((NodeRow.holding n).toNode.map some).mapError EngineError.ofStore := by
  rcases saveNode_cases h with ⟨_, he, -⟩ | ⟨-, new, -, rfl⟩
  · cases he
  · rw [get_eq, nodeRow?_insert rfl new, if_pos rfl]

/-- What is read is a node exactly if the row holds it. -/
theorem read_eq_ok_iff {x : Except StoreError Node} :
    (x.map some).mapError EngineError.ofStore = .ok (some n) ↔ x = .ok n := by
  cases x with
  | error e => simp [Except.map, Except.mapError]
  | ok k => simp [Except.map, Except.mapError]

theorem get_of_saved_iff (h : saveNode n db = (.ok (), db')) :
    (get n.id db').1 = .ok (some n) ↔ n.NumbersReadBack := by
  rw [get_of_saved h, read_eq_ok_iff, NodeRow.toNode_holding_iff]

theorem getIdea_of_inserted (h : insertIdea (.ofIdea i) db = (.ok (), db')) :
    (getIdea i.id db').1 = .ok (some { i with energy := clampEnergy i.energy }) := by
  rcases insertIdea_cases h with ⟨_, he, -⟩ | ⟨new, -, rfl⟩
  · cases he
  · rw [getIdea_of_row (ideaRow?_insert new), IdeaRow.toIdea_ofIdea_clamped]
    rfl

/-- The row of a node that was updated took the update. -/
theorem get_of_updated (keyed : db.Keyed) (hread : (get id db).1 = .ok (some n))
    (h : updateNode id u db = (.ok true, db')) : db'.Keyed ∧
      ((get id db').1 = .ok (some (u.applyTo n)) ↔ u.NumbersReadBack) := by
  rw [get_eq] at hread
  cases hrow : db.nodeRow? id with
  | none =>
      rw [hrow] at hread
      cases hread
  | some r =>
      rw [hrow] at hread
      have holds := NodeRow.toNode_eq_ok_iff.mp (read_eq_ok_iff.mp hread)
      rcases updateNode_cases h with
        ⟨_, he, -⟩ | ⟨hempty, -, rfl⟩ | ⟨-, ⟨row, hmem, htakes⟩, -, rfl⟩ | ⟨-, -, -, hanswer⟩
      · cases he
      · have hnothing : u.NumbersReadBack := by
          rw [Update.isEmpty] at hempty
          obtain ⟨arcs, complement, forward, copy, generation⟩ := u
          cases arcs <;> cases complement <;> simp [Update.NumbersReadBack] at hempty ⊢
        refine ⟨keyed, iff_of_true ?_ hnothing⟩
        rw [get_eq, hrow, Update.applyTo_of_isEmpty hempty]
        exact hread
      · have hsame : row = r := by
          have hkey : row.id = some id.text := (of_decide_eq_true htakes).1
          exact Option.some.inj ((keyed.nodeRow?_eq hmem hkey).symm.trans hrow)
        subst hsame
        refine ⟨keyed.overwritten id u, ?_⟩
        rw [get_eq, nodeRow?_overwritten, hrow, Option.map_some, if_pos htakes]
        exact read_eq_ok_iff.trans (holds.overwrite_iff u)
      -- An update that no row took is not answered as if one had.
      · split at hanswer
        · cases hload : (loadNode id db).1 with
          | error e =>
              rw [hload] at hanswer
              cases hanswer
          | ok found =>
              rw [hload] at hanswer
              cases found <;> cases hanswer
        · cases hanswer

/-- What the database accepts is given back, but for numbers.  A node that is stored, by itself or
with its idea, is read again as it was exactly if the numbers of its arcs read back from their
texts; the idea is read again with an energy that ideas have, whatever the numbers are; and a
readable node that takes an update is read again with just that update applied exactly if the
numbers of the update read back.  Only finite numbers do, and where others were stored the
node cannot be read.  All this holds of tables whose rows were edited and moved by hand, as
long as no key of the nodes is there twice, and each call keeps that. -/
theorem given_back_iff (keyed : db.Keyed) :
    (∀ n db', create n db = (.ok (), db') → db'.Keyed ∧
      ((get n.id db').1 = .ok (some n) ↔ n.NumbersReadBack) ∧
      (¬ n.Finite → (get n.id db').1 = .error (.storeUnavailable .json))) ∧
    (∀ i n db', createIdea i n db = (.ok (), db') → db'.Keyed ∧
      ((get n.id db').1 = .ok (some n) ↔ n.NumbersReadBack) ∧
      (getIdea i.id db').1 = .ok (some { i with energy := clampEnergy i.energy })) ∧
    (∀ id u n db', (get id db).1 = .ok (some n) → update id u db = (.ok (), db') → db'.Keyed ∧
      ((get id db').1 = .ok (some (u.applyTo n)) ↔ u.NumbersReadBack)) ∧
    ∀ n : Node, n.NumbersReadBack → n.Finite := by
  refine ⟨fun n db' h => ?_, fun i n db' h => ?_, fun id u n db' hread h => ?_, fun n h => ?_⟩
  · have hsave := toAction_ok h
    rcases saveNode_cases hsave with ⟨_, he, -⟩ | ⟨-, new, -, rfl⟩
    · cases he
    refine ⟨keyed.insert new, get_of_saved_iff hsave, fun hfinite => ?_⟩
    rw [get_of_saved hsave, NodeRow.toNode_holding_of_not_finite hfinite]
    rfl
  · rcases saveIdea_cases (toAction_ok h) with ⟨_, he, -⟩ | ⟨hid, -, mid, hsave, hinsert⟩
    · cases he
    rcases insertIdea_cases hinsert with ⟨_, he, -⟩ | ⟨-, -, rfl⟩
    · cases he
    have hget := get_of_saved_iff hsave
    rcases saveNode_cases hsave with ⟨_, he, -⟩ | ⟨-, new, -, rfl⟩
    · cases he
    refine ⟨keyed.insert new, ?_, getIdea_of_inserted hinsert⟩
    rw [get_eq] at hget ⊢
    exact hget
  · exact get_of_updated keyed hread (orNotFound_ok h)
  · exact ⟨h.1.finite, h.2.finite⟩

/-- A node with a number and a forward reference, as a call might ask for it to be stored. -/
def withNumber (x : Float) : Node :=
  { id := ⟨1⟩, owner := "ann", kind := .complex, name := some "", arcs := [⟨"x", .number x⟩],
    forward := some ⟨2⟩, copy := some ⟨1⟩, generation := 7 }

/-- A half reads back, and so the node is given back with all its fields, and once more with its
numbers replaced. -/
theorem given_back_iff_half :
    fresh.Keyed ∧ ∃ db db', create (withNumber 0.5) fresh = (.ok (), db) ∧
      (get ⟨1⟩ db).1 = .ok (some (withNumber 0.5)) ∧
      update ⟨1⟩ { arcs := some [⟨"y", .number 0.5⟩] } db = (.ok (), db') ∧
      (get ⟨1⟩ db').1 = .ok (some { withNumber 0.5 with arcs := [⟨"y", .number 0.5⟩] }) := by
  have hhalf : ReadsBack 0.5 := readsBack_iff.mpr (by decide +kernel)
  have hvalue : ∀ label, Arcs.Storable [⟨label, .number 0.5⟩] := by
    intro label a ha x hx
    obtain rfl := List.mem_singleton.mp ha
    cases hx
    exact hhalf
  have keyed : fresh.Keyed := List.nodup_nil
  obtain ⟨hcreate, -, -, -⟩ := given_back_iff keyed
  have hrun : create (withNumber 0.5) fresh = (.ok (), (create (withNumber 0.5) fresh).2) := by rfl
  obtain ⟨keyed', hback, -⟩ := hcreate _ _ hrun
  have hread := hback.mpr ⟨hvalue "x", Arcs.storable_nil⟩
  obtain ⟨-, -, hupdate, -⟩ := given_back_iff keyed'
  obtain ⟨-, hagain⟩ := hupdate ⟨1⟩ { arcs := some [⟨"y", .number 0.5⟩] } _ _ hread (by rfl)
  refine ⟨keyed, _, _, hrun, hread, by rfl, hagain.mpr ⟨?_, fun _ h => nomatch h⟩⟩
  rintro _ ⟨⟩
  exact hvalue "y"

/-- Not all that is accepted is given back: where an arc has a number that is none, the node is
stored and cannot be read. -/
theorem not_given_back :
    ¬ ∀ (db : Database) (n : Node) (db' : Database), create n db = (.ok (), db') →
      (get n.id db').1 = .ok (some n) := by
  intro hback
  have hrun : create (withNumber (0 / 0)) fresh
    = (.ok (), (create (withNumber (0 / 0)) fresh).2) := by rfl
  have hread := hback fresh _ _ hrun
  rw [get_of_saved_iff (toAction_ok hrun)] at hread
  have hfinite := hread.1.finite ⟨"x", .number (0 / 0)⟩ List.mem_cons_self _ rfl
  revert hfinite
  decide +kernel

end Database

end Ideas
