/-
A value is read from any rendering of it.

What is written of a value is one rendering of it among many.  In any object of a rendering, at
any depth, the fields may stand in another order, there may be fields that nobody asks for, and a
field may be left out while it holds its usual value.  `Spelled` says this of one object and
`Renders` of each type.

Reading looks a field up by its name, so it depends on the fields of that name alone; these are the
same in any order and whatever fields of other names there are (`field?_of_spelled`).  From there
the types follow one another: values of arcs, arcs, lists of them, and nodes.  The numbers have to
read back from their own texts; all else is read as it was written.
-/
import Ideas.Proofs.Database.GivenBack

namespace Ideas

open Json

namespace Json

/-! ### Objects -/

variable {slots : List (String × Option Json)} {fields known extra : List (String × Json)}
  {name : String}

/-- The fields that are given, of a list of fields that may be left out. -/
def given (slots : List (String × Option Json)) : List (String × Json) :=
  slots.filterMap fun slot => slot.2.map (slot.1, ·)

/-- An object has the fields that are given, in any order, and others of names that are unknown. -/
def Spelled (slots : List (String × Option Json)) (fields : List (String × Json)) : Prop :=
  ∃ extra, (∀ field ∈ extra, field.1 ∉ slots.map Prod.fst) ∧ fields.Perm (given slots ++ extra)

theorem fieldsNamed_append (name : String) (fields more : List (String × Json)) :
    fieldsNamed name (fields ++ more) = fieldsNamed name fields ++ fieldsNamed name more := by
  rw [fieldsNamed, List.filter_append, List.map_append]
  rfl

theorem fieldsNamed_eq_nil (h : ∀ field ∈ fields, field.1 ≠ name) :
    fieldsNamed name fields = [] := by
  rw [fieldsNamed, List.filter_eq_nil_iff.mpr fun field hfield => by simpa using h field hfield]
  rfl

theorem name_mem_of_mem_given {field : String × Json} (h : field ∈ given slots) :
    field.1 ∈ slots.map Prod.fst := by
  obtain ⟨slot, hslot, hfield⟩ := List.mem_filterMap.mp h
  obtain ⟨v, -, rfl⟩ := Option.map_eq_some_iff.mp hfield
  exact List.mem_map_of_mem hslot

/-- Where no field is named twice, a field that is given is the only one of its name. -/
theorem fieldsNamed_given (hnodup : (slots.map Prod.fst).Nodup) {o : Option Json}
    (h : (name, o) ∈ slots) : fieldsNamed name (given slots) = o.toList := by
  induction slots with
  | nil => cases h
  | cons slot rest ih =>
      obtain ⟨hnew, hrest⟩ := List.nodup_cons.mp hnodup
      have hgiven : given (slot :: rest) = (slot.2.map (slot.1, ·)).toList ++ given rest := by
        rw [given, List.filterMap_cons]
        cases slot.2 <;> rfl
      rw [hgiven, fieldsNamed_append]
      rcases List.mem_cons.mp h with rfl | h
      · have hothers : fieldsNamed name (given rest) = [] :=
          fieldsNamed_eq_nil fun field hfield heq => hnew (heq ▸ name_mem_of_mem_given hfield)
        rw [hothers, List.append_nil]
        cases o <;> simp [fieldsNamed]
      · have hne : slot.1 ≠ name := by
          rintro rfl
          exact hnew (List.mem_map.mpr ⟨_, h, rfl⟩)
        rw [ih hrest h]
        cases slot.2 <;> simp [fieldsNamed, hne]

/-- A field is found wherever it stands, and missed where it is left out. -/
theorem field?_of_spelled (hnodup : (slots.map Prod.fst).Nodup) (h : Spelled slots fields)
    {o : Option Json} (hslot : (name, o) ∈ slots) : field? fields name = some o := by
  obtain ⟨extra, hunknown, hperm⟩ := h
  have hothers : fieldsNamed name extra = [] :=
    fieldsNamed_eq_nil fun field hfield heq =>
      hunknown field hfield (heq ▸ List.mem_map_of_mem hslot)
  have hnamed : (fieldsNamed name fields).Perm o.toList := by
    have hperm := (hperm.filter fun field => field.1 = name).map Prod.snd
    rw [← fieldsNamed, ← fieldsNamed, fieldsNamed_append, hothers, List.append_nil,
      fieldsNamed_given hnodup hslot] at hperm
    exact hperm
  rw [field?]
  cases o with
  | none => rw [List.perm_nil.mp hnamed]
  | some v => rw [List.perm_singleton.mp hnamed]

/-- A record is read from an object however it is spelled. -/
theorem record?_of_spelled (h : Spelled slots fields) {names : List String}
    (hnames : slots.map Prod.fst = names) (hnodup : names.Nodup) :
    record? names (.object fields) = some (slots.map Prod.snd) := by
  subst hnames
  suffices ∀ asked, asked ⊆ slots →
      (asked.map Prod.fst).mapM (field? fields) = some (asked.map Prod.snd) from
    this slots (List.Subset.refl slots)
  intro asked hasked
  induction asked with
  | nil => rfl
  | cons slot rest ih =>
      obtain ⟨hslot, hrest⟩ := List.cons_subset.mp hasked
      rw [List.map_cons, List.mapM_cons, field?_of_spelled hnodup h hslot, ih hrest]
      rfl

theorem spelled_given (slots : List (String × Option Json)) : Spelled slots (given slots) :=
  ⟨[], fun _ h => absurd h List.not_mem_nil, (List.append_nil _).symm ▸ List.Perm.refl _⟩

/-- A field holds a value, or is left out while the value is the usual one. -/
inductive Omittable {α : Type} (usual a : α) (renders : Json → Prop) : Option Json → Prop
  | holds {v : Json} (h : renders v) : Omittable usual a renders (some v)
  | omitted (h : a = usual) : Omittable usual a renders none

theorem Omittable.optional_eq {α : Type} {usual a : α} {renders : Json → Prop} {o : Option Json}
    (h : Omittable usual a renders o) (decode : Json → Option α)
    (hdecode : ∀ v, renders v → decode v = some a) : optional usual decode o = some a := by
  cases h with
  | holds h => exact hdecode _ h
  | omitted h => rw [h]; rfl

end Json

/-! ### The types -/

/-- The renderings of a value of an arc: its kind and its content. -/
inductive ArcValue.Renders : ArcValue → Json → Prop
  | text {s : String} {fields : List (String × Json)}
      (h : Spelled [("kind", some (.string "text")), ("value", some (.string s))] fields) :
      Renders (.text s) (.object fields)
  | number {x : Float} {fields : List (String × Json)}
      (h : Spelled [("kind", some (.string "number")), ("value", some (.ofFloat x))] fields) :
      Renders (.number x) (.object fields)
  | node {id : NodeId} {fields : List (String × Json)}
      (h : Spelled [("kind", some (.string "node")), ("value", some id.toJson)] fields) :
      Renders (.node id) (.object fields)

/-- The renderings of an arc. -/
inductive Arc.Renders (a : Arc) : Json → Prop
  | intro {value : Json} {fields : List (String × Json)} (hvalue : a.value.Renders value)
      (h : Spelled [("label", some (.string a.label)), ("value", some value)] fields) :
      Renders a (.object fields)

/-- The renderings of a list of arcs: in the same order. -/
inductive Arcs.Renders (arcs : List Arc) : Json → Prop
  | intro {items : List Json} (h : List.Forall₂ Arc.Renders arcs items) :
      Renders arcs (.array items)

/-- The renderings of a node. -/
inductive Node.Renders (n : Node) : Json → Prop
  | intro {arcs : Json} {name complement forward copy generation : Option Json}
      {fields : List (String × Json)} (harcs : Arcs.Renders n.arcs arcs)
      (hname : Omittable none n.name (· = ofOption .string n.name) name)
      (hcomplement : Omittable [] n.complement (Arcs.Renders n.complement) complement)
      (hforward : Omittable none n.forward (· = ofOption NodeId.toJson n.forward) forward)
      (hcopy : Omittable none n.copy (· = ofOption NodeId.toJson n.copy) copy)
      (hgeneration : Omittable 0 n.generation (· = ofNat n.generation) generation)
      (h : Spelled [("id", some n.id.toJson), ("owner", some (.string n.owner)),
        ("node_type", some (.string n.kind.name)), ("name", name), ("arc_list", some arcs),
        ("comp_arc_list", complement), ("forward_id", forward), ("copy_id", copy),
        ("generation", generation)] fields) :
      Renders n (.object fields)

/-- The renderings of an idea. -/
inductive Idea.Renders (i : Idea) : Json → Prop
  | intro {content tags archived : Option Json} {fields : List (String × Json)}
      (hcontent : Omittable none i.content (· = ofOption .string i.content) content)
      (htags : Omittable [] i.tags (· = ofList .string i.tags) tags)
      (harchived : Omittable false i.archived (· = .bool i.archived) archived)
      (h : Spelled [("id", some i.id.toJson), ("owner", some (.string i.owner)),
        ("title", some (.string i.title)), ("content", content), ("tags", tags),
        ("energy", some (ofNat i.energy.toNat)), ("archived", archived)] fields) :
      Renders i (.object fields)

/-! ### What is written is a rendering -/

theorem ArcValue.renders_toJson (v : ArcValue) : v.Renders v.toJson := by
  cases v with
  | text s => exact .text (spelled_given _)
  | number x => exact .number (spelled_given _)
  | node id => exact .node (spelled_given _)

theorem Arc.renders_toJson (a : Arc) : a.Renders a.toJson :=
  .intro a.value.renders_toJson (spelled_given _)

theorem Arcs.renders_toJson (arcs : List Arc) : Arcs.Renders arcs (toJson arcs) := by
  refine .intro ?_
  induction arcs with
  | nil => exact .nil
  | cons a rest ih => exact .cons a.renders_toJson ih

theorem Node.renders_toJson (n : Node) : n.Renders n.toJson :=
  .intro (Arcs.renders_toJson n.arcs) (.holds rfl) (.holds (Arcs.renders_toJson n.complement))
    (.holds rfl) (.holds rfl) (.holds rfl) (spelled_given _)

theorem Idea.renders_toJson (i : Idea) : i.Renders i.toJson :=
  .intro (.holds rfl) (.holds rfl) (.holds rfl) (spelled_given _)

theorem legible_null : Json.null.Legible := by
  intro t ht
  rw [tokens, List.mem_singleton] at ht
  exact ht ▸ trivial

theorem legible_ofNat (n : Nat) : (ofNat n).Legible := by
  intro t ht
  rw [ofNat, tokens, List.mem_singleton] at ht
  subst ht
  refine ⟨isDigits_digitsOf n, fun hzero => ?_, ?_, ?_⟩
  · rw [show n = 0 from digitsOf_eq_of_head? hzero]
    decide
  · rintro _ ⟨⟩
  · rintro _ ⟨⟩

theorem legible_ofOption {α : Type} {encode : α → Json} (h : ∀ a, (encode a).Legible)
    (o : Option α) : (ofOption encode o).Legible := by
  cases o with
  | some a => exact h a
  | none => exact legible_null

theorem legible_id (id : NodeId) : id.toJson.Legible :=
  legible_string id.text

theorem Node.legible_toJson (n : Node) : n.toJson.Legible := by
  refine legible_object ?_
  simp only [List.forall_mem_cons]
  exact ⟨legible_string _, legible_string _, legible_string _, legible_ofOption legible_string _,
    Arcs.legible_toJson _, Arcs.legible_toJson _, legible_ofOption legible_id _,
    legible_ofOption legible_id _, legible_ofNat _, nofun⟩

theorem Idea.legible_toJson (i : Idea) : i.toJson.Legible := by
  refine legible_object ?_
  simp only [List.forall_mem_cons]
  refine ⟨legible_string _, legible_string _, legible_string _, legible_ofOption legible_string _,
    legible_ofList fun tag _ => legible_string tag, legible_ofNat _, ?_, nofun⟩
  intro t ht
  rw [tokens, List.mem_singleton] at ht
  exact ht ▸ trivial

/-! ### Renderings are read -/

theorem ArcValue.ofJson?_of_renders {a : ArcValue} {v : Json} (h : a.Renders v)
    (hstorable : a.Storable) : ofJson? v = some a := by
  have hnodup : ["kind", "value"].Nodup := by decide
  cases h with
  | text h =>
      have hrecord := record?_of_spelled h rfl hnodup
      simp only [List.map_cons, List.map_nil] at hrecord
      simp [ofJson?, hrecord, required, kind?, word?, ofContent?, string?]
  | @number x fields h =>
      have hrecord := record?_of_spelled h rfl hnodup
      have hx := readsBack_iff.mp (hstorable x rfl)
      simp only [List.map_cons, List.map_nil] at hrecord
      simp [ofJson?, hrecord, required, kind?, word?, ofContent?, hx]
  | node h =>
      have hrecord := record?_of_spelled h rfl hnodup
      simp only [List.map_cons, List.map_nil] at hrecord
      simp [ofJson?, hrecord, required, kind?, word?, ofContent?, NodeId.ofJson?_toJson]

theorem Arc.ofJson?_of_renders {a : Arc} {v : Json} (h : a.Renders v)
    (hstorable : a.value.Storable) : ofJson? v = some a := by
  have hnodup : ["label", "value"].Nodup := by decide
  cases h with
  | intro hvalue h =>
      have hrecord := record?_of_spelled h rfl hnodup
      simp only [List.map_cons, List.map_nil] at hrecord
      simp [ofJson?, hrecord, required, string?, ArcValue.ofJson?_of_renders hvalue hstorable]

theorem Arcs.ofJson?_of_renders {arcs : List Arc} {v : Json} (h : Renders arcs v)
    (hstorable : Storable arcs) : ofJson? v = some arcs := by
  cases h with
  | @intro items h =>
      show items.mapM Arc.ofJson? = some arcs
      induction h with
      | nil => rfl
      | cons ha _ ih =>
          obtain ⟨hvalue, hrest⟩ := List.forall_mem_cons.mp hstorable
          rw [List.mapM_cons, Arc.ofJson?_of_renders ha hvalue, ih hrest]
          rfl

theorem nullable_string?_ofOption (o : Option String) :
    nullable string? (ofOption .string o) = some o :=
  nullable_ofOption string? .string (fun _ _ => rfl) nofun

theorem nullable_id_ofOption (o : Option NodeId) :
    nullable NodeId.ofJson? (ofOption NodeId.toJson o) = some o :=
  nullable_ofOption NodeId.ofJson? NodeId.toJson (fun id _ => NodeId.ofJson?_toJson id) nofun

theorem Node.ofJson?_of_renders {n : Node} {v : Json} (h : n.Renders v)
    (hgeneration : n.generation ≤ Decimal.greatestWord) (hnumbers : n.NumbersReadBack) :
    ofJson? v = some n := by
  have hnodup : fieldNames.Nodup := by decide
  cases h with
  | @intro arcs name complement forward copy generation fields harcs hname hcomplement hforward
      hcopy hgen h =>
      have hrecord : (Json.object fields).record? fieldNames = _ := record?_of_spelled h rfl hnodup
      have hname := hname.optional_eq (nullable string?) fun v hv => by
        rw [hv, nullable_string?_ofOption]
      have hcomplement := hcomplement.optional_eq Arcs.ofJson? fun v hv =>
        Arcs.ofJson?_of_renders hv hnumbers.2
      have hforward := hforward.optional_eq (nullable NodeId.ofJson?) fun v hv => by
        rw [hv, nullable_id_ofOption]
      have hcopy := hcopy.optional_eq (nullable NodeId.ofJson?) fun v hv => by
        rw [hv, nullable_id_ofOption]
      have hgen := hgen.optional_eq (natUpTo? Decimal.greatestWord) fun v hv => by
        rw [hv, natUpTo?_ofNat hgeneration]
      simp only [List.map_cons, List.map_nil] at hrecord
      simp [ofJson?, hrecord, required, NodeId.ofJson?_toJson, string?, NodeKind.ofJson?_name,
        hname, Arcs.ofJson?_of_renders harcs hnumbers.1, hcomplement, hforward, hcopy, hgen]

theorem Idea.ofJson?_of_renders {i : Idea} {v : Json} (h : i.Renders v) : ofJson? v = some i := by
  have hnodup : fieldNames.Nodup := by decide
  cases h with
  | @intro content tags archived fields hcontent htags harchived h =>
      have hrecord : (Json.object fields).record? fieldNames = _ := record?_of_spelled h rfl hnodup
      have hcontent := hcontent.optional_eq (nullable string?) fun v hv => by
        rw [hv, nullable_string?_ofOption]
      have htags := htags.optional_eq (list? string?) fun v hv => by
        rw [hv, list?_ofList string? .string fun _ _ => rfl]
      have harchived := harchived.optional_eq bool? fun v hv => by
        rw [hv]
        rfl
      have henergy := natUpTo?_ofNat (Nat.le_of_lt_succ i.energy.toNat_lt)
      simp only [List.map_cons, List.map_nil] at hrecord
      simp [ofJson?, hrecord, required, NodeId.ofJson?_toJson, string?, hcontent, htags,
        henergy, harchived]

/-- A value is read from what is written of it, and from the text of any other rendering. -/
structure RoundTrips {α : Type} (decode : Json → Option α) (renders : α → Json → Prop) (a : α)
    (v : Json) : Prop where
  back : (read? v.compact).bind decode = some a
  rendered : renders a v
  however : ∀ text w, read? text = some w → renders a w → (read? text).bind decode = some a

theorem roundTrips {α : Type} {decode : Json → Option α} {renders : α → Json → Prop} {a : α}
    {v : Json} (hdecode : ∀ w, renders a w → decode w = some a) (hv : renders a v)
    (hlegible : v.Legible) : RoundTrips decode renders a v := by
  have however : ∀ text w, read? text = some w → renders a w →
      (read? text).bind decode = some a := by
    intro text w htext hw
    rw [htext, Option.bind_some, hdecode w hw]
  exact ⟨however _ v (read?_compact hlegible) hv, hv, however⟩

/-- What is written of nodes, ideas and lists of arcs is read as it was, and so is every other
rendering: with the fields of any object in another order, with fields that are unknown, and
without fields that hold their usual values.  The texts of the value, its ids and references, its
kind and its generation up to the greatest one that is written may be any; of its numbers it is
taken for granted that each reads back from its own text, which only finite ones do. -/
theorem json_round_trip :
    (∀ n : Node, n.generation ≤ Decimal.greatestWord → n.NumbersReadBack →
      RoundTrips Node.ofJson? Node.Renders n n.toJson) ∧
    (∀ i : Idea, RoundTrips Idea.ofJson? Idea.Renders i i.toJson) ∧
    ∀ arcs : List Arc, Arcs.Storable arcs →
      RoundTrips Arcs.ofJson? Arcs.Renders arcs (Arcs.toJson arcs) := by
  refine ⟨fun n hgeneration hnumbers => ?_, fun i => ?_, fun arcs hstorable => ?_⟩
  · exact roundTrips (fun _ h => Node.ofJson?_of_renders h hgeneration hnumbers)
      n.renders_toJson n.legible_toJson
  · exact roundTrips (fun _ h => Idea.ofJson?_of_renders h) i.renders_toJson i.legible_toJson
  · exact roundTrips (fun _ h => Arcs.ofJson?_of_renders h hstorable) (Arcs.renders_toJson arcs)
      (Arcs.legible_toJson arcs)

/-- A node with texts that have to be escaped, and with the greatest generation. -/
def marked : Node where
  id := ⟨1⟩
  owner := "\"\\\n\u0001é🪁"
  kind := .atomic
  name := none
  arcs := [⟨"", .number 0.5⟩]
  complement := [⟨"next", .node ⟨2⟩⟩]
  forward := some ⟨3⟩
  generation := Decimal.greatestWord

/-- The same node with the fields of its objects the other way round, and some more fields; what is
usual is left out. -/
def markedJson : Json :=
  .object [
    ("note", .object [("id", .null)]),
    ("generation", ofNat Decimal.greatestWord),
    ("forward_id", NodeId.toJson ⟨3⟩),
    ("comp_arc_list", Arcs.toJson [⟨"next", .node ⟨2⟩⟩]),
    ("arc_list", .array [.object [
      ("value", .object [("unit", .null), ("value", ofFloat 0.5), ("kind", .string "number")]),
      ("label", .string "")]]),
    ("node_type", .string "atomic"),
    ("owner", .string "\"\\\n\u0001é🪁"),
    ("id", NodeId.toJson ⟨1⟩)]

theorem spelled_reverse {slots : List (String × Option Json)} (extra : List (String × Json))
    (h : ∀ field ∈ extra, field.1 ∉ slots.map Prod.fst) :
    Spelled slots (given slots ++ extra).reverse :=
  ⟨extra, h, List.reverse_perm _⟩

theorem renders_markedJson : marked.Renders markedJson := by
  have hvalue : (ArcValue.number 0.5).Renders (.object [("unit", .null), ("value", ofFloat 0.5),
      ("kind", .string "number")]) :=
    .number (spelled_reverse [("unit", .null)] (by decide))
  have harc : Arc.Renders ⟨"", .number 0.5⟩ (.object [("value", .object [("unit", .null),
      ("value", ofFloat 0.5), ("kind", .string "number")]), ("label", .string "")]) :=
    .intro hvalue (spelled_reverse [] nofun)
  exact .intro (.intro (.cons harc .nil)) (.omitted rfl) (.holds (Arcs.renders_toJson _))
    (.holds rfl) (.omitted rfl) (.holds rfl)
    (spelled_reverse [("note", .object [("id", .null)])] (by decide))

theorem legible_markedJson : markedJson.Legible := by
  have hnote : (Json.object [("id", .null)]).Legible :=
    legible_object (List.forall_mem_singleton.mpr legible_null)
  have hvalue : (Json.object [("unit", .null), ("value", ofFloat 0.5),
      ("kind", .string "number")]).Legible := by
    refine legible_object ?_
    simp only [List.forall_mem_cons]
    exact ⟨legible_null, legible_ofFloat _, legible_string _, nofun⟩
  have harcs : (Json.array [.object [("value", .object [("unit", .null), ("value", ofFloat 0.5),
      ("kind", .string "number")]), ("label", .string "")]]).Legible :=
    legible_array (List.forall_mem_singleton.mpr (legible_pair hvalue (legible_string "")))
  refine legible_object ?_
  simp only [List.forall_mem_cons]
  exact ⟨hnote, legible_ofNat _, legible_id _, Arcs.legible_toJson _, harcs, legible_string _,
    legible_string _, legible_id _, nofun⟩

theorem json_round_trip_marked :
    marked.generation ≤ Decimal.greatestWord ∧ marked.NumbersReadBack ∧
      (read? marked.toJson.compact).bind Node.ofJson? = some marked ∧
      (read? markedJson.compact).bind Node.ofJson? = some marked := by
  have hhalf : ReadsBack 0.5 := readsBack_iff.mpr (by decide +kernel)
  have hnumbers : marked.NumbersReadBack := by
    constructor
    · intro a ha x hx
      obtain rfl := List.mem_singleton.mp ha
      cases hx
      exact hhalf
    · intro a ha x hx
      obtain rfl := List.mem_singleton.mp ha
      cases hx
  obtain ⟨back, -, however⟩ := json_round_trip.1 marked (Nat.le_refl _) hnumbers
  exact ⟨Nat.le_refl _, hnumbers, back,
    however _ _ (read?_compact legible_markedJson) renders_markedJson⟩

end Ideas
