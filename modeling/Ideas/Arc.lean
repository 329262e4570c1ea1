/-
Arcs: the labelled values a node carries.

A value is a text, a number or a reference to a node.  A literal, the form in which
people type a value, is a reference when it starts with `@`, a number when it reads
as a finite one, and a text otherwise.

Lists of arcs are used as sets keyed by label, although a list may hold a label
twice.  `find?` sees the first arc of a label; `intersect` and `complement` keep or
drop arcs by the labels of the other list; `union` appends the arcs whose labels are
new, so that what is already there wins (`prefix_union`) and no label comes to stand
twice (`nodup_labels_union`).
-/
import Ideas.Decimal.Layout
import Ideas.NodeId
import Ideas.Text.Quoted

namespace Ideas

/-- The value of an arc. -/
inductive ArcValue where
  | text (s : String)
  | number (x : Float)
  | node (id : NodeId)

namespace ArcValue

/-- The node a value refers to. -/
def node? : ArcValue → Option NodeId
  | .node id => some id
  | _ => none

/-- Read a literal; no answer for a reference whose id cannot be read. -/
def ofLiteral? (s : String) : Option ArcValue :=
  match s.toList with
  | '@' :: rest => (NodeId.readTrimmed? (String.ofList rest)).map .node
  | cs =>
    match (Decimal.Numeral.ofLiteral? cs).map Decimal.Numeral.toFloat with
    | some x => some (if Decimal.isFinite x then .number x else .text s)
    | none => some (.text s)

/-- A value for people: texts in quotes, numbers plain, references behind `@`. -/
def display : ArcValue → String
  | .text s => Text.quoted s
  | .number x => Decimal.plainText x
  | .node id => "@" ++ id.text

end ArcValue

/-- A labelled value. -/
structure Arc where
  label : String
  value : ArcValue

namespace Arcs

/-- The labels of a list of arcs. -/
def labels (arcs : List Arc) : List String :=
  arcs.map Arc.label

/-- The first arc with a label. -/
def find? (label : String) (arcs : List Arc) : Option Arc :=
  arcs.find? fun arc => arc.label = label

/-- The arcs of `theirs` whose labels `ours` has too. -/
def intersect (ours theirs : List Arc) : List Arc :=
  theirs.filter fun arc => arc.label ∈ labels ours

/-- The arcs of `ours` whose labels `theirs` lacks. -/
def complement (ours theirs : List Arc) : List Arc :=
  ours.filter fun arc => arc.label ∉ labels theirs

/-- Append an arc if its label is new. -/
def insertNew (arcs : List Arc) (arc : Arc) : List Arc :=
  if arc.label ∈ labels arcs then arcs else arcs ++ [arc]

/-- Append those arcs of `extra` whose labels are new. -/
def union (arcs extra : List Arc) : List Arc :=
  extra.foldl insertNew arcs

/-- Keep the first arc of each label. -/
def dedup (arcs : List Arc) : List Arc :=
  union [] arcs

/-! ### The labels of a list -/

theorem mem_labels {label : String} {arcs : List Arc} :
    label ∈ labels arcs ↔ ∃ arc ∈ arcs, arc.label = label := by
  simp [labels]

theorem find?_eq_none_iff {label : String} {arcs : List Arc} :
    find? label arcs = none ↔ label ∉ labels arcs := by
  simp [find?, mem_labels]

@[simp] theorem mem_labels_intersect {label : String} {ours theirs : List Arc} :
    label ∈ labels (intersect ours theirs) ↔ label ∈ labels ours ∧ label ∈ labels theirs := by
  simp only [mem_labels, intersect, List.mem_filter, decide_eq_true_eq]
  grind

@[simp] theorem mem_labels_complement {label : String} {ours theirs : List Arc} :
    label ∈ labels (complement ours theirs) ↔ label ∈ labels ours ∧ label ∉ labels theirs := by
  simp only [mem_labels, complement, List.mem_filter, decide_eq_true_eq]
  grind

@[simp] theorem mem_labels_insertNew {label : String} {arcs : List Arc} {arc : Arc} :
    label ∈ labels (insertNew arcs arc) ↔ label ∈ labels arcs ∨ label = arc.label := by
  grind [insertNew, labels]

@[simp] theorem mem_labels_union {label : String} {arcs extra : List Arc} :
    label ∈ labels (union arcs extra) ↔ label ∈ labels arcs ∨ label ∈ labels extra := by
  induction extra generalizing arcs with
  | nil => simp [union, labels]
  | cons arc rest ih =>
    rw [union, List.foldl_cons, ← union, ih, mem_labels_insertNew]
    simp [labels, or_assoc]

theorem nodup_labels_insertNew {arcs : List Arc} {arc : Arc} (h : (labels arcs).Nodup) :
    (labels (insertNew arcs arc)).Nodup := by
  grind [insertNew, labels]

/-- A union repeats no label, if the list it appends to repeats none. -/
theorem nodup_labels_union {arcs : List Arc} (h : (labels arcs).Nodup) (extra : List Arc) :
    (labels (union arcs extra)).Nodup := by
  induction extra generalizing arcs with
  | nil => exact h
  | cons arc rest ih => exact ih (nodup_labels_insertNew h)

theorem nodup_labels_dedup (arcs : List Arc) : (labels (dedup arcs)).Nodup :=
  nodup_labels_union (by simp [labels]) arcs

/-- What is there already stays, in front. -/
theorem prefix_union (arcs extra : List Arc) : arcs <+: union arcs extra := by
  induction extra generalizing arcs with
  | nil => exact List.prefix_refl arcs
  | cons arc rest ih =>
    refine List.IsPrefix.trans ?_ (ih (insertNew arcs arc))
    unfold insertNew
    split
    · exact List.prefix_refl arcs
    · exact List.prefix_append arcs [arc]

/-- A list without repeated labels is its own union with nothing. -/
theorem dedup_of_nodup {arcs : List Arc} (h : (labels arcs).Nodup) : dedup arcs = arcs := by
  suffices ∀ front, (labels (front ++ arcs)).Nodup → union front arcs = front ++ arcs from
    this [] h
  clear h
  induction arcs with
  | nil => intro front _; simp [union]
  | cons arc rest ih =>
    intro front h
    have hnew : arc.label ∉ labels front := by grind [labels]
    have := ih (front ++ [arc]) (by simpa using h)
    simpa [union, insertNew, hnew] using this

end Arcs

end Ideas
