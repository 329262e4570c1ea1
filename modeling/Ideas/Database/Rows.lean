/-
Tables: rows in their places.

Every row of a table has a place, and the rows stand in the order of their places.  A
new row comes behind all others.  The places that rows get by themselves are counted
from one and have no bound; a row can also be moved by hand to a place of any number up
to a greatest one.  Once a row is at that place there is none behind it, and a new row
gets a place that is drawn: somewhere in the middle, and no row's that is there.

`Rows.toList` are the rows without their places.  The lemmas say of each change what
becomes of that list: in a table in which no row was ever moved, a new row is the last,
and in every table it joins the rows that were there.
-/
import Ideas.Decimal.Integer

namespace Ideas.Database

/-- A place: the number it was given, or where it was drawn, and then by which draw. -/
structure Place where
  number : Int
  drawn : Nat := 0
deriving DecidableEq

namespace Place

/-- The order of places: by their numbers, and drawn ones behind all others of their number. -/
def le (p q : Place) : Bool :=
  p.number < q.number || (p.number = q.number && p.drawn ≤ q.drawn)

/-- The place behind a place. -/
def next : Place → Place
  | ⟨number, 0⟩ => ⟨number + 1, 0⟩
  | ⟨number, drawn + 1⟩ => ⟨number, drawn + 2⟩

/-- The place of the first row. -/
def first : Place := ⟨1, 0⟩

/-- The greatest number of a place. -/
def greatestNumber : Int := Decimal.greatestInt64

/-- Where places are drawn: the middle of the first half of the numbers. -/
def middleNumber : Int := 0x2000000000000000

end Place

/-- A row and its place. -/
structure Placed (ρ : Type) where
  place : Place
  row : ρ

/-- The rows of a table in the order of their places, and whether one was ever moved. -/
structure Rows (ρ : Type) where
  placed : List (Placed ρ) := []
  moved : Bool := false

namespace Rows

variable {ρ : Type}

/-- The rows without their places. -/
def toList (t : Rows ρ) : List ρ :=
  t.placed.map Placed.row

/-- The places of the rows. -/
def places (t : Rows ρ) : List Place :=
  t.placed.map Placed.place

/-- Whether there is no place behind the last row.  Rows do not come this far unless one was
moved. -/
def isFull (t : Rows ρ) : Bool :=
  t.moved && t.places.getLast?.any (·.number = Place.greatestNumber)

/-- The place of the next row that comes behind all others. -/
def nextPlace (t : Rows ρ) : Place :=
  match t.places.getLast? with
  | none => .first
  | some place => place.next

/-- The place of the next row that is drawn. -/
def drawnPlace (t : Rows ρ) : Place :=
  ⟨Place.middleNumber, (t.places.map Place.drawn).foldl max 0 + 1⟩

/-- Put a row behind all others. -/
def push (place : Place) (r : ρ) (t : Rows ρ) : Rows ρ :=
  { t with placed := t.placed ++ [⟨place, r⟩] }

/-- Put a row behind those with smaller places and before those with greater ones. -/
def put (place : Place) (r : ρ) (t : Rows ρ) : Rows ρ :=
  let isBefore := fun (p : Placed ρ) => p.place.le place
  { t with placed := t.placed.takeWhile isBefore ++ ⟨place, r⟩ :: t.placed.dropWhile isBefore }

/-- Take out the rows that fit. -/
def erase (fits : ρ → Bool) (t : Rows ρ) : Rows ρ :=
  { t with placed := t.placed.filter fun p => !fits p.row }

/-- Add a row that takes the part of those that fit.  Its place is found while these are still
there. -/
def replace (fits : ρ → Bool) (r : ρ) (t : Rows ρ) : Rows ρ :=
  if t.isFull then (t.erase fits).put t.drawnPlace r
  else (t.erase fits).push t.nextPlace r

/-- Add a row. -/
def insert (r : ρ) (t : Rows ρ) : Rows ρ :=
  if t.isFull then t.put t.drawnPlace r else t.push t.nextPlace r

/-- Change the rows that fit. -/
def modify (fits : ρ → Bool) (f : ρ → ρ) (t : Rows ρ) : Rows ρ :=
  { t with placed := t.placed.map fun p => if fits p.row then { p with row := f p.row } else p }

/-- Change the rows that fit, unless that fails for one of them. -/
def tryModify {ε : Type} (fits : ρ → Bool) (f : ρ → Except ε ρ) (t : Rows ρ) :
    Except ε (Rows ρ) := do
  let change := fun (p : Placed ρ) =>
    if fits p.row then (f p.row).map fun row => { p with row } else .ok p
  return { t with placed := ← t.placed.mapM change }

/-- Move the rows that fit to a place. -/
def move (fits : ρ → Bool) (place : Place) (t : Rows ρ) : Rows ρ :=
  let placed := t.placed.map fun p => if fits p.row then { p with place } else p
  ⟨placed.mergeSort fun p q => p.place.le q.place, true⟩

/-! ### What becomes of the list of rows -/

theorem isFull_eq_false {t : Rows ρ} (h : t.moved = false) : t.isFull = false := by
  rw [isFull, h, Bool.false_and]

theorem toList_push (place : Place) (r : ρ) (t : Rows ρ) :
    (t.push place r).toList = t.toList ++ [r] := by
  rw [push, toList, List.map_append]
  rfl

theorem toList_erase (fits : ρ → Bool) (t : Rows ρ) :
    (t.erase fits).toList = t.toList.filter (!fits ·) := by
  rw [erase, toList, toList, List.filter_map]
  rfl

theorem toList_modify (fits : ρ → Bool) (f : ρ → ρ) (t : Rows ρ) :
    (t.modify fits f).toList = t.toList.map fun r => if fits r then f r else r := by
  rw [modify, toList, toList, List.map_map, List.map_map]
  refine List.map_congr_left fun p _ => ?_
  rw [Function.comp, Function.comp]
  split <;> rfl

/-- A new row is the last of all. -/
theorem toList_insert {t : Rows ρ} (h : t.moved = false) (r : ρ) :
    (t.insert r).toList = t.toList ++ [r] := by
  rw [insert, isFull_eq_false h, if_neg Bool.false_ne_true, toList_push]

/-- A row that takes the part of others is the last of all. -/
theorem toList_replace {t : Rows ρ} (h : t.moved = false) (fits : ρ → Bool) (r : ρ) :
    (t.replace fits r).toList = t.toList.filter (!fits ·) ++ [r] := by
  rw [replace, isFull_eq_false h, if_neg Bool.false_ne_true, toList_push, toList_erase]

/-- Wherever a row is put, it joins the others, and nothing else changes. -/
theorem toList_put_perm (place : Place) (r : ρ) (t : Rows ρ) :
    (t.put place r).toList.Perm (r :: t.toList) := by
  have hplaced : (t.put place r).placed.Perm (⟨place, r⟩ :: t.placed) := by
    rw [put]
    refine List.perm_middle.trans ?_
    rw [List.takeWhile_append_dropWhile]
  exact hplaced.map Placed.row

/-- A new row joins the others in every table. -/
theorem toList_insert_perm (r : ρ) (t : Rows ρ) : (t.insert r).toList.Perm (r :: t.toList) := by
  rw [insert]
  split
  · exact toList_put_perm ..
  · rw [toList_push]
    exact List.perm_append_singleton ..

/-- A row that takes the part of others joins those that are left in every table. -/
theorem toList_replace_perm (fits : ρ → Bool) (r : ρ) (t : Rows ρ) :
    (t.replace fits r).toList.Perm (r :: t.toList.filter (!fits ·)) := by
  rw [replace, ← toList_erase]
  split
  · exact toList_put_perm ..
  · rw [toList_push]
    exact List.perm_append_singleton ..

/-! ### Only a move moves a row -/

theorem moved_insert (r : ρ) (t : Rows ρ) : (t.insert r).moved = t.moved := by
  rw [insert]
  split <;> rfl

theorem moved_replace (fits : ρ → Bool) (r : ρ) (t : Rows ρ) :
    (t.replace fits r).moved = t.moved := by
  rw [replace]
  split <;> rfl

end Rows

end Ideas.Database
