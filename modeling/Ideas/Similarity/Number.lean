/-
The numbers that scores are made of.

The formulas of the scorer are written once, for any kind of number that has the four
operations, an order and decimal literals.  The program computes in doubles; the
rationals give the same formulas their exact value.
-/

namespace Ideas.Similarity

/-- A kind of number to compute scores in. -/
class Number (α : Type) extends Add α, Sub α, Mul α, Div α, OfScientific α, LT α where
  /-- A count as a number. -/
  ofCount : Nat → α
  /-- The order can be decided. -/
  decLt : DecidableLT α

attribute [reducible, instance] Number.decLt

instance : Number Float where
  ofCount := Float.ofNat
  decLt := inferInstance

instance : Number Rat where
  ofCount n := n
  decLt := inferInstance

/-- The nearest number between zero and one. -/
def clampUnit {α : Type} [Number α] (x : α) : α :=
  if x < 0.0 then 0.0 else if 1.0 < x then 1.0 else x

end Ideas.Similarity
