/-
How alike two texts are.

Texts are compared by their letters and digits alone, in lower case.  Three tenths of
the score come from the characters that the texts share, each counted as often as
both have it, and seven tenths from the words that occur in both: every common word
of at least two characters counts once, with the square of its length.  That sum is
read off a suffix automaton and may be large, so the score is cut off at one.
-/
import Ideas.Similarity.Number
import Ideas.Similarity.SuffixAutomaton
import Ideas.Text.Lowercase
import Ideas.Text.Word

namespace Ideas.Similarity

/-- The letters and digits of a text, in lower case. -/
def normalized (s : String) : List Char :=
  (Text.lowercase s).toList.filter fun c => Text.isWord c && c != '_'

/-- How many characters of the first text are found in the second, each of which is found once. -/
def matchedCount : List Char → List Char → Nat
  | [], _ => 0
  | c :: rest, other =>
    if c ∈ other then matchedCount rest (other.erase c) + 1 else matchedCount rest other

/-- The sum of the squares from one to `n`. -/
def squareSum (n : Nat) : Nat :=
  n * (n + 1) * (2 * n + 1) / 6

/-- The shortest common word that counts. -/
def minWordLength : Nat := 2

/-- What a state of the automaton adds: the squares of the lengths of its words that occur in the
other text, where `reach` is the longest of them. -/
def stateSum (a : SuffixAutomaton) (reach : Nat) (i : Nat) : Nat :=
  match a.link? i with
  | none => 0
  | some link =>
    let low := max (a.len link + 1) minWordLength
    if low ≤ reach then squareSum reach - squareSum (low - 1) else 0

/-- The sum of the squares of the lengths of the words that occur in both texts, where `order`
lists the states of the automaton of `b` so that longer words come first. -/
def substringSumIn (order : SuffixAutomaton → List Nat) (a b : List Char) : Nat :=
  let automaton := SuffixAutomaton.build b
  let reach := automaton.longestMatchesIn (order automaton) a
  (List.range automaton.states.size).foldl
    (fun sum i => sum + stateSum automaton (reach[i]?.getD 0) i) 0

/-- The sum of the squares of the lengths of the words of at least two characters that occur in
both texts. -/
def substringSum (a b : List Char) : Nat :=
  substringSumIn SuffixAutomaton.longestFirst a b

variable (α : Type) [Number α]

/-- The share of characters that two texts have in common. -/
def charOverlap (a b : List Char) : α :=
  let total := a.length + b.length
  if total = 0 then 0.0
  else 2.0 * Number.ofCount (matchedCount a b) / Number.ofCount total

/-- The sum over common words in relation to the lengths of the texts. -/
def substringScore (a b : List Char) : α :=
  if a.length < minWordLength ∨ b.length < minWordLength then 0.0
  else Number.ofCount (substringSum a b) / (Number.ofCount a.length * Number.ofCount b.length)

/-- How alike two lists of letters and digits are, before the result is cut off. -/
def blend (a b : List Char) : α :=
  0.3 * charOverlap α a b + 0.7 * substringScore α a b

/-- How alike two texts are, from zero to one. -/
def textSimilarity (a b : String) : α :=
  clampUnit (blend α (normalized a) (normalized b))

end Ideas.Similarity
