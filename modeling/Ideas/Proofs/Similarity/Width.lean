/-
The sum over common words in numbers of a fixed width.

Natural numbers have no end, their differences stop at zero, and their quotients leave the
remainder out.  So the sum that the states of an automaton make up is formed once more, in
numbers of 128 bits: there an operation has no result if that does not fit (`fit?`), if it
would be below zero (`minus?`) or if something remained (`quotient?`).  For a text of up to
2³² characters all operations have results, and so the sum is what it is meant to be
(`substringSum_fits`).

One state alone adds little, as its words are not longer than the text.  What could grow too
large is the running sum, over up to twice as many states as there are characters.  But each
word belongs to one state only, and a text has no more different words of one length than
it has places where they could begin (`card_commonWords_le`).
-/
import Mathlib
import Ideas.Proofs.Similarity.CommonWords

namespace Ideas.Similarity

open SuffixAutomaton

/-! ### Numbers of a fixed width -/

/-- A number, if it has 128 bits at most. -/
def fit? (n : Nat) : Option Nat :=
  if n < 2 ^ 128 then some n else none

/-- A difference, if it is not below zero. -/
def minus? (m n : Nat) : Option Nat :=
  if n ≤ m then some (m - n) else none

/-- A quotient, if nothing remains. -/
def quotient? (m n : Nat) : Option Nat :=
  if n ∣ m then some (m / n) else none

theorem fit?_of_lt {n : Nat} (h : n < 2 ^ 128) : fit? n = some n :=
  if_pos h

theorem minus?_of_le {m n : Nat} (h : n ≤ m) : minus? m n = some (m - n) :=
  if_pos h

theorem quotient?_of_dvd {m n : Nat} (h : n ∣ m) : quotient? m n = some (m / n) :=
  if_pos h

/-- The sum of the squares from one to `n`, each operation of which must fit. -/
def squareSum? (n : Nat) : Option Nat := do
  let first ← fit? (n * (← fit? (n + 1)))
  let second ← fit? ((← fit? (2 * n)) + 1)
  quotient? (← fit? (first * second)) 6

/-- What a state of the automaton adds, each operation of which must fit. -/
def stateSum? (a : SuffixAutomaton) (reach : Nat) (i : Nat) : Option Nat :=
  match a.link? i with
  | none => some 0
  | some link => do
    let low := max (← fit? (a.len link + 1)) minWordLength
    if low ≤ reach then
      minus? (← squareSum? reach) (← squareSum? (← minus? low 1))
    else some 0

/-- A sum is formed from left to right, and must fit from beginning to end. -/
def sum? (f : Nat → Option Nat) (n : Nat) : Option Nat :=
  (List.range n).foldlM (fun sum i => do fit? (sum + (← f i))) 0

/-- The sum of the squares of the lengths of the words that occur in both texts, each operation of
which must fit. -/
def substringSum? (order : SuffixAutomaton → List Nat) (a b : List Char) : Option Nat :=
  let automaton := SuffixAutomaton.build b
  let reach := automaton.longestMatchesIn (order automaton) a
  sum? (fun i => stateSum? automaton (reach[i]?.getD 0) i) automaton.states.size

/-! ### One state -/

/-- How long a text may be. -/
def maxLength : Nat := 2 ^ 32

theorem squareSum_mono {m n : Nat} (h : m ≤ n) : squareSum m ≤ squareSum n := by
  rw [squareSum, squareSum]
  gcongr

theorem squareSum?_eq {n : Nat} (h : n ≤ maxLength) : squareSum? n = some (squareSum n) := by
  rw [maxLength] at h
  have hfirst : n * (n + 1) ≤ 2 ^ 32 * (2 ^ 32 + 1) := Nat.mul_le_mul h (by omega)
  have hproduct : n * (n + 1) * (2 * n + 1) ≤ 2 ^ 32 * (2 ^ 32 + 1) * (2 ^ 33 + 1) :=
    Nat.mul_le_mul hfirst (by omega)
  have hsix : 6 ∣ n * (n + 1) * (2 * n + 1) := Dvd.intro _ (six_mul_sum_squares n)
  have hwide : 2 ^ 32 * (2 ^ 32 + 1) * (2 ^ 33 + 1) < 2 ^ 128 := by norm_num
  simp only [squareSum?, Option.bind_eq_bind, fit?_of_lt (show n + 1 < 2 ^ 128 by omega),
    fit?_of_lt (show n * (n + 1) < 2 ^ 128 by omega), fit?_of_lt (show 2 * n < 2 ^ 128 by omega),
    fit?_of_lt (show 2 * n + 1 < 2 ^ 128 by omega), fit?_of_lt (hproduct.trans_lt hwide),
    Option.bind_some, quotient?_of_dvd hsix, squareSum]

theorem stateSum?_eq {a : SuffixAutomaton} {reach i : Nat} (hreach : reach ≤ maxLength)
    (hlink : ∀ j, a.link? i = some j → a.len j ≤ maxLength) :
    stateSum? a reach i = some (stateSum a reach i) := by
  rw [stateSum?, stateSum]
  cases hj : a.link? i with
  | none => rfl
  | some j =>
      have hlen := hlink j hj
      rw [maxLength] at hlen
      simp only [Option.bind_eq_bind, fit?_of_lt (show a.len j + 1 < 2 ^ 128 by omega),
        Option.bind_some]
      split
      · next hle =>
          have hlow : 1 ≤ max (a.len j + 1) minWordLength := by omega
          have hbelow : max (a.len j + 1) minWordLength - 1 ≤ reach := by omega
          simp only [minus?_of_le hlow, squareSum?_eq hreach, squareSum?_eq (hbelow.trans hreach),
            Option.bind_some, minus?_of_le (squareSum_mono hbelow)]
      · rfl

/-! ### All states -/

/-- A sum fits from beginning to end if it does so in the end. -/
theorem sum?_eq {f? : Nat → Option Nat} {f : Nat → Nat} {n : Nat}
    (hf : ∀ i, i < n → f? i = some (f i)) (hsum : ∑ i ∈ Finset.range n, f i < 2 ^ 128) :
    sum? f? n = some (∑ i ∈ Finset.range n, f i) := by
  induction n with
  | zero => rfl
  | succ n ih =>
      rw [Finset.sum_range_succ] at hsum ⊢
      have hbefore := ih (fun i hi => hf i (Nat.lt_succ_of_lt hi)) (by omega)
      rw [sum?] at hbefore ⊢
      rw [List.range_succ, List.foldlM_append, hbefore]
      simp only [Option.bind_eq_bind, Option.bind_some, List.foldlM_cons, List.foldlM_nil,
        hf n (Nat.lt_succ_self n), fit?_of_lt hsum, Option.pure_def]

/-- A text has no more different words of one length than it has characters. -/
theorem card_commonWords_le (a b : List Char) (n : Nat) :
    ((commonWords a b).filter fun w => w.length = n).card ≤ b.length := by
  have hsubset : ((commonWords a b).filter fun w => w.length = n)
      ⊆ (Finset.range b.length).image fun start => (b.drop start).take n := by
    intro w hw
    obtain ⟨hcommon, rfl⟩ := Finset.mem_filter.mp hw
    obtain ⟨-, ⟨before, after, rfl⟩, hmin⟩ := mem_commonWords.mp hcommon
    rw [minWordLength] at hmin
    refine Finset.mem_image.mpr ⟨before.length, ?_, ?_⟩
    · rw [Finset.mem_range, List.length_append, List.length_append]
      omega
    · simp
  calc ((commonWords a b).filter fun w => w.length = n).card
      ≤ ((Finset.range b.length).image fun start => (b.drop start).take n).card :=
        Finset.card_le_card hsubset
    _ ≤ (Finset.range b.length).card := Finset.card_image_le
    _ = b.length := Finset.card_range _

theorem sum_commonWords_le (a b : List Char) :
    ∑ w ∈ commonWords a b, w.length * w.length ≤ b.length * squareSum b.length := by
  have hlength : ∀ w ∈ commonWords a b, w.length ∈ Finset.range (b.length + 1) := by
    intro w hw
    exact Finset.mem_range.mpr (Nat.lt_succ_of_le (mem_commonWords.mp hw).2.1.length_le)
  calc ∑ w ∈ commonWords a b, w.length * w.length
      = ∑ n ∈ Finset.range (b.length + 1),
          ∑ w ∈ (commonWords a b).filter fun w => w.length = n, w.length * w.length :=
        (Finset.sum_fiberwise_of_maps_to hlength _).symm
    _ = ∑ n ∈ Finset.range (b.length + 1),
          ((commonWords a b).filter fun w => w.length = n).card * (n * n) := by
        refine Finset.sum_congr rfl fun n _ => ?_
        rw [← smul_eq_mul, ← Finset.sum_const]
        exact Finset.sum_congr rfl fun w hw => by rw [(Finset.mem_filter.mp hw).2]
    _ ≤ ∑ n ∈ Finset.range (b.length + 1), b.length * (n * n) :=
        Finset.sum_le_sum fun n _ => Nat.mul_le_mul_right _ (card_commonWords_le a b n)
    _ = b.length * squareSum b.length := by rw [← Finset.mul_sum, squareSum_eq]

theorem sum_commonWords_lt {a b : List Char} (hb : b.length ≤ maxLength) :
    ∑ w ∈ commonWords a b, w.length * w.length < 2 ^ 128 :=
  calc ∑ w ∈ commonWords a b, w.length * w.length
      ≤ b.length * squareSum b.length := sum_commonWords_le a b
    _ ≤ maxLength * squareSum maxLength := Nat.mul_le_mul hb (squareSum_mono hb)
    _ < 2 ^ 128 := by norm_num [maxLength, squareSum]

/-- For a text of up to 2³² characters the sum is formed without leaving the width of its numbers,
going below zero or dropping a remainder, and is the sum over the words that occur in both. -/
theorem substringSum_fits {order : SuffixAutomaton → List Nat} {a b : List Char}
    (horder : LongestFirst (build b) (order (build b))) (hb : b.length ≤ maxLength) :
    substringSum? order a b = some (substringSumIn order a b) ∧
      substringSumIn order a b = ∑ w ∈ commonWords a b, w.length * w.length ∧
      substringSumIn order a b < 2 ^ 128 := by
  obtain ⟨word, h⟩ := exists_represents_build b
  obtain ⟨sound, -⟩ := h.longestMatchesIn horder a
  have hsum := substringSumIn_eq_sum horder (a := a)
  have hlt : substringSumIn order a b < 2 ^ 128 := hsum ▸ sum_commonWords_lt hb
  have hlen : ∀ i, i < (build b).size → (build b).len i ≤ maxLength := by
    intro i hi
    rw [h.len_eq hi]
    exact (h.full hi).occurs.length_le.trans hb
  refine ⟨?_, hsum, hlt⟩
  rw [substringSumIn, foldl_add_eq_sum] at hlt ⊢
  refine sum?_eq (fun i hi => stateSum?_eq ((sound.entry_le h hi).trans (hlen i hi)) ?_) hlt
  intro j hj
  exact hlen j (h.toLinked.link_lt hi hj).1

theorem substringSum_fits_latestFirst :
    ['a', 'b', 'b'].length ≤ maxLength ∧
      substringSum? latestFirst ['b', 'a', 'b', 'b'] ['a', 'b', 'b'] = some 17 := by
  have hlength : ['a', 'b', 'b'].length ≤ maxLength := by decide
  have hsum : substringSumIn latestFirst ['b', 'a', 'b', 'b'] ['a', 'b', 'b'] = 17 := by cbv
  exact ⟨hlength, hsum ▸ (substringSum_fits (longestFirst_latestFirst _) hlength).1⟩

end Ideas.Similarity
