/-
The sum over the automaton is the sum over the common words.

The words of a state that occur in the other text are suffixes of the state's word, one of
each length above the length of its link and up to its entry, and the sum of the squares of
these lengths is what the state adds (`sum_ownWords`).  Each common word belongs to one
state, so all states together add the square of the length of each common word once
(`sum_commonWords`).

It follows that the sum does not depend on which text the automaton is built for, nor on
how states of one length are ordered.
-/
import Mathlib
import Ideas.Proofs.Similarity.Matching
import Ideas.Similarity.Text

namespace Ideas.Similarity

open SuffixAutomaton

/-- The words of at least two characters that occur in both texts. -/
def commonWords (a b : List Char) : Finset (List Char) :=
  ((a.tails.flatMap List.inits).filter fun w => minWordLength ≤ w.length ∧ w <:+: b).toFinset

theorem mem_commonWords {a b w : List Char} :
    w ∈ commonWords a b ↔ w <:+: a ∧ w <:+: b ∧ minWordLength ≤ w.length := by
  rw [commonWords, List.mem_toFinset, List.mem_filter, List.mem_flatMap, decide_eq_true_iff]
  have hword : (∃ l ∈ a.tails, w ∈ l.inits) ↔ w <:+: a := by
    simp only [List.mem_tails, List.mem_inits]
    rw [List.infix_iff_prefix_suffix]
    exact exists_congr fun l => and_comm
  rw [hword, and_comm (a := minWordLength ≤ w.length)]

theorem commonWords_comm (a b : List Char) : commonWords a b = commonWords b a := by
  ext w
  rw [mem_commonWords, mem_commonWords]
  tauto

/-! ### Sums of squares -/

theorem six_mul_sum_squares (n : Nat) :
    6 * ∑ i ∈ Finset.range (n + 1), i * i = n * (n + 1) * (2 * n + 1) := by
  induction n with
  | zero => rfl
  | succ n ih =>
      rw [Finset.sum_range_succ, Nat.mul_add, ih]
      ring

theorem squareSum_eq (n : Nat) : squareSum n = ∑ i ∈ Finset.range (n + 1), i * i := by
  rw [squareSum, ← six_mul_sum_squares, Nat.mul_div_cancel_left _ (by omega)]

/-- A difference of two such sums is the sum over the numbers between. -/
theorem squareSum_sub {low high : Nat} (hlow : 0 < low) (hle : low ≤ high) :
    squareSum high - squareSum (low - 1) = ∑ i ∈ Finset.Icc low high, i * i := by
  have hsplit := Finset.sum_range_add_sum_Ico (fun i => i * i) (Nat.le_succ_of_le hle)
  have hico : Finset.Ico low (high + 1) = Finset.Icc low high := by
    ext i
    simp
  rw [squareSum_eq, squareSum_eq, Nat.sub_add_cancel hlow, ← hsplit, hico]
  omega

/-! ### The words of a state -/

variable {a : SuffixAutomaton} {word : Nat → List Char} {b t : List Char} {reach : Array Nat}

/-- The lengths that count for a state: above those of its link, and up to its entry. -/
def ownLengths (a : SuffixAutomaton) (reach : Array Nat) (i : Nat) : Finset Nat :=
  match a.link? i with
  | none => ∅
  | some link => Finset.Icc (max (a.len link + 1) minWordLength) (entry reach i)

theorem stateSum_eq (a : SuffixAutomaton) (reach : Array Nat) (i : Nat) :
    stateSum a (entry reach i) i = ∑ n ∈ ownLengths a reach i, n * n := by
  rw [stateSum, ownLengths]
  cases a.link? i with
  | none => rfl
  | some link =>
      dsimp only
      split
      · next hle => exact squareSum_sub (by omega) hle
      · next hgt => rw [Finset.Icc_eq_empty hgt, Finset.sum_empty]

/-- The suffix of a word with a given length. -/
def suffixOf (w : List Char) (n : Nat) : List Char :=
  w.drop (w.length - n)

theorem length_suffixOf {w : List Char} {n : Nat} (h : n ≤ w.length) :
    (suffixOf w n).length = n := by
  rw [suffixOf, List.length_drop]
  omega

theorem suffixOf_suffix (w : List Char) (n : Nat) : suffixOf w n <:+ w :=
  List.drop_suffix _ _

theorem suffixOf_eq {w v : List Char} (h : w <:+ v) : suffixOf v w.length = w :=
  (List.suffix_iff_eq_drop.mp h).symm

/-- The common words that belong to a state. -/
def ownWords (a : SuffixAutomaton) (word : Nat → List Char) (reach : Array Nat) (i : Nat) :
    Finset (List Char) :=
  (ownLengths a reach i).image (suffixOf (word i))

theorem mem_ownLengths {i n : Nat} :
    n ∈ ownLengths a reach i ↔
      ∃ j, a.link? i = some j ∧ a.len j < n ∧ minWordLength ≤ n ∧ n ≤ entry reach i := by
  rw [ownLengths]
  cases a.link? i with
  | none => simp
  | some j =>
      simp only [Finset.mem_Icc, Option.some.injEq, exists_eq_left', Nat.max_le, Nat.succ_le_iff,
        and_assoc]

section

variable (h : Represents a word b) (sound : Sound a word b t reach)
include h sound

theorem le_length_of_mem_ownLengths {i n : Nat} (hi : i < a.size) (hn : n ∈ ownLengths a reach i) :
    n ≤ (word i).length := by
  obtain ⟨_, -, -, -, hle⟩ := mem_ownLengths.mp hn
  rw [← h.len_eq hi]
  exact hle.trans (sound.entry_le h hi)

/-- What a state adds is the sum over its common words. -/
theorem sum_ownWords {i : Nat} (hi : i < a.size) :
    ∑ w ∈ ownWords a word reach i, w.length * w.length = stateSum a (entry reach i) i := by
  rw [stateSum_eq, ownWords, Finset.sum_image]
  · refine Finset.sum_congr rfl fun n hn => ?_
    rw [length_suffixOf (le_length_of_mem_ownLengths h sound hi hn)]
  · intro n hn m hm heq
    have hlen := congrArg List.length heq
    rwa [length_suffixOf (le_length_of_mem_ownLengths h sound hi hn),
      length_suffixOf (le_length_of_mem_ownLengths h sound hi hm)] at hlen

/-- The words of a state that occur in both texts and count. -/
theorem mem_ownWords (hexact : ∀ i w, i < a.size → Same b w (word i) → w <:+: t →
      w.length ≤ entry reach i) {i : Nat} (hi : i < a.size) {w : List Char} :
    w ∈ ownWords a word reach i ↔ Same b w (word i) ∧ w ∈ commonWords t b := by
  rw [ownWords, Finset.mem_image, mem_commonWords]
  constructor
  · rintro ⟨n, hn, rfl⟩
    have hlen := length_suffixOf (le_length_of_mem_ownLengths h sound hi hn)
    obtain ⟨j, hlink, hgt, hmin, hle⟩ := mem_ownLengths.mp hn
    have hsuffix := suffixOf_suffix (word i) n
    have hoccurs : suffixOf (word i) n <:+: b := hsuffix.isInfix.trans (h.full hi).occurs
    obtain ⟨hj, isLink⟩ := h.toLinked.isLink hi hlink
    have hsame := (h.same_iff hi hj isLink).mpr ⟨hsuffix, by rwa [hlen]⟩
    refine ⟨hsame, ?_, hoccurs, by rwa [hlen]⟩
    rcases sound i hi with hzero | ⟨w, hw, hwt, hwlen⟩
    · omega
    · refine (suffix_of_length_le hsuffix ((h.full hi).suffix_of_same hw) ?_).isInfix.trans hwt
      rw [hlen, hwlen]
      exact hle
  · rintro ⟨hsame, hoccurs, -, hmin⟩
    have hsuffix := (h.full hi).suffix_of_same hsame
    refine ⟨w.length, mem_ownLengths.mpr ?_, suffixOf_eq hsuffix⟩
    have hroot : i ≠ 0 := by
      rintro rfl
      rw [h.root, List.suffix_nil] at hsuffix
      rw [hsuffix] at hmin
      cases hmin
    obtain ⟨j, hj, hlink, isLink⟩ := h.link_of hi hroot
    exact ⟨j, hlink, (h.len_lt hi hj isLink hsame).2, hmin, hexact i w hi hsame hoccurs⟩

/-- All states together add up each common word once. -/
theorem sum_commonWords (hexact : ∀ i w, i < a.size → Same b w (word i) → w <:+: t →
      w.length ≤ entry reach i) :
    ∑ i ∈ Finset.range a.size, stateSum a (entry reach i) i
      = ∑ w ∈ commonWords t b, w.length * w.length := by
  have hmem : ∀ {i}, i < a.size → ∀ {w},
      (w ∈ ownWords a word reach i ↔ Same b w (word i) ∧ w ∈ commonWords t b) :=
    fun {_} hi {_} => mem_ownWords h sound hexact hi
  have hunion : commonWords t b = (Finset.range a.size).biUnion (ownWords a word reach) := by
    ext w
    rw [Finset.mem_biUnion]
    constructor
    · intro hw
      obtain ⟨v, hv, hsame⟩ := exists_full (mem_commonWords.mp hw).2.1
      obtain ⟨i, hi, rfl⟩ := h.covers hv
      exact ⟨i, Finset.mem_range.mpr hi, (hmem hi).mpr ⟨hsame, hw⟩⟩
    · rintro ⟨i, hi, hw⟩
      exact ((hmem (Finset.mem_range.mp hi)).mp hw).2
  rw [hunion, Finset.sum_biUnion]
  · exact Finset.sum_congr rfl fun i hi => (sum_ownWords h sound (Finset.mem_range.mp hi)).symm
  · -- No word belongs to two states.
    intro i hi j hj hne
    rw [Finset.mem_coe, Finset.mem_range] at hi hj
    refine Finset.disjoint_left.mpr fun w hwi hwj => hne ?_
    have hsame := ((hmem hi).mp hwi).1.symm.trans ((hmem hj).mp hwj).1
    exact h.inj hi hj ((h.full hi).eq (h.full hj) hsame)

end

/-! ### The sum of the program -/

theorem foldl_add_eq_sum (f : Nat → Nat) (n : Nat) :
    (List.range n).foldl (fun sum i => sum + f i) 0 = ∑ i ∈ Finset.range n, f i := by
  induction n with
  | zero => rfl
  | succ n ih =>
      rw [List.range_succ, List.foldl_append, ih, Finset.sum_range_succ]
      rfl

/-- The sum that is read off the automaton is the sum over the common words. -/
theorem substringSumIn_eq_sum {order : SuffixAutomaton → List Nat} {a b : List Char}
    (horder : LongestFirst (build b) (order (build b))) :
    substringSumIn order a b = ∑ w ∈ commonWords a b, w.length * w.length := by
  obtain ⟨word, h⟩ := exists_represents_build b
  obtain ⟨sound, hexact⟩ := h.longestMatchesIn horder a
  rw [← sum_commonWords h sound hexact]
  exact foldl_add_eq_sum _ _

/-- The sum is that of the squares of the lengths of all words of at least two characters that
occur in both texts, each counted once, in whichever order states of one length are settled.
It is the same if the texts change places. -/
theorem substringSum_exact {order order' : SuffixAutomaton → List Nat} (a b : List Char)
    (horder : LongestFirst (build b) (order (build b)))
    (horder' : LongestFirst (build a) (order' (build a))) :
    substringSumIn order a b = ∑ w ∈ commonWords a b, w.length * w.length ∧
      substringSum a b = ∑ w ∈ commonWords a b, w.length * w.length ∧
      substringSumIn order a b = substringSumIn order' b a ∧
      substringSum a b = substringSum b a := by
  have hdefault : ∀ a b, substringSum a b = ∑ w ∈ commonWords a b, w.length * w.length :=
    fun a b => substringSumIn_eq_sum (longestFirst_longestFirst _)
  refine ⟨substringSumIn_eq_sum horder, hdefault a b, ?_, ?_⟩
  · rw [substringSumIn_eq_sum horder, substringSumIn_eq_sum horder', commonWords_comm]
  · rw [hdefault, hdefault, commonWords_comm]

/-- The states with longer words first, and of those with equally long ones the latest. -/
def latestFirst (a : SuffixAutomaton) : List Nat :=
  ((List.range a.size).drop 1).reverse.mergeSort fun i j => a.len j ≤ a.len i

theorem longestFirst_latestFirst (a : SuffixAutomaton) : LongestFirst a (latestFirst a) :=
  longestFirst_mergeSort (List.reverse_perm _)

/-- Two states of this automaton are settled the other way round. -/
theorem substringSum_exact_latestFirst :
    latestFirst (build ['a', 'b', 'b']) = [3, 2, 4, 1] ∧
      (build ['a', 'b', 'b']).longestFirst = [3, 2, 1, 4] ∧
      substringSumIn latestFirst ['b', 'a', 'b', 'b'] ['a', 'b', 'b'] = 17 ∧
      substringSumIn latestFirst ['b', 'a', 'b', 'b'] ['a', 'b', 'b']
        = substringSumIn longestFirst ['a', 'b', 'b'] ['b', 'a', 'b', 'b'] := by
  have hexact := substringSum_exact ['b', 'a', 'b', 'b'] ['a', 'b', 'b']
    (longestFirst_latestFirst _) (longestFirst_longestFirst _)
  have hsum : ∑ w ∈ commonWords ['b', 'a', 'b', 'b'] ['a', 'b', 'b'], w.length * w.length = 17 := by
    decide +kernel
  exact ⟨by cbv, by cbv, hexact.1.trans hsum, hexact.2.2.1⟩

end Ideas.Similarity
