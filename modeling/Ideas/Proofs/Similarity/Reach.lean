/-
The longest match of each state.

What is entered for a state once all states are settled is told here by the words that lead to
it: the greatest length of one that occurs in the text that was read, and zero if there is
none (`longestMatches_exact`).  A length of zero is never such a greatest one, for the empty word
leads to the root alone.
-/
import Ideas.Proofs.Similarity.CommonWords
import Ideas.Proofs.Similarity.Recognition

namespace Ideas.Similarity.SuffixAutomaton

variable {a : SuffixAutomaton} {word : Nat → List Char} {b t : List Char} {order : List Nat}
  {s : Nat}

/-- The lengths of the words of a state that occur in a text. -/
def matchLengths (a : SuffixAutomaton) (t : List Char) (s : Nat) : Set Nat :=
  {n | ∃ w, a.leads? w = some s ∧ w <:+: t ∧ w.length = n}

theorem size_longestMatchesIn (a : SuffixAutomaton) (order : List Nat) (t : List Char) :
    (a.longestMatchesIn order t).size = a.size := by
  have hsettled (reach : Array Nat) : (order.foldl a.settle reach).size = reach.size := by
    induction order generalizing reach with
    | nil => rfl
    | cons s rest ih => rw [List.foldl_cons, ih, size_settle]
  exact (hsettled _).trans (size_longestVisits a t)

theorem Represents.entry_eq_zero (h : Represents a word b) (horder : LongestFirst a order)
    (hs : s < a.size) (hnone : matchLengths a t s = ∅) :
    entry (a.longestMatchesIn order t) s = 0 := by
  rcases (h.longestMatchesIn horder t).1 s hs with hzero | ⟨w, hw, hwt, hlen⟩
  · exact hzero
  · have hmem : entry (a.longestMatchesIn order t) s ∈ matchLengths a t s :=
      ⟨w, h.leads?_eq_some_iff.mpr ⟨hs, hw⟩, hwt, hlen⟩
    rw [hnone] at hmem
    cases hmem

theorem Represents.isGreatest_entry (h : Represents a word b) (horder : LongestFirst a order)
    (hs : s < a.size) (hroot : s ≠ 0) (hsome : (matchLengths a t s).Nonempty) :
    IsGreatest (matchLengths a t s) (entry (a.longestMatchesIn order t) s) := by
  obtain ⟨sound, hexact⟩ := h.longestMatchesIn horder t
  have hupper : entry (a.longestMatchesIn order t) s ∈ upperBounds (matchLengths a t s) := by
    rintro _ ⟨w, hw, hwt, rfl⟩
    exact hexact s w hs (h.leads?_eq_some_iff.mp hw).2 hwt
  refine ⟨?_, hupper⟩
  rcases sound s hs with hzero | ⟨w, hw, hwt, hlen⟩
  · -- With nothing entered the word that occurs would be empty.
    obtain ⟨_, w, hw, hwt, rfl⟩ := hsome
    have hle := hupper ⟨w, hw, hwt, rfl⟩
    rw [hzero, Nat.le_zero, List.length_eq_zero_iff] at hle
    rw [hle, leads?_nil, Option.some.injEq] at hw
    exact absurd hw.symm hroot
  · exact ⟨w, h.leads?_eq_some_iff.mpr ⟨hs, hw⟩, hwt, hlen⟩

/-- A text is read to its end in one way, and in whichever order states of one length are settled,
what is found for a state is the length of the longest of its words that occurs in the text, and
zero if none of them does. -/
theorem longestMatches_exact {text : List Char} (horder : LongestFirst (build text) order)
    (t : List Char) :
    (∀ visits, Reads (build text) 0 0 t visits ↔ visits = (build text).run 0 0 t) ∧
      ((build text).longestMatchesIn order t).size = (build text).size ∧
      ∀ s, s < (build text).size → s ≠ 0 →
        ∃ n, ((build text).longestMatchesIn order t)[s]? = some n ∧
          (matchLengths (build text) t s = ∅ → n = 0) ∧
          ((matchLengths (build text) t s).Nonempty →
            IsGreatest (matchLengths (build text) t s) n) := by
  obtain ⟨word, h⟩ := exists_represents_build text
  have hsize := size_longestMatchesIn (build text) order t
  refine ⟨fun _ => reads_build_iff, hsize, fun s hs hroot => ?_⟩
  have hentry : ((build text).longestMatchesIn order t)[s]?
      = some (entry ((build text).longestMatchesIn order t) s) := by
    rw [entry, Array.getElem?_eq_getElem (hsize ▸ hs), Option.getD_some]
  exact ⟨_, hentry, h.entry_eq_zero horder hs, h.isGreatest_entry horder hs hroot⟩

/-- Of `bab` the state of `ab` is matched whole, and that of `abb` and `bb` not at all, though
states are settled in the other order. -/
theorem longestMatches_exact_latestFirst :
    LongestFirst (build ['a', 'b', 'b']) (latestFirst (build ['a', 'b', 'b'])) ∧
      (build ['a', 'b', 'b']).longestMatchesIn (latestFirst (build ['a', 'b', 'b']))
        ['b', 'a', 'b'] = #[0, 1, 2, 0, 1] ∧
      IsGreatest (matchLengths (build ['a', 'b', 'b']) ['b', 'a', 'b'] 2) 2 := by
  have horder := longestFirst_latestFirst (build ['a', 'b', 'b'])
  have hreach : (build ['a', 'b', 'b']).longestMatchesIn (latestFirst (build ['a', 'b', 'b']))
      ['b', 'a', 'b'] = #[0, 1, 2, 0, 1] := by cbv
  have hsize : (build ['a', 'b', 'b']).size = 5 := by cbv
  have hleads : (build ['a', 'b', 'b']).leads? ['a', 'b'] = some 2 := by cbv
  obtain ⟨n, hn, -, hgreatest⟩ :=
    (longestMatches_exact horder ['b', 'a', 'b']).2.2 2 (by omega) (by decide)
  rw [hreach] at hn
  cases hn
  exact ⟨horder, hreach, hgreatest ⟨2, ['a', 'b'], hleads, by decide, rfl⟩⟩

end Ideas.Similarity.SuffixAutomaton
