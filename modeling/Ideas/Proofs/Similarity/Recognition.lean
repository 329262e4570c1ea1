/-
The automaton recognizes the words of its text.

A word leads from the root to the state that it belongs to, if the ways of its characters are
taken one after the other.  On an automaton that represents a text this is the state whose
own word is the same (`Represents.leads?_eq_some_iff`), and everything else is read off from
that: which words lead anywhere, which of them lead to one state, and that these are suffixes
of one word, cut off at the length that the link tells.

How many states there are is counted apart from what they mean.  A character adds one state
or two, and the first one has nothing to split.
-/
import Ideas.Proofs.Similarity.Loops

namespace Ideas.Similarity.SuffixAutomaton

variable {a : SuffixAutomaton} {word : Nat → List Char} {p w v : List Char} {c : Char} {s : Nat}

/-! ### Where words lead -/

/-- The state that a word leads to from the root. -/
def leads? (a : SuffixAutomaton) (w : List Char) : Option Nat :=
  w.foldlM a.next? 0

@[simp] theorem leads?_nil (a : SuffixAutomaton) : a.leads? [] = some 0 := rfl

theorem leads?_concat (a : SuffixAutomaton) (w : List Char) (c : Char) :
    a.leads? (w ++ [c]) = (a.leads? w).bind (a.next? · c) := by
  rw [leads?, List.foldlM_append]
  cases h : w.foldlM a.next? 0 <;> simp [leads?, h]

/-- A word leads to the state whose own word is the same. -/
theorem Represents.leads?_eq_some_iff (h : Represents a word p) :
    a.leads? w = some s ↔ s < a.size ∧ Same p w (word s) := by
  induction w using List.reverseRecOn generalizing s with
  | nil =>
      rw [leads?_nil, Option.some.injEq]
      constructor
      · rintro rfl
        rw [h.root]
        exact ⟨h.size_pos, fun _ _ => Iff.rfl⟩
      · rintro ⟨hs, hsame⟩
        exact h.inj h.size_pos hs (h.root.trans (full_nil.eq (h.full hs) hsame))
  | append_singleton w c ih =>
      rw [leads?_concat, Option.bind_eq_some_iff]
      constructor
      · rintro ⟨i, hi, hnext⟩
        obtain ⟨hlt, hsame⟩ := ih.mp hi
        obtain ⟨hs, hway⟩ := h.next_sound hlt hnext
        exact ⟨hs, (hsame.snoc c).trans hway⟩
      · rintro ⟨hs, hsame⟩
        -- The word without its last character occurs too, so it leads to a state.
        obtain ⟨u, hu, hwu⟩ := exists_full (infix_of_concat (hsame.symm.occurs (h.full hs).occurs))
        obtain ⟨i, hi, rfl⟩ := h.covers hu
        have hgoes : Same p (word i ++ [c]) (word s) := (hwu.snoc c).symm.trans hsame
        obtain ⟨j, hj⟩ := h.next_complete hi (hgoes.symm.occurs (h.full hs).occurs)
        obtain ⟨hlt, hway⟩ := h.next_sound hi hj
        refine ⟨i, ih.mpr ⟨hi, hwu⟩, ?_⟩
        rw [hj, h.inj hlt hs ((h.full hlt).eq (h.full hs) (hway.symm.trans hgoes))]

theorem Represents.exists_leads?_iff (h : Represents a word p) :
    (∃ s, a.leads? w = some s) ↔ w <:+: p := by
  constructor
  · rintro ⟨s, hs⟩
    obtain ⟨hlt, hsame⟩ := h.leads?_eq_some_iff.mp hs
    exact hsame.symm.occurs (h.full hlt).occurs
  · intro hw
    obtain ⟨u, hu, hsame⟩ := exists_full hw
    obtain ⟨s, hs, rfl⟩ := h.covers hu
    exact ⟨s, h.leads?_eq_some_iff.mpr ⟨hs, hsame⟩⟩

/-! ### What is recognized -/

/-- The automaton recognizes the words of a text. -/
structure Recognizes (a : SuffixAutomaton) (p : List Char) : Prop where
  /-- A word leads to a state if and only if it occurs in the text. -/
  leads_iff : ∀ w, (∃ s, a.leads? w = some s) ↔ w <:+: p
  /-- The root has no link, and no word but the empty one. -/
  root : a.link? 0 = none ∧ ∀ w, a.leads? w = some 0 ↔ w = []
  /-- Each other state links to one of shorter words, and its words are the suffixes of one word
  that are longer than those. -/
  words : ∀ s, s < a.size → s ≠ 0 → ∃ link longest,
    a.link? s = some link ∧ link < a.size ∧ a.len link < a.len s ∧
      longest.length = a.len s ∧
      ∀ w, a.leads? w = some s ↔
        w <:+ longest ∧ a.len link < w.length ∧ w.length ≤ a.len s
  /-- Each word of the text belongs to one state. -/
  belongs : ∀ w, w <:+: p → ∃! s, s < a.size ∧ a.leads? w = some s
  /-- The words of a state are those that end at the same places of the text as any of them. -/
  places : ∀ w v s, a.leads? w = some s → (a.leads? v = some s ↔ Same p w v)

theorem Represents.recognizes (h : Represents a word p) : Recognizes a p where
  leads_iff _ := h.exists_leads?_iff
  root := by
    refine ⟨h.link_root, fun w => ⟨fun hw => ?_, ?_⟩⟩
    · have hsame := (h.leads?_eq_some_iff.mp hw).2
      rw [h.root] at hsame
      exact List.suffix_nil.mp (full_nil.suffix_of_same hsame)
    · rintro rfl
      rfl
  words s hs hroot := by
    obtain ⟨link, hlink, heq, isLink⟩ := h.link_of hs hroot
    refine ⟨link, word s, heq, hlink, (h.link_lt hs heq).2, (h.len_eq hs).symm, fun w => ?_⟩
    rw [h.leads?_eq_some_iff, h.same_iff hs hlink isLink, h.len_eq hs]
    constructor
    · rintro ⟨-, hsuffix, hlonger⟩
      exact ⟨hsuffix, hlonger, hsuffix.length_le⟩
    · rintro ⟨hsuffix, hlonger, -⟩
      exact ⟨hs, hsuffix, hlonger⟩
  belongs w hw := by
    obtain ⟨s, hs⟩ := h.exists_leads?_iff.mpr hw
    refine ⟨s, ⟨(h.leads?_eq_some_iff.mp hs).1, hs⟩, fun s' hs' => ?_⟩
    exact Option.some.inj (hs'.2.symm.trans hs)
  places w v s hw := by
    obtain ⟨hs, hsame⟩ := h.leads?_eq_some_iff.mp hw
    rw [h.leads?_eq_some_iff]
    constructor
    · rintro ⟨-, hsame'⟩
      exact hsame.trans hsame'.symm
    · intro hwv
      exact ⟨hs, hwv.symm.trans hsame⟩

/-! ### How many states there are -/

theorem size_extend_le (a : SuffixAutomaton) (last : Nat) (c : Char) :
    (a.extend last c).1.size ≤ a.size + 2 := by
  rcases hclimb : a.climb (fun i => (a.next? i c).isSome) last with ⟨passed, top⟩
  rw [extend_eq hclimb]
  split
  · simp
  · split <;> simp

theorem size_extendAll_le (rest : List Char) : ∀ (a : SuffixAutomaton) (last : Nat),
    (a.extendAll last rest).size ≤ a.size + 2 * rest.length := by
  induction rest with
  | nil => exact fun _ _ => Nat.le_refl _
  | cons c rest ih =>
      intro a last
      have hfirst := size_extend_le a last c
      have hrest := ih (a.extend last c).1 (a.extend last c).2
      rw [extendAll, List.length_cons]
      dsimp only
      omega

/-- From the root alone the first character does not lead on, so nothing is split. -/
theorem size_extend_empty (c : Char) : (empty.extend 0 c).1.size = 2 := by
  have hclimb : empty.climb (fun i => (empty.next? i c).isSome) 0 = ([0], none) := by
    rw [climb]
    rfl
  rw [extend_eq hclimb]
  rfl

theorem size_build_le (text : List Char) :
    (build text).size ≤ max (text.length + 1) (2 * text.length) := by
  cases text with
  | nil => exact Nat.le_refl _
  | cons c rest =>
      have hfirst := size_extend_empty c
      have hrest := size_extendAll_le rest (empty.extend 0 c).1 (empty.extend 0 c).2
      rw [build, extendAll, List.length_cons]
      dsimp only
      omega

/-- The construction ends, for each text with one automaton.  It has at most twice as many states as
the text has characters, or the root alone, and recognizes the words of the text. -/
theorem recognizes_build (text : List Char) :
    (∀ a, Builds empty 0 text a ↔ a = build text) ∧
      (build text).size ≤ max (text.length + 1) (2 * text.length) ∧
      Recognizes (build text) text := by
  obtain ⟨word, h⟩ := exists_represents_build text
  exact ⟨fun _ => builds_iff, size_build_le text, h.recognizes⟩

end Ideas.Similarity.SuffixAutomaton
