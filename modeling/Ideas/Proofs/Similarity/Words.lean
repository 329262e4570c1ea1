/-
Words and the places of a text where they end.

A place of a text is told by the part of the text before it, which is a prefix of the
text; a word ends there if it is a suffix of that prefix.  Two words are the `Same` in a
text if they end at the same places.  Of two such words one is a suffix of the other, and
a word is `Full` if no longer one ends where it ends: each word that occurs is the same as
exactly one full word (`exists_full`, `Full.eq`).

What one more character does to all this hangs on a single word, the longest suffix of
the new text that occurred in the old one (`Matched`).  It is the only word besides the
new text itself that can become full (`full_snoc_iff`): the words up to it now also end at
the end of the text, and the longer ones that were the same do not.
-/
import Mathlib.Data.List.Infix

namespace Ideas.Similarity

variable {α : Type} {p t w v u z : List α} {c d : α}

/-- The two words end at the same places of the text. -/
def Same (p w v : List α) : Prop :=
  ∀ l, l <+: p → (w <:+ l ↔ v <:+ l)

/-- The word occurs in the text, and is the longest that ends at those places. -/
structure Full (p v : List α) : Prop where
  occurs : v <:+: p
  longest : ∀ u, v <:+ u → Same p v u → u = v

/-- The longest suffix of `t` that occurs in the text. -/
structure Matched (p t z : List α) : Prop where
  suffix : z <:+ t
  occurs : z <:+: p
  longest : ∀ u, u <:+ t → u <:+: p → u <:+ z

/-! ### Suffixes of one word -/

theorem suffix_of_length_le (hw : w <:+ t) (hv : v <:+ t) (h : w.length ≤ v.length) : w <:+ v :=
  List.suffix_of_suffix_length_le hw hv h

theorem suffix_antisymm (h : w <:+ v) (h' : v <:+ w) : w = v :=
  h.eq_of_length (Nat.le_antisymm h.length_le h'.length_le)

theorem suffix_concat_iff : w ++ [c] <:+ t ++ [d] ↔ w <:+ t ∧ c = d := by
  constructor
  · rintro ⟨s, hs⟩
    rw [← List.append_assoc] at hs
    obtain ⟨hst, hcd⟩ := List.append_inj' hs rfl
    exact ⟨⟨s, hst⟩, List.singleton_inj.mp hcd⟩
  · rintro ⟨⟨s, rfl⟩, rfl⟩
    exact ⟨s, by simp⟩

theorem prefix_of_concat (h : t ++ [c] <+: p ++ [d]) : t <+: p := by
  rcases List.prefix_concat_iff.mp h with heq | hprefix
  · rw [(List.append_inj' heq rfl).1]
  · exact (List.prefix_append t [c]).trans hprefix

theorem infix_of_prefix_of_suffix {l : List α} (hw : w <:+ l) (hl : l <+: p) : w <:+: p :=
  List.infix_iff_suffix_prefix.mpr ⟨l, hw, hl⟩

theorem infix_of_concat (h : w ++ [c] <:+: p) : w <:+: p :=
  (List.prefix_append w [c]).isInfix.trans h

/-- A word of a text with one more character occurs in the text, or is a suffix of the whole. -/
theorem infix_snoc_iff : w <:+: p ++ [c] ↔ w <:+: p ∨ w <:+ p ++ [c] := by
  constructor
  · intro h
    obtain ⟨l, hsuffix, hprefix⟩ := List.infix_iff_suffix_prefix.mp h
    rcases List.prefix_concat_iff.mp hprefix with rfl | hprefix
    · exact Or.inr hsuffix
    · exact Or.inl (infix_of_prefix_of_suffix hsuffix hprefix)
  · rintro (h | h)
    · exact h.trans (List.prefix_append p [c]).isInfix
    · exact h.isInfix

/-! ### Words that end at the same places -/

theorem Same.symm (h : Same p w v) : Same p v w :=
  fun l hl => (h l hl).symm

theorem Same.trans (h : Same p w v) (h' : Same p v u) : Same p w u :=
  fun l hl => (h l hl).trans (h' l hl)

theorem Same.occurs (h : Same p w v) (hw : w <:+: p) : v <:+: p := by
  obtain ⟨l, hsuffix, hprefix⟩ := List.infix_iff_suffix_prefix.mp hw
  exact infix_of_prefix_of_suffix ((h l hprefix).mp hsuffix) hprefix

/-- What lies between two words that are the same is the same as they are. -/
theorem Same.between (h : Same p w v) (hwu : w <:+ u) (huv : u <:+ v) : Same p w u :=
  fun l hl => ⟨fun hw => huv.trans ((h l hl).mp hw), fun hu => hwu.trans hu⟩

theorem Same.snoc_text (h : Same p w v) (hend : w <:+ p ++ [c] ↔ v <:+ p ++ [c]) :
    Same (p ++ [c]) w v := by
  intro l hl
  rcases List.prefix_concat_iff.mp hl with rfl | hl
  · exact hend
  · exact h l hl

theorem Same.of_snoc_text (h : Same (p ++ [c]) w v) : Same p w v :=
  fun l hl => h l (hl.trans (List.prefix_append p [c]))

theorem Same.suffix_text (h : Same p w v) (hw : w <:+ p) : v <:+ p :=
  (h p (List.prefix_refl p)).mp hw

/-- Words that are the same stay so if the same character follows on both. -/
theorem Same.snoc_snoc (h : Same p w v) (c d : α) : Same (p ++ [d]) (w ++ [c]) (v ++ [c]) := by
  intro l hl
  rcases List.eq_nil_or_concat l with rfl | ⟨l, e, rfl⟩
  · simp
  · rw [List.concat_eq_append] at hl ⊢
    rw [suffix_concat_iff, suffix_concat_iff, h l (prefix_of_concat hl)]

theorem Same.snoc (h : Same p w v) (c : α) : Same p (w ++ [c]) (v ++ [c]) :=
  (h.snoc_snoc c c).of_snoc_text

/-! ### Full words -/

/-- Of words that are the same and occur, the shorter is a suffix of the longer. -/
theorem Same.suffix (h : Same p w v) (hw : w <:+: p) (hle : w.length ≤ v.length) : w <:+ v := by
  obtain ⟨l, hsuffix, hprefix⟩ := List.infix_iff_suffix_prefix.mp hw
  exact suffix_of_length_le hsuffix ((h l hprefix).mp hsuffix) hle

theorem Full.suffix_of_same (hv : Full p v) (h : Same p w v) : w <:+ v := by
  rcases Nat.le_total w.length v.length with hle | hle
  · exact h.suffix (h.symm.occurs hv.occurs) hle
  · rw [hv.longest w (h.symm.suffix hv.occurs hle) h.symm]

/-- There is one full word among those that are the same. -/
theorem Full.eq (hu : Full p u) (hv : Full p v) (h : Same p u v) : u = v :=
  suffix_antisymm (hv.suffix_of_same h) (hu.suffix_of_same h.symm)

/-- Each word that occurs is the same as a full one. -/
theorem exists_full (hw : w <:+: p) : ∃ v, Full p v ∧ Same p w v := by
  -- Among the words that are the same as `w` there is a longest.
  suffices ∀ n v, Same p w v → p.length = v.length + n → ∃ v, Full p v ∧ Same p w v by
    exact this (p.length - w.length) w (fun _ _ => Iff.rfl) (by have := hw.length_le; omega)
  intro n
  induction n using Nat.strong_induction_on with
  | _ n ih =>
      intro v h hlen
      by_cases hv : ∃ u, v <:+ u ∧ Same p v u ∧ u ≠ v
      · obtain ⟨u, hvu, hsame, hne⟩ := hv
        have hle := ((h.trans hsame).occurs hw).length_le
        have hlt : v.length < u.length := by
          rcases Nat.lt_or_ge v.length u.length with hlt | hge
          · exact hlt
          · exact absurd (hvu.eq_of_length_le hge).symm hne
        exact ih (p.length - u.length) (by omega) u (h.trans hsame) (by omega)
      · refine ⟨v, ⟨h.occurs hw, fun u hvu hsame => ?_⟩, h⟩
        by_contra hne
        exact hv ⟨u, hvu, hsame, hne⟩

theorem full_nil : Full p [] := by
  refine ⟨List.nil_infix, fun u _ h => ?_⟩
  exact List.suffix_nil.mp ((h [] List.nil_prefix).mp (List.suffix_refl []))

theorem full_text : Full p p :=
  ⟨List.infix_refl p, fun _ hu h => (suffix_antisymm hu (h.suffix_text (List.suffix_refl p))).symm⟩

/-- A word that occurs, and one that is the same as a suffix of it, are nested; if the first is the
inner one, it is the same as well. -/
theorem Same.nested (h : Same p w v) (hw : w <:+ z) (hz : z <:+: p) :
    v <:+ z ∨ z <:+ v ∧ Same p z v := by
  obtain ⟨l, hsuffix, hprefix⟩ := List.infix_iff_suffix_prefix.mp hz
  have hvl : v <:+ l := (h l hprefix).mp (hw.trans hsuffix)
  rcases Nat.le_total v.length z.length with hle | hle
  · exact Or.inl (suffix_of_length_le hvl hsuffix hle)
  · have hzv := suffix_of_length_le hsuffix hvl hle
    exact Or.inr ⟨hzv, (h.between hw hzv).symm.trans h⟩

/-- What is the same as a suffix of a full word is a suffix of it. -/
theorem Full.suffix_of_suffix (hz : Full p z) (hv : Full p v) (h : Same p w v) (hw : w <:+ z) :
    v <:+ z := by
  rcases h.nested hw hz.occurs with hvz | ⟨-, hzv⟩
  · exact hvz
  · rw [hz.eq hv hzv]

/-- The longest full word that is a proper suffix of `v`. -/
structure IsLink (p v u : List α) : Prop where
  full : Full p u
  suffix : u <:+ v
  ne : u ≠ v
  longest : ∀ w, Full p w → w <:+ v → w ≠ v → w <:+ u

theorem IsLink.length_lt (h : IsLink p v u) : u.length < v.length := by
  rcases Nat.lt_or_ge u.length v.length with hlt | hge
  · exact hlt
  · exact absurd (h.suffix.eq_of_length_le hge) h.ne

/-- A full word that is a proper suffix of `v` is a suffix of each word that is the same as `v`. -/
theorem Full.suffix_of_ne (hv : Full p v) (hu : Full p u) (huv : u <:+ v) (hne : u ≠ v)
    (h : Same p z v) : u <:+ z := by
  have hzv := hv.suffix_of_same h
  rcases Nat.le_total u.length z.length with hle | hle
  · exact suffix_of_length_le huv hzv hle
  · have hzu := suffix_of_length_le hzv huv hle
    exact absurd (hu.eq hv ((h.between hzu huv).symm.trans h)) hne

/-! ### One more character -/

theorem Matched.snoc {y : List α} (hy : y <:+ t) (hc : y ++ [c] <:+: p)
    (hlongest : ∀ u, u <:+ t → u ++ [c] <:+: p → u <:+ y) : Matched p (t ++ [c]) (y ++ [c]) := by
  refine ⟨suffix_concat_iff.mpr ⟨hy, rfl⟩, hc, fun u hu hoccurs => ?_⟩
  rcases List.eq_nil_or_concat u with rfl | ⟨u, e, rfl⟩
  · exact List.nil_suffix
  · rw [List.concat_eq_append] at hu hoccurs ⊢
    obtain ⟨hut, rfl⟩ := suffix_concat_iff.mp hu
    exact suffix_concat_iff.mpr ⟨hlongest u hut hoccurs, rfl⟩

theorem matched_nil_snoc (h : ∀ u, u <:+ t → ¬ u ++ [c] <:+: p) : Matched p (t ++ [c]) [] := by
  refine ⟨List.nil_suffix, List.nil_infix, fun u hu hoccurs => ?_⟩
  rcases List.eq_nil_or_concat u with rfl | ⟨u, e, rfl⟩
  · exact List.suffix_refl _
  · rw [List.concat_eq_append] at hu hoccurs
    obtain ⟨hut, rfl⟩ := suffix_concat_iff.mp hu
    exact absurd hoccurs (h u hut)

/-- A suffix that goes on with a character is part of a full word that does, among the suffixes of
the one that the matched word is the same as. -/
theorem Matched.exists_full (h : Matched p t z) (hv : Full p v) (hsame : Same p z v)
    (hu : u <:+ t) (hc : u ++ [c] <:+: p) :
    ∃ w, Full p w ∧ w <:+ v ∧ w ++ [c] <:+: p ∧ u <:+ w := by
  obtain ⟨w, hw, huw⟩ := Similarity.exists_full (infix_of_concat hc)
  have huv : u <:+ v := (h.longest u hu (infix_of_concat hc)).trans (hv.suffix_of_same hsame)
  exact ⟨w, hw, hv.suffix_of_suffix hw huw huv, (huw.snoc c).occurs hc, hw.suffix_of_same huw⟩

/-- The new text did not occur before. -/
theorem not_infix_snoc : ¬ p ++ [c] <:+: p := by
  intro h
  have hle := h.length_le
  rw [List.length_append, List.length_singleton] at hle
  omega

/-- A suffix of the new text that did not occur before is the same as all of it. -/
theorem same_snoc (hnew : ¬ w <:+: p) (hw : w <:+ p ++ [c]) : Same (p ++ [c]) w (p ++ [c]) := by
  intro l hl
  rcases List.prefix_concat_iff.mp hl with rfl | hl
  · exact ⟨fun _ => List.suffix_refl _, fun _ => hw⟩
  · refine ⟨fun h => absurd (infix_of_prefix_of_suffix h hl) hnew, fun h => ?_⟩
    exact absurd (infix_of_prefix_of_suffix h hl) not_infix_snoc

variable (hz : Matched p (p ++ [c]) z)
include hz

/-- Words stay the same if those up to the matched one have their longest there too. -/
theorem Matched.same (hv : Full p v) (h : Same p w v) (hkeep : w <:+ z → v <:+ z) :
    Same (p ++ [c]) w v := by
  refine h.snoc_text ⟨fun hw => ?_, fun hend => (hv.suffix_of_same h).trans hend⟩
  exact (hkeep (hz.longest w hw (h.symm.occurs hv.occurs))).trans hz.suffix

theorem Matched.full : Full (p ++ [c]) z := by
  refine ⟨hz.suffix.isInfix, fun u hzu h => ?_⟩
  have hend : u <:+ p ++ [c] := h.suffix_text hz.suffix
  exact suffix_antisymm (hz.longest u hend (h.of_snoc_text.occurs hz.occurs)) hzu

/-- The full words of the new text are the old ones, the text itself, and the matched word. -/
theorem full_snoc_iff : Full (p ++ [c]) u ↔ Full p u ∨ u = p ++ [c] ∨ u = z := by
  constructor
  · intro hu
    by_cases hend : u <:+ p ++ [c]
    · by_cases hold : u <:+: p
      · have huz := hz.longest u hend hold
        by_cases heq : u = z
        · exact Or.inr (Or.inr heq)
        refine Or.inl ⟨hold, fun v huv h => ?_⟩
        -- A longer word that is the same ends at the end as well, or the matched word is the same.
        obtain ⟨l, hzl, hl⟩ := List.infix_iff_suffix_prefix.mp hz.occurs
        have hvl : v <:+ l := (h l hl).mp (huz.trans hzl)
        rcases Nat.le_total v.length z.length with hle | hle
        · have hvend := (suffix_of_length_le hvl hzl hle).trans hz.suffix
          exact hu.longest v huv (h.snoc_text ⟨fun _ => hvend, fun _ => hend⟩)
        · have hsame := h.between huz (suffix_of_length_le hzl hvl hle)
          have hend' := hsame.snoc_text (c := c) ⟨fun _ => hz.suffix, fun _ => hend⟩
          exact absurd (hu.longest z huz hend').symm heq
      · exact Or.inr (Or.inl (hu.longest _ hend (same_snoc hold hend)).symm)
    · have hold : u <:+: p := (infix_snoc_iff.mp hu.occurs).resolve_right hend
      refine Or.inl ⟨hold, fun v huv h => hu.longest v huv (h.snoc_text ?_)⟩
      exact ⟨fun hw => absurd hw hend, fun hv => absurd (huv.trans hv) hend⟩
  · rintro (hu | rfl | rfl)
    · exact ⟨infix_snoc_iff.mpr (Or.inl hu.occurs), fun v huv h => hu.longest v huv h.of_snoc_text⟩
    · exact full_text
    · exact hz.full

theorem Full.snoc (hu : Full p u) : Full (p ++ [c]) u :=
  (full_snoc_iff hz).mpr (Or.inl hu)

/-! ### Links after one more character -/

/-- The full words of the new text that are suffixes of an old word are old ones, or the matched
word. -/
theorem full_of_suffix (hu : Full (p ++ [c]) u) (hv : v <:+: p) (huv : u <:+ v) :
    Full p u ∨ u = z := by
  rcases (full_snoc_iff hz).mp hu with hold | rfl | hnew
  · exact Or.inl hold
  · exact absurd (huv.isInfix.trans hv) not_infix_snoc
  · exact Or.inr hnew

/-- The new text links to the matched word. -/
theorem Matched.isLink : IsLink (p ++ [c]) (p ++ [c]) z := by
  refine ⟨hz.full, hz.suffix, ?_, fun w hw hsuffix hne => ?_⟩
  · rintro rfl
    exact not_infix_snoc hz.occurs
  · rcases (full_snoc_iff hz).mp hw with hold | heq | rfl
    · exact hz.longest w hsuffix hold.occurs
    · exact absurd heq hne
    · exact List.suffix_refl w

/-- An old link stays, unless the matched word comes between. -/
theorem IsLink.snoc (h : IsLink p v u) (hv : Full p v) (hkeep : z <:+ v → z ≠ v → z <:+ u) :
    IsLink (p ++ [c]) v u := by
  refine ⟨h.full.snoc hz, h.suffix, h.ne, fun w hw hsuffix hne => ?_⟩
  rcases full_of_suffix hz hw hv.occurs hsuffix with hold | rfl
  · exact h.longest w hold hsuffix hne
  · exact hkeep hsuffix hne

/-- The full word that the matched word was the same as now links to it. -/
theorem Matched.isLink_of_same (hv : Full p v) (h : Same p z v) (hne : z ≠ v) :
    IsLink (p ++ [c]) v z := by
  refine ⟨hz.full, hv.suffix_of_same h, hne, fun w hw hsuffix hwv => ?_⟩
  rcases full_of_suffix hz hw hv.occurs hsuffix with hold | rfl
  · exact hv.suffix_of_ne hold hsuffix hwv h
  · exact List.suffix_refl w

/-- The matched word takes over its link. -/
theorem IsLink.matched (h : IsLink p v u) (hv : Full p v) (hsame : Same p z v) (hne : z ≠ v) :
    IsLink (p ++ [c]) z u := by
  have hzv := hv.suffix_of_same hsame
  refine ⟨h.full.snoc hz, hv.suffix_of_ne h.full h.suffix h.ne hsame, ?_, ?_⟩
  · rintro rfl
    exact hne (h.full.eq hv hsame)
  · intro w hw hsuffix hwz
    rcases full_of_suffix hz hw hz.occurs hsuffix with hold | heq
    · refine h.longest w hold (hsuffix.trans hzv) ?_
      rintro rfl
      exact hwz (suffix_antisymm hsuffix hzv)
    · exact absurd heq hwz

end Ideas.Similarity
