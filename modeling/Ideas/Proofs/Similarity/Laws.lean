/-
What holds of every score.

The program counts first and divides afterwards.  The counts are those of a common part:
of two multisets of characters, of two sets of words, of two sets of tags.  So none of them
depends on which side is counted from, none exceeds either side, and a side has all of
itself in common with itself.  The formulas carry this over to the parts of a score, and
the weights, which add up to one, to the whole.

Only exact numbers obey such laws, so the formulas are read in the rationals.  Rationals
divide by zero without complaint; that no formula does so is said with `Checked`, where a
division by zero has no result.
-/
import Mathlib
import Ideas.Proofs.Similarity.CommonWords
import Ideas.Similarity.Score

namespace Ideas.Similarity

/-! ### Characters in common -/

/-- Taking each character away as it is found leaves the common part of two multisets. -/
theorem matchedCount_eq_card (a b : List Char) :
    matchedCount a b = ((a : Multiset Char) ∩ (b : Multiset Char)).card := by
  induction a generalizing b with
  | nil => simp [matchedCount]
  | cons c rest ih =>
      rw [matchedCount, ← Multiset.cons_coe]
      split
      · next hc =>
          rw [Multiset.cons_inter_of_pos _ (Multiset.mem_coe.mpr hc), Multiset.card_cons,
            Multiset.coe_erase, ih]
      · next hc => rw [Multiset.cons_inter_of_neg _ (mt Multiset.mem_coe.mp hc), ih]

theorem matchedCount_comm (a b : List Char) : matchedCount a b = matchedCount b a := by
  rw [matchedCount_eq_card, matchedCount_eq_card, Multiset.inter_comm]

theorem matchedCount_le_left (a b : List Char) : matchedCount a b ≤ a.length := by
  rw [matchedCount_eq_card, ← Multiset.coe_card]
  exact Multiset.card_le_card Multiset.inter_le_left

theorem matchedCount_le_right (a b : List Char) : matchedCount a b ≤ b.length := by
  rw [matchedCount_comm]
  exact matchedCount_le_left b a

theorem matchedCount_self (a : List Char) : matchedCount a a = a.length := by
  rw [matchedCount_eq_card, ← Multiset.coe_card]
  exact congrArg Multiset.card (inf_idem (a : Multiset Char))

/-! ### Words in common -/

theorem substringSum_eq_sum (a b : List Char) :
    substringSum a b = ∑ w ∈ commonWords a b, w.length * w.length :=
  substringSumIn_eq_sum (SuffixAutomaton.longestFirst_longestFirst _)

theorem substringSum_comm (a b : List Char) : substringSum a b = substringSum b a := by
  rw [substringSum_eq_sum, substringSum_eq_sum, commonWords_comm]

/-- A text of two characters or more is one of the words it has in common with itself. -/
theorem mul_self_le_substringSum {t : List Char} (h : minWordLength ≤ t.length) :
    t.length * t.length ≤ substringSum t t := by
  rw [substringSum_eq_sum]
  have hmem : t ∈ commonWords t t := mem_commonWords.mpr ⟨t.infix_refl, t.infix_refl, h⟩
  exact Finset.single_le_sum (f := fun w => w.length * w.length) (fun _ _ => Nat.zero_le _) hmem

/-! ### Tags in common -/

theorem nodup_eraseDups : ∀ l : List String, l.eraseDups.Nodup
  | [] => by simp
  | tag :: rest => by
      rw [List.eraseDups_cons, List.nodup_cons]
      exact ⟨by simp, nodup_eraseDups _⟩
termination_by l => l.length
decreasing_by exact Nat.lt_succ_of_le (List.length_filter_le _ _)

theorem length_eraseDups (l : List String) : l.eraseDups.length = l.toFinset.card := by
  rw [← List.toFinset_card_of_nodup (nodup_eraseDups l)]
  congr 1
  ext x
  simp

/-- The number of tags that two lists have in common, each counted once. -/
def commonTags (a b : List String) : Nat :=
  (a.toFinset ∩ b.toFinset).card

theorem length_filter_eraseDups (a b : List String) :
    (a.eraseDups.filter (· ∈ b.eraseDups)).length = commonTags a b := by
  rw [← List.toFinset_card_of_nodup ((nodup_eraseDups a).filter _), commonTags]
  congr 1
  ext x
  simp

theorem commonTags_comm (a b : List String) : commonTags a b = commonTags b a := by
  rw [commonTags, commonTags, Finset.inter_comm]

theorem commonTags_le_left (a b : List String) : commonTags a b ≤ a.toFinset.card :=
  Finset.card_le_card Finset.inter_subset_left

theorem commonTags_le_right (a b : List String) : commonTags a b ≤ b.toFinset.card :=
  Finset.card_le_card Finset.inter_subset_right

theorem commonTags_self (a : List String) : commonTags a a = a.toFinset.card := by
  rw [commonTags, Finset.inter_self]

/-! ### Energies apart -/

theorem energyDistance_comm (a b : UInt8) : energyDistance a b = energyDistance b a := by
  rw [energyDistance, energyDistance, max_comm, min_comm]

theorem energyDistance_self (a : UInt8) : energyDistance a a = 0 := by
  rw [energyDistance, max_self, min_self, Nat.sub_self]

theorem energyDistance_le (a b : UInt8) :
    energyDistance a b ≤ maxEnergy.toNat - minEnergy.toNat := by
  have hlow (e : UInt8) : minEnergy.toNat ≤ (clampEnergy e).toNat := minEnergy_le_clampEnergy e
  have hhigh (e : UInt8) : (clampEnergy e).toNat ≤ maxEnergy.toNat := clampEnergy_le_maxEnergy e
  exact tsub_le_tsub (max_le (hhigh a) (hhigh b)) (le_min (hlow a) (hlow b))

/-! ### Shares

Characters and tags are weighed alike: twice what is common, over what there is on both
sides. -/

/-- Twice the common part over the two sides together, and nothing where both are empty. -/
def share (common left right : Nat) : Rat :=
  if left + right = 0 then 0 else 2 * common / (left + right : Nat)

theorem share_comm (common left right : Nat) :
    share common left right = share common right left := by
  rw [share, share, Nat.add_comm]

theorem share_mem {common left right : Nat} (hleft : common ≤ left) (hright : common ≤ right) :
    share common left right ∈ Set.Icc 0 1 := by
  rw [share]
  split
  · exact ⟨le_rfl, zero_le_one⟩
  · next hpos =>
      have htotal : (0 : Rat) < (left + right : Nat) := by exact_mod_cast Nat.pos_of_ne_zero hpos
      have htwice : (2 * common : Rat) ≤ (left + right : Nat) := by
        exact_mod_cast (by omega : 2 * common ≤ left + right)
      exact ⟨by positivity, (div_le_one htotal).mpr htwice⟩

theorem share_self {n : Nat} (h : n ≠ 0) : share n n n = 1 := by
  have hne : (n : Rat) ≠ 0 := by exact_mod_cast h
  rw [share, if_neg (by omega)]
  push_cast
  field_simp
  norm_num

/-- A side shares no more with another one than with itself. -/
theorem share_le_self {common left right : Nat} (hleft : common ≤ left) (hright : common ≤ right) :
    share common left right ≤ share left left left := by
  rcases eq_or_ne left 0 with rfl | hne
  · obtain rfl := Nat.le_zero.mp hleft
    simp [share]
  · rw [share_self hne]
    exact (share_mem hleft hright).2

/-! ### The formulas over the rationals -/

theorem charOverlap_eq (a b : List Char) :
    charOverlap Rat a b = share (matchedCount a b) a.length b.length := by
  change (if a.length + b.length = 0 then (0.0 : Rat)
    else 2.0 * (matchedCount a b : Rat) / (a.length + b.length : Nat)) = _
  norm_num [share]

theorem tagScore_eq (a b : List String) :
    tagScore Rat a b = share (commonTags a b) a.toFinset.card b.toFinset.card := by
  rw [← length_filter_eraseDups, ← length_eraseDups, ← length_eraseDups]
  change (if a.eraseDups.length + b.eraseDups.length = 0 then (0.0 : Rat)
    else 2.0 * ((a.eraseDups.filter (· ∈ b.eraseDups)).length : Rat)
      / (a.eraseDups.length + b.eraseDups.length : Nat)) = _
  norm_num [share]

theorem energyScore_eq (a b : UInt8) :
    energyScore Rat a b = 1 - (energyDistance a b : Rat) / 4 := by
  change (1.0 : Rat) - (energyDistance a b : Rat) / ((4 : Nat) : Rat) = _
  norm_num

theorem blend_eq (a b : List Char) :
    blend Rat a b = 3 / 10 * charOverlap Rat a b + 7 / 10 * substringScore Rat a b := by
  change (0.3 : Rat) * charOverlap Rat a b + 0.7 * substringScore Rat a b = _
  norm_num

theorem weighted_eq (title content tags energy : Rat) :
    weighted Rat title content tags energy
      = 2 / 5 * title + 3 / 10 * content + 1 / 5 * tags + 1 / 10 * energy := by
  change (0.40 : Rat) * title + 0.30 * content + 0.20 * tags + 0.10 * energy = _
  norm_num

theorem clampUnit_eq (x : Rat) : clampUnit x = if x < 0 then 0 else if 1 < x then 1 else x := by
  change (if x < (0.0 : Rat) then (0.0 : Rat) else if (1.0 : Rat) < x then 1.0 else x) = _
  norm_num

theorem clampUnit_mem (x : Rat) : clampUnit x ∈ Set.Icc 0 1 := by
  rw [clampUnit_eq]
  split
  · exact ⟨le_rfl, zero_le_one⟩
  · split
    · exact ⟨zero_le_one, le_rfl⟩
    · exact ⟨not_lt.mp ‹_›, not_lt.mp ‹_›⟩

theorem clampUnit_of_mem {x : Rat} (h : x ∈ Set.Icc 0 1) : clampUnit x = x := by
  rw [clampUnit_eq, if_neg (not_lt.mpr h.1), if_neg (not_lt.mpr h.2)]

theorem clampUnit_of_one_le {x : Rat} (h : 1 ≤ x) : clampUnit x = 1 := by
  rcases h.eq_or_lt with rfl | h
  · exact clampUnit_of_mem ⟨zero_le_one, le_rfl⟩
  · rw [clampUnit_eq, if_neg (by linarith), if_pos h]

theorem clampUnit_mono {x y : Rat} (h : x ≤ y) : clampUnit x ≤ clampUnit y := by
  rw [clampUnit_eq, clampUnit_eq]
  split_ifs <;> linarith

/-! ### Texts -/

theorem charOverlap_comm (a b : List Char) : charOverlap Rat a b = charOverlap Rat b a := by
  rw [charOverlap_eq, charOverlap_eq, matchedCount_comm, share_comm]

theorem charOverlap_le_self (a b : List Char) : charOverlap Rat a b ≤ charOverlap Rat a a := by
  rw [charOverlap_eq, charOverlap_eq, matchedCount_self]
  exact share_le_self (matchedCount_le_left a b) (matchedCount_le_right a b)

theorem substringScore_of_short {a b : List Char}
    (h : a.length < minWordLength ∨ b.length < minWordLength) : substringScore Rat a b = 0 := by
  rw [substringScore, if_pos h]
  change (0.0 : Rat) = 0
  norm_num

theorem substringScore_of_long {a b : List Char}
    (h : ¬(a.length < minWordLength ∨ b.length < minWordLength)) :
    substringScore Rat a b = (substringSum a b : Rat) / (a.length * b.length) := by
  rw [substringScore, if_neg h]
  rfl

theorem substringScore_comm (a b : List Char) :
    substringScore Rat a b = substringScore Rat b a := by
  by_cases h : a.length < minWordLength ∨ b.length < minWordLength
  · rw [substringScore_of_short h, substringScore_of_short h.symm]
  · rw [substringScore_of_long h, substringScore_of_long (mt Or.symm h), substringSum_comm,
      mul_comm]

theorem one_le_substringScore_self {t : List Char} (h : minWordLength ≤ t.length) :
    1 ≤ substringScore Rat t t := by
  have hpos : (0 : Rat) < t.length := by
    exact_mod_cast (by decide : 0 < minWordLength).trans_le h
  rw [substringScore_of_long (by omega), one_le_div (by positivity)]
  exact_mod_cast mul_self_le_substringSum h

theorem blend_comm (a b : List Char) : blend Rat a b = blend Rat b a := by
  rw [blend_eq, blend_eq, charOverlap_comm, substringScore_comm]

/-- No text is more like a text than that text itself.  Texts too short to have words are compared
by their characters alone; longer ones reach the greatest score there is. -/
theorem clampUnit_blend_le_self (a b : List Char) :
    clampUnit (blend Rat a b) ≤ clampUnit (blend Rat a a) := by
  have hchars := charOverlap_le_self a b
  by_cases hshort : a.length < minWordLength
  · refine clampUnit_mono ?_
    rw [blend_eq, blend_eq, substringScore_of_short (.inl hshort),
      substringScore_of_short (.inl hshort)]
    linarith
  · have hlong := not_lt.mp hshort
    have hself : charOverlap Rat a a = 1 := by
      have hne : a.length ≠ 0 := ((by decide : 0 < minWordLength).trans_le hlong).ne'
      rw [charOverlap_eq, matchedCount_self, share_self hne]
    have hwords := one_le_substringScore_self hlong
    rw [clampUnit_of_one_le (x := blend Rat a a) (by rw [blend_eq]; linarith)]
    exact (clampUnit_mem _).2

/-- The words of a text may add up to more than the square of its length. -/
example : blend Rat ['a', 'b', 'c'] ['a', 'b', 'c'] = 73 / 45 := by cbv

theorem textSimilarity_comm (a b : String) : textSimilarity Rat a b = textSimilarity Rat b a :=
  congrArg clampUnit (blend_comm _ _)

theorem textSimilarity_mem (a b : String) : textSimilarity Rat a b ∈ Set.Icc 0 1 :=
  clampUnit_mem _

theorem textSimilarity_le_self (a b : String) :
    textSimilarity Rat a b ≤ textSimilarity Rat a a :=
  clampUnit_blend_le_self _ _

/-! ### Ideas -/

theorem contentScore_comm (a b : Option String) : contentScore Rat a b = contentScore Rat b a := by
  match a, b with
  | some a, some b => exact textSimilarity_comm a b
  | none, none | none, some _ | some _, none => rfl

theorem contentScore_mem (a b : Option String) : contentScore Rat a b ∈ Set.Icc 0 1 := by
  have hzero : (0.0 : Rat) ∈ Set.Icc (0 : Rat) 1 := by norm_num
  cases a with
  | none => exact hzero
  | some a =>
      cases b with
      | none => exact hzero
      | some b => exact textSimilarity_mem a b

theorem contentScore_le_self (a b : Option String) :
    contentScore Rat a b ≤ contentScore Rat a a := by
  cases a with
  | none => exact le_rfl
  | some a =>
      cases b with
      | none =>
          have hzero : contentScore Rat (some a) none = 0 := by
            change (0.0 : Rat) = 0
            norm_num
          rw [hzero]
          exact (contentScore_mem _ _).1
      | some b => exact textSimilarity_le_self a b

theorem tagScore_comm (a b : List String) : tagScore Rat a b = tagScore Rat b a := by
  rw [tagScore_eq, tagScore_eq, commonTags_comm, share_comm]

theorem tagScore_mem (a b : List String) : tagScore Rat a b ∈ Set.Icc 0 1 := by
  rw [tagScore_eq]
  exact share_mem (commonTags_le_left a b) (commonTags_le_right a b)

theorem tagScore_le_self (a b : List String) : tagScore Rat a b ≤ tagScore Rat a a := by
  rw [tagScore_eq, tagScore_eq, commonTags_self]
  exact share_le_self (commonTags_le_left a b) (commonTags_le_right a b)

theorem energyScore_comm (a b : UInt8) : energyScore Rat a b = energyScore Rat b a := by
  rw [energyScore_eq, energyScore_eq, energyDistance_comm]

theorem energyScore_mem (a b : UInt8) : energyScore Rat a b ∈ Set.Icc 0 1 := by
  have hfar : (energyDistance a b : Rat) ≤ 4 := by exact_mod_cast energyDistance_le a b
  have hnear : (0 : Rat) ≤ energyDistance a b := by positivity
  rw [energyScore_eq]
  constructor <;> linarith

theorem energyScore_le_self (a b : UInt8) : energyScore Rat a b ≤ energyScore Rat a a := by
  have hself : energyScore Rat a a = 1 := by
    rw [energyScore_eq, energyDistance_self]
    norm_num
  rw [hself]
  exact (energyScore_mem a b).2

/-- The weights add up to one. -/
theorem weighted_mem {title content tags energy : Rat} (htitle : title ∈ Set.Icc 0 1)
    (hcontent : content ∈ Set.Icc 0 1) (htags : tags ∈ Set.Icc 0 1)
    (henergy : energy ∈ Set.Icc 0 1) : weighted Rat title content tags energy ∈ Set.Icc 0 1 := by
  obtain ⟨htitle, htitle'⟩ := htitle
  obtain ⟨hcontent, hcontent'⟩ := hcontent
  obtain ⟨htags, htags'⟩ := htags
  obtain ⟨henergy, henergy'⟩ := henergy
  rw [weighted_eq]
  constructor <;> linarith

theorem weighted_mono {title content tags energy title' content' tags' energy' : Rat}
    (htitle : title ≤ title') (hcontent : content ≤ content') (htags : tags ≤ tags')
    (henergy : energy ≤ energy') :
    weighted Rat title content tags energy ≤ weighted Rat title' content' tags' energy' := by
  rw [weighted_eq, weighted_eq]
  linarith

/-! ### No division by zero -/

/-- A rational, or the want of one after a division by zero. -/
structure Checked where
  value? : Option Rat

namespace Checked

/-- The result for two numbers, if both are there. -/
def both (f : Rat → Rat → Option Rat) (x y : Checked) : Checked :=
  ⟨x.value?.bind fun x => y.value?.bind (f x)⟩

instance : Number Checked where
  add := both fun x y => some (x + y)
  sub := both fun x y => some (x - y)
  mul := both fun x y => some (x * y)
  div := both fun x y => if y = 0 then none else some (x / y)
  ofScientific mantissa sign exponent := ⟨some (OfScientific.ofScientific mantissa sign exponent)⟩
  lt x y := ∃ p ∈ x.value?, ∃ q ∈ y.value?, p < q
  ofCount n := ⟨some n⟩
  decLt x y :=
    match x, y with
    | ⟨some p⟩, ⟨some q⟩ => decidable_of_iff (p < q) (by simp)
    | ⟨none⟩, _ => isFalse (by simp)
    | _, ⟨none⟩ => isFalse (by simp)

/-- A number that is there. -/
def exact (x : Rat) : Checked :=
  ⟨some x⟩

theorem exact_div {x y : Rat} (h : y ≠ 0) : exact x / exact y = exact (x / y) :=
  congrArg Checked.mk (if_neg h)

theorem clampUnit_exact (x : Rat) : clampUnit (exact x) = exact (clampUnit x) := by
  have hlt (p q : Rat) : exact p < exact q ↔ p < q := by
    change (∃ p' ∈ some p, ∃ q' ∈ some q, p' < q') ↔ p < q
    simp
  change (if exact x < exact 0.0 then exact 0.0 else if exact 1.0 < exact x then exact 1.0
    else exact x) = exact (if x < 0.0 then 0.0 else if 1.0 < x then 1.0 else x)
  simp only [hlt, apply_ite exact]

end Checked

/-- A score all of whose parts are there. -/
def Breakdown.exact (v : Breakdown Rat) : Breakdown Checked where
  title := .exact v.title
  content := .exact v.content
  tags := .exact v.tags
  energy := .exact v.energy
  total := .exact v.total

theorem ofCount_ne_zero {n : Nat} (h : n ≠ 0) : (Number.ofCount n : Rat) ≠ 0 := by
  change (n : Rat) ≠ 0
  exact_mod_cast h

theorem charOverlap_checked (a b : List Char) :
    charOverlap Checked a b = .exact (charOverlap Rat a b) := by
  rw [charOverlap, charOverlap, apply_ite Checked.exact]
  split
  · rfl
  · next hpos => exact Checked.exact_div (ofCount_ne_zero hpos)

theorem substringScore_checked (a b : List Char) :
    substringScore Checked a b = .exact (substringScore Rat a b) := by
  rw [substringScore, substringScore, apply_ite Checked.exact]
  split
  · rfl
  · next hlong =>
      simp only [minWordLength, not_or, not_lt] at hlong
      exact Checked.exact_div
        (mul_ne_zero (ofCount_ne_zero (by omega)) (ofCount_ne_zero (by omega)))

theorem textSimilarity_checked (a b : String) :
    textSimilarity Checked a b = .exact (textSimilarity Rat a b) := by
  rw [textSimilarity, textSimilarity, ← Checked.clampUnit_exact, blend, blend, charOverlap_checked,
    substringScore_checked]
  rfl

theorem contentScore_checked (a b : Option String) :
    contentScore Checked a b = .exact (contentScore Rat a b) := by
  match a, b with
  | some a, some b => exact textSimilarity_checked a b
  | none, none | none, some _ | some _, none => rfl

theorem tagScore_checked (a b : List String) :
    tagScore Checked a b = .exact (tagScore Rat a b) := by
  rw [tagScore, tagScore, apply_ite Checked.exact]
  split
  · rfl
  · next hpos => exact Checked.exact_div (ofCount_ne_zero hpos)

theorem energyScore_checked (a b : UInt8) :
    energyScore Checked a b = .exact (energyScore Rat a b) := by
  rw [energyScore, energyScore]
  exact congrArg (fun x : Checked => 1.0 - x) (Checked.exact_div (ofCount_ne_zero (by decide)))

/-- None of the divisions that make up a score is by zero. -/
theorem breakdown_checked (a b : Idea) : breakdown Checked a b = (breakdown Rat a b).exact := by
  simp only [breakdown, Breakdown.exact, textSimilarity_checked, contentScore_checked,
    tagScore_checked, energyScore_checked, ← Checked.clampUnit_exact]
  rfl

/-! ### The laws -/

/-- How alike two ideas are is found without dividing by zero, part by part and as a whole between
zero and one even before the whole is cut off, and whichever comes first; and nothing is more like
an idea than it is itself.  For the last, a text shares all its characters with itself, and words
enough to make up for the square of its length. -/
theorem scorer_laws (a b : Idea) :
    breakdown Checked a b = (breakdown Rat a b).exact ∧
      (let v := breakdown Rat a b
       ∀ x ∈ [v.title, v.content, v.tags, v.energy,
         weighted Rat v.title v.content v.tags v.energy], x ∈ Set.Icc 0 1) ∧
      breakdown Rat a b = breakdown Rat b a ∧
      score Rat a b ≤ score Rat a a ∧
      ∀ t : List Char, minWordLength ≤ t.length →
        matchedCount t t = t.length ∧ t.length * t.length ≤ substringSum t t := by
  have htitle := textSimilarity_mem a.title b.title
  have hcontent := contentScore_mem a.content b.content
  have htags := tagScore_mem a.tags b.tags
  have henergy := energyScore_mem a.energy b.energy
  refine ⟨breakdown_checked a b, ?_, ?_, ?_, fun t ht =>
    ⟨matchedCount_self t, mul_self_le_substringSum ht⟩⟩
  · intro v x hx
    simp only [List.mem_cons, List.not_mem_nil, or_false] at hx
    rcases hx with rfl | rfl | rfl | rfl | rfl
    · exact htitle
    · exact hcontent
    · exact htags
    · exact henergy
    · exact weighted_mem htitle hcontent htags henergy
  · simp only [breakdown, textSimilarity_comm a.title, contentScore_comm a.content,
      tagScore_comm a.tags, energyScore_comm a.energy]
  · exact clampUnit_mono (weighted_mono (textSimilarity_le_self _ _) (contentScore_le_self _ _)
      (tagScore_le_self _ _) (energyScore_le_self _ _))

end Ideas.Similarity
