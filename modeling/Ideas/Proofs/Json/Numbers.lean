/-
The numbers that are written are numbers of JSON.

A decimal is written digit by digit, with zeros put where its point asks for them.  A zero
stands in front of other digits only behind a point, since the digits of a number other
than zero do not begin with one, and the shortest decimal of a double that is not zero is
not zero either: the interval that it is taken from lies above it.
-/
import Ideas.Decimal.Layout
import Ideas.Proofs.Json.Values

namespace Ideas

open Decimal Json

/-! ### Digits -/

theorem isDigits_digitsOf (n : Nat) : IsDigits (digitsOf n) :=
  ⟨digitsOf_ne_nil n, fun _ => isDigit_of_mem_digitsOf⟩

theorem Json.IsDigits.append {digits : List Char} (h : IsDigits digits) {more : List Char}
    (hmore : ∀ c ∈ more, c.isDigit) : IsDigits (digits ++ more) :=
  ⟨List.append_ne_nil_of_left_ne_nil h.1 more, List.forall_mem_append.mpr ⟨h.2, hmore⟩⟩

theorem Json.IsDigits.take {digits : List Char} (h : IsDigits digits) {count : Nat}
    (hcount : count ≠ 0) : IsDigits (digits.take count) :=
  ⟨fun hnil => (List.take_eq_nil_iff.mp hnil).elim hcount h.1,
    fun c hc => h.2 c (List.mem_of_mem_take hc)⟩

theorem Json.IsDigits.drop {digits : List Char} (h : IsDigits digits) {count : Nat}
    (hlength : ¬digits.length ≤ count) : IsDigits (digits.drop count) :=
  ⟨fun hnil => hlength (List.drop_eq_nil_iff.mp hnil),
    fun c hc => h.2 c (List.mem_of_mem_drop hc)⟩

theorem isDigit_of_mem_zeros {count : Nat} {c : Char} (h : c ∈ List.replicate count '0') :
    c.isDigit := by
  rw [List.eq_of_mem_replicate h]
  rfl

/-- The digits of a number other than zero do not begin with one. -/
theorem head?_digitsOf_ne {n : Nat} (h : n ≠ 0) : (digitsOf n).head? ≠ some '0' := by
  induction n using Nat.strongRecOn with
  | ind n ih =>
    rw [digitsOf]
    by_cases hsmall : n < 10
    · have hone : ∀ k < 10, k ≠ 0 → [Nat.digitChar k].head? ≠ some '0' := by decide
      rw [Nat.toDigits_of_lt_base hsmall]
      exact hone n hsmall h
    · have hfront := ih (n / 10) (by omega) (by omega)
      rw [Nat.toDigits_of_base_le (by decide) (by omega), ← digitsOf,
        List.head?_append_of_ne_nil _ (digitsOf_ne_nil _)]
      exact hfront

theorem digitsOf_eq_of_head? {n : Nat} (h : (digitsOf n).head? = some '0') : n = 0 :=
  Classical.not_not.mp fun hn => head?_digitsOf_ne hn h

/-! ### Layout -/

/-- With the point at its place, digits without an idle zero in front are a number. -/
theorem isNumber_positional (style : Style) (negative : Bool) {digits : List Char} {point : Int}
    (hdigits : IsDigits digits) (hleading : digits.head? = some '0' → digits = ['0'] ∧ point ≤ 1) :
    IsNumber ⟨negative, (style.positionalParts digits point).1,
      (style.positionalParts digits point).2, none⟩ := by
  by_cases hpoint : point ≤ 0
  · rw [Style.positionalParts, if_pos hpoint]
    refine ⟨⟨List.cons_ne_nil _ _, fun c hc => ?_⟩, fun _ => rfl, ?_, by simp⟩
    · rw [List.mem_singleton.mp hc]
      rfl
    · rintro _ ⟨⟩
      exact ⟨List.append_ne_nil_of_right_ne_nil _ hdigits.1,
        List.forall_mem_append.mpr ⟨fun _ => isDigit_of_mem_zeros, hdigits.2⟩⟩
  have hcount : point.toNat ≠ 0 := by omega
  by_cases hlength : digits.length ≤ point.toNat
  · have hparts : style.positionalParts digits point
        = (digits ++ List.replicate (point.toNat - digits.length) '0',
          if style.keepFraction then some ['0'] else none) := by
      rw [Style.positionalParts, if_neg hpoint]
      exact if_pos hlength
    rw [hparts]
    refine ⟨hdigits.append fun _ => isDigit_of_mem_zeros, fun hhead => ?_, ?_, by simp⟩
    · rw [List.head?_append_of_ne_nil _ hdigits.1] at hhead
      obtain ⟨rfl, hone⟩ := hleading hhead
      have hcount : point.toNat = 1 := by omega
      rw [hcount]
      rfl
    · intro fraction hfraction
      obtain ⟨-, ⟨⟩⟩ := Option.ite_none_right_eq_some.mp hfraction
      exact isDigits_digitsOf 0
  · have hparts : style.positionalParts digits point
        = (digits.take point.toNat, some (digits.drop point.toNat)) := by
      rw [Style.positionalParts, if_neg hpoint]
      exact if_neg hlength
    rw [hparts]
    refine ⟨hdigits.take hcount, fun hhead => ?_, ?_, by simp⟩
    · rw [List.head?_take, if_neg hcount] at hhead
      obtain ⟨rfl, hone⟩ := hleading hhead
      exact absurd (show ['0'].length ≤ point.toNat by simp; omega) hlength
    · rintro _ ⟨⟩
      exact hdigits.drop hlength

/-- Any decimal is written as a number; of the zeros, those without a power of ten above one. -/
theorem isNumber_numeral (style : Style) (negative : Bool) {d : Scaled}
    (h : d.coefficient = 0 → d.power ≤ 0) : IsNumber (style.numeral negative d) := by
  have hdigits := isDigits_digitsOf d.coefficient
  have hleading : (digitsOf d.coefficient).head? = some '0' →
      digitsOf d.coefficient = ['0'] ∧ (digitsOf d.coefficient).length + d.power ≤ 1 := by
    intro hhead
    have hzero := digitsOf_eq_of_head? hhead
    have hpower := h hzero
    rw [hzero]
    exact ⟨rfl, by show (1 : Int) + d.power ≤ 1; omega⟩
  rw [Style.numeral]
  simp only
  split
  · exact isNumber_positional style negative hdigits hleading
  · refine ⟨hdigits.take Nat.one_ne_zero, fun hhead => ?_, ?_, ?_⟩
    · rw [List.head?_take, if_neg Nat.one_ne_zero] at hhead
      show (digitsOf d.coefficient).take 1 = ['0']
      rw [(hleading hhead).1]
      rfl
    · intro fraction hfraction
      obtain ⟨hlength, ⟨⟩⟩ := Option.ite_none_left_eq_some.mp hfraction
      exact hdigits.drop hlength
    · rintro _ ⟨⟩
      exact isDigits_digitsOf _

/-! ### The shortest decimal -/

theorem low_scale_pos {significand : Nat} (h : significand ≠ 0) (exponent power : Int) :
    0 < ((Interval.of significand exponent).scale power).low := by
  have hpow : ∀ base k : Nat, 0 < base → 0 < Nat.pow base k := fun base k hbase => Nat.pow_pos hbase
  rw [Interval.scale, Interval.of]
  refine Nat.mul_pos (Nat.mul_pos ?_ (hpow 2 _ (by decide))) (hpow 10 _ (by decide))
  split <;> omega

theorem ne_zero_of_contains {i : Interval} (h : 0 < i.low) {n : Nat} (hn : i.contains n) :
    n ≠ 0 := by
  rintro rfl
  simp [Interval.contains] at hn
  omega

theorem ne_zero_of_nearest? {i : Interval} (h : 0 < i.low) {tie : Tie} {n : Nat}
    (hn : i.nearest? tie = some n) : n ≠ 0 := by
  rw [Interval.nearest?.eq_def] at hn
  simp only at hn
  split at hn
  · next hdown _ =>
    have hdown := ne_zero_of_contains h hdown
    grind
  · next hdown _ =>
    cases hn
    exact ne_zero_of_contains h hdown
  · cases hn
    exact Nat.succ_ne_zero _
  · cases hn

theorem coefficient_dropZeros {count : Nat} {d : Scaled} (h : d.coefficient ≠ 0) :
    (d.dropZeros count).coefficient ≠ 0 := by
  induction count generalizing d with
  | zero => exact h
  | succ count ih =>
    rw [Scaled.dropZeros]
    split
    · next hzeros => exact ih (by show d.coefficient / 10 ≠ 0; omega)
    · exact h

/-- The shortest decimal of a double other than zero is not zero. -/
theorem coefficient_shortest (tie : Tie) {significand : Nat} (h : significand ≠ 0)
    (exponent : Int) : (shortest tie significand exponent).coefficient ≠ 0 := by
  rw [shortest]
  refine coefficient_dropZeros ?_
  rcases hfound : List.findSome? _ (List.range 17) with _ | d
  · exact h
  · obtain ⟨digits, -, hgrid⟩ := List.exists_of_findSome?_eq_some hfound
    obtain ⟨n, hn, rfl⟩ := Option.map_eq_some_iff.mp hgrid
    exact ne_zero_of_nearest? (low_scale_pos h _ _) hn

/-- A double is written as a number. -/
theorem isNumber_of_numeral? {style : Style} {x : Float} {n : Numeral}
    (h : style.numeral? x = some n) : IsNumber n := by
  rw [Style.numeral?] at h
  split at h
  · next negative significand exponent _ =>
    obtain rfl := Option.some.inj h
    refine isNumber_numeral style negative fun hzero => ?_
    split at hzero
    · next hsignificand => simp only [if_pos hsignificand, Int.le_refl]
    · next hsignificand =>
      exact absurd hzero (coefficient_shortest style.tie hsignificand exponent)
  · cases h

/-- A double is read as it is written, as far as the text goes. -/
theorem legible_ofFloat (x : Float) : (Json.ofFloat x).Legible := by
  rw [Json.ofFloat]
  intro t ht
  split at ht
  · next n hn =>
    rw [tokens, List.mem_singleton] at ht
    exact ht ▸ isNumber_of_numeral? hn
  · rw [tokens, List.mem_singleton] at ht
    exact ht ▸ trivial

end Ideas
