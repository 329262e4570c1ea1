/-
Lists put in order.

A list is ranked if it holds the items that are to be ranked, each as often as it is there,
the better ones first, and items that are as good as each other in the order in which they
came (`Ranked`).  Sorting does that (`ranked_mergeSort`), and so the candidates of a pool are
ranked (`ranked_rank`).  Where a ranked list is cut, nothing behind the cut is better than what
is before it (`Ranked.atLeast_of_append`).

What is compared has to be comparable, but only where it is there to be compared: of two
relations that agree on the items one ranks them as the other does (`Ranked.congr`).
-/
import Ideas.Discovery
import Mathlib.Order.Lattice

namespace Ideas

variable {α : Type}

/-- Any two items can be compared. -/
structure Comparable (atLeast : α → α → Bool) : Prop where
  trans : ∀ a b c, atLeast a b = true → atLeast b c = true → atLeast a c = true
  total : ∀ a b, (atLeast a b || atLeast b a) = true

/-- Items that have a value each are compared by it. -/
theorem Comparable.on {β : Type} {atLeast : β → β → Bool} (h : Comparable atLeast) (value : α → β) :
    Comparable fun a b => atLeast (value a) (value b) where
  trans _ _ _ := h.trans _ _ _
  total _ _ := h.total _ _

/-- The values of a linear order can be compared. -/
theorem comparable_ge (α : Type) [LinearOrder α] : Comparable fun a b : α => decide (b ≤ a) where
  trans a b c hab hbc := by
    rw [decide_eq_true_eq] at hab hbc ⊢
    exact le_trans hbc hab
  total a b := by
    rw [Bool.or_eq_true, decide_eq_true_eq, decide_eq_true_eq]
    exact le_total b a

/-- A list holds certain items in order: the better ones first, and those that are as good as each
other as they came. -/
structure Ranked (atLeast : α → α → Bool) (items ranked : List α) : Prop where
  perm : ranked.Perm items
  sorted : ranked.Pairwise fun a b => atLeast a b = true
  stable : ∀ a ∈ items, ranked.filter (fun b => atLeast a b && atLeast b a)
    = items.filter fun b => atLeast a b && atLeast b a

section

variable {atLeast other : α → α → Bool} {items ranked : List α}

theorem Ranked.mem_iff (h : Ranked atLeast items ranked) {a : α} : a ∈ ranked ↔ a ∈ items :=
  h.perm.mem_iff

/-- What comes later is not better. -/
theorem Ranked.atLeast_of_append {kept dropped : List α}
    (h : Ranked atLeast items (kept ++ dropped)) {a b : α} (ha : a ∈ kept) (hb : b ∈ dropped) :
    atLeast a b = true :=
  (List.pairwise_append.mp h.sorted).2.2 a ha b hb

/-- It only matters how the items compare with each other. -/
theorem Ranked.congr (h : Ranked atLeast items ranked)
    (hother : ∀ a ∈ items, ∀ b ∈ items, atLeast a b = other a b) : Ranked other items ranked where
  perm := h.perm
  sorted := h.sorted.imp_of_mem fun ha hb hab =>
    (hother _ (h.mem_iff.mp ha) _ (h.mem_iff.mp hb)).symm.trans hab
  stable a ha := by
    have hclass : ∀ b ∈ items, (other a b && other b a) = (atLeast a b && atLeast b a) :=
      fun b hb => by rw [hother a ha b hb, hother b hb a ha]
    rw [List.filter_congr hclass, List.filter_congr fun b hb => hclass b (h.mem_iff.mp hb)]
    exact h.stable a ha

/-- Items that are as good as each other are sorted as they stand, and so they stay in order. -/
theorem ranked_mergeSort (h : Comparable atLeast) (items : List α) :
    Ranked atLeast items (items.mergeSort atLeast) where
  perm := List.mergeSort_perm items atLeast
  sorted := List.pairwise_mergeSort h.trans h.total items
  stable a _ := by
    obtain ⟨alike, halike⟩ : ∃ alike, alike = fun b => atLeast a b && atLeast b a := ⟨_, rfl⟩
    rw [← halike]
    have hsorted : (items.filter alike).Pairwise fun b c => atLeast b c = true := by
      refine List.pairwise_of_forall_mem_list fun b hb c hc => ?_
      have hb := (List.mem_filter.mp hb).2
      have hc := (List.mem_filter.mp hc).2
      rw [halike, Bool.and_eq_true] at hb hc
      exact h.trans b a c hb.2 hc.1
    have hsublist := List.sublist_mergeSort h.trans h.total hsorted List.filter_sublist
    have hkept := hsublist.filter alike
    simp only [List.filter_filter, Bool.and_self] at hkept
    refine (hkept.eq_of_length ?_).symm
    exact ((List.mergeSort_perm items atLeast).filter alike).length_eq.symm

/-- Sorting ranks items that compare like others that can be compared. -/
theorem ranked_mergeSort_of_agree (h : Comparable atLeast)
    (hother : ∀ a ∈ items, ∀ b ∈ items, atLeast a b = other a b) :
    Ranked other items (items.mergeSort other) := by
  have hsame := List.map_mergeSort (f := id) hother
  rw [List.map_id, List.map_id] at hsame
  rw [← hsame]
  exact (ranked_mergeSort h items).congr hother

end

/-! ### The candidates of a pool -/

/-- What is to be found in a pool: all but the target and what is archived, where the strength
admits it. -/
def candidates (strength : Idea → α) (admits : α → Bool) (target : NodeId) (pool : List Idea) :
    List (Candidate α) :=
  (pool.filter fun i => i.id ≠ target ∧ i.archived = false ∧ admits (strength i) = true).map
    fun i => ⟨i.id, strength i⟩

variable {strength : Idea → α} {admits : α → Bool} {atLeast : α → α → Bool} {target : NodeId}
  {pool : List Idea}

theorem mem_candidates {c : Candidate α} : c ∈ candidates strength admits target pool ↔
    ∃ i ∈ pool, i.id ≠ target ∧ i.archived = false ∧ admits (strength i) = true ∧
      c = ⟨i.id, strength i⟩ := by
  simp only [candidates, List.mem_map, List.mem_filter, decide_eq_true_eq]
  constructor
  · rintro ⟨i, ⟨hi, hid, harchived, hadmits⟩, rfl⟩
    exact ⟨i, hi, hid, harchived, hadmits, rfl⟩
  · rintro ⟨i, hi, hid, harchived, hadmits, rfl⟩
    exact ⟨i, ⟨hi, hid, harchived, hadmits⟩, rfl⟩

theorem rank_eq (strength : Idea → α) (admits : α → Bool) (atLeast : α → α → Bool)
    (target : NodeId) (pool : List Idea) : rank strength admits atLeast target pool
      = (candidates strength admits target pool).mergeSort
          fun c d => atLeast c.strength d.strength := by
  rw [rank, candidates, List.filter_map, List.filter_filter]
  congr 2
  refine List.filter_congr fun i _ => ?_
  simp only [Function.comp, Bool.and_comm (admits _), Bool.decide_and, Bool.decide_eq_true,
    Bool.and_assoc]

/-- The candidates are ranked by any strengths that can be compared. -/
theorem ranked_rank (h : Comparable atLeast) (strength : Idea → α) (admits : α → Bool)
    (target : NodeId) (pool : List Idea) :
    Ranked (fun c d => atLeast c.strength d.strength) (candidates strength admits target pool)
      (rank strength admits atLeast target pool) := by
  rw [rank_eq]
  exact ranked_mergeSort (h.on Candidate.strength) _

end Ideas
