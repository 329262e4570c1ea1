/-
What a second text matches of the automaton's text.

The automaton is run over a text `t`.  After each character it is in the state of the
longest suffix read that occurs in its own text, and knows the length of that suffix
(`Represents.advance`, `Represents.mem_run`).  So the longest match that ends at a place of
`t` is seen when the place is passed, but the shorter ones are not.  They are recovered
along the links: where any word of a state occurs in `t`, so do all words of the states
that its link leads to.

Two facts make this exact.  What is entered for a state is always the length of one of its
words that occurs in `t` (`Sound`).  And a state that is settled has passed its link on;
since a link leads to shorter words, it is still to be settled at that moment, whichever
way states of one length are ordered (`settled_of_foldl`).
-/
import Ideas.Proofs.Similarity.Construction

namespace Ideas.Similarity.SuffixAutomaton

variable {a : SuffixAutomaton} {word : Nat → List Char} {b t : List Char}

/-! ### Running a text over the automaton -/

/-- The automaton has read `t`: it is in the state of the longest suffix that occurs in `b`, which
has the length `len`. -/
def HasRead (a : SuffixAutomaton) (word : Nat → List Char) (b t : List Char) (state len : Nat) :
    Prop :=
  ∃ z, Matched b t z ∧ state < a.size ∧ Same b z (word state) ∧ len = z.length

theorem Represents.hasRead_nil (h : Represents a word b) : HasRead a word b [] 0 0 := by
  refine ⟨[], ⟨List.suffix_refl _, List.nil_infix, fun _ hu _ => hu⟩, h.size_pos, ?_, rfl⟩
  rw [h.root]
  exact fun _ _ => Iff.rfl

/-- Whether a climb for a character stops at a state: at the root, or where the character leads
on. -/
def stops (a : SuffixAutomaton) (c : Char) (i : Nat) : Bool :=
  i = 0 || (a.next? i c).isSome

theorem stops_iff {c : Char} {i : Nat} :
    a.stops c i = true ↔ i = 0 ∨ (a.next? i c).isSome = true := by
  rw [stops, Bool.or_eq_true, decide_eq_true_iff]

theorem Represents.stops_mono (h : Represents a word b) {c : Char} {j k : Nat} (hj : j < a.size)
    (hk : k < a.size) (hsuffix : word k <:+ word j) (hstop : a.stops c j = true) :
    a.stops c k = true := by
  rw [stops_iff] at hstop ⊢
  rcases hstop with rfl | hnext
  · rw [h.root] at hsuffix
    exact Or.inl (h.inj hk hj ((List.suffix_nil.mp hsuffix).trans h.root.symm))
  · exact Or.inr (h.stop_mono hj hk hsuffix hnext)

/-- Where the climb for a character ends, with the longest suffix that belongs to that state. -/
theorem Represents.climb_read (h : Represents a word b) {state len : Nat} {c : Char}
    (hread : HasRead a word b t state len) :
    ∃ passed k y, a.climb (a.stops c) state = (passed, some k) ∧ k < a.size ∧
      a.stops c k = true ∧ y <:+ t ∧ Same b y (word k) ∧
      (if passed.isEmpty then len else a.len k) = y.length ∧
      ∀ u, u <:+ t → u ++ [c] <:+: b → u <:+ y := by
  obtain ⟨z, hz, hstate, hsame, rfl⟩ := hread
  have climbed := h.climbed hstate fun j k hj hk _ hsuffix => h.stops_mono (c := c) hj hk hsuffix
  rcases hclimb : a.climb (a.stops c) state with ⟨passed, top⟩
  rw [hclimb] at climbed
  cases top with
  | none =>
      -- The climb stops at the root at the latest.
      have hroot := climbed.top_none rfl 0 h.size_pos (by rw [h.root]; exact List.nil_suffix)
      cases hroot
  | some k =>
      obtain ⟨hk, hsuffix, hstop, hlongest⟩ := climbed.top_some rfl
      cases passed with
      | nil =>
          have hself : a.stops c state = true := by
            by_contra hnot
            have hmem := (climbed.mem_passed state).mpr
              ⟨hstate, List.suffix_refl _, Bool.not_eq_true _ ▸ hnot⟩
            cases hmem
          have hword := suffix_antisymm (hlongest state hstate (List.suffix_refl _) hself) hsuffix
          refine ⟨[], k, z, rfl, hk, hstop, hz.suffix, hword ▸ hsame, rfl, fun u hu hc => ?_⟩
          exact hz.longest u hu (infix_of_concat hc)
      | cons j rest =>
          obtain ⟨hj, hjsuffix, hjnot⟩ := (climbed.mem_passed j).mp List.mem_cons_self
          have hne : word k ≠ word state := by
            intro heq
            have hjstop := h.stops_mono hk hj (heq ▸ hjsuffix) hstop
            rw [hjnot] at hjstop
            cases hjstop
          have hkz := (h.full hstate).suffix_of_ne (h.full hk) hsuffix hne hsame
          refine ⟨j :: rest, k, word k, rfl, hk, hstop, hkz.trans hz.suffix, fun _ _ => Iff.rfl,
            h.len_eq hk, fun u hu hc => ?_⟩
          obtain ⟨w, hw, hwstate, hwc, huw⟩ := hz.exists_full (h.full hstate) hsame hu hc
          obtain ⟨i, hi, rfl⟩ := h.covers hw
          exact huw.trans
            (hlongest i hi hwstate (stops_iff.mpr (Or.inr ((h.next_isSome hi).mpr hwc))))

/-- Where a character leads once the climb for it has ended. -/
theorem advance_eq {state len : Nat} {c : Char} {passed : List Nat} {top : Option Nat}
    (hclimb : a.climb (a.stops c) state = (passed, top)) :
    a.advance state len c
      = (a.next? (top.getD 0) c).elim (top.getD 0, 0) fun next =>
          (next, (if passed.isEmpty then len else a.len (top.getD 0)) + 1) := by
  rw [advance, show (fun i => decide (i = 0) || (a.next? i c).isSome) = a.stops c from rfl, hclimb]
  dsimp only
  cases a.next? (top.getD 0) c <;> rfl

/-- One character more is read. -/
theorem Represents.advance (h : Represents a word b) {state len : Nat} (c : Char)
    (hread : HasRead a word b t state len) :
    HasRead a word b (t ++ [c]) (a.advance state len c).1 (a.advance state len c).2 := by
  obtain ⟨passed, k, y, hclimb, hk, hstop, hy, hsame, hlen, hlongest⟩ := h.climb_read (c := c) hread
  rw [advance_eq hclimb, Option.getD_some, hlen]
  cases hnext : a.next? k c with
  | some next =>
      obtain ⟨hlt, hway⟩ := h.next_sound hk hnext
      have hyc : Same b (y ++ [c]) (word next) := (hsame.snoc c).trans hway
      rw [Option.elim_some]
      refine ⟨y ++ [c], Matched.snoc hy (hyc.symm.occurs (h.full hlt).occurs) hlongest, hlt, hyc, ?_⟩
      rw [List.length_append, List.length_singleton]
  | none =>
      -- Only the root stops the climb without a way, and its word is empty.
      rw [stops_iff, hnext] at hstop
      obtain rfl : k = 0 := hstop.resolve_right Bool.false_ne_true
      rw [Option.elim_none]
      refine ⟨[], matched_nil_snoc fun u hu hc => ?_, hk, ?_, rfl⟩
      · have hynil : y = [] := by
          rw [h.root] at hsame
          exact List.suffix_nil.mp (full_nil.suffix_of_same hsame)
        have hunil := hlongest u hu hc
        rw [hynil, List.suffix_nil] at hunil
        subst hunil
        have hoccurs : word 0 ++ [c] <:+: b := by
          rw [h.root]
          exact hc
        obtain ⟨j, hj⟩ := h.next_complete hk hoccurs
        cases hnext.symm.trans hj
      · rw [h.root]
        exact fun _ _ => Iff.rfl

/-- What is run through is read. -/
theorem Represents.hasRead_of_mem_run (h : Represents a word b) (rest : List Char) :
    ∀ {t : List Char} {state len : Nat}, HasRead a word b t state len →
      ∀ x ∈ a.run state len rest, ∃ r, r <+: t ++ rest ∧ HasRead a word b r x.1 x.2 := by
  induction rest with
  | nil => intro t state len _ x hx; cases hx
  | cons c rest ih =>
      intro t state len hread x hx
      have hnext := h.advance c hread
      rw [run] at hx
      rw [← List.singleton_append, ← List.append_assoc]
      rcases List.mem_cons.mp hx with rfl | hx
      · exact ⟨t ++ [c], List.prefix_append _ _, hnext⟩
      · exact ih hnext x hx

/-- What was read is run through, for each part of the text. -/
theorem Represents.exists_mem_run (h : Represents a word b) (rest : List Char) :
    ∀ {t : List Char} {state len : Nat}, HasRead a word b t state len →
      ∀ r, r <+: rest → r ≠ [] →
        ∃ x ∈ a.run state len rest, HasRead a word b (t ++ r) x.1 x.2 := by
  induction rest with
  | nil => intro t state len _ r hr hne; exact absurd (List.prefix_nil.mp hr) hne
  | cons c rest ih =>
      intro t state len hread r hr hne
      have hnext := h.advance c hread
      rw [run]
      rcases List.prefix_cons_iff.mp hr with rfl | ⟨r, rfl, hrest⟩
      · exact absurd rfl hne
      rw [← List.singleton_append, ← List.append_assoc]
      by_cases hr0 : r = []
      · rw [hr0, List.append_nil]
        exact ⟨_, List.mem_cons_self, hnext⟩
      · obtain ⟨x, hx, hread'⟩ := ih hnext r hrest hr0
        exact ⟨x, List.mem_cons_of_mem _ hx, hread'⟩

/-! ### What is entered for a state -/

/-- The entry of a state. -/
def entry (reach : Array Nat) (i : Nat) : Nat :=
  reach[i]?.getD 0

theorem size_raise (reach : Array Nat) (i value : Nat) : (raise reach i value).size = reach.size :=
  Array.size_modify

theorem entry_raise {reach : Array Nat} {i : Nat} (hi : i < reach.size) (value j : Nat) :
    entry (raise reach i value) j = if j = i then max value (entry reach i) else entry reach j := by
  rw [entry, raise, Array.getElem?_modify, entry, entry]
  by_cases hj : i = j
  · subst hj
    rw [if_pos rfl, if_pos rfl, Array.getElem?_eq_getElem hi]
    rfl
  · rw [if_neg hj, if_neg (Ne.symm hj)]

/-- Each entry is the length of a word of its state that occurs in `t`, or zero. -/
def Sound (a : SuffixAutomaton) (word : Nat → List Char) (b t : List Char) (reach : Array Nat) :
    Prop :=
  ∀ i, i < a.size → entry reach i = 0 ∨
    ∃ w, Same b w (word i) ∧ w <:+: t ∧ w.length = entry reach i

theorem Sound.raise {reach : Array Nat} (h : Sound a word b t reach) {i : Nat}
    (hi : i < reach.size) {value : Nat}
    (hvalue : value = 0 ∨ ∃ w, Same b w (word i) ∧ w <:+: t ∧ w.length = value) :
    Sound a word b t (raise reach i value) := by
  intro j hj
  rw [entry_raise hi]
  split
  · next hji =>
      subst hji
      rcases Nat.le_total value (entry reach j) with hle | hle
      · rw [Nat.max_eq_right hle]
        exact h j hj
      · rw [Nat.max_eq_left hle]
        exact hvalue
  · exact h j hj

theorem Sound.entry_le (h : Represents a word b) {reach : Array Nat}
    (sound : Sound a word b t reach) {i : Nat} (hi : i < a.size) : entry reach i ≤ a.len i := by
  rcases sound i hi with hzero | ⟨w, hw, -, hlen⟩
  · omega
  · rw [← hlen, h.len_eq hi]
    exact ((h.full hi).suffix_of_same hw).length_le

/-- Raise the entries of the states visited. -/
def raiseAll (visits : List (Nat × Nat)) (reach : Array Nat) : Array Nat :=
  visits.foldl (fun reach (state, len) => raise reach state len) reach

theorem raiseAll_cons (x : Nat × Nat) (rest : List (Nat × Nat)) (reach : Array Nat) :
    raiseAll (x :: rest) reach = raiseAll rest (raise reach x.1 x.2) :=
  rfl

theorem size_raiseAll (visits : List (Nat × Nat)) (reach : Array Nat) :
    (raiseAll visits reach).size = reach.size := by
  induction visits generalizing reach with
  | nil => rfl
  | cons x rest ih => rw [raiseAll_cons, ih, size_raise]

theorem Sound.raiseAll (visits : List (Nat × Nat)) : ∀ {reach : Array Nat},
    Sound a word b t reach → (∀ x ∈ visits, x.1 < reach.size ∧
      ∃ w, Same b w (word x.1) ∧ w <:+: t ∧ w.length = x.2) →
        Sound a word b t (raiseAll visits reach) := by
  induction visits with
  | nil => exact fun h _ => h
  | cons x rest ih =>
      intro reach h hvisits
      rw [raiseAll_cons]
      obtain ⟨hx, hword⟩ := hvisits x List.mem_cons_self
      refine ih (h.raise hx (Or.inr hword)) fun y hy => ?_
      rw [size_raise]
      exact hvisits y (List.mem_cons_of_mem _ hy)

theorem le_entry_raise {reach : Array Nat} {i : Nat} (hi : i < reach.size) (value j : Nat) :
    entry reach j ≤ entry (raise reach i value) j := by
  rw [entry_raise hi]
  split
  · next hj =>
      rw [hj]
      exact Nat.le_max_right _ _
  · exact Nat.le_refl _

theorem le_entry_raiseAll (visits : List (Nat × Nat)) : ∀ {reach : Array Nat},
    (∀ x ∈ visits, x.1 < reach.size) → ∀ j, entry reach j ≤ entry (raiseAll visits reach) j := by
  induction visits with
  | nil => exact fun _ _ => Nat.le_refl _
  | cons x rest ih =>
      intro reach hvisits j
      rw [raiseAll_cons]
      refine (le_entry_raise (hvisits x List.mem_cons_self) x.2 j).trans (ih (fun y hy => ?_) j)
      rw [size_raise]
      exact hvisits y (List.mem_cons_of_mem _ hy)

/-- No visit is longer than the entry of its state. -/
theorem le_entry_of_mem (visits : List (Nat × Nat)) : ∀ {reach : Array Nat},
    (∀ x ∈ visits, x.1 < reach.size) →
      ∀ x ∈ visits, x.2 ≤ entry (raiseAll visits reach) x.1 := by
  induction visits with
  | nil => intro reach _ x hx; cases hx
  | cons y rest ih =>
      intro reach hvisits x hx
      have hrest : ∀ x ∈ rest, x.1 < (raise reach y.1 y.2).size := by
        intro z hz
        rw [size_raise]
        exact hvisits z (List.mem_cons_of_mem _ hz)
      rw [raiseAll_cons]
      rcases List.mem_cons.mp hx with rfl | hx
      · refine Nat.le_trans ?_ (le_entry_raiseAll rest hrest x.1)
        rw [entry_raise (hvisits x List.mem_cons_self), if_pos rfl]
        exact Nat.le_max_left _ _
      · exact ih hrest x hx

theorem longestVisits_eq (a : SuffixAutomaton) (t : List Char) :
    a.longestVisits t = raiseAll (a.run 0 0 t) (Array.replicate a.size 0) :=
  rfl

theorem size_longestVisits (a : SuffixAutomaton) (t : List Char) :
    (a.longestVisits t).size = a.size := by
  rw [longestVisits_eq, size_raiseAll, Array.size_replicate]

theorem Represents.visit (h : Represents a word b) :
    ∀ x ∈ a.run 0 0 t, x.1 < a.size ∧ ∃ w, Same b w (word x.1) ∧ w <:+: t ∧ w.length = x.2 := by
  intro x hx
  obtain ⟨r, hr, z, hz, hlt, hsame, hlen⟩ := h.hasRead_of_mem_run t h.hasRead_nil x hx
  exact ⟨hlt, z, hsame, infix_of_prefix_of_suffix hz.suffix hr, hlen.symm⟩

theorem Represents.sound_longestVisits (h : Represents a word b) :
    Sound a word b t (a.longestVisits t) := by
  rw [longestVisits_eq]
  refine Sound.raiseAll _ (fun i hi => Or.inl ?_) fun x hx => ?_
  · rw [entry, Array.getElem?_replicate, if_pos hi]
    rfl
  · rw [Array.size_replicate]
    exact h.visit x hx

/-- The longest match at a place of the text is entered. -/
theorem Represents.le_longestVisits (h : Represents a word b) {r : List Char} (hr : r <+: t)
    (hne : r ≠ []) :
    ∃ z i, Matched b r z ∧ i < a.size ∧ Same b z (word i) ∧
      z.length ≤ entry (a.longestVisits t) i := by
  obtain ⟨x, hx, z, hz, hlt, hsame, hlen⟩ := h.exists_mem_run t h.hasRead_nil r hr hne
  refine ⟨z, x.1, hz, hlt, hsame, ?_⟩
  rw [← hlen, longestVisits_eq]
  refine le_entry_of_mem _ (fun y hy => ?_) x hx
  rw [Array.size_replicate]
  exact (h.visit y hy).1

/-! ### Settling a state -/

/-- If a word of the state occurs, all of its link's words are entered. -/
def PassedOn (a : SuffixAutomaton) (reach : Array Nat) (i : Nat) : Prop :=
  0 < entry reach i → ∀ j, a.link? i = some j → a.len j ≤ entry reach j

theorem size_settle (a : SuffixAutomaton) (reach : Array Nat) (i : Nat) :
    (a.settle reach i).size = reach.size := by
  rw [settle]
  split
  · exact Array.size_modify
  · rw [size_raise]
    exact Array.size_modify

/-- To settle a state raises the entry of its link, and nothing else. -/
theorem Represents.settle_eq (h : Represents a word b) {reach : Array Nat}
    (hsize : reach.size = a.size) (sound : Sound a word b t reach) {i : Nat} (hi : i < a.size)
    (hroot : i ≠ 0) :
    ∃ j, j < a.size ∧ a.link? i = some j ∧ IsLink b (word i) (word j) ∧
      ∀ x, entry (a.settle reach i) x
        = if x = j then max (min (entry reach i) (a.len j)) (entry reach j)
          else entry reach x := by
  obtain ⟨j, hj, hlink, isLink⟩ := h.link_of hi hroot
  refine ⟨j, hj, hlink, isLink, fun x => ?_⟩
  -- An entry is not longer than the words of its state, so it is not cut down.
  have hcut : min (reach[i]?.getD 0) (a.len i) = entry reach i :=
    Nat.min_eq_left (sound.entry_le h hi)
  have hsame : ∀ x, entry (reach.modify i fun _ => entry reach i) x = entry reach x := by
    intro x
    rw [entry, Array.getElem?_modify, entry, entry]
    by_cases hx : i = x
    · subst hx
      rw [if_pos rfl, Array.getElem?_eq_getElem (hsize ▸ hi)]
      rfl
    · rw [if_neg hx]
  rw [settle, hlink]
  dsimp only
  rw [hcut, entry_raise, hsame, hsame]
  rw [Array.size_modify, hsize]
  exact hj

/-- Words of a state are longer than those of its link. -/
theorem Represents.len_lt (h : Represents a word b) {i j : Nat} (hi : i < a.size)
    (hj : j < a.size) (isLink : IsLink b (word i) (word j)) {w : List Char}
    (hw : Same b w (word i)) : word j <:+ w ∧ a.len j < w.length := by
  have hsuffix : word j <:+ w := (h.full hi).suffix_of_ne isLink.full isLink.suffix isLink.ne hw
  refine ⟨hsuffix, ?_⟩
  rw [h.len_eq hj]
  rcases Nat.lt_or_ge (word j).length w.length with hlt | hge
  · exact hlt
  · rw [← hsuffix.eq_of_length_le hge] at hw
    exact absurd (isLink.full.eq (h.full hi) hw) isLink.ne

/-- The words of a state are the suffixes of its own word that are longer than that of its link. -/
theorem Represents.same_iff (h : Represents a word b) {i j : Nat} (hi : i < a.size)
    (hj : j < a.size) (isLink : IsLink b (word i) (word j)) {w : List Char} :
    Same b w (word i) ↔ w <:+ word i ∧ a.len j < w.length := by
  refine ⟨fun hw => ⟨(h.full hi).suffix_of_same hw, (h.len_lt hi hj isLink hw).2⟩, ?_⟩
  rintro ⟨hsuffix, hlonger⟩
  obtain ⟨v, hv, hsame⟩ := exists_full (hsuffix.isInfix.trans (h.full hi).occurs)
  -- A full word that is a proper suffix is no longer than that of the link.
  have hvi : v = word i := by
    by_contra hne
    have hvj := isLink.longest v hv ((h.full hi).suffix_of_suffix hv hsame hsuffix) hne
    have hshort := ((hv.suffix_of_same hsame).trans hvj).length_le
    rw [← h.len_eq hj] at hshort
    omega
  rwa [hvi] at hsame

theorem Represents.sound_settle (h : Represents a word b) {reach : Array Nat}
    (hsize : reach.size = a.size) (sound : Sound a word b t reach) {i : Nat} (hi : i < a.size)
    (hroot : i ≠ 0) : Sound a word b t (a.settle reach i) := by
  obtain ⟨j, hj, -, isLink, hentry⟩ := h.settle_eq hsize sound hi hroot
  intro x hx
  rw [hentry]
  split
  · next hxj =>
      subst hxj
      rcases sound i hi with hzero | ⟨w, hw, hwt, hlen⟩
      · rw [hzero, Nat.zero_min, Nat.zero_max]
        exact sound x hx
      · obtain ⟨hsuffix, hlt⟩ := h.len_lt hi hj isLink hw
        rw [← hlen, Nat.min_eq_right (Nat.le_of_lt hlt)]
        rcases Nat.le_total (a.len x) (entry reach x) with hle | hle
        · rw [Nat.max_eq_right hle]
          exact sound x hx
        · rw [Nat.max_eq_left hle]
          exact Or.inr ⟨word x, fun _ _ => Iff.rfl, hsuffix.isInfix.trans hwt, (h.len_eq hx).symm⟩
  · exact sound x hx

/-- The states are settled one by one, those with longer words first: what is entered stays sound,
grows, and is passed on by each state that is settled.  Entries of states with words as long
as any that are to be settled do not change. -/
theorem Represents.settled_of_foldl (h : Represents a word b) (order : List Nat)
    (hsorted : order.Pairwise fun i j => a.len j ≤ a.len i)
    (horder : ∀ i ∈ order, i < a.size ∧ i ≠ 0) :
    ∀ {reach : Array Nat}, reach.size = a.size → Sound a word b t reach →
      Sound a word b t (order.foldl a.settle reach) ∧
        (∀ i, entry reach i ≤ entry (order.foldl a.settle reach) i) ∧
        (∀ i, i < a.size → (∀ s ∈ order, a.len s ≤ a.len i) →
          entry (order.foldl a.settle reach) i = entry reach i) ∧
        ∀ s ∈ order, PassedOn a (order.foldl a.settle reach) s := by
  induction order with
  | nil =>
      intro reach _ sound
      exact ⟨sound, fun _ => Nat.le_refl _, fun _ _ _ => rfl, by simp⟩
  | cons s rest ih =>
      intro reach hsize sound
      obtain ⟨hfirst, hsorted⟩ := List.pairwise_cons.mp hsorted
      obtain ⟨hs, hroot⟩ := horder s List.mem_cons_self
      obtain ⟨j, hj, hlink, isLink, hentry⟩ := h.settle_eq hsize sound hs hroot
      have hlt : a.len j < a.len s := (h.link_lt hs hlink).2
      obtain ⟨sound', hgrows, hkept, hpassed⟩ :=
        ih hsorted (fun i hi => horder i (List.mem_cons_of_mem _ hi))
          ((size_settle a reach s).trans hsize) (h.sound_settle hsize sound hs hroot)
      rw [List.foldl_cons]
      refine ⟨sound', fun i => ?_, fun i hi hle => ?_, fun i hi => ?_⟩
      · refine Nat.le_trans ?_ (hgrows i)
        rw [hentry]
        split
        · next hij =>
            rw [hij]
            exact Nat.le_max_right _ _
        · exact Nat.le_refl _
      · rw [hkept i hi fun x hx => hle x (List.mem_cons_of_mem _ hx), hentry, if_neg]
        rintro rfl
        exact absurd (hle s List.mem_cons_self) (Nat.not_le_of_lt hlt)
      · rcases List.mem_cons.mp hi with rfl | hi
        · -- Later states link to shorter words only, so the entry is what it was here.
          intro hpos x hx
          obtain rfl := Option.some.inj (hlink.symm.trans hx)
          rw [hkept i hs hfirst, hentry, if_neg (by rintro rfl; omega)] at hpos
          refine Nat.le_trans ?_ (hgrows j)
          rw [hentry, if_pos rfl]
          rcases sound i hs with hzero | ⟨w, hw, -, hlen⟩
          · omega
          · have hlonger := (h.len_lt hs hj isLink hw).2
            rw [← hlen, Nat.min_eq_right (Nat.le_of_lt hlonger)]
            exact Nat.le_max_left _ _
        · exact hpassed i hi

/-! ### What is matched -/

/-- The order lists all states but the root, those with longer words first. -/
structure LongestFirst (a : SuffixAutomaton) (order : List Nat) : Prop where
  perm : order.Perm ((List.range a.size).drop 1)
  sorted : order.Pairwise fun i j => a.len j ≤ a.len i

theorem mem_drop_range {n i : Nat} : i ∈ (List.range n).drop 1 ↔ i < n ∧ i ≠ 0 := by
  rw [List.range_eq_range', List.drop_range', List.mem_range']
  constructor
  · rintro ⟨k, hk, rfl⟩
    omega
  · rintro ⟨hi, hne⟩
    exact ⟨i - 1, by omega, by omega⟩

theorem LongestFirst.mem_iff {order : List Nat} (h : LongestFirst a order) {i : Nat} :
    i ∈ order ↔ i < a.size ∧ i ≠ 0 := by
  rw [h.perm.mem_iff, mem_drop_range]

/-- A sort by the lengths gives such an order, in whichever order the states were before. -/
theorem longestFirst_mergeSort {states : List Nat} (h : states.Perm ((List.range a.size).drop 1)) :
    LongestFirst a (states.mergeSort fun i j => a.len j ≤ a.len i) := by
  refine ⟨(List.mergeSort_perm _ _).trans h, ?_⟩
  have htrans : ∀ i j k, decide (a.len j ≤ a.len i) = true → decide (a.len k ≤ a.len j) = true →
      decide (a.len k ≤ a.len i) = true := fun i j k hij hjk =>
    decide_eq_true ((of_decide_eq_true hjk).trans (of_decide_eq_true hij))
  have htotal : ∀ i j, (decide (a.len j ≤ a.len i) || decide (a.len i ≤ a.len j)) = true := by
    intro i j
    rw [Bool.or_eq_true, decide_eq_true_iff, decide_eq_true_iff]
    exact Nat.le_total _ _
  exact (List.pairwise_mergeSort htrans htotal states).imp fun hij => of_decide_eq_true hij

/-- The order in which the states are settled by default is such an order. -/
theorem longestFirst_longestFirst (a : SuffixAutomaton) : LongestFirst a a.longestFirst :=
  longestFirst_mergeSort (List.Perm.refl _)

/-- Once all states are settled, a word that occurs is entered for all suffixes of its state. -/
theorem Represents.len_le_of_suffix (h : Represents a word b) {reach : Array Nat}
    (hpassed : ∀ i, i < a.size → i ≠ 0 → PassedOn a reach i) {i : Nat} (hi : i < a.size) :
    ∀ {s : Nat}, s < a.size → 0 < entry reach s → word i <:+ word s → i ≠ s →
      a.len i ≤ entry reach i := by
  intro s
  induction hlen : a.len s using Nat.strong_induction_on generalizing s with
  | _ len ih =>
      intro hs hpos hsuffix hne
      have hroot : s ≠ 0 := by
        rintro rfl
        rw [h.root] at hsuffix
        exact hne (h.inj hi hs ((List.suffix_nil.mp hsuffix).trans h.root.symm))
      obtain ⟨j, hj, hlink, isLink⟩ := h.link_of hs hroot
      have hpast := hpassed s hs hroot hpos j hlink
      by_cases hij : i = j
      · rw [hij]
        exact hpast
      · have hij' : word i <:+ word j :=
          isLink.longest _ (h.full hi) hsuffix fun heq => hne (h.inj hi hs heq)
        have hshorter : a.len j < a.len s := (h.link_lt hs hlink).2
        -- The link has a longer word than `i`, so its entry is not zero.
        have hjpos : 0 < a.len j := by
          rw [h.len_eq hj]
          refine List.length_pos_of_ne_nil fun hnil => hij (h.inj hi hj ?_)
          rw [hnil] at hij' ⊢
          exact List.suffix_nil.mp hij'
        exact ih (a.len j) (hlen ▸ hshorter) rfl hj (Nat.lt_of_lt_of_le hjpos hpast) hij' hij

/-- What is entered in the end is the length of the longest word of each state that occurs in the
text, and zero where none does. -/
theorem Represents.longestMatchesIn (h : Represents a word b) {order : List Nat}
    (horder : LongestFirst a order) (t : List Char) :
    Sound a word b t (a.longestMatchesIn order t) ∧
      ∀ i w, i < a.size → Same b w (word i) → w <:+: t →
        w.length ≤ entry (a.longestMatchesIn order t) i := by
  obtain ⟨sound, hgrows, -, hpassed⟩ :=
    h.settled_of_foldl order horder.sorted (fun i hi => horder.mem_iff.mp hi)
      (size_longestVisits a t) h.sound_longestVisits
  refine ⟨sound, fun i w hi hw hoccurs => ?_⟩
  obtain ⟨r, hwr, hr⟩ := List.infix_iff_suffix_prefix.mp hoccurs
  by_cases hne : w = []
  · rw [hne]
    exact Nat.zero_le _
  have hr0 : r ≠ [] := by
    rintro rfl
    exact hne (List.suffix_nil.mp hwr)
  -- The longest match at the place where the word ends belongs to a state further down.
  obtain ⟨z, s, hz, hs, hsame, hle⟩ := h.le_longestVisits hr hr0
  have hwz : w <:+ z := hz.longest w hwr (hw.symm.occurs (h.full hi).occurs)
  have hreach : z.length ≤ entry (a.longestMatchesIn order t) s := hle.trans (hgrows s)
  by_cases his : i = s
  · rw [his]
    exact hwz.length_le.trans hreach
  · have hws : w <:+ word s := hwz.trans ((h.full hs).suffix_of_same hsame)
    have hsuffix : word i <:+ word s := (h.full hs).suffix_of_suffix (h.full hi) hw hws
    have hpos : 0 < entry (a.longestMatchesIn order t) s :=
      Nat.lt_of_lt_of_le (Nat.lt_of_lt_of_le (List.length_pos_of_ne_nil hne) hwz.length_le) hreach
    have hpast := h.len_le_of_suffix
      (fun i hi hroot => hpassed i (horder.mem_iff.mpr ⟨hi, hroot⟩)) hi hs hpos hsuffix his
    rw [h.len_eq hi] at hpast
    exact ((h.full hi).suffix_of_same hw).length_le.trans hpast

end Ideas.Similarity.SuffixAutomaton
