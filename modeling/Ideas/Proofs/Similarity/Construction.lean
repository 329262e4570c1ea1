/-
The automaton that is built represents its text.

A character at the end of a text `p` makes a new state for the whole text.  The full
suffixes of `p` at which the character was not seen before get a way to it
(`Linked.climbed` tells that these are the states passed over), and the longest one at
which it was seen gives the matched word (`Represents.matched`).  If that word was full
before, nothing else changes: `represents_of_full`.  If not, it becomes a state of its own
and takes over those ways that led to its words: `represents_of_split`.

What remains as it was is the same argument both times.  An old way leads to the right
state still, unless its word is a suffix of the matched word and the state's is not
(`Represents.old_way`).
-/
import Ideas.Proofs.Similarity.Represents

namespace Ideas.Similarity.SuffixAutomaton

variable {a : SuffixAutomaton} {word : Nat → List Char} {p z : List Char} {c : Char}

/-! ### What the climb from the whole text finds -/

/-- A way from a state stays away once it is gone: shorter suffixes go on where longer ones do. -/
theorem Represents.stop_mono (h : Represents a word p) {j k : Nat} (hj : j < a.size)
    (hk : k < a.size) (hsuffix : word k <:+ word j) (hnext : (a.next? j c).isSome = true) :
    (a.next? k c).isSome = true := by
  rw [h.next_isSome hk]
  rw [h.next_isSome hj] at hnext
  exact (suffix_concat_iff.mpr ⟨hsuffix, rfl⟩).isInfix.trans hnext

theorem Represents.climbed_isSome (h : Represents a word p) {last : Nat} (hlast : last < a.size)
    {passed : List Nat} {top : Option Nat}
    (hclimb : a.climb (fun i => (a.next? i c).isSome) last = (passed, top)) :
    Climbed word a.size (fun i => (a.next? i c).isSome) last passed top := by
  have hstop : ∀ j k, j < a.size → k < a.size → word j <:+ word last → word k <:+ word j →
      (a.next? j c).isSome = true → (a.next? k c).isSome = true :=
    fun j k hj hk _ hsuffix => h.stop_mono hj hk hsuffix
  have climbed := h.climbed hlast hstop
  rwa [hclimb] at climbed

/-- With one character more, a state that goes on with it gives the matched word, if it is the last
of the suffixes of `t` to do so. -/
theorem Represents.matched (h : Represents a word p) {last k : Nat} (hlast : last < a.size)
    {t y : List Char} (hy : Matched p t y) (hsame : Same p y (word last)) (hk : word k <:+ t)
    (hkc : word k ++ [c] <:+: p)
    (hlongest : ∀ j, j < a.size → word j <:+ word last → word j ++ [c] <:+: p →
      word j <:+ word k) :
    Matched p (t ++ [c]) (word k ++ [c]) := by
  refine Matched.snoc hk hkc fun u hu hc => ?_
  obtain ⟨w, hw, hwlast, hwc, huw⟩ := hy.exists_full (h.full hlast) hsame hu hc
  obtain ⟨j, hj, rfl⟩ := h.covers hw
  exact huw.trans (hlongest j hj hwlast hwc)

/-- If no state goes on with it, nothing is matched. -/
theorem Represents.matched_nil (h : Represents a word p) {last : Nat} (hlast : last < a.size)
    {t y : List Char} (hy : Matched p t y) (hsame : Same p y (word last))
    (hnone : ∀ j, j < a.size → word j <:+ word last → ¬ word j ++ [c] <:+: p) :
    Matched p (t ++ [c]) [] := by
  refine matched_nil_snoc fun u hu hc => ?_
  obtain ⟨w, hw, hwlast, hwc, -⟩ := hy.exists_full (h.full hlast) hsame hu hc
  obtain ⟨j, hj, rfl⟩ := h.covers hw
  exact hnone j hj hwlast hwc

theorem matched_text (p : List Char) : Matched p p p :=
  ⟨List.suffix_refl p, List.infix_refl p, fun _ hu _ => hu⟩

/-! ### The new state and the ways to it -/

/-- The words once the text has grown: the new state has all of it, and one that comes after that
the matched word. -/
def grown (word : Nat → List Char) (n : Nat) (t z : List Char) (i : Nat) : List Char :=
  if i = n then t else if i = n + 1 then z else word i

theorem grown_of_lt {n i : Nat} {t : List Char} (hi : i < n) : grown word n t z i = word i := by
  rw [grown, if_neg (by omega), if_neg (by omega)]

theorem grown_self (n : Nat) (t : List Char) : grown word n t z n = t :=
  if_pos rfl

theorem grown_succ (n : Nat) (t : List Char) : grown word n t z (n + 1) = z := by
  rw [grown, if_neg (by omega), if_pos rfl]

/-- The automaton with the new state, to which `c` leads from the states in `passed`. -/
def append (a : SuffixAutomaton) (m : Nat) (c : Char) (passed : List Nat) : SuffixAutomaton :=
  (a.push { len := m }).setNext c a.size passed

variable {m : Nat} {passed : List Nat} {i j : Nat} {d : Char}

@[simp] theorem size_append : (a.append m c passed).size = a.size + 1 := by
  rw [append, size_setNext, size_push]

theorem len_append :
    (a.append m c passed).len i = if i = a.size then m else a.len i := by
  rw [append, len_setNext, len_push]

theorem link?_append :
    (a.append m c passed).link? i = if i = a.size then none else a.link? i := by
  rw [append, link?_setNext, link?_push]

theorem next?_append (hpassed : ∀ i ∈ passed, i < a.size) :
    (a.append m c passed).next? i d
      = if i ∈ passed ∧ d = c then some a.size
        else if i = a.size then none else a.next? i d := by
  rw [append, next?_setNext, next?_push]
  · rfl
  · intro i hi
    rw [size_push]
    exact Nat.lt_succ_of_lt (hpassed i hi)

/-- The states passed over are the suffixes of the text at which the character is new. -/
def Passes (a : SuffixAutomaton) (word : Nat → List Char) (p : List Char) (c : Char)
    (passed : List Nat) : Prop :=
  ∀ i, i ∈ passed ↔ i < a.size ∧ word i <:+ p ∧ ¬ word i ++ [c] <:+: p

theorem Linked.append (h : Linked a word p a.size) :
    Linked (a.append m c passed) word p a.size where
  root := h.root
  full := h.full
  inj := h.inj
  covers := h.covers
  len_eq hi := by
    rw [len_append, if_neg (Nat.ne_of_lt hi)]
    exact h.len_eq hi
  link_root := by
    rw [link?_append, if_neg (Nat.ne_of_lt h.size_pos)]
    exact h.link_root
  link_of hi hne := by
    rw [link?_append, if_neg (Nat.ne_of_lt hi)]
    exact h.link_of hi hne

/-! ### The states of the longer text -/

section

variable (h : Represents a word p) (hz : Matched p (p ++ [c]) z)
  (hpassed : Passes a word p c passed)
include h

theorem Represents.word_ne (hi : i < a.size) : word i ≠ p ++ [c] :=
  fun heq => not_infix_snoc (heq ▸ (h.full hi).occurs)

include hz

theorem Represents.full_grown (hi : i < a.size + 2) :
    Full (p ++ [c]) (grown word a.size (p ++ [c]) z i) := by
  rcases Nat.lt_succ_iff_lt_or_eq.mp hi with hi | rfl
  · rcases Nat.lt_succ_iff_lt_or_eq.mp hi with hi | rfl
    · rw [grown_of_lt hi]
      exact (h.full hi).snoc hz
    · rw [grown_self]
      exact full_text
  · rw [grown_succ]
    exact hz.full

/-- The states have different words, if the matched word has a state of its own only where it had
none before. -/
theorem Represents.grown_inj {n : Nat} (hn : n ≤ a.size + 2)
    (hnew : a.size + 1 < n → ¬ Full p z) (hi : i < n) (hj : j < n)
    (heq : grown word a.size (p ++ [c]) z i = grown word a.size (p ++ [c]) z j) : i = j := by
  wlog hij : i ≤ j generalizing i j
  · exact (this hj hi heq.symm (Nat.le_of_not_le hij)).symm
  by_contra hne
  have hlt : i < j := Nat.lt_of_le_of_ne hij hne
  have hj' : j < a.size + 2 := Nat.lt_of_lt_of_le hj hn
  rcases Nat.lt_succ_iff_lt_or_eq.mp hj' with hj' | rfl
  · rcases Nat.lt_succ_iff_lt_or_eq.mp hj' with hj' | rfl
    · rw [grown_of_lt (hlt.trans hj'), grown_of_lt hj'] at heq
      exact hne (h.inj (hlt.trans hj') hj' heq)
    · rw [grown_of_lt hlt, grown_self] at heq
      exact h.word_ne hlt heq
  · rw [grown_succ] at heq
    rcases Nat.lt_succ_iff_lt_or_eq.mp hlt with hi' | rfl
    · rw [grown_of_lt hi'] at heq
      exact hnew hj (heq ▸ h.full hi')
    · rw [grown_self] at heq
      exact not_infix_snoc (heq ▸ hz.occurs)

omit hz
include hpassed

/-! ### The ways of the longer text -/

/-- Where a word goes on in the new text, there is a way. -/
theorem Represents.way_of_infix (hi : i < a.size) (hoccurs : word i ++ [d] <:+: p ++ [c]) :
    ∃ j, (a.append m c passed).next? i d = some j := by
  rw [next?_append fun i hi => ((hpassed i).mp hi).1]
  by_cases hold : word i ++ [d] <:+: p
  · obtain ⟨j, hj⟩ := h.next_complete hi hold
    split
    · exact ⟨_, rfl⟩
    · rw [if_neg (Nat.ne_of_lt hi)]
      exact ⟨j, hj⟩
  · obtain ⟨hsuffix, rfl⟩ := suffix_concat_iff.mp ((infix_snoc_iff.mp hoccurs).resolve_left hold)
    rw [if_pos ⟨(hpassed i).mpr ⟨hi, hsuffix, hold⟩, rfl⟩]
    exact ⟨_, rfl⟩

/-- An old way is there still. -/
theorem Represents.way_of_next (hi : i < a.size) (hnext : a.next? i d = some j) :
    (a.append m c passed).next? i d = some j := by
  rw [next?_append fun i hi => ((hpassed i).mp hi).1, if_neg, if_neg (Nat.ne_of_lt hi)]
  · exact hnext
  · rintro ⟨hmem, rfl⟩
    refine ((hpassed i).mp hmem).2.2 ((h.next_isSome hi).mp ?_)
    rw [hnext]
    rfl

omit h in
/-- Each way from an old state is new and leads to the new state, or was there before. -/
theorem way_cases (hi : i < a.size)
    (hnext : (a.append m c passed).next? i d = some j) :
    j = a.size ∧ d = c ∧ word i <:+ p ∧ ¬ word i ++ [c] <:+: p ∨ a.next? i d = some j := by
  rw [next?_append fun i hi => ((hpassed i).mp hi).1] at hnext
  split at hnext
  · next hnew =>
      obtain ⟨hmem, hd⟩ := hnew
      cases hnext
      exact Or.inl ⟨rfl, hd, ((hpassed i).mp hmem).2⟩
  · rw [if_neg (Nat.ne_of_lt hi)] at hnext
    exact Or.inr hnext

omit h in
/-- The new state has no ways. -/
theorem next?_append_self (d : Char) : (a.append m c passed).next? a.size d = none := by
  rw [next?_append fun i hi => ((hpassed i).mp hi).1, if_neg, if_pos rfl]
  rintro ⟨hmem, -⟩
  exact absurd ((hpassed _).mp hmem).1 (Nat.lt_irrefl _)

include hz

/-- A way from an old state leads to the right state, provided that the state is right for the
suffixes of the matched word. -/
theorem Represents.way_sound (hi : i < a.size)
    (hnext : (a.append m c passed).next? i d = some j)
    (hkeep : a.next? i c = some j → d = c → word i ++ [c] <:+ z → word j <:+ z) :
    j < a.size + 1 ∧ Same (p ++ [c]) (word i ++ [d]) (grown word a.size (p ++ [c]) z j) := by
  rcases way_cases hpassed hi hnext with ⟨rfl, rfl, hsuffix, hnot⟩ | hold
  · rw [grown_self]
    exact ⟨Nat.lt_succ_self _, same_snoc hnot (suffix_concat_iff.mpr ⟨hsuffix, rfl⟩)⟩
  · obtain ⟨hj, hsame⟩ := h.next_sound hi hold
    rw [grown_of_lt hj]
    refine ⟨Nat.lt_succ_of_lt hj, hz.same (h.full hj) hsame fun hsuffix => ?_⟩
    obtain ⟨-, rfl⟩ := suffix_concat_iff.mp (hsuffix.trans hz.suffix)
    exact hkeep hold rfl hsuffix

/-! ### The matched word was full -/

/-- A new state whose link leads to the matched word completes the automaton, if that word had a
state. -/
theorem represents_of_full {k : Nat} (hk : k < a.size) (hword : word k = z) :
    Represents ((a.append (p.length + 1) c passed).setLink a.size k)
      (grown word a.size (p ++ [c]) z) (p ++ [c]) := by
  have hfull : Full p z := hword ▸ h.full hk
  have hsize : ((a.append (p.length + 1) c passed).setLink a.size k).size = a.size + 1 := by
    rw [size_setLink, size_append]
  have hlink : ∀ i, ((a.append (p.length + 1) c passed).setLink a.size k).link? i
      = if i = a.size then some k else a.link? i := by
    intro i
    rw [link?_setLink _ (by rw [size_append]; omega), link?_append]
    split <;> rfl
  refine { root := ?_, full := ?_, inj := ?_, covers := ?_, len_eq := ?_, link_root := ?_,
           link_of := ?_, next_sound := ?_, next_complete := ?_ }
  · rw [grown_of_lt h.size_pos]
    exact h.root
  · intro i hi
    exact h.full_grown hz (Nat.lt_succ_of_lt (hsize ▸ hi))
  · intro i j hi hj
    rw [hsize] at hi hj
    exact h.grown_inj hz (Nat.le_succ _) (fun hlt => absurd hlt (Nat.lt_irrefl _)) hi hj
  · intro v hv
    rw [hsize]
    rcases (full_snoc_iff hz).mp hv with hold | rfl | rfl
    · obtain ⟨i, hi, rfl⟩ := h.covers hold
      exact ⟨i, Nat.lt_succ_of_lt hi, grown_of_lt hi⟩
    · exact ⟨a.size, Nat.lt_succ_self _, grown_self _ _⟩
    · exact ⟨k, Nat.lt_succ_of_lt hk, (grown_of_lt hk).trans hword⟩
  · intro i hi
    rw [len_setLink, len_append]
    rcases Nat.lt_succ_iff_lt_or_eq.mp (hsize ▸ hi) with hi | rfl
    · rw [if_neg (Nat.ne_of_lt hi), grown_of_lt hi]
      exact h.len_eq hi
    · rw [if_pos rfl, grown_self, List.length_append, List.length_singleton]
  · rw [hlink, if_neg (Nat.ne_of_lt h.size_pos)]
    exact h.link_root
  · intro i hi hroot
    rw [hsize, hlink]
    rcases Nat.lt_succ_iff_lt_or_eq.mp (hsize ▸ hi) with hi | rfl
    · obtain ⟨j, hj, hlinked, isLink⟩ := h.link_of hi hroot
      rw [if_neg (Nat.ne_of_lt hi), grown_of_lt hi]
      refine ⟨j, Nat.lt_succ_of_lt hj, hlinked, ?_⟩
      rw [grown_of_lt hj]
      exact isLink.snoc hz (h.full hi) (isLink.longest z hfull)
    · refine ⟨k, Nat.lt_succ_of_lt hk, if_pos rfl, ?_⟩
      rw [grown_self, grown_of_lt hk, hword]
      exact hz.isLink
  · intro i d j hi hnext
    rw [next?_setLink] at hnext
    rw [hsize]
    rcases Nat.lt_succ_iff_lt_or_eq.mp (hsize ▸ hi) with hi | rfl
    · rw [grown_of_lt hi]
      refine h.way_sound hz hpassed hi hnext fun hold _ hsuffix => ?_
      obtain ⟨hj, hsame⟩ := h.next_sound hi hold
      exact hfull.suffix_of_suffix (h.full hj) hsame hsuffix
    · rw [next?_append_self hpassed] at hnext
      cases hnext
  · intro i d hi hoccurs
    rw [next?_setLink]
    rcases Nat.lt_succ_iff_lt_or_eq.mp (hsize ▸ hi) with hi | rfl
    · rw [grown_of_lt hi] at hoccurs
      exact h.way_of_infix hpassed hi hoccurs
    · rw [grown_self] at hoccurs
      exact absurd hoccurs not_infix_snoc

end

/-! ### The matched word was not full -/

/-- The states that are moved to the state of the matched word. -/
def moved (a : SuffixAutomaton) (k q : Nat) (c : Char) : List Nat :=
  (a.climb (fun j => a.next? j c ≠ some q) k).1

theorem split_eq (a : SuffixAutomaton) (k q : Nat) (c : Char) :
    a.split k q c
      = ((a.push ⟨a.len k + 1, a.link? q, (a.states[q]?.map State.next).getD []⟩).setNext c a.size
          (a.moved k q c)).setLink q a.size :=
  rfl

theorem lookup_getD_next (a : SuffixAutomaton) (q : Nat) (d : Char) :
    ((a.states[q]?.map State.next).getD []).lookup d = a.next? q d := by
  rw [next?]
  cases a.states[q]? <;> rfl

variable {k q : Nat}

@[simp] theorem size_split : (a.split k q c).size = a.size + 1 := by
  rw [split_eq, size_setLink, size_setNext, size_push]

theorem len_split :
    (a.split k q c).len i = if i = a.size then a.len k + 1 else a.len i := by
  rw [split_eq, len_setLink, len_setNext, len_push]

theorem link?_split (hq : q < a.size) :
    (a.split k q c).link? i
      = if i = q then some a.size else if i = a.size then a.link? q else a.link? i := by
  rw [split_eq, link?_setLink _ (by rw [size_setNext, size_push]; omega), link?_setNext, link?_push]

theorem next?_split (hmoved : ∀ i ∈ a.moved k q c, i < a.size) :
    (a.split k q c).next? i d
      = if i ∈ a.moved k q c ∧ d = c then some a.size
        else if i = a.size then a.next? q d else a.next? i d := by
  rw [split_eq, next?_setLink, next?_setNext, next?_push, lookup_getD_next]
  intro i hi
  rw [size_push]
  exact Nat.lt_succ_of_lt (hmoved i hi)

/-- The automaton with the new state, once the matched word has a state of its own with those words
that were words of `q`. -/
def forked (a : SuffixAutomaton) (m : Nat) (c : Char) (passed : List Nat) (k q : Nat) :
    SuffixAutomaton :=
  ((a.append m c passed).split k q c).setLink a.size (a.size + 1)

@[simp] theorem size_forked : (a.forked m c passed k q).size = a.size + 2 := by
  rw [forked, size_setLink, size_split, size_append]

theorem len_forked (hk : k < a.size) :
    (a.forked m c passed k q).len i
      = if i = a.size + 1 then a.len k + 1 else if i = a.size then m else a.len i := by
  rw [forked, len_setLink, len_split, size_append, len_append, len_append,
    if_neg (Nat.ne_of_lt hk)]

theorem link?_forked (hq : q < a.size) :
    (a.forked m c passed k q).link? i
      = if i = a.size ∨ i = q then some (a.size + 1)
        else if i = a.size + 1 then a.link? q else a.link? i := by
  rw [forked, link?_setLink _ (by rw [size_split, size_append]; omega),
    link?_split (by rw [size_append]; omega), size_append, link?_append, link?_append,
    if_neg (Nat.ne_of_lt hq)]
  by_cases hi : i = a.size
  · rw [if_pos hi, if_pos (Or.inl hi)]
  · by_cases hiq : i = q
    · rw [if_neg hi, if_pos hiq, if_pos (Or.inr hiq)]
    · rw [if_neg hi, if_neg hiq, if_neg hi, if_neg (not_or.mpr ⟨hi, hiq⟩)]

section

variable (h : Represents a word p) (hz : Matched p (p ++ [c]) z)
  (hpassed : Passes a word p c passed) (hk : k < a.size) (hword : word k ++ [c] = z)
  (hq : a.next? k c = some q)
include h hpassed hk hword hq

/-- The states whose ways are moved are those with a suffix of the matched word before the last
character, as far as they led to the state whose words are the same. -/
theorem Represents.mem_moved (j : Nat) :
    j ∈ (a.append m c passed).moved k q c
      ↔ j < a.size ∧ word j ++ [c] <:+ z ∧ a.next? j c = some q := by
  obtain ⟨hqlt, hsame⟩ := h.next_sound hk hq
  rw [hword] at hsame
  have hcur : ∀ {j}, j < a.size →
      ((a.append m c passed).next? j c = some q ↔ a.next? j c = some q) := by
    intro j hj
    refine ⟨fun hnext => ?_, h.way_of_next hpassed hj⟩
    rcases way_cases hpassed hj hnext with ⟨rfl, -⟩ | hold
    · exact absurd hqlt (Nat.lt_irrefl _)
    · exact hold
  have hstop : ∀ x y, x < a.size → y < a.size → word x <:+ word k → word y <:+ word x →
      decide ((a.append m c passed).next? x c ≠ some q) = true →
        decide ((a.append m c passed).next? y c ≠ some q) = true := by
    intro x y hx hy hxk hyx hnot
    refine decide_eq_true fun hnext => of_decide_eq_true hnot ?_
    rw [hcur hy] at hnext
    rw [hcur hx]
    -- What is between a word and one that is the same leads to the same state.
    have hyz : word y ++ [c] <:+ word x ++ [c] := suffix_concat_iff.mpr ⟨hyx, rfl⟩
    have hxz : word x ++ [c] <:+ word q :=
      ((suffix_concat_iff.mpr ⟨hxk, rfl⟩).trans (hword ▸ List.suffix_refl _)).trans
        ((h.full hqlt).suffix_of_same hsame)
    have hysame := (h.next_sound hy hnext).2
    have hxsame : Same p (word x ++ [c]) (word q) :=
      (hysame.between hyz hxz).symm.trans hysame
    obtain ⟨r, hr⟩ := h.next_complete hx (hxsame.symm.occurs (h.full hqlt).occurs)
    obtain ⟨hrlt, hrsame⟩ := h.next_sound hx hr
    rw [hr, h.inj hrlt hqlt ((h.full hrlt).eq (h.full hqlt) (hrsame.symm.trans hxsame))]
  have linked : Linked (a.append m c passed) word p a.size := h.toLinked.append
  have climbed := linked.climbed hk hstop
  rw [moved, climbed.mem_passed, ← hword, suffix_concat_iff]
  simp only [decide_eq_false_iff_not, not_not, and_true]
  constructor
  · rintro ⟨hj, hsuffix, hnext⟩
    exact ⟨hj, hsuffix, (hcur hj).mp hnext⟩
  · rintro ⟨hj, hsuffix, hnext⟩
    exact ⟨hj, hsuffix, (hcur hj).mpr hnext⟩

theorem Represents.next?_forked (i : Nat) (d : Char) :
    (a.forked m c passed k q).next? i d
      = if (i < a.size ∧ word i ++ [c] <:+ z ∧ a.next? i c = some q) ∧ d = c
        then some (a.size + 1)
        else if i = a.size + 1 then (a.append m c passed).next? q d
        else (a.append m c passed).next? i d := by
  have hmoved := h.mem_moved hpassed hk hword hq (m := m)
  rw [forked, next?_setLink, next?_split, size_append]
  · simp only [hmoved]
  · intro i hi
    rw [size_append]
    exact Nat.lt_succ_of_lt ((hmoved i).mp hi).1

omit hpassed in
/-- The matched word was the same as the one that the way leads to. -/
theorem Represents.same_of_split : q < a.size ∧ Same p z (word q) ∧ z <:+ word q := by
  obtain ⟨hqlt, hsame⟩ := h.next_sound hk hq
  rw [hword] at hsame
  exact ⟨hqlt, hsame, (h.full hqlt).suffix_of_same hsame⟩

omit hpassed in
/-- The root is not split, for its word is empty. -/
theorem Represents.ne_zero_of_split (hne : z ≠ word q) : q ≠ 0 := by
  obtain ⟨-, -, hzq⟩ := h.same_of_split hk hword hq
  rintro rfl
  rw [h.root] at hzq hne
  exact hne (List.suffix_nil.mp hzq)

include hz

omit hpassed in
/-- The links lead to the longest full suffixes again. -/
theorem Represents.link_forked (hne : z ≠ word q) (hi : i < a.size + 2) (hroot : i ≠ 0) :
    ∃ j, j < a.size + 2 ∧ (a.forked m c passed k q).link? i = some j ∧
      IsLink (p ++ [c]) (grown word a.size (p ++ [c]) z i)
        (grown word a.size (p ++ [c]) z j) := by
  obtain ⟨hqlt, hsame, hzq⟩ := h.same_of_split hk hword hq
  have hqfull := h.full hqlt
  rw [link?_forked hqlt]
  rcases (by omega : i < a.size ∨ i = a.size ∨ i = a.size + 1) with hlt | rfl | rfl
  · rw [grown_of_lt hlt]
    by_cases hiq : i = q
    · refine ⟨a.size + 1, by omega, if_pos (Or.inr hiq), ?_⟩
      rw [hiq, grown_succ]
      exact hz.isLink_of_same hqfull hsame hne
    · obtain ⟨j, hj, hlinked, isLink⟩ := h.link_of hlt hroot
      rw [if_neg (not_or.mpr ⟨Nat.ne_of_lt hlt, hiq⟩), if_neg (by omega)]
      refine ⟨j, by omega, hlinked, ?_⟩
      rw [grown_of_lt hj]
      -- If the matched word is a suffix, so is the full word that it was the same as.
      refine isLink.snoc hz (h.full hlt) fun hsuffix _ => hzq.trans ?_
      refine isLink.longest _ hqfull ((h.full hlt).suffix_of_suffix hqfull hsame hsuffix) ?_
      exact fun heq => hiq (h.inj hqlt hlt heq).symm
  · refine ⟨a.size + 1, by omega, if_pos (Or.inl rfl), ?_⟩
    rw [grown_self, grown_succ]
    exact hz.isLink
  · obtain ⟨j, hj, hlinked, isLink⟩ :=
      h.link_of hqlt (h.ne_zero_of_split hk hword hq hne)
    rw [if_neg (by omega), if_pos rfl]
    refine ⟨j, by omega, hlinked, ?_⟩
    rw [grown_succ, grown_of_lt hj]
    exact isLink.matched hz hqfull hsame hne

/-- The ways lead to the right states again. -/
theorem Represents.way_forked (hi : i < a.size + 2)
    (hway : (a.forked m c passed k q).next? i d = some j) :
    j < a.size + 2 ∧ Same (p ++ [c]) (grown word a.size (p ++ [c]) z i ++ [d])
      (grown word a.size (p ++ [c]) z j) := by
  obtain ⟨hqlt, hsame, hzq⟩ := h.same_of_split hk hword hq
  rw [h.next?_forked hpassed hk hword hq] at hway
  split at hway
  · next hmove =>
      obtain ⟨⟨hlt, hsuffix, hiq⟩, rfl⟩ := hmove
      cases hway
      rw [grown_of_lt hlt, grown_succ]
      refine ⟨by omega, ((h.next_sound hlt hiq).2.trans hsame.symm).snoc_text ?_⟩
      exact ⟨fun _ => hz.suffix, fun _ => hsuffix.trans hz.suffix⟩
  · next hstay =>
      rcases (by omega : i < a.size ∨ i = a.size ∨ i = a.size + 1) with hlt | rfl | rfl
      · rw [if_neg (by omega)] at hway
        rw [grown_of_lt hlt]
        -- A way that stays does not lead to the state that was split.
        have hkeep : a.next? i c = some j → d = c → word i ++ [c] <:+ z → word j <:+ z := by
          intro hold hd hsuffix
          obtain ⟨hj, hjsame⟩ := h.next_sound hlt hold
          rcases hjsame.nested hsuffix hz.occurs with hjz | ⟨-, hzj⟩
          · exact hjz
          · rw [h.inj hj hqlt ((h.full hj).eq (h.full hqlt) (hzj.symm.trans hsame))] at hold
            exact absurd ⟨⟨hlt, hsuffix, hold⟩, hd⟩ hstay
        obtain ⟨hj, hjsame⟩ := h.way_sound hz hpassed hlt hway hkeep
        exact ⟨Nat.lt_succ_of_lt hj, hjsame⟩
      · rw [if_neg (by omega), next?_append_self hpassed] at hway
        cases hway
      · rw [if_pos rfl] at hway
        rw [grown_succ]
        have hkeep : a.next? q c = some j → d = c → word q ++ [c] <:+ z → word j <:+ z := by
          intro _ _ hsuffix
          have hle := hsuffix.length_le
          have hle' := hzq.length_le
          rw [List.length_append, List.length_singleton] at hle
          omega
        obtain ⟨hj, hjsame⟩ := h.way_sound hz hpassed hqlt hway hkeep
        exact ⟨Nat.lt_succ_of_lt hj, (hsame.snoc_snoc d c).trans hjsame⟩

omit hz in
/-- There is a way wherever the words go on. -/
theorem Represents.way_forked_of_infix (hi : i < a.size + 2)
    (hoccurs : grown word a.size (p ++ [c]) z i ++ [d] <:+: p ++ [c]) :
    ∃ j, (a.forked m c passed k q).next? i d = some j := by
  obtain ⟨hqlt, hsame, -⟩ := h.same_of_split hk hword hq
  rw [h.next?_forked hpassed hk hword hq]
  split
  · exact ⟨_, rfl⟩
  · rcases (by omega : i < a.size ∨ i = a.size ∨ i = a.size + 1) with hlt | rfl | rfl
    · rw [grown_of_lt hlt] at hoccurs
      rw [if_neg (by omega)]
      exact h.way_of_infix hpassed hlt hoccurs
    · rw [grown_self] at hoccurs
      exact absurd hoccurs not_infix_snoc
    · rw [grown_succ] at hoccurs
      rw [if_pos rfl]
      exact h.way_of_infix hpassed hqlt ((hsame.snoc_snoc d c).occurs hoccurs)

/-- With a state of its own for the matched word, the automaton is complete. -/
theorem represents_of_split (hne : z ≠ word q) :
    Represents (a.forked (p.length + 1) c passed k q) (grown word a.size (p ++ [c]) z)
      (p ++ [c]) := by
  obtain ⟨hqlt, hsame, hzq⟩ := h.same_of_split hk hword hq
  have hnew : ¬ Full p z := fun hfull => hne (hfull.eq (h.full hqlt) hsame)
  refine { root := ?_, full := ?_, inj := ?_, covers := ?_, len_eq := ?_, link_root := ?_,
           link_of := ?_, next_sound := ?_, next_complete := ?_ }
  · rw [grown_of_lt h.size_pos]
    exact h.root
  · intro i hi
    rw [size_forked] at hi
    exact h.full_grown hz hi
  · intro i j hi hj
    rw [size_forked] at hi hj
    exact h.grown_inj hz (Nat.le_refl _) (fun _ => hnew) hi hj
  · intro v hv
    rw [size_forked]
    rcases (full_snoc_iff hz).mp hv with hold | rfl | rfl
    · obtain ⟨i, hi, rfl⟩ := h.covers hold
      exact ⟨i, by omega, grown_of_lt hi⟩
    · exact ⟨a.size, by omega, grown_self _ _⟩
    · exact ⟨a.size + 1, by omega, grown_succ _ _⟩
  · intro i hi
    rw [size_forked] at hi
    rw [len_forked hk]
    rcases (by omega : i < a.size ∨ i = a.size ∨ i = a.size + 1) with hlt | rfl | rfl
    · rw [if_neg (by omega), if_neg (Nat.ne_of_lt hlt), grown_of_lt hlt]
      exact h.len_eq hlt
    · rw [if_neg (by omega), if_pos rfl, grown_self, List.length_append, List.length_singleton]
    · rw [if_pos rfl, grown_succ, h.len_eq hk, ← hword, List.length_append, List.length_singleton]
  · have hq0 := h.ne_zero_of_split hk hword hq hne
    rw [link?_forked hqlt, if_neg (not_or.mpr ⟨Nat.ne_of_lt h.size_pos, Ne.symm hq0⟩),
      if_neg (by omega)]
    exact h.link_root
  · intro i hi hroot
    rw [size_forked] at hi ⊢
    exact h.link_forked hz hk hword hq hne hi hroot
  · intro i d j hi hway
    rw [size_forked] at hi ⊢
    exact h.way_forked hz hpassed hk hword hq hi hway
  · intro i d hi hoccurs
    rw [size_forked] at hi
    exact h.way_forked_of_infix hpassed hk hword hq hi hoccurs

end

/-! ### One character, and all of them -/

theorem extend_eq {last : Nat} {top : Option Nat}
    (hclimb : a.climb (fun i => (a.next? i c).isSome) last = (passed, top)) :
    a.extend last c =
      match top.bind fun i => ((a.append (a.len last + 1) c passed).next? i c).map (i, ·) with
      | none => ((a.append (a.len last + 1) c passed).setLink a.size 0, a.size)
      | some (i, q) =>
        if (a.append (a.len last + 1) c passed).len i + 1
            = (a.append (a.len last + 1) c passed).len q then
          ((a.append (a.len last + 1) c passed).setLink a.size q, a.size)
        else (((a.append (a.len last + 1) c passed).split i q c).setLink a.size
          (a.append (a.len last + 1) c passed).size, a.size) := by
  rw [extend, hclimb]
  rfl

/-- With a character more the automaton represents the longer text. -/
theorem Represents.extend (h : Represents a word p) {last : Nat} (hlast : last < a.size)
    (htext : word last = p) (c : Char) :
    ∃ word', Represents (a.extend last c).1 word' (p ++ [c]) ∧
      (a.extend last c).2 < (a.extend last c).1.size ∧ word' (a.extend last c).2 = p ++ [c] := by
  rcases hclimb : a.climb (fun i => (a.next? i c).isSome) last with ⟨passed, top⟩
  have climbed := h.climbed_isSome hlast hclimb
  have hpassed : Passes a word p c passed := by
    intro i
    rw [climbed.mem_passed, htext]
    refine and_congr_right fun hi => and_congr_right fun _ => ?_
    rw [← h.next_isSome hi, Bool.not_eq_true]
  have hsame : Same p p (word last) := htext ▸ fun _ _ => Iff.rfl
  have hlen : a.len last + 1 = p.length + 1 := by rw [h.len_eq hlast, htext]
  rw [extend_eq hclimb, hlen]
  cases top with
  | none =>
      have hz : Matched p (p ++ [c]) [] := by
        refine h.matched_nil hlast (matched_text p) hsame fun j hj hsuffix hoccurs => ?_
        have hnot := climbed.top_none rfl j hj hsuffix
        rw [(h.next_isSome hj).mpr hoccurs] at hnot
        cases hnot
      refine ⟨_, represents_of_full h hz hpassed h.size_pos h.root, ?_, grown_self _ _⟩
      rw [Option.bind_none]
      dsimp only
      rw [size_setLink, size_append]
      exact Nat.lt_succ_self _
  | some k =>
      obtain ⟨hk, hsuffix, hnext, hlongest⟩ := climbed.top_some rfl
      have hz : Matched p (p ++ [c]) (word k ++ [c]) := by
        refine h.matched hlast (matched_text p) hsame (htext ▸ hsuffix)
          ((h.next_isSome hk).mp hnext) fun j hj hsuffix hoccurs => ?_
        exact hlongest j hj hsuffix ((h.next_isSome hj).mpr hoccurs)
      obtain ⟨q, hq⟩ := Option.isSome_iff_exists.mp hnext
      obtain ⟨hqlt, -, hzq⟩ := h.same_of_split hk rfl hq
      have hzlen : (word k ++ [c]).length = (word k).length + 1 := by simp
      simp only [Option.bind_some, h.way_of_next hpassed hk hq, Option.map_some, len_append,
        if_neg (Nat.ne_of_lt hk), if_neg (Nat.ne_of_lt hqlt), h.len_eq hk, h.len_eq hqlt]
      by_cases hfull : (word k).length + 1 = (word q).length
      · rw [if_pos hfull]
        have hword : word q = word k ++ [c] := (hzq.eq_of_length (hzlen.trans hfull)).symm
        refine ⟨_, represents_of_full h hz hpassed hqlt hword, ?_, grown_self _ _⟩
        rw [size_setLink, size_append]
        exact Nat.lt_succ_self _
      · rw [if_neg hfull, size_append]
        have hne : word k ++ [c] ≠ word q := fun heq => hfull (by rw [← heq, hzlen])
        refine ⟨_, represents_of_split h hz hpassed hk rfl hq hne, ?_, grown_self _ _⟩
        rw [← forked, size_forked]
        omega

theorem represents_empty : Represents empty (fun _ => []) [] := by
  have hfull : ∀ {v : List Char}, Full [] v → v = [] := fun hv => List.infix_nil.mp hv.occurs
  refine { root := rfl, full := fun _ => full_nil, inj := ?_, covers := ?_, len_eq := ?_,
           link_root := rfl, link_of := ?_, next_sound := ?_, next_complete := ?_ }
  · intro i j hi hj _
    have hi : i < 1 := hi
    have hj : j < 1 := hj
    omega
  · intro v hv
    exact ⟨0, Nat.one_pos, (hfull hv).symm⟩
  · intro i hi
    obtain rfl : i = 0 := Nat.lt_one_iff.mp hi
    rfl
  · intro i hi hne
    exact absurd (Nat.lt_one_iff.mp hi) hne
  · intro i c j hi hnext
    obtain rfl : i = 0 := Nat.lt_one_iff.mp hi
    cases hnext
  · intro i c hi hoccurs
    have hnil := List.infix_nil.mp hoccurs
    cases hnil

theorem Represents.extendAll (rest : List Char) : ∀ {a : SuffixAutomaton} {word : Nat → List Char}
    {p : List Char} {last : Nat}, Represents a word p → last < a.size → word last = p →
      ∃ word', Represents (a.extendAll last rest) word' (p ++ rest) := by
  induction rest with
  | nil =>
      intro a word p last h _ _
      rw [SuffixAutomaton.extendAll, List.append_nil]
      exact ⟨word, h⟩
  | cons c rest ih =>
      intro a word p last h hlast htext
      obtain ⟨word', h', hlast', htext'⟩ := h.extend hlast htext c
      obtain ⟨word'', h''⟩ := ih h' hlast' htext'
      rw [List.append_assoc, List.singleton_append] at h''
      exact ⟨word'', h''⟩

/-- The automaton that is built for a text represents it. -/
theorem exists_represents_build (text : List Char) : ∃ word, Represents (build text) word text :=
  Represents.extendAll text represents_empty Nat.one_pos rfl

end Ideas.Similarity.SuffixAutomaton
