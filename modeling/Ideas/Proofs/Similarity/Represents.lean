/-
The states of a suffix automaton and their words.

An automaton represents a text if its states are the full words of the text: the `word` of
a state is the longest of the words that belong to it.  Links lead to the longest full
suffix, and a way leads from a state to the one whose words are the same as its own word
with the character added (`Represents`).

To climb the links from a state is to go through the full suffixes of its word, the longer
ones first.  For a condition that holds of all shorter ones once it holds, `Climbed` tells
which states are passed over and which one is stopped at.

The lemmas at the beginning say what each change to an automaton does to what is read from
it.
-/
import Ideas.Proofs.Similarity.Words
import Ideas.Similarity.SuffixAutomaton

namespace Ideas.Similarity

/-! ### Changes, and what is read afterwards -/

theorem State.lookup_setNext (s : State) (c d : Char) (target : Nat) :
    (s.setNext c target).next.lookup d = if d = c then some target else s.next.lookup d := by
  rw [State.setNext, List.lookup_cons]
  by_cases hd : d = c
  · simp [hd]
  · rw [beq_false_of_ne hd, if_neg hd]
    induction s.next with
    | nil => rfl
    | cons way rest ih => grind

namespace SuffixAutomaton

variable {a : SuffixAutomaton} {i j : Nat} {c d : Char}

/-- How many states there are. -/
def size (a : SuffixAutomaton) : Nat :=
  a.states.size

theorem len_eq_getD (a : SuffixAutomaton) (i : Nat) :
    a.len i = (a.states[i]?.map State.len).getD 0 := by
  rw [len]
  cases a.states[i]? <;> rfl

theorem getElem?_push (a : SuffixAutomaton) (s : State) (i : Nat) :
    (a.push s).states[i]? = if i = a.size then some s else a.states[i]? :=
  Array.getElem?_push

@[simp] theorem size_push (a : SuffixAutomaton) (s : State) : (a.push s).size = a.size + 1 :=
  Array.size_push s

theorem len_push (a : SuffixAutomaton) (s : State) (i : Nat) :
    (a.push s).len i = if i = a.size then s.len else a.len i := by
  rw [len_eq_getD, getElem?_push, len_eq_getD]
  split <;> rfl

theorem link?_push (a : SuffixAutomaton) (s : State) (i : Nat) :
    (a.push s).link? i = if i = a.size then s.link else a.link? i := by
  rw [link?, getElem?_push, link?]
  split <;> rfl

theorem next?_push (a : SuffixAutomaton) (s : State) (i : Nat) (c : Char) :
    (a.push s).next? i c = if i = a.size then s.next.lookup c else a.next? i c := by
  rw [next?, getElem?_push, next?]
  split <;> rfl

theorem getElem?_setLink (a : SuffixAutomaton) (j link i : Nat) :
    (a.setLink j link).states[i]?
      = if j = i then a.states[i]?.map (fun s => { s with link := some link }) else a.states[i]? :=
  Array.getElem?_modify

@[simp] theorem size_setLink (a : SuffixAutomaton) (j link : Nat) :
    (a.setLink j link).size = a.size :=
  Array.size_modify

@[simp] theorem len_setLink (a : SuffixAutomaton) (j link i : Nat) :
    (a.setLink j link).len i = a.len i := by
  rw [len_eq_getD, getElem?_setLink, len_eq_getD]
  split
  · cases a.states[i]? <;> rfl
  · rfl

@[simp] theorem next?_setLink (a : SuffixAutomaton) (j link i : Nat) (c : Char) :
    (a.setLink j link).next? i c = a.next? i c := by
  rw [next?, getElem?_setLink, next?]
  split
  · cases a.states[i]? <;> rfl
  · rfl

theorem link?_setLink (a : SuffixAutomaton) {j : Nat} (hj : j < a.size) (link i : Nat) :
    (a.setLink j link).link? i = if i = j then some link else a.link? i := by
  rw [link?, getElem?_setLink, link?]
  by_cases hij : j = i
  · subst hij
    have hget : a.states[j]? = some a.states[j] := Array.getElem?_eq_getElem hj
    rw [if_pos rfl, if_pos rfl, hget]
    rfl
  · rw [if_neg hij, if_neg (Ne.symm hij)]

theorem setNext_cons (a : SuffixAutomaton) (c : Char) (target source : Nat) (rest : List Nat) :
    a.setNext c target (source :: rest) = (a.setNext c target [source]).setNext c target rest :=
  rfl

theorem getElem?_setNext_singleton (a : SuffixAutomaton) (c : Char) (target source i : Nat) :
    (a.setNext c target [source]).states[i]?
      = if source = i then a.states[i]?.map (·.setNext c target) else a.states[i]? := by
  show (a.states.modify source (·.setNext c target))[i]? = _
  exact Array.getElem?_modify

@[simp] theorem size_setNext (a : SuffixAutomaton) (c : Char) (target : Nat) (sources : List Nat) :
    (a.setNext c target sources).size = a.size := by
  induction sources generalizing a with
  | nil => rfl
  | cons source rest ih =>
      rw [setNext_cons, ih]
      show (a.states.modify source (·.setNext c target)).size = _
      exact Array.size_modify

@[simp] theorem len_setNext (a : SuffixAutomaton) (c : Char) (target : Nat) (sources : List Nat)
    (i : Nat) : (a.setNext c target sources).len i = a.len i := by
  induction sources generalizing a with
  | nil => rfl
  | cons source rest ih =>
      rw [setNext_cons, ih, len_eq_getD, getElem?_setNext_singleton, len_eq_getD]
      split
      · cases a.states[i]? <;> rfl
      · rfl

@[simp] theorem link?_setNext (a : SuffixAutomaton) (c : Char) (target : Nat) (sources : List Nat)
    (i : Nat) : (a.setNext c target sources).link? i = a.link? i := by
  induction sources generalizing a with
  | nil => rfl
  | cons source rest ih =>
      rw [setNext_cons, ih, link?, getElem?_setNext_singleton, link?]
      split
      · cases a.states[i]? <;> rfl
      · rfl

theorem next?_setNext (a : SuffixAutomaton) (c : Char) (target : Nat) {sources : List Nat}
    (hsources : ∀ i ∈ sources, i < a.size) (i : Nat) (d : Char) :
    (a.setNext c target sources).next? i d
      = if i ∈ sources ∧ d = c then some target else a.next? i d := by
  induction sources generalizing a with
  | nil => simp [setNext]
  | cons source rest ih =>
      have hsource : source < a.size := hsources source List.mem_cons_self
      have hsingle : (a.setNext c target [source]).next? i d
          = if i = source ∧ d = c then some target else a.next? i d := by
        rw [next?, getElem?_setNext_singleton, next?]
        by_cases hi : source = i
        · subst hi
          have hget : a.states[source]? = some a.states[source] := Array.getElem?_eq_getElem hsource
          rw [if_pos rfl, hget]
          simp only [Option.map_some, Option.bind_some, State.lookup_setNext, true_and]
        · rw [if_neg hi, if_neg fun h => hi h.1.symm]
      rw [setNext_cons, ih, hsingle]
      · simp only [List.mem_cons]
        split <;> split <;> grind
      · intro i hi
        rw [size_setNext]
        exact hsources i (List.mem_cons_of_mem _ hi)

/-! ### States and words -/

/-- The first `n` states are the full words of the text `p`, and their links lead to the longest
full suffixes. -/
structure Linked (a : SuffixAutomaton) (word : Nat → List Char) (p : List Char) (n : Nat) :
    Prop where
  root : word 0 = []
  full : ∀ {i}, i < n → Full p (word i)
  inj : ∀ {i j}, i < n → j < n → word i = word j → i = j
  covers : ∀ {v}, Full p v → ∃ i, i < n ∧ word i = v
  len_eq : ∀ {i}, i < n → a.len i = (word i).length
  link_root : a.link? 0 = none
  link_of : ∀ {i}, i < n → i ≠ 0 → ∃ j, j < n ∧ a.link? i = some j ∧ IsLink p (word i) (word j)

/-- The automaton represents the text `p`. -/
structure Represents (a : SuffixAutomaton) (word : Nat → List Char) (p : List Char) : Prop
    extends Linked a word p a.size where
  next_sound : ∀ {i c j}, i < a.size → a.next? i c = some j →
    j < a.size ∧ Same p (word i ++ [c]) (word j)
  next_complete : ∀ {i c}, i < a.size → word i ++ [c] <:+: p → ∃ j, a.next? i c = some j

variable {word : Nat → List Char} {p : List Char} {n : Nat}

theorem Linked.size_pos (h : Linked a word p n) : 0 < n := by
  obtain ⟨i, hi, -⟩ := h.covers full_nil
  omega

/-- A link leads to the longest full suffix. -/
theorem Linked.isLink (h : Linked a word p n) (hi : i < n) (hlink : a.link? i = some j) :
    j < n ∧ IsLink p (word i) (word j) := by
  have hroot : i ≠ 0 := by
    rintro rfl
    cases h.link_root.symm.trans hlink
  obtain ⟨k, hk, hlink', isLink⟩ := h.link_of hi hroot
  cases hlink.symm.trans hlink'
  exact ⟨hk, isLink⟩

/-- A link leads to shorter words. -/
theorem Linked.link_lt (h : Linked a word p n) (hi : i < n) (hlink : a.link? i = some j) :
    j < n ∧ a.len j < a.len i := by
  obtain ⟨hj, isLink⟩ := h.isLink hi hlink
  rw [h.len_eq hi, h.len_eq hj]
  exact ⟨hj, isLink.length_lt⟩

/-- A way leads on exactly where the word does. -/
theorem Represents.next_isSome (h : Represents a word p) (hi : i < a.size) :
    (a.next? i c).isSome = true ↔ word i ++ [c] <:+: p := by
  constructor
  · intro hnext
    obtain ⟨j, hj⟩ := Option.isSome_iff_exists.mp hnext
    obtain ⟨hlt, hsame⟩ := h.next_sound hi hj
    exact hsame.symm.occurs (h.full hlt).occurs
  · intro hoccurs
    obtain ⟨j, hj⟩ := h.next_complete hi hoccurs
    rw [hj]
    rfl

/-! ### Climbing -/

/-- Of the states that the links lead to from `i`, itself included, those in `passed` are the ones
at which `stop` does not hold, and `top` is the one with the longest word at which it does. -/
structure Climbed (word : Nat → List Char) (n : Nat) (stop : Nat → Bool) (i : Nat)
    (passed : List Nat) (top : Option Nat) : Prop where
  mem_passed : ∀ j, j ∈ passed ↔ j < n ∧ word j <:+ word i ∧ stop j = false
  top_some : ∀ {k}, top = some k → k < n ∧ word k <:+ word i ∧ stop k = true ∧
    ∀ j, j < n → word j <:+ word i → stop j = true → word j <:+ word k
  top_none : top = none → ∀ j, j < n → word j <:+ word i → stop j = false

/-- From a state one climbs through its full suffixes. -/
theorem Linked.climbed (h : Linked a word p n) {stop : Nat → Bool} (hi : i < n)
    (hstop : ∀ j k, j < n → k < n → word j <:+ word i → word k <:+ word j → stop j = true →
      stop k = true) :
    Climbed word n stop i (a.climb stop i).1 (a.climb stop i).2 := by
  induction hlen : a.len i using Nat.strong_induction_on generalizing i with
  | _ len ih =>
      rw [climb]
      cases hhere : stop i with
      | true =>
          simp only [if_true]
          refine ⟨fun j => ?_, ?_, ?_⟩
          · rw [List.mem_nil_iff, false_iff]
            rintro ⟨hj, hsuffix, hnot⟩
            rw [hstop i j hi hj (List.suffix_refl _) hsuffix hhere] at hnot
            cases hnot
          · rintro k ⟨⟩
            exact ⟨hi, List.suffix_refl _, hhere, fun _ _ hsuffix _ => hsuffix⟩
          · intro hnone
            cases hnone
      | false =>
          simp only [Bool.false_eq_true, if_false]
          by_cases hroot : i = 0
          · -- The root has no suffix but itself.
            subst hroot
            have honly : ∀ {j}, j < n → word j <:+ word 0 → j = 0 := by
              intro j hj hsuffix
              rw [h.root] at hsuffix
              exact h.inj hj hi ((List.suffix_nil.mp hsuffix).trans h.root.symm)
            simp only [h.link_root]
            refine ⟨fun j => ?_, fun {k} hk => (Option.some_ne_none k hk.symm).elim,
              fun _ j hj hsuffix => ?_⟩
            · rw [List.mem_singleton]
              constructor
              · rintro rfl
                exact ⟨hi, List.suffix_refl _, hhere⟩
              · rintro ⟨hj, hsuffix, -⟩
                exact honly hj hsuffix
            · rw [honly hj hsuffix]
              exact hhere
          · obtain ⟨j, hj, hlink, isLink⟩ := h.link_of hi hroot
            have hshorter : a.len j < a.len i := (h.link_lt hi hlink).2
            simp only [hlink, hshorter, if_true]
            have above : Climbed word n stop j (a.climb stop j).1 (a.climb stop j).2 := by
              refine ih (a.len j) (hlen ▸ hshorter) hj ?_ rfl
              intro x y hx hy hsuffix
              exact hstop x y hx hy (hsuffix.trans isLink.suffix)
            -- A suffix is the state itself, or among the suffixes of its link.
            have hcases : ∀ {k}, k < n → word k <:+ word i → k = i ∨ word k <:+ word j := by
              intro k hk hsuffix
              by_cases heq : word k = word i
              · exact Or.inl (h.inj hk hi heq)
              · exact Or.inr (isLink.longest _ (h.full hk) hsuffix heq)
            have hnot : ∀ {k}, k < n → word k <:+ word i → stop k = true → word k <:+ word j := by
              intro k hk hsuffix hk'
              rcases hcases hk hsuffix with rfl | hsuffix
              · rw [hhere] at hk'
                cases hk'
              · exact hsuffix
            refine ⟨fun k => ?_, fun {k} htop => ?_, fun htop k hk hsuffix => ?_⟩
            · rw [List.mem_cons, above.mem_passed]
              constructor
              · rintro (rfl | ⟨hk, hsuffix, hk'⟩)
                · exact ⟨hi, List.suffix_refl _, hhere⟩
                · exact ⟨hk, hsuffix.trans isLink.suffix, hk'⟩
              · rintro ⟨hk, hsuffix, hk'⟩
                exact (hcases hk hsuffix).imp_right fun hsuffix => ⟨hk, hsuffix, hk'⟩
            · obtain ⟨hk, hsuffix, hk', hlongest⟩ := above.top_some htop
              exact ⟨hk, hsuffix.trans isLink.suffix, hk',
                fun x hx hx' hx'' => hlongest x hx (hnot hx hx' hx'') hx''⟩
            · rcases hcases hk hsuffix with rfl | hsuffix
              · exact hhere
              · exact above.top_none htop k hk hsuffix

end SuffixAutomaton

end Ideas.Similarity
