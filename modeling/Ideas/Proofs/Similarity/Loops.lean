/-
The loops of the automaton, and why they end.

`climb` gives up at a link that does not lead to shorter words, so it ends whatever the links
are.  The loops that it stands for have no such guard: they go on for as long as there is a
link, and set each way as they pass its state.  Here they are written like that (`Redirects`,
`FallsBack`), as relations that have a result only if the loop ends, and looks at no state
that is not there.

On an automaton that represents a text they end.  Its links lead to shorter words, so the
guard is never needed, and a state that was passed is not met again, so it makes no difference
that its way was set meanwhile.  Hence for each text there is one automaton that can be built
and one way to read it, and these are what is computed (`builds_iff`, `reads_build_iff`).
-/
import Ideas.Proofs.Similarity.Matching

namespace Ideas.Similarity.SuffixAutomaton

variable {a b a' b' : SuffixAutomaton} {word : Nat → List Char} {p t : List Char} {c : Char}
  {n i j last last' : Nat} {top top' : Option Nat}

/-! ### The loops of the construction -/

/-- From state to state along the links the character is led to `target`, until `stop` holds of
where it leads, or there is no link. -/
inductive Redirects (c : Char) (stop : Option Nat → Bool) (target : Nat) :
    SuffixAutomaton → Option Nat → SuffixAutomaton → Option Nat → Prop
  | out {a : SuffixAutomaton} : Redirects c stop target a none a none
  | halt {a : SuffixAutomaton} {i : Nat} (hi : i < a.size) (hstop : stop (a.next? i c) = true) :
      Redirects c stop target a (some i) a (some i)
  | pass {a b : SuffixAutomaton} {i : Nat} {top : Option Nat} (hi : i < a.size)
      (hgo : stop (a.next? i c) = false)
      (rest : Redirects c stop target (a.setNext c target [i])
        ((a.setNext c target [i]).link? i) b top) :
      Redirects c stop target a (some i) b top

/-- The new state is linked once the links have been followed: to the root if no state was found to
go on with the character (`fresh`), to the state it goes on to if that one has no longer words
(`whole`), and else to one more state, which takes over its shorter words (`part`). -/
inductive Joins (b : SuffixAutomaton) (new : Nat) (c : Char) : Option Nat → SuffixAutomaton → Prop
  | fresh : Joins b new c none (b.setLink new 0)
  | whole {i q : Nat} (way : b.next? i c = some q) (hq : q < b.size)
      (hlen : b.len i + 1 = b.len q) : Joins b new c (some i) (b.setLink new q)
  | part {b' : SuffixAutomaton} {i q : Nat} {top : Option Nat} (way : b.next? i c = some q)
      (hq : q < b.size) (hlen : b.len i + 1 ≠ b.len q)
      (move : Redirects c (fun way => way ≠ some q) b.size
        (b.push
          { len := b.len i + 1
            link := b.link? q
            next := (b.states[q]?.map State.next).getD [] })
        (some i) b' top) :
      Joins b new c (some i) ((b'.setLink q b.size).setLink new b.size)

/-- A character is added at the end of a text, whose whole belongs to the state `last`. -/
inductive Extends (a : SuffixAutomaton) (last : Nat) (c : Char) : SuffixAutomaton → Nat → Prop
  | grow {b b' : SuffixAutomaton} {top : Option Nat} (hlast : last < a.size)
      (walk : Redirects c Option.isSome a.size (a.push { len := a.len last + 1 }) (some last) b top)
      (join : Joins b a.size c top b') : Extends a last c b' a.size

/-- The characters of a text are added one by one. -/
inductive Builds : SuffixAutomaton → Nat → List Char → SuffixAutomaton → Prop
  | done {a : SuffixAutomaton} {last : Nat} : Builds a last [] a
  | more {a a' b : SuffixAutomaton} {last last' : Nat} {c : Char} {rest : List Char}
      (first : Extends a last c a' last') (others : Builds a' last' rest b) :
      Builds a last (c :: rest) b

/-! ### No two results -/

theorem Redirects.unique {stop : Option Nat → Bool} {target : Nat} {from? : Option Nat}
    (h : Redirects c stop target a from? b top) (h' : Redirects c stop target a from? b' top') :
    b = b' ∧ top = top' := by
  induction h with
  | out =>
      cases h'
      exact ⟨rfl, rfl⟩
  | halt _ hstop =>
      cases h' with
      | halt => exact ⟨rfl, rfl⟩
      | pass _ hgo _ => cases hstop.symm.trans hgo
  | pass _ hgo _ ih =>
      cases h' with
      | halt _ hstop => cases hstop.symm.trans hgo
      | pass _ _ rest => exact ih rest

theorem Joins.unique {new : Nat} (h : Joins a new c top b) (h' : Joins a new c top b') :
    b = b' := by
  cases h with
  | fresh =>
      cases h'
      rfl
  | whole way _ hlen =>
      cases h' with
      | whole way' =>
          cases way.symm.trans way'
          rfl
      | part way' _ hlen' =>
          cases way.symm.trans way'
          exact absurd hlen hlen'
  | part way _ hlen move =>
      cases h' with
      | whole way' _ hlen' =>
          cases way.symm.trans way'
          exact absurd hlen' hlen
      | part way' _ _ move' =>
          cases way.symm.trans way'
          rw [(move.unique move').1]

theorem Extends.unique (h : Extends a last c b i) (h' : Extends a last c b' j) :
    b = b' ∧ i = j := by
  obtain ⟨-, walk, join⟩ := h
  obtain ⟨-, walk', join'⟩ := h'
  obtain ⟨rfl, rfl⟩ := walk.unique walk'
  exact ⟨join.unique join', rfl⟩

theorem Builds.unique (h : Builds a last t b) (h' : Builds a last t b') : b = b' := by
  induction h with
  | done =>
      cases h'
      rfl
  | more first _ ih =>
      cases h' with
      | more first' others =>
          obtain ⟨rfl, rfl⟩ := first.unique first'
          exact ih others

/-! ### The construction ends -/

/-- The loop goes where the links are climbed, on any automaton that is the same at the states
which are still ahead. -/
theorem Linked.redirects (h : Linked a word p n) (c : Char) (stop : Option Nat → Bool)
    (target : Nat) : ∀ {i : Nat} {b : SuffixAutomaton}, i < n → n ≤ b.size →
      (∀ j, j < n → a.len j ≤ a.len i → b.link? j = a.link? j ∧ b.next? j c = a.next? j c) →
      Redirects c stop target b (some i)
        (b.setNext c target (a.climb (fun j => stop (a.next? j c)) i).1)
        (a.climb (fun j => stop (a.next? j c)) i).2 := by
  intro i
  induction hlen : a.len i using Nat.strong_induction_on generalizing i with
  | _ len ih =>
      intro b hi hn hagree
      obtain ⟨hlink, hnext⟩ := hagree i hi (Nat.le_of_eq hlen)
      have hib : i < b.size := Nat.lt_of_lt_of_le hi hn
      rw [climb]
      cases hhere : stop (a.next? i c) with
      | true =>
          simp only [if_true]
          exact .halt hib (hnext ▸ hhere)
      | false =>
          simp only [Bool.false_eq_true, if_false]
          have hgo : stop (b.next? i c) = false := hnext ▸ hhere
          cases hj : a.link? i with
          | none =>
              refine .pass hib hgo ?_
              rw [link?_setNext, hlink, hj]
              exact .out
          | some j =>
              obtain ⟨hjn, hshorter⟩ := h.link_lt hi hj
              simp only [hshorter, if_true]
              refine .pass hib hgo ?_
              rw [link?_setNext, hlink, hj,
                setNext_cons b c target i (a.climb (fun j => stop (a.next? j c)) j).1]
              refine ih (a.len j) (hlen ▸ hshorter) rfl hjn (by rwa [size_setNext])
                fun k hk hle => ?_
              obtain ⟨hlink', hnext'⟩ := hagree k hk (by omega)
              refine ⟨by rw [link?_setNext, hlink'], ?_⟩
              -- The state that was passed has longer words than those ahead.
              rw [next?_setNext, if_neg, hnext']
              · rintro ⟨hmem, -⟩
                rw [List.mem_singleton.mp hmem] at hle
                omega
              · simpa using hib

/-- A state that is added is never met. -/
theorem Linked.redirects_push (h : Linked a word p n) (c : Char) (stop : Option Nat → Bool)
    (target : Nat) (hi : i < n) (hn : n ≤ a.size) (s : State) :
    Redirects c stop target (a.push s) (some i)
      ((a.push s).setNext c target (a.climb (fun j => stop (a.next? j c)) i).1)
      (a.climb (fun j => stop (a.next? j c)) i).2 := by
  refine h.redirects c stop target hi (by rw [size_push]; omega) fun j hj _ => ?_
  rw [link?_push, next?_push, if_neg (by omega), if_neg (by omega)]
  exact ⟨rfl, rfl⟩

/-- One character is added as the computation does it. -/
theorem Represents.grows (h : Represents a word p) (hlast : last < a.size) (c : Char) :
    Extends a last c (a.extend last c).1 (a.extend last c).2 := by
  rcases hclimb : a.climb (fun i => (a.next? i c).isSome) last with ⟨passed, top⟩
  have climbed := h.climbed_isSome hlast hclimb
  have hpassed : ∀ i ∈ passed, i < a.size := fun i hi => ((climbed.mem_passed i).mp hi).1
  have walk : Redirects c Option.isSome a.size (a.push { len := a.len last + 1 }) (some last)
      (a.append (a.len last + 1) c passed) top := by
    have hwalk := h.toLinked.redirects_push c Option.isSome a.size hlast (Nat.le_refl _)
      { len := a.len last + 1 }
    rwa [hclimb] at hwalk
  rw [extend_eq hclimb]
  cases top with
  | none => exact .grow hlast walk .fresh
  | some k =>
      obtain ⟨hk, -, hnext, -⟩ := climbed.top_some rfl
      obtain ⟨q, hq⟩ := Option.isSome_iff_exists.mp hnext
      have hqlt : q < a.size := (h.next_sound hk hq).1
      have hq' : q < (a.append (a.len last + 1) c passed).size := by
        rw [size_append]
        omega
      have way : (a.append (a.len last + 1) c passed).next? k c = some q := by
        rw [next?_append hpassed, if_neg, if_neg (Nat.ne_of_lt hk)]
        · exact hq
        · rintro ⟨hmem, -⟩
          cases ((climbed.mem_passed k).mp hmem).2.2.symm.trans hnext
      simp only [Option.bind_some, way, Option.map_some]
      split
      · next hlen => exact .grow hlast walk (.whole way hq' hlen)
      · next hlen =>
          have linked : Linked (a.append (a.len last + 1) c passed) word p a.size :=
            h.toLinked.append
          have move := linked.redirects_push c (fun way => way ≠ some q)
            (a.append (a.len last + 1) c passed).size hk (by rw [size_append]; omega)
          exact .grow hlast walk (.part way hq' hlen (move _))

theorem Represents.builds (rest : List Char) : ∀ {a : SuffixAutomaton} {word : Nat → List Char}
    {p : List Char} {last : Nat}, Represents a word p → last < a.size → word last = p →
      Builds a last rest (a.extendAll last rest) := by
  induction rest with
  | nil => exact fun _ _ _ => .done
  | cons c rest ih =>
      intro a word p last h hlast htext
      obtain ⟨word', h', hlast', htext'⟩ := h.extend hlast htext c
      exact .more (h.grows hlast c) (ih h' hlast' htext')

/-- The construction ends, with the automaton that is built. -/
theorem builds_iff {text : List Char} : Builds empty 0 text a ↔ a = build text := by
  have hbuilds : Builds empty 0 text (build text) :=
    represents_empty.builds text Nat.one_pos rfl
  constructor
  · intro h
    exact h.unique hbuilds
  · rintro rfl
    exact hbuilds

/-! ### The loop of a text that is read -/

/-- From a state at which a character does not go on, one falls back to its link, and so on up to
the root; the length is then that of the state's longest word. -/
inductive FallsBack (a : SuffixAutomaton) (c : Char) : Nat → Nat → Nat → Nat → Prop
  | halt {i len : Nat} (hi : i < a.size) (hstop : a.stops c i = true) : FallsBack a c i len i len
  | fall {i len k m : Nat} (hi : i < a.size) (hgo : a.stops c i = false)
      (rest : FallsBack a c ((a.link? i).getD 0) (a.len ((a.link? i).getD 0)) k m) :
      FallsBack a c i len k m

/-- The characters of a text are read one by one, from a state and with a length. -/
inductive Reads (a : SuffixAutomaton) : Nat → Nat → List Char → List (Nat × Nat) → Prop
  | done {i len : Nat} : Reads a i len [] []
  | on {i len k m j : Nat} {c : Char} {rest : List Char} {visits : List (Nat × Nat)}
      (back : FallsBack a c i len k m) (way : a.next? k c = some j) (hj : j < a.size)
      (others : Reads a j (m + 1) rest visits) :
      Reads a i len (c :: rest) ((j, m + 1) :: visits)
  | lost {i len k m : Nat} {c : Char} {rest : List Char} {visits : List (Nat × Nat)}
      (back : FallsBack a c i len k m) (way : a.next? k c = none)
      (others : Reads a k 0 rest visits) :
      Reads a i len (c :: rest) ((k, 0) :: visits)

theorem FallsBack.unique {len k k' m m' : Nat} (h : FallsBack a c i len k m)
    (h' : FallsBack a c i len k' m') : k = k' ∧ m = m' := by
  induction h with
  | halt _ hstop =>
      cases h' with
      | halt => exact ⟨rfl, rfl⟩
      | fall _ hgo _ => cases hstop.symm.trans hgo
  | fall _ hgo _ ih =>
      cases h' with
      | halt _ hstop => cases hstop.symm.trans hgo
      | fall _ _ rest => exact ih rest

theorem Reads.unique {len : Nat} {visits visits' : List (Nat × Nat)}
    (h : Reads a i len t visits) (h' : Reads a i len t visits') : visits = visits' := by
  induction h generalizing visits' with
  | done =>
      cases h'
      rfl
  | on back way _ _ ih =>
      cases h' with
      | on back' way' _ others =>
          obtain ⟨rfl, rfl⟩ := back.unique back'
          cases way.symm.trans way'
          rw [ih others]
      | lost back' way' =>
          obtain ⟨rfl, rfl⟩ := back.unique back'
          cases way.symm.trans way'
  | lost back way _ ih =>
      cases h' with
      | on back' way' =>
          obtain ⟨rfl, rfl⟩ := back.unique back'
          cases way.symm.trans way'
      | lost back' way' others =>
          obtain ⟨rfl, rfl⟩ := back.unique back'
          rw [ih others]

/-- A climb that passes no state ends where it begins. -/
theorem climb_of_isEmpty {stop : Nat → Bool} (h : (a.climb stop i).1.isEmpty = true) :
    (a.climb stop i).2 = some i := by
  rw [climb] at h ⊢
  split at h
  · next hstop => rw [if_pos hstop]
  · split at h
    · cases h
    · split at h <;> cases h

/-- One falls back to where the links are climbed. -/
theorem Linked.fallsBack (h : Linked a word p n) (hn : n ≤ a.size) : ∀ {i : Nat} (len : Nat),
    i < n → FallsBack a c i len ((a.climb (a.stops c) i).2.getD 0)
      (if (a.climb (a.stops c) i).1.isEmpty then len
        else a.len ((a.climb (a.stops c) i).2.getD 0)) := by
  intro i
  induction hlen : a.len i using Nat.strong_induction_on generalizing i with
  | _ m ih =>
      intro len hi
      have hia : i < a.size := Nat.lt_of_lt_of_le hi hn
      rw [climb]
      cases hhere : a.stops c i with
      | true =>
          simp only [if_true]
          exact .halt hia hhere
      | false =>
          have hroot : i ≠ 0 := fun hzero => by
            cases hhere.symm.trans (stops_iff.mpr (.inl hzero))
          obtain ⟨j, hj, hlink, -⟩ := h.link_of hi hroot
          have hshorter := (h.link_lt hi hlink).2
          simp only [Bool.false_eq_true, if_false, hlink, hshorter, if_true, List.isEmpty_cons]
          have hrest := ih (a.len j) (hlen ▸ hshorter) rfl (a.len j) hj
          refine .fall hia hhere ?_
          rw [hlink, Option.getD_some]
          -- Whether or not it falls further, the length is that of the state it comes to.
          split at hrest
          · next hempty =>
              rw [climb_of_isEmpty hempty] at hrest ⊢
              exact hrest
          · exact hrest

theorem Represents.reads (h : Represents a word p) (rest : List Char) :
    ∀ {t : List Char} {state len : Nat}, HasRead a word p t state len →
      Reads a state len rest (a.run state len rest) := by
  induction rest with
  | nil => exact fun _ => .done
  | cons c rest ih =>
      intro t state len hread
      have hnext := h.advance c hread
      obtain ⟨-, -, hstate, -⟩ := hread
      have back := h.toLinked.fallsBack (Nat.le_refl _) (c := c) len hstate
      rcases hclimb : a.climb (a.stops c) state with ⟨passed, top⟩
      rw [hclimb] at back
      rw [run]
      rw [advance_eq hclimb] at hnext ⊢
      cases way : a.next? (top.getD 0) c with
      | some j =>
          rw [way, Option.elim_some] at hnext
          have hj : j < a.size := by
            obtain ⟨-, -, hj, -⟩ := hnext
            exact hj
          exact .on back way hj (ih hnext)
      | none =>
          rw [way, Option.elim_none] at hnext
          exact .lost back way (ih hnext)

/-- A text is read to its end, in the states that are run through. -/
theorem reads_build_iff {text : List Char} {visits : List (Nat × Nat)} :
    Reads (build text) 0 0 t visits ↔ visits = (build text).run 0 0 t := by
  obtain ⟨word, h⟩ := exists_represents_build text
  have hreads : Reads (build text) 0 0 t ((build text).run 0 0 t) := h.reads t h.hasRead_nil
  constructor
  · intro hvisits
    exact hvisits.unique hreads
  · rintro rfl
    exact hreads

end Ideas.Similarity.SuffixAutomaton
