/-
A value that is written as JSON text is read back as itself.

The reader takes one token after another, and what has been read so far stands on its
stack.  A value's tokens take it from the point where a value has to follow to the point
behind that value, whatever is on the stack and whatever comes next (`run_tokens`); this
is the whole argument, one case for each kind of value.
-/
import Ideas.Json.Printer
import Ideas.Json.Reader
import Ideas.Proofs.Json.Tokens

namespace Ideas.Json

open Progress

/-- A value all of whose tokens are read as they are written. -/
def Legible (v : Json) : Prop :=
  ∀ t ∈ v.tokens, t.Legible

/-! ### Legible values -/

theorem legible_string (s : String) : (string s).Legible := by
  intro t ht
  rw [tokens, List.mem_singleton] at ht
  exact ht ▸ rfl

/-- An array of legible items is legible. -/
theorem legible_array {items : List Json} (h : ∀ v ∈ items, v.Legible) :
    (array items).Legible := by
  have hitems : ∀ items : List Json, (∀ v ∈ items, v.Legible) →
      ∀ t ∈ itemTokens items, t.Legible := by
    intro items
    induction items with
    | nil =>
      intro _
      rw [itemTokens]
      exact List.forall_mem_singleton.mpr trivial
    | cons v more ih =>
      intro h
      have hmore := ih fun w hw => h w (List.mem_cons_of_mem v hw)
      have hv : ∀ t ∈ v.tokens, t.Legible := h v List.mem_cons_self
      cases more with
      | nil =>
        rw [itemTokens]
        exact List.forall_mem_append.mpr ⟨hv, List.forall_mem_singleton.mpr trivial⟩
      | cons w more =>
        rw [itemTokens]
        · exact List.forall_mem_append.mpr ⟨hv, List.forall_mem_cons.mpr ⟨trivial, hmore⟩⟩
        · simp
  intro t ht
  rw [tokens] at ht
  rcases List.mem_cons.mp ht with rfl | ht
  · trivial
  · exact hitems items h t ht

/-- An object is legible if the values of its fields are. -/
theorem legible_object {fields : List (String × Json)} (h : ∀ f ∈ fields, f.2.Legible) :
    (object fields).Legible := by
  have hfields : ∀ fields : List (String × Json), (∀ f ∈ fields, f.2.Legible) →
      ∀ t ∈ fieldTokens fields, t.Legible := by
    intro fields
    induction fields with
    | nil =>
      intro _
      rw [fieldTokens]
      exact List.forall_mem_singleton.mpr trivial
    | cons f more ih =>
      obtain ⟨name, v⟩ := f
      intro h
      have hmore := ih fun g hg => h g (List.mem_cons_of_mem _ hg)
      have hv : ∀ t ∈ v.tokens, t.Legible := h (name, v) List.mem_cons_self
      cases more with
      | nil =>
        rw [fieldTokens]
        exact List.forall_mem_cons.mpr ⟨rfl, List.forall_mem_cons.mpr ⟨trivial,
          List.forall_mem_append.mpr ⟨hv, List.forall_mem_singleton.mpr trivial⟩⟩⟩
      | cons g more =>
        rw [fieldTokens]
        · exact List.forall_mem_cons.mpr ⟨rfl, List.forall_mem_cons.mpr ⟨trivial,
            List.forall_mem_append.mpr ⟨hv, List.forall_mem_cons.mpr ⟨trivial, hmore⟩⟩⟩⟩
        · simp
  intro t ht
  rw [tokens] at ht
  rcases List.mem_cons.mp ht with rfl | ht
  · trivial
  · exact hfields fields h t ht

theorem legible_ofList {α : Type} {encode : α → Json} {items : List α}
    (h : ∀ a ∈ items, (encode a).Legible) : (ofList encode items).Legible :=
  legible_array fun v hv => by
    obtain ⟨a, ha, rfl⟩ := List.mem_map.mp hv
    exact h a ha

/-! ### The tokens of a value may stand in a row -/

/-- The tokens behind a value: none, or a comma or an end in front. -/
def Trails (rest : List Token) : Prop :=
  rest.IsChain Token.Precedes ∧ ∀ t ∈ rest.head?, t.EndsValue

theorem trails_nil : Trails [] :=
  ⟨List.IsChain.nil, by rintro t ⟨⟩⟩

theorem isChain_cons {t : Token} {rest : List Token} (ht : ∀ n, t ≠ .number n)
    (h : rest.IsChain Token.Precedes) : (t :: rest).IsChain Token.Precedes := by
  refine List.isChain_cons.mpr ⟨?_, h⟩
  rintro next - ⟨n, hn⟩
  exact absurd hn (ht n)

theorem Trails.cons {t : Token} {rest : List Token} (ht : t.EndsValue)
    (h : rest.IsChain Token.Precedes) : Trails (t :: rest) := by
  refine ⟨isChain_cons ?_ h, ?_⟩
  · rintro n rfl
    rcases ht with h | h | h <;> cases h
  · rintro _ ⟨⟩
    exact ht

mutual

theorem isChain_tokens : ∀ (v : Json) {rest : List Token}, Trails rest →
    (v.tokens ++ rest).IsChain Token.Precedes
  | .null, rest, h => by rw [tokens]; exact isChain_cons (by simp) h.1
  | .bool b, rest, h => by rw [tokens]; exact isChain_cons (by simp) h.1
  | .string s, rest, h => by rw [tokens]; exact isChain_cons (by simp) h.1
  | .malformed, rest, h => by rw [tokens]; exact isChain_cons (by simp) h.1
  | .number n, rest, h => by
    rw [tokens]
    exact List.isChain_cons.mpr ⟨fun t ht _ => h.2 t ht, h.1⟩
  | .array items, rest, h => by
    rw [tokens]
    exact isChain_cons (by simp) (isChain_itemTokens items h)
  | .object fields, rest, h => by
    rw [tokens]
    exact isChain_cons (by simp) (isChain_fieldTokens fields h)

theorem isChain_itemTokens : ∀ (items : List Json) {rest : List Token}, Trails rest →
    (itemTokens items ++ rest).IsChain Token.Precedes
  | [], rest, h => by rw [itemTokens]; exact isChain_cons (by simp) h.1
  | [v], rest, h => by
    rw [itemTokens, List.append_assoc]
    exact isChain_tokens v (.cons (.inr (.inl rfl)) h.1)
  | v :: w :: more, rest, h => by
    rw [itemTokens, List.append_assoc]
    · exact isChain_tokens v (.cons (.inl rfl) (isChain_itemTokens (w :: more) h))
    · simp

theorem isChain_fieldTokens : ∀ (fields : List (String × Json)) {rest : List Token},
    Trails rest → (fieldTokens fields ++ rest).IsChain Token.Precedes
  | [], rest, h => by rw [fieldTokens]; exact isChain_cons (by simp) h.1
  | [(name, v)], rest, h => by
    have := isChain_tokens v (.cons (.inr (.inr rfl)) h.1)
    rw [fieldTokens]
    simp only [List.cons_append, List.append_assoc]
    exact isChain_cons (by simp) (isChain_cons (by simp) this)
  | (name, v) :: f :: more, rest, h => by
    have := isChain_tokens v (.cons (.inl rfl) (isChain_fieldTokens (f :: more) h))
    rw [fieldTokens]
    · simp only [List.cons_append, List.append_assoc]
      exact isChain_cons (by simp) (isChain_cons (by simp) this)
    · simp

end

/-! ### The tokens of a value are read as the value -/

theorem run_cons {p q : Progress} {t : Token} (h : step p t = some q) (ts : List Token) :
    run p (t :: ts) = run q ts := by
  rw [run, List.foldlM_cons, h]
  rfl

/-- A value does not begin with the end of an array. -/
theorem exists_tokens_eq_cons (v : Json) : ∃ t ts, v.tokens = t :: ts ∧ t ≠ .closeArray := by
  cases v <;> exact ⟨_, _, by rw [tokens], by simp⟩

/-- Where a first item may follow, a value is taken for one. -/
theorem run_firstItem (v : Json) (stack : List Frame) (rest : List Token) :
    run (.firstItem stack) (v.tokens ++ rest)
      = run (.value (.array [] :: stack)) (v.tokens ++ rest) := by
  obtain ⟨t, ts, htokens, ht⟩ := v.exists_tokens_eq_cons
  have hstep : step (.firstItem stack) t = step (.value (.array [] :: stack)) t := by
    rw [step.eq_3 _ _ ht, step]
  rw [htokens, List.cons_append, run, List.foldlM_cons, hstep, ← List.foldlM_cons, ← run]

/-- Fields whose names have texts make an object. -/
theorem closeFields_map (fields : List (String × Json)) :
    closeFields (fields.map fun f => (some f.1, f.2)) = .object fields := by
  have hnames : (fields.map fun f => (some f.1, f.2)).mapM
      (fun f => f.1.map (·, f.2)) = some fields := by
    induction fields with
    | nil => rfl
    | cons f fields ih => rw [List.map_cons, List.mapM_cons, ih]; rfl
  rw [closeFields]
  simp only [hnames]

mutual

/-- From where a value has to follow, its tokens lead behind it. -/
theorem run_tokens : ∀ (v : Json) (stack : List Frame) (rest : List Token),
    run (.value stack) (v.tokens ++ rest) = run (complete v stack) rest
  | .null, stack, rest => by rw [tokens]; exact run_cons rfl rest
  | .bool b, stack, rest => by rw [tokens]; exact run_cons rfl rest
  | .number n, stack, rest => by rw [tokens]; exact run_cons rfl rest
  | .string s, stack, rest => by rw [tokens]; exact run_cons rfl rest
  | .malformed, stack, rest => by rw [tokens]; exact run_cons rfl rest
  | .array [], stack, rest => by
    rw [tokens, itemTokens]
    exact (run_cons rfl _).trans (run_cons rfl rest)
  | .array (v :: more), stack, rest => by
    have hopen : run (.value stack) (.openArray :: (itemTokens (v :: more) ++ rest))
        = run (.firstItem stack) (itemTokens (v :: more) ++ rest) := run_cons rfl _
    have hfirst : run (.firstItem stack) (itemTokens (v :: more) ++ rest)
        = run (.value (.array [] :: stack)) (itemTokens (v :: more) ++ rest) := by
      cases more with
      | nil => rw [itemTokens, List.append_assoc, run_firstItem]
      | cons w more =>
        rw [itemTokens, List.append_assoc, run_firstItem]
        simp
    rw [tokens, List.cons_append, hopen, hfirst, run_itemTokens _ (List.cons_ne_nil v more),
      List.reverse_nil, List.nil_append]
  | .object [], stack, rest => by
    rw [tokens, fieldTokens]
    exact (run_cons rfl _).trans (run_cons rfl rest)
  | .object ((name, v) :: more), stack, rest => by
    have hopen : run (.value stack) (.openObject :: (fieldTokens ((name, v) :: more) ++ rest))
        = run (.firstField stack) (fieldTokens ((name, v) :: more) ++ rest) := run_cons rfl _
    have hfirst : run (.firstField stack) (fieldTokens ((name, v) :: more) ++ rest)
        = run (.field [] stack) (fieldTokens ((name, v) :: more) ++ rest) := by
      cases more with
      | nil => rw [fieldTokens]; rfl
      | cons g more =>
        rw [fieldTokens]
        · rfl
        · simp
    rw [tokens, List.cons_append, hopen, hfirst, run_fieldTokens _ (List.cons_ne_nil _ more),
      List.reverse_nil, List.nil_append, closeFields_map]

/-- The tokens of the items of an array lead behind the array. -/
theorem run_itemTokens : ∀ (items : List Json), items ≠ [] → ∀ (acc : List Json)
    (stack : List Frame) (rest : List Token),
    run (.value (.array acc :: stack)) (itemTokens items ++ rest)
      = run (complete (.array (acc.reverse ++ items)) stack) rest
  | [], h, _, _, _ => absurd rfl h
  | [v], _, acc, stack, rest => by
    rw [itemTokens, List.append_assoc, run_tokens, ← List.reverse_cons]
    exact run_cons rfl rest
  | v :: w :: more, _, acc, stack, rest => by
    have hmore := run_itemTokens (w :: more) (List.cons_ne_nil w more) (v :: acc) stack rest
    rw [itemTokens, List.append_assoc, run_tokens]
    · rw [List.reverse_cons, List.append_assoc, List.singleton_append] at hmore
      exact (run_cons rfl _).trans hmore
    · simp

/-- The tokens of the fields of an object lead behind the object. -/
theorem run_fieldTokens : ∀ (fields : List (String × Json)), fields ≠ [] →
    ∀ (acc : List (Option String × Json)) (stack : List Frame) (rest : List Token),
    run (.field acc stack) (fieldTokens fields ++ rest)
      = run (complete (closeFields (acc.reverse ++ fields.map fun f => (some f.1, f.2))) stack) rest
  | [], h, _, _, _ => absurd rfl h
  | [(name, v)], _, acc, stack, rest => by
    rw [fieldTokens]
    simp only [List.cons_append, List.append_assoc]
    refine (run_cons rfl _).trans ((run_cons rfl _).trans ?_)
    rw [run_tokens, List.map_singleton, ← List.reverse_cons]
    exact run_cons rfl rest
  | (name, v) :: f :: more, _, acc, stack, rest => by
    have hmore := run_fieldTokens (f :: more) (List.cons_ne_nil f more) ((some name, v) :: acc)
      stack rest
    rw [fieldTokens]
    · simp only [List.cons_append, List.append_assoc]
      refine (run_cons rfl _).trans ((run_cons rfl _).trans ?_)
      rw [run_tokens]
      rw [List.reverse_cons, List.append_assoc, List.singleton_append] at hmore
      exact (run_cons rfl _).trans hmore
    · simp

end

/-- What is written as JSON is read as the value that was written. -/
theorem read?_compact {v : Json} (h : v.Legible) : read? v.compact = some v := by
  have hchain : v.tokens.IsChain Token.Precedes := by
    have := isChain_tokens v trails_nil
    rwa [List.append_nil] at this
  have hrun : run (.value []) v.tokens = some (.done v) := by
    have := run_tokens v [] []
    rwa [List.append_nil] at this
  rw [read?, compact, String.toList_ofList, tokens?_flatMap h hchain]
  simp only [Option.bind_eq_bind, Option.bind_some, hrun]

end Ideas.Json
