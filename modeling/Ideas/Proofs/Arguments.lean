/-
Options are read as they are spelled.

An option with a value is one argument, in which the value is attached to its name, or two, the
second of which must not look like anything but a word.  Attached, any text is a value.  `Spells`
says which arguments stand for which settings, and `scan_of_spells`, by induction on it, that they
are read as just these, whatever stands behind them.
-/
import Ideas.Command.Arguments
import Mathlib.Data.List.TakeWhile

namespace Ideas.Arguments

variable {rules : List Rule} {settings : List Setting} {args : List String}
  {name value : String}

/-- The first equals sign is found behind a text that has none. -/
theorem cut_at_equals {left : List Char} (h : '=' ∉ left) (right : List Char) :
    (left ++ '=' :: right).takeWhile (· ≠ '=') = left ∧
      (left ++ '=' :: right).dropWhile (· ≠ '=') = '=' :: right := by
  have hleft : ∀ c ∈ left, decide (c ≠ '=') = true := by
    rintro c hc
    exact decide_eq_true fun heq => h (heq ▸ hc)
  constructor
  · rw [List.takeWhile_append_of_pos hleft, List.takeWhile_cons_of_neg (by decide), List.append_nil]
  · rw [List.dropWhile_append_of_pos hleft, List.dropWhile_cons_of_neg (by decide)]

/-! ### Forms -/

/-- A name that can be told from what is attached to it. -/
def IsName (name : String) : Prop :=
  name ≠ "" ∧ '=' ∉ name.toList

instance (name : String) : Decidable (IsName name) :=
  inferInstanceAs (Decidable (_ ∧ _))

theorem formOf_eq_partName {rest : List Char} {argument : String}
    (h : argument.toList = '-' :: '-' :: rest) (hrest : rest ≠ []) :
    formOf argument = partName rest := by
  rw [formOf, h]
  cases rest with
  | nil => exact absurd rfl hrest
  | cons c cs => rfl

theorem formOf_attached (h : IsName name) (value : String) :
    formOf ("--" ++ name ++ "=" ++ value) = .option name (some value) := by
  have hchars : ("--" ++ name ++ "=" ++ value).toList
      = '-' :: '-' :: (name.toList ++ '=' :: value.toList) := by
    simp
  obtain ⟨htake, hdrop⟩ := cut_at_equals h.2 value.toList
  rw [formOf_eq_partName hchars (by simp), partName, htake, hdrop]
  simp

theorem formOf_apart (h : IsName name) : formOf ("--" ++ name) = .option name none := by
  have hchars : ("--" ++ name).toList = '-' :: '-' :: name.toList := by
    simp
  have hne : name.toList ≠ [] := by
    simpa using h.1
  have hall : ∀ c ∈ name.toList, decide (c ≠ '=') = true := by
    intro c hc
    exact decide_eq_true fun heq => h.2 (heq ▸ hc)
  rw [formOf_eq_partName hchars hne, partName, List.takeWhile_eq_self_iff.mpr hall,
    List.dropWhile_eq_nil_iff.mpr hall, String.ofList_toList]

/-! ### Settings -/

/-- An option, once with each of some values. -/
def settingsOf (name : String) (given : List String) : List Setting :=
  given.map fun value => ⟨name, some value⟩

theorem named_eq_nil (h : ∀ s ∈ settings, s.name ≠ name) :
    named name settings = [] := by
  rw [named, List.filter_eq_nil_iff]
  exact fun s hs heq => h s hs (of_decide_eq_true heq)

theorem values_append (name : String) (settings more : List Setting) :
    values name (settings ++ more) = values name settings ++ values name more := by
  rw [values, named, List.filter_append, List.filterMap_append]
  rfl

theorem values_settingsOf (name other : String) (given : List String) :
    values name (settingsOf other given) = if other = name then given else [] := by
  split
  · next h => simp [settingsOf, values, named, h, List.filter_map, Function.comp_def]
  · next h =>
      have hnone : ∀ s ∈ settingsOf other given, s.name ≠ name := by
        intro s hs
        obtain ⟨_, -, rfl⟩ := List.mem_map.mp hs
        exact h
      rw [values, named_eq_nil hnone]
      rfl

/-! ### Spelling -/

/-- The arguments that stand for settings: each value is attached to its option or comes next. -/
inductive Spells : List Setting → List String → Prop
  | nil : Spells [] []
  | attached {name value : String} {settings : List Setting} {args : List String}
      (h : Spells settings args) :
      Spells (⟨name, some value⟩ :: settings) (("--" ++ name ++ "=" ++ value) :: args)
  | apart {name value : String} {settings : List Setting} {args : List String}
      (hvalue : formOf value = .word) (h : Spells settings args) :
      Spells (⟨name, some value⟩ :: settings) (("--" ++ name) :: value :: args)

theorem Spells.append {more : List Setting} {others : List String} (h : Spells settings args)
    (hmore : Spells more others) : Spells (settings ++ more) (args ++ others) := by
  induction h with
  | nil => exact hmore
  | attached _ ih => exact .attached ih
  | apart hvalue _ ih => exact .apart hvalue ih

/-- Any values can be attached. -/
theorem exists_spells (h : ∀ s ∈ settings, s.value.isSome) : ∃ args, Spells settings args := by
  induction settings with
  | nil => exact ⟨_, .nil⟩
  | cons s rest ih =>
      obtain ⟨hs, hrest⟩ := List.forall_mem_cons.mp h
      obtain ⟨args, hspells⟩ := ih hrest
      obtain ⟨name, _ | value⟩ := s
      · cases hs
      · exact ⟨_, .attached hspells⟩

/-- Every option that is spelled out has a value. -/
theorem Spells.length_named (h : Spells settings args) (name : String) :
    (named name settings).length = (values name settings).length := by
  induction h with
  | nil => rfl
  | @attached name' _ _ _ _ ih | @apart name' _ _ _ _ _ ih =>
      rw [values, named, List.filter_cons]
      by_cases hname : name' = name
      · rw [if_pos (decide_eq_true hname), List.length_cons, List.filterMap_cons, List.length_cons,
          ← named, ih, values]
      · rw [if_neg fun h => hname (of_decide_eq_true h), ← named, ih, values]

/-- Arguments that spell options out are read as these options, and then the rest is read. -/
theorem scan_of_spells (h : Spells settings args)
    (hknown : ∀ s ∈ settings, IsName s.name ∧ takesValue? rules s.name = some true)
    (untilWord : Bool) (rest : List String) : scan rules untilWord (args ++ rest)
      = (scan rules untilWord rest).map fun read => (settings ++ read.1, read.2) := by
  induction h with
  | nil => exact Option.map_id'.symm
  | attached _ ih =>
      obtain ⟨⟨hname, htakes⟩, hknown⟩ := List.forall_mem_cons.mp hknown
      rw [List.cons_append, scan]
      simp only [formOf_attached hname, htakes]
      rw [ih hknown, Option.map_map]
      rfl
  | apart hvalue _ ih =>
      obtain ⟨⟨hname, htakes⟩, hknown⟩ := List.forall_mem_cons.mp hknown
      rw [List.cons_append, List.cons_append, scan]
      simp only [formOf_apart hname, htakes, hvalue, if_true]
      rw [ih hknown, Option.map_map]
      rfl

/-- The arguments of a command with one word: options before and behind it, or the word behind two
hyphens at the end. -/
inductive SpellsWith (word : String) : List Setting → List String → Prop
  | plain {before behind : List Setting} {args others : List String}
      (hbefore : Spells before args) (hbehind : Spells behind others)
      (hword : formOf word = .word) :
      SpellsWith word (before ++ behind) (args ++ word :: others)
  | escaped {settings : List Setting} {args : List String} (h : Spells settings args) :
      SpellsWith word settings (args ++ ["--", word])

variable {word : String}

theorem SpellsWith.spells (h : SpellsWith word settings args) : ∃ args, Spells settings args := by
  cases h with
  | plain hbefore hbehind _ => exact ⟨_, hbefore.append hbehind⟩
  | escaped h => exact ⟨_, h⟩

theorem scan_of_spellsWith (h : SpellsWith word settings args)
    (hknown : ∀ s ∈ settings, IsName s.name ∧ takesValue? rules s.name = some true) :
    scan rules false args = some (settings, [word]) := by
  cases h with
  | plain hbefore hbehind hword =>
      obtain ⟨hknown, hbehindKnown⟩ := List.forall_mem_append.mp hknown
      have hrest := scan_of_spells hbehind hbehindKnown false []
      rw [List.append_nil] at hrest
      rw [scan_of_spells hbefore hknown, scan]
      simp only [hword, hrest]
      simp [scan, withWord]
  | escaped h =>
      have hescape : formOf "--" = .escape := by decide
      rw [scan_of_spells h hknown, scan]
      simp [hescape]

end Ideas.Arguments
