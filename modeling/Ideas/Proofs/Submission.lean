/-
What people say of a new idea, and how it is read.

A `Submission` is a draft whose arcs are still texts.  It can be said on a command line, in any of
the ways in which options are spelled, and it can be said in a call of a tool.  Both are read as a
draft with the same title, body, tags and energy (`Submission.Invokes.ofArguments?` and
`Submission.ofCall`).  The literals of the arcs are read alike, too; but the label of an arc is cut
off at the blanks around it on the command line, and must not be empty then, and in a call it is
taken as it is.
-/
import Ideas.Command
import Ideas.Proofs.Arguments
import Ideas.Proofs.Database.Statements
import Ideas.Tool.Request
import Mathlib.Data.List.DropRight

namespace Ideas

/-! ### Blanks around a text -/

namespace Text

theorem trimChars_trimChars (cs : List Char) : trimChars (trimChars cs) = trimChars cs := by
  have hfront : (trimChars cs).dropWhile isBlank = trimChars cs := by
    rw [List.dropWhile_eq_self_iff]
    intro hpos
    have hstart : trimChars cs <+: cs.dropWhile isBlank := List.rdropWhile_prefix _ _
    rw [hstart.getElem hpos]
    exact List.dropWhile_get_zero_not _ cs _
  rw [trimChars, hfront]
  exact List.rdropWhile_idempotent isBlank (cs.dropWhile isBlank)

theorem trim_trim (s : String) : trim (trim s) = trim s := by
  rw [trim, trim, String.toList_ofList, trimChars_trimChars]

end Text

/-! ### Submissions -/

/-- Labels with their literals, without the blanks around the labels. -/
def trimLabels (pairs : List (String × String)) : List (String × String) :=
  pairs.map fun pair => (Text.trim pair.1, pair.2)

/-- What people say of a new idea: a draft whose arcs are still texts. -/
structure Submission where
  title : String
  content : Option String := none
  tags : List String := []
  energy : UInt8 := minEnergy
  /-- The labels of the arcs with their literals. -/
  pairs : List (String × String) := []

namespace Submission

/-- The draft that a submission becomes when its arcs are read. -/
def draft (sub : Submission) (arcs : List Arc) : Draft :=
  { title := sub.title, content := sub.content, tags := sub.tags, energy := sub.energy, arcs }

/-- The submission without the blanks around its labels. -/
def trimmed (sub : Submission) : Submission :=
  { sub with pairs := trimLabels sub.pairs }

/-- A submission that a command line has room for: its energy is one that ideas have, and there is
no equals sign in a label, for that is where a label ends. -/
structure Sayable (sub : Submission) : Prop where
  least : minEnergy ≤ sub.energy
  greatest : sub.energy ≤ maxEnergy
  labels : ∀ pair ∈ sub.pairs, '=' ∉ pair.1.toList

end Submission

/-! ### Reading arcs -/

section

variable {label literal : String} {pairs : List (String × String)} {arcs : List Arc}

theorem sides?_of_pair (h : '=' ∉ label.toList) :
    Arc.sides? (label ++ "=" ++ literal).toList = some (label.toList, literal.toList) := by
  obtain ⟨htake, hdrop⟩ := Arguments.cut_at_equals h literal.toList
  have hchars : (label ++ "=" ++ literal).toList = label.toList ++ '=' :: literal.toList := by
    simp
  rw [hchars, Arc.sides?, hdrop, htake]

/-- An arc is read from an argument as from parameters, but for the blanks around its label. -/
theorem ofArgument_of_pair (h : '=' ∉ label.toList) :
    (Arc.ofArgument (label ++ "=" ++ literal)).toOption
      = if Text.trim label = "" then none
        else (ToolRequest.arc (Text.trim label, literal)).toOption := by
  have hblank : Text.trimChars label.toList = [] ↔ Text.trim label = "" := by
    rw [Text.trim, String.ofList_eq_empty_iff]
  rw [Arc.ofArgument, sides?_of_pair h]
  by_cases hlabel : Text.trim label = ""
  · simp only [hblank.mpr hlabel, hlabel, if_true]
    rfl
  · rw [if_neg hlabel]
    simp only [mt hblank.mp hlabel, if_false, ToolRequest.arc, Text.trim]
    cases ArcValue.ofLiteral? (String.ofList (Text.trimChars literal.toList)) <;> rfl

/-- The arcs of a command line: none of them may have a blank label. -/
theorem mapM_ofArgument (h : ∀ pair ∈ pairs, '=' ∉ pair.1.toList) :
    (pairs.map fun pair => pair.1 ++ "=" ++ pair.2).mapM (fun s => (Arc.ofArgument s).toOption)
      = if ∃ pair ∈ pairs, Text.trim pair.1 = "" then none
        else ((trimLabels pairs).mapM ToolRequest.arc).toOption := by
  induction pairs with
  | nil => rfl
  | cons pair rest ih =>
      obtain ⟨hpair, hrest⟩ := List.forall_mem_cons.mp h
      have hcons : trimLabels (pair :: rest) = (Text.trim pair.1, pair.2) :: trimLabels rest := rfl
      rw [List.map_cons, List.mapM_cons, hcons, List.mapM_cons, ofArgument_of_pair hpair, ih hrest]
      by_cases hblank : Text.trim pair.1 = ""
      · simp [hblank]
      · simp only [List.exists_mem_cons_iff, hblank, false_or, if_false]
        cases ToolRequest.arc (Text.trim pair.1, pair.2) with
        | error _ => split <;> rfl
        | ok arc =>
            split
            · rfl
            · cases (trimLabels rest).mapM ToolRequest.arc <;> rfl

theorem arc_eq_ok_iff {arc : Arc} : ToolRequest.arc (label, literal) = .ok arc ↔
    ∃ value, ArcValue.ofLiteral? (Text.trim literal) = some value ∧ arc = ⟨label, value⟩ := by
  rw [ToolRequest.arc]
  cases ArcValue.ofLiteral? (Text.trim literal) with
  | none => simp
  | some value => simp [eq_comm]

theorem labels_of_mapM (h : pairs.mapM ToolRequest.arc = .ok arcs) :
    Arcs.labels arcs = pairs.map Prod.fst := by
  induction pairs generalizing arcs with
  | nil =>
      cases h
      rfl
  | cons pair rest ih =>
      rw [List.mapM_cons] at h
      obtain ⟨arc, harc, h⟩ := Database.bind_eq_ok_iff.mp h
      obtain ⟨others, hothers, h⟩ := Database.bind_eq_ok_iff.mp h
      cases h
      obtain ⟨value, -, rfl⟩ := arc_eq_ok_iff.mp harc
      rw [List.map_cons, ← ih hothers]
      rfl

theorem mem_labels_dedup_of_mapM (h : pairs.mapM ToolRequest.arc = .ok arcs) :
    label ∈ Arcs.labels (Arcs.dedup arcs) ↔ ∃ pair ∈ pairs, pair.1 = label := by
  rw [Arcs.dedup, Arcs.mem_labels_union, labels_of_mapM h, List.mem_map]
  exact or_iff_right List.not_mem_nil

/-- Arcs are refused for their literals only, whatever their labels are. -/
theorem mapM_arc_eq_error_iff : (∃ err, pairs.mapM ToolRequest.arc = .error err) ↔
    ∃ pair ∈ pairs, ArcValue.ofLiteral? (Text.trim pair.2) = none := by
  induction pairs with
  | nil =>
      refine iff_of_false ?_ (by simp)
      rintro ⟨_, h⟩
      cases h
  | cons pair rest ih =>
      rw [List.exists_mem_cons_iff, ← ih, List.mapM_cons]
      obtain ⟨label, literal⟩ := pair
      simp only [ToolRequest.arc]
      cases ArcValue.ofLiteral? (Text.trim literal) with
      | none => exact iff_of_true ⟨_, rfl⟩ (Or.inl rfl)
      | some value =>
          cases rest.mapM ToolRequest.arc with
          | error err => exact iff_of_true ⟨_, rfl⟩ (Or.inr ⟨_, rfl⟩)
          | ok arcs =>
              refine iff_of_false ?_ ?_
              · rintro ⟨_, h⟩
                cases h
              · rintro (h | ⟨_, h⟩) <;> cases h

end

/-! ### On a command line -/

open Arguments

/-- All options that the command that adds an idea has. -/
def addRules : List Rule :=
  Command.sharedRules ++ (Command.rules? "add").getD []

/-- Settings that say what a submission is, in any order; the least energy goes without saying. -/
structure Submission.SaidBy (sub : Submission) (settings : List Setting) : Prop where
  known : ∀ s ∈ settings, s.name ∈ ["content", "tag", "energy", "arc"]
  content : values "content" settings = sub.content.toList
  tags : values "tag" settings = sub.tags
  energy : values "energy" settings = [toString sub.energy.toNat] ∨
    values "energy" settings = [] ∧ sub.energy = minEnergy
  arcs : values "arc" settings = sub.pairs.map fun pair => pair.1 ++ "=" ++ pair.2

/-- The arguments that ask the program to add a submission. -/
inductive Submission.Invokes (sub : Submission) : List String → Prop
  | intro {settings : List Setting} {args : List String} (said : sub.SaidBy settings)
      (spelled : SpellsWith sub.title settings args) : Invokes sub ("add" :: args)

/-- One way to say a submission in settings. -/
def Submission.settings (sub : Submission) : List Setting :=
  settingsOf "content" sub.content.toList ++ (settingsOf "tag" sub.tags ++
    (settingsOf "energy" [toString sub.energy.toNat] ++
      settingsOf "arc" (sub.pairs.map fun pair => pair.1 ++ "=" ++ pair.2)))

theorem Submission.saidBy_settings (sub : Submission) : sub.SaidBy sub.settings where
  known s hs := by
    simp only [settings, settingsOf, List.mem_append, List.mem_map] at hs
    rcases hs with ⟨_, -, rfl⟩ | ⟨_, -, rfl⟩ | ⟨_, -, rfl⟩ | ⟨_, -, rfl⟩ <;> simp
  content := by simp [settings, values_append, values_settingsOf]
  tags := by simp [settings, values_append, values_settingsOf]
  energy := by simp [settings, values_append, values_settingsOf]
  arcs := by simp [settings, values_append, values_settingsOf]

/-- Every submission can be said on a command line. -/
theorem Submission.exists_invokes (sub : Submission) : ∃ args, sub.Invokes args := by
  have hvalues : ∀ s ∈ sub.settings, s.value.isSome := by
    intro s hs
    simp only [settings, settingsOf, List.mem_append, List.mem_map] at hs
    rcases hs with ⟨_, -, rfl⟩ | ⟨_, -, rfl⟩ | ⟨_, -, rfl⟩ | ⟨_, -, rfl⟩ <;> rfl
  obtain ⟨args, hspells⟩ := exists_spells hvalues
  exact ⟨_, .intro sub.saidBy_settings (.escaped hspells)⟩

section

variable {sub : Submission} {settings : List Setting} {args : List String}

theorem energy?_toString {energy : UInt8} (hleast : minEnergy ≤ energy)
    (hgreatest : energy ≤ maxEnergy) : Command.energy? (toString energy.toNat) = some energy := by
  have hread : ∀ n ∈ [1, 2, 3, 4, 5], Command.energy? (toString n) = some (UInt8.ofNat n) := by
    decide
  have hmem : energy.toNat ∈ [1, 2, 3, 4, 5] := by
    have hone : 1 ≤ energy.toNat := UInt8.le_iff_toNat_le.mp hleast
    have hfive : energy.toNat ≤ 5 := UInt8.le_iff_toNat_le.mp hgreatest
    simp only [List.mem_cons, List.not_mem_nil, or_false]
    omega
  rw [hread _ hmem, UInt8.ofNat_toNat]

theorem Submission.SaidBy.read? (said : sub.SaidBy settings)
    (spelled : SpellsWith sub.title settings args) :
    Arguments.read? addRules false args = some (settings, [sub.title]) := by
  have hoptions : ∀ name ∈ ["content", "tag", "energy", "arc"],
      IsName name ∧ takesValue? addRules name = some true := by decide
  have hscan : scan addRules false args = some (settings, [sub.title]) :=
    scan_of_spellsWith spelled fun s hs => hoptions s.name (said.known s hs)
  obtain ⟨_, hspells⟩ := spelled.spells
  have hrules : ∀ rule ∈ addRules, rule.repeats = true ∨ rule.name = "content" ∨
      rule.name = "energy" ∨ rule.name ∉ ["content", "tag", "energy", "arc"] := by decide
  have hcounts : countsFit addRules settings = true := by
    simp only [countsFit, List.all_eq_true, Bool.or_eq_true, decide_eq_true_eq]
    intro rule hrule
    rcases hrules rule hrule with h | h | h | h
    · exact Or.inl h
    · refine Or.inr ?_
      rw [h, hspells.length_named, said.content]
      exact sub.content.length_toList_le
    · refine Or.inr ?_
      rw [h, hspells.length_named]
      rcases said.energy with h | ⟨h, -⟩ <;> simp [h]
    · refine Or.inr ?_
      have hnone : ∀ s ∈ settings, s.name ≠ rule.name := by
        intro s hs heq
        exact h (heq ▸ said.known s hs)
      rw [named_eq_nil hnone]
      exact Nat.zero_le 1
  rw [Arguments.read?, hscan, Option.filter_some, if_pos hcounts]

theorem Submission.SaidBy.draft? (said : sub.SaidBy settings) (sayable : sub.Sayable) :
    Command.draft? sub.title settings = if ∃ pair ∈ sub.pairs, Text.trim pair.1 = "" then none
      else (sub.trimmed.pairs.mapM ToolRequest.arc).toOption.map sub.draft := by
  have henergy : ∃ energy, Command.optional Command.energy? (value? "energy" settings) = some energy
      ∧ energy.getD minEnergy = sub.energy := by
    rw [value?]
    rcases said.energy with h | ⟨h, heq⟩
    · refine ⟨some sub.energy, ?_, rfl⟩
      rw [h, List.head?_cons, Command.optional,
        energy?_toString sayable.least sayable.greatest, Option.map_some]
    · exact ⟨none, by rw [h]; rfl, heq.symm⟩
  obtain ⟨energy, henergy, husual⟩ := henergy
  have hcontent : value? "content" settings = sub.content := by
    rw [value?, said.content, Option.head?_toList]
  rw [Command.draft?, henergy, said.arcs, mapM_ofArgument sayable.labels, hcontent, said.tags]
  simp only [Option.bind_eq_bind, Option.bind_some, husual]
  split
  · rfl
  · exact Option.map_eq_bind.symm

/-- How the arguments that say a submission are read: its labels are trimmed, and none may be
blank. -/
theorem Submission.Invokes.ofArguments? (h : sub.Invokes args) (sayable : sub.Sayable) :
    Invocation.ofArguments? args = if ∃ pair ∈ sub.pairs, Text.trim pair.1 = "" then none
      else (sub.trimmed.pairs.mapM ToolRequest.arc).toOption.map fun arcs =>
        ⟨none, none, false, .add (sub.draft arcs)⟩ := by
  obtain @⟨settings, args, said, spelled⟩ := h
  have houter : Arguments.read? Command.sharedRules true ("add" :: args)
      = some ([], "add" :: args) := by
    have hword : formOf "add" = .word := by decide
    rw [Arguments.read?, scan]
    simp only [hword]
    rfl
  have hshared : ∀ name ∈ ["data-dir", "owner", "verbose"], named name settings = [] := by
    intro name hname
    refine named_eq_nil fun s hs heq => ?_
    have hapart : ∀ name ∈ ["data-dir", "owner", "verbose"],
        name ∉ ["content", "tag", "energy", "arc"] := by decide
    exact hapart name hname (heq ▸ said.known s hs)
  have hdir := hshared "data-dir" (by decide)
  have howner := hshared "owner" (by decide)
  have hverbose := hshared "verbose" (by decide)
  have hread : (do
      let rules ← Command.rules? "add"
      Arguments.read? (Command.sharedRules ++ rules) false args) = some (settings, [sub.title]) :=
    said.read? spelled
  obtain ⟨adds, hadds⟩ : ∃ adds, Command.rules? "add" = some adds := ⟨_, rfl⟩
  rw [hadds] at hread
  rw [Invocation.ofArguments?, houter]
  simp only [Option.bind_eq_bind, Option.bind_some, hadds] at hread ⊢
  rw [hread]
  simp only [Option.bind_some, Invocation.admitsDataDir, value?, values, given, hdir, howner,
    hverbose, Command.ofParts?, said.draft? sayable]
  rw [if_neg (by decide)]
  split
  · rfl
  · cases (sub.trimmed.pairs.mapM ToolRequest.arc).toOption <;> rfl

end

/-! ### In a call -/

namespace Json

/-- An object that names no field twice stays as it is. -/
theorem collapsedFields_eq {fields : List (String × Json)} (hnodup : (fields.map Prod.fst).Nodup)
    (h : ∀ field ∈ fields, field.2.collapsed = field.2) : collapsedFields fields = fields := by
  induction fields with
  | nil => rfl
  | cons field rest ih =>
      obtain ⟨hnew, hrest⟩ := List.nodup_cons.mp hnodup
      obtain ⟨hfield, hothers⟩ := List.forall_mem_cons.mp h
      rw [collapsedFields, ih hrest hothers, hfield, withField, if_neg]
      rwa [List.contains_iff_mem]

theorem collapsed_ofList {α : Type} {encode : α → Json} (h : ∀ a, (encode a).collapsed = encode a)
    (items : List α) : (ofList encode items).collapsed = ofList encode items := by
  rw [ofList, collapsed]
  congr 1
  induction items with
  | nil => rfl
  | cons a rest ih => rw [List.map_cons, collapsedItems, h a, ih]

end Json

/-- The parameter that stands for an arc. -/
def pairJson (pair : String × String) : Json :=
  .object [("label", .string pair.1), ("value", .string pair.2)]

/-- The parameters of a call that asks to add a submission. -/
def Submission.toJson (sub : Submission) : Json :=
  .object [
    ("title", .string sub.title),
    ("content", Json.ofOption .string sub.content),
    ("tags", Json.ofList .string sub.tags),
    ("energy", .ofNat sub.energy.toNat),
    ("arcs", Json.ofList pairJson sub.pairs)]

theorem Submission.collapsed_toJson (sub : Submission) : sub.toJson.collapsed = sub.toJson := by
  have hpairNames : ["label", "value"].Nodup := by decide
  have hpair : ∀ pair, (pairJson pair).collapsed = pairJson pair := by
    intro pair
    rw [pairJson, Json.collapsed, Json.collapsedFields_eq (by exact hpairNames)]
    simp [Json.collapsed]
  have hcontent : (Json.ofOption .string sub.content).collapsed
      = Json.ofOption .string sub.content := by
    cases sub.content <;> rfl
  have hnames : ["title", "content", "tags", "energy", "arcs"].Nodup := by decide
  rw [toJson, Json.collapsed, Json.collapsedFields_eq (by exact hnames)]
  simp only [List.forall_mem_cons]
  exact ⟨rfl, hcontent, Json.collapsed_ofList (fun _ => rfl) _, rfl, Json.collapsed_ofList hpair _,
    nofun⟩

/-- How the parameters that say a submission are read: its labels are taken as they are. -/
theorem Submission.ofCall (sub : Submission) : ToolRequest.ofCall (.string Tool.add.name) sub.toJson
    = (sub.pairs.mapM ToolRequest.arc).map fun arcs => .add (sub.draft arcs) := by
  have hparameters : ToolRequest.parametersOf sub.toJson = .ok sub.toJson :=
    congrArg Except.ok sub.collapsed_toJson
  have hrecord : sub.toJson.record? ["title", "content", "tags", "energy", "arcs"]
      = some [some (.string sub.title), some (Json.ofOption .string sub.content),
        some (Json.ofList .string sub.tags), some (.ofNat sub.energy.toNat),
        some (Json.ofList pairJson sub.pairs)] := by rfl
  have hcontent : ToolRequest.maybe Json.string? (some (Json.ofOption .string sub.content))
      = some sub.content :=
    Json.nullable_ofOption Json.string? .string (fun _ _ => rfl) nofun
  have htags : ToolRequest.maybe (Json.list? Json.string?) (some (Json.ofList .string sub.tags))
      = some (some sub.tags) :=
    congrArg (Option.map some) (Json.list?_ofList Json.string? .string fun _ _ => rfl)
  have henergy : ToolRequest.maybe (Json.natUpTo? 255) (some (.ofNat sub.energy.toNat))
      = some (some sub.energy.toNat) :=
    congrArg (Option.map some) (Json.natUpTo?_ofNat (Nat.le_of_lt_succ sub.energy.toNat_lt))
  have hpairs : ToolRequest.maybe (Json.list? ToolRequest.arcPair?)
      (some (Json.ofList pairJson sub.pairs)) = some (some sub.pairs) :=
    congrArg (Option.map some) (Json.list?_ofList ToolRequest.arcPair? pairJson fun _ _ => rfl)
  have hdraft : ToolRequest.draft? sub.toJson = some (sub.draft [], sub.pairs) := by
    simp [ToolRequest.draft?, hrecord, Json.required, Json.string?, hcontent, htags, henergy,
      hpairs, draft]
  have hcall : ToolRequest.ofCall (.string Tool.add.name) sub.toJson
      = ToolRequest.ofParameters .add sub.toJson := by
    rw [ToolRequest.ofCall, ToolRequest.nameOf, hparameters]
    simp only [bind, Except.bind, Tool.ofName?_name]
  rw [hcall, ToolRequest.ofParameters, hdraft]
  show (do let arcs ← sub.pairs.mapM ToolRequest.arc; pure (ToolRequest.add (sub.draft arcs))) = _
  cases sub.pairs.mapM ToolRequest.arc <;> rfl

end Ideas
