/-
Two ways to author an idea, compared.

The command that adds an idea and the tool that does so read a submission alike but for the labels
of its arcs, and what they have read they store alike: an idea and a node made of its title and its
arcs.  So the command does with a submission what the tool does with it after its labels were
trimmed (`authoredAlike_trimmed`), and on the submission itself the two agree just where no label
needs that (`authoredAlike_iff`).  That they differ elsewhere is seen in the rows: a label can be
read back from them, and on the command line each one is trimmed.
-/
import Ideas.Command.Run
import Ideas.Proofs.Database.GivenBack
import Ideas.Proofs.Submission
import Ideas.Tool.Answer

namespace Ideas

open NodeStore

/-! ### Storing -/

namespace Database

/-- The database with an idea and its node besides. -/
def withIdea (i : Idea) (n : Node) (db : Database) : Database :=
  { db with nodes := db.nodes.insert (.holding n), ideas := db.ideas.insert (.ofIdea i) }

/-- Nothing is stored under an id. -/
structure Lacks (db : Database) (id : NodeId) : Prop where
  node : db.nodeRow? id = none
  idea : db.ideaRow? id = none

variable {db : Database} {i : Idea} {n : Node}

theorem nodeRow?_withIdea (h : db.Lacks n.id) :
    (db.withIdea i n).nodeRow? n.id = some (.holding n) :=
  (nodeRow?_insert (r := .holding n) rfl h.node n.id).trans (if_pos rfl)

/-- The rows tell the labels of the arcs. -/
theorem labels_eq_of_holding {k : Node} (h : NodeRow.holding n = .holding k) :
    Arcs.labels n.arcs = Arcs.labels k.arcs := by
  have htext : (Arcs.toJson n.arcs).compact = (Arcs.toJson k.arcs).compact :=
    congrArg NodeRow.arcs h
  have hjson : Arcs.toJson n.arcs = Arcs.toJson k.arcs := by
    have hread := Json.read?_compact (Arcs.legible_toJson n.arcs)
    rw [htext, Json.read?_compact (Arcs.legible_toJson k.arcs)] at hread
    exact (Option.some.inj hread).symm
  have hlabels : ∀ arcs, Arcs.labels arcs = (arcs.map Arc.toJson).map fun v =>
      (ToolRequest.text? "label" v).getD "" := by
    intro arcs
    rw [List.map_map]
    rfl
  rw [hlabels, hlabels, Json.array.inj hjson]

end Database

section

variable {db : Database} {id : NodeId}

theorem idea_with_id (d : Draft) (id id' : NodeId) (owner : String) :
    { d.idea id owner with id := id' } = d.idea id' owner := by
  rw [Draft.idea, Draft.idea]
  cases d.content <;> rfl

theorem id_idea (d : Draft) (id : NodeId) (owner : String) : (d.idea id owner).id = id := by
  rw [Draft.idea]
  cases d.content <;> rfl

theorem id_nodeOf (i : Idea) (arcs : List Arc) : (nodeOf i arcs).id = i.id := by
  rw [nodeOf]
  split <;> rfl

theorem nodeOf_with_id (i : Idea) (arcs : List Arc) (id : NodeId) :
    { nodeOf i arcs with id } = nodeOf { i with id } arcs := by
  rw [nodeOf, nodeOf]
  split <;> rfl

theorem generation_nodeOf (i : Idea) (arcs : List Arc) : (nodeOf i arcs).generation = 0 := by
  rw [nodeOf]
  split <;> rfl

theorem arcs_nodeOf (i : Idea) (arcs : List Arc) : (nodeOf i arcs).arcs = Arcs.dedup arcs := by
  rw [nodeOf]
  split
  · next hnone =>
      rw [List.isEmpty_iff.mp hnone]
      rfl
  · rfl

/-- The database with the idea that a draft becomes, and its node. -/
def Draft.storedIn (d : Draft) (id : NodeId) (owner : String) (db : Database) : Database :=
  db.withIdea (d.idea id owner) (nodeOf (d.idea id owner) d.arcs)

theorem nodeRow?_storedIn (d : Draft) (owner : String) (h : db.Lacks id) :
    (d.storedIn id owner db).nodeRow? id = some (.holding (nodeOf (d.idea id owner) d.arcs)) := by
  have hid : (nodeOf (d.idea id owner) d.arcs).id = id := (id_nodeOf _ _).trans (id_idea d id owner)
  have hrow := Database.nodeRow?_withIdea (i := d.idea id owner) (hid.symm ▸ h)
  rwa [hid] at hrow

theorem author_of_lacks (d : Draft) (owner : String) (h : db.Lacks id) :
    (d.author id owner : Action Database Unit) db = (.ok (), d.storedIn id owner db) := by
  have hid : (d.idea id owner).id = (nodeOf (d.idea id owner) d.arcs).id := (id_nodeOf _ _).symm
  have hnode : (nodeOf (d.idea id owner) d.arcs).id = id := hid.symm.trans (id_idea d id owner)
  refine toAction_eq (Database.saveIdea_of_new hid ?_ ?_ ?_)
  · rw [hnode]
    exact h.node
  · rw [hnode]
    exact h.idea
  · rw [generation_nodeOf]
    decide

/-- What becomes of a database when the program is called with arguments; nothing is done if these
are refused. -/
def calledWith (ws : Workspace) (fresh : NodeId) (args : List String) (db : Database) :
    Option (Except CommandError Unit × Database) :=
  (Invocation.ofArguments? args).map fun i =>
    let (result, console) := (i.run ws fresh).run { database := db }
    (result, console.database)

/-- A database that was made ready for a command. -/
def Database.prepared (db : Database) : Database :=
  (Database.prepare.run db).2

theorem Database.Lacks.prepared (h : db.Lacks id) : db.prepared.Lacks id :=
  ⟨h.node, h.idea⟩

theorem run_add (ws : Workspace) (d : Draft) (h : db.Lacks id) :
    ((⟨none, none, false, .add d⟩ : Invocation).run ws id).run { database := db }
      = (.ok (), { database := d.storedIn id ws.owner db.prepared, output := [id.text] }) := by
  have hprepare : CommandM.onDatabase .opening Database.prepare { database := db }
      = (.ok (), { database := db.prepared }) := rfl
  have hauthor : CommandM.engine .adding (d.author id ws.owner) { database := db.prepared }
      = (.ok (), { database := d.storedIn id ws.owner db.prepared }) := by
    rw [CommandM.engine, CommandM.onDatabase, author_of_lacks d ws.owner h.prepared]
    rfl
  refine (bind_eq_of_ok hprepare).trans ?_
  refine (bind_eq_of_ok hauthor).trans ?_
  rfl

/-- A node that was stored is read again, if its numbers read back; reading changes nothing. -/
theorem require_stored {n : Node} (hrow : db.nodeRow? id = some (.holding n)) :
    ∃ r, (require id : Action Database Node) db = (r, db) ∧ (n.NumbersReadBack → r = .ok n) := by
  have hget := Database.get_eq db id
  cases hread : (Database.NodeRow.holding n).toNode with
  | error cause =>
      simp only [hrow, hread] at hget
      refine ⟨_, bind_eq_of_error hget, fun hback => ?_⟩
      rw [Database.NodeRow.toNode_holding_iff.mpr hback] at hread
      cases hread
  | ok k =>
      simp only [hrow, hread] at hget
      refine ⟨.ok k, bind_eq_of_ok hget, fun hback => ?_⟩
      rw [Database.NodeRow.toNode_holding_iff.mpr hback] at hread
      cases hread
      rfl

/-- What a tool does on the graph. -/
theorem engine_eq {α : Type} {act : Action Database α} {r : Except EngineError α} {db' : Database}
    (h : act db = (r, db')) : ToolRequest.engine act db = (r.mapError ToolError.engine, db') := by
  show (fun p : Except _ α × Database => (p.1.mapError ToolError.engine, p.2)) (act db) = _
  rw [h]

variable {sub : Submission} {arcs : List Arc}

/-- A call that is refused over a literal changes nothing. -/
theorem call_of_error (ws : Workspace) (id : NodeId) (db : Database) {err : ToolError}
    (h : sub.pairs.mapM ToolRequest.arc = .error err) :
    Tool.call ws id (.string Tool.add.name) sub.toJson db = (.error err, db) := by
  have hrequest : (ExceptT.mk (pure (ToolRequest.ofCall (.string Tool.add.name) sub.toJson)) :
      ToolM ToolRequest) db = (.error err, db) := by
    rw [sub.ofCall, h]
    rfl
  exact bind_eq_of_error hrequest

/-- Any other call stores its idea. -/
theorem call_of_ok (ws : Workspace) (h : db.Lacks id)
    (hread : sub.pairs.mapM ToolRequest.arc = .ok arcs) :
    ∃ r, Tool.call ws id (.string Tool.add.name) sub.toJson db
        = (r, (sub.draft arcs).storedIn id ws.owner db) ∧
      ((nodeOf ((sub.draft arcs).idea id ws.owner) arcs).NumbersReadBack →
        ∃ answer, r = .ok answer) := by
  have hrequest : (ExceptT.mk (pure (ToolRequest.ofCall (.string Tool.add.name) sub.toJson)) :
      ToolM ToolRequest) db = (.ok (.add (sub.draft arcs)), db) := by
    rw [sub.ofCall, hread]
    rfl
  have hauthor := engine_eq (author_of_lacks (sub.draft arcs) ws.owner h)
  obtain ⟨r, hrequire, hback⟩ := require_stored (nodeRow?_storedIn (sub.draft arcs) ws.owner h)
  have hrequire := engine_eq hrequire
  cases r with
  | error cause =>
      have hanswer : ToolRequest.addAnswer ws id (sub.draft arcs) db
          = (.error (.engine cause), (sub.draft arcs).storedIn id ws.owner db) :=
        (bind_eq_of_ok hauthor).trans (bind_eq_of_error hrequire)
      refine ⟨_, (bind_eq_of_ok hrequest).trans (bind_eq_of_error hanswer), fun hnumbers => ?_⟩
      cases hback hnumbers
  | ok node =>
      have hanswer : ToolRequest.addAnswer ws id (sub.draft arcs) db = (.ok _, _) :=
        (bind_eq_of_ok hauthor).trans (bind_eq_of_ok hrequire)
      exact ⟨_, (bind_eq_of_ok hrequest).trans (bind_eq_of_ok hanswer), fun _ => ⟨_, rfl⟩⟩

end

/-! ### The comparison -/

section

/-- The program was called with some arguments and the tool with some parameters, and both came to
the same: they refuse and store nothing, or they store an idea and a node that differ in nothing
but their ids. -/
inductive AuthoredAlike (ws : Workspace) (a b : NodeId) (args : List String) (parameters : Json)
    (db : Database) : Prop
  | refused {err : ToolError} (command : calledWith ws a args db = none)
      (tool : Tool.call ws b (.string Tool.add.name) parameters db = (.error err, db))
  | stored (i : Idea) (n : Node) (r : Except ToolError Json)
      (command : calledWith ws a args db
        = some (.ok (), db.prepared.withIdea { i with id := a } { n with id := a }))
      (tool : Tool.call ws b (.string Tool.add.name) parameters db
        = (r, db.withIdea { i with id := b } { n with id := b }))
      (answered : n.NumbersReadBack → ∃ answer, r = .ok answer)

variable {ws : Workspace} {a b : NodeId} {db : Database} {sub : Submission} {args : List String}
  {arcs : List Arc}

theorem calledWith_of_invokes (h : sub.Invokes args) (sayable : sub.Sayable) (ws : Workspace)
    (ha : db.Lacks a) : calledWith ws a args db
      = if ∃ pair ∈ sub.pairs, Text.trim pair.1 = "" then none
        else (sub.trimmed.pairs.mapM ToolRequest.arc).toOption.map fun arcs =>
          (.ok (), (sub.draft arcs).storedIn a ws.owner db.prepared) := by
  rw [calledWith, h.ofArguments? sayable]
  split
  · rfl
  · rw [Option.map_map]
    congr 1
    funext arcs
    rw [Function.comp, run_add ws (sub.draft arcs) ha]

/-- The program does with a submission what the tool does with the submission after its labels were
trimmed, if no label is blank. -/
theorem authoredAlike_trimmed (h : sub.Invokes args) (sayable : sub.Sayable) (ws : Workspace)
    (ha : db.Lacks a) (hb : db.Lacks b) (hlabels : ∀ pair ∈ sub.pairs, Text.trim pair.1 ≠ "") :
    AuthoredAlike ws a b args sub.trimmed.toJson db := by
  have hnone : ¬ ∃ pair ∈ sub.pairs, Text.trim pair.1 = "" := by
    rintro ⟨pair, hpair, hblank⟩
    exact hlabels pair hpair hblank
  have hcommand := calledWith_of_invokes h sayable ws ha
  rw [if_neg hnone] at hcommand
  cases hread : sub.trimmed.pairs.mapM ToolRequest.arc with
  | error err =>
      rw [hread] at hcommand
      exact .refused hcommand (call_of_error ws b db hread)
  | ok arcs =>
      rw [hread] at hcommand
      obtain ⟨r, htool, hanswer⟩ := call_of_ok ws hb hread
      let i := (sub.draft arcs).idea b ws.owner
      have hstored : ∀ id db, (sub.draft arcs).storedIn id ws.owner db
          = db.withIdea { i with id } { nodeOf i arcs with id } := by
        intro id db
        rw [nodeOf_with_id, idea_with_id]
        rfl
      refine .stored i (nodeOf i arcs) r (hcommand.trans ?_) (htool.trans ?_) hanswer
      · rw [← hstored]
        rfl
      · rw [← hstored]
        rfl

/-- Trimming changes nothing where there is nothing to trim. -/
theorem trimmed_eq_self (h : ∀ pair ∈ sub.pairs, Text.trim pair.1 = pair.1) :
    sub.trimmed = sub := by
  have hpairs : trimLabels sub.pairs = sub.pairs := by
    conv_rhs => rw [← List.map_id sub.pairs]
    exact List.map_congr_left fun pair hpair => Prod.ext (h pair hpair) rfl
  rw [Submission.trimmed, hpairs]

/-- The labels of the arcs that a draft was stored with. -/
theorem labels_of_storedIn {d : Draft} {owner : String} {i : Idea} {n : Node} (h : db.Lacks a)
    (heq : d.storedIn a owner db = db.withIdea { i with id := a } { n with id := a }) :
    Arcs.labels n.arcs = Arcs.labels (Arcs.dedup d.arcs) := by
  have hrow := congrArg (Database.nodeRow? · a) heq
  simp only [nodeRow?_storedIn d owner h] at hrow
  rw [Database.nodeRow?_withIdea (n := { n with id := a }) h] at hrow
  rw [← arcs_nodeOf (d.idea a owner)]
  exact (Database.labels_eq_of_holding (Option.some.inj hrow)).symm

/-- Where the two agree although the tool stores an idea, every label is as the command line has
it. -/
theorem labels_of_authoredAlike (h : sub.Invokes args) (sayable : sub.Sayable) (ha : db.Lacks a)
    (hb : db.Lacks b) (hread : sub.pairs.mapM ToolRequest.arc = .ok arcs)
    (halike : AuthoredAlike ws a b args sub.toJson db) :
    ∀ pair ∈ sub.pairs, pair.1 ≠ "" ∧ Text.trim pair.1 = pair.1 := by
  obtain ⟨r, hstores, -⟩ := call_of_ok ws hb hread
  cases halike with
  | refused _ tool =>
      -- The tool left the database as it was, but there is a row now that was not there.
      have hsame : (sub.draft arcs).storedIn b ws.owner db = db :=
        congrArg Prod.snd (hstores.symm.trans tool)
      have hrow := nodeRow?_storedIn (sub.draft arcs) ws.owner hb
      rw [hsame, hb.node] at hrow
      cases hrow
  | stored i n r' command tool _ =>
      rw [calledWith_of_invokes h sayable ws ha] at command
      split at command
      · cases command
      next hnone =>
      cases htrimmed : sub.trimmed.pairs.mapM ToolRequest.arc with
      | error err =>
          rw [htrimmed] at command
          cases command
      | ok trimmed =>
          rw [htrimmed] at command
          have hours : Arcs.labels n.arcs = Arcs.labels (Arcs.dedup trimmed) :=
            labels_of_storedIn ha.prepared (congrArg Prod.snd (Option.some.inj command))
          have htheirs : Arcs.labels n.arcs = Arcs.labels (Arcs.dedup arcs) :=
            labels_of_storedIn hb (congrArg Prod.snd (hstores.symm.trans tool))
          intro pair hpair
          have hmem : pair.1 ∈ Arcs.labels (Arcs.dedup arcs) :=
            (mem_labels_dedup_of_mapM hread).mpr ⟨pair, hpair, rfl⟩
          rw [← htheirs, hours, mem_labels_dedup_of_mapM htrimmed] at hmem
          obtain ⟨_, hmem, hlabel⟩ := hmem
          obtain ⟨other, hother, rfl⟩ := List.mem_map.mp hmem
          rw [← show Text.trim other.1 = pair.1 from hlabel]
          exact ⟨fun hblank => hnone ⟨other, hother, hblank⟩, Text.trim_trim other.1⟩

theorem authoredAlike_iff (h : sub.Invokes args) (sayable : sub.Sayable) (ha : db.Lacks a)
    (hb : db.Lacks b) : AuthoredAlike ws a b args sub.toJson db ↔
      (∃ pair ∈ sub.pairs, ArcValue.ofLiteral? (Text.trim pair.2) = none) ∨
        ∀ pair ∈ sub.pairs, pair.1 ≠ "" ∧ Text.trim pair.1 = pair.1 := by
  constructor
  · intro halike
    cases hread : sub.pairs.mapM ToolRequest.arc with
    | error err => exact Or.inl (mapM_arc_eq_error_iff.mp ⟨err, hread⟩)
    | ok arcs => exact Or.inr (labels_of_authoredAlike h sayable ha hb hread halike)
  · rintro (hrefused | hclean)
    · obtain ⟨err, herr⟩ := mapM_arc_eq_error_iff.mpr hrefused
      have htrimmed : ∃ err, sub.trimmed.pairs.mapM ToolRequest.arc = .error err := by
        rw [mapM_arc_eq_error_iff]
        obtain ⟨pair, hpair, hliteral⟩ := hrefused
        exact ⟨_, List.mem_map_of_mem hpair, hliteral⟩
      obtain ⟨_, htrimmed⟩ := htrimmed
      refine .refused ?_ (call_of_error ws b db herr)
      rw [calledWith_of_invokes h sayable ws ha, htrimmed]
      exact ite_self none
    · have halike := authoredAlike_trimmed h sayable ws ha hb fun pair hpair => by
        rw [(hclean pair hpair).2]
        exact (hclean pair hpair).1
      rwa [trimmed_eq_self fun pair hpair => (hclean pair hpair).2] at halike

/-- The program called to add an idea, and the tool, compared.  Every submission can be said on a
command line.  However that is done, program and tool come to the same just where a literal is
refused, or no label is empty or has blanks at an end.  Else the program stores what the tool stores
once the labels are trimmed, or refuses where one is blank.  So they agree about all but labels: the
title, the body, the tags, the energy, and the values and the order of the arcs. -/
theorem authoring_compared (sayable : sub.Sayable) (ws : Workspace) (ha : db.Lacks a)
    (hb : db.Lacks b) :
    (∃ args, sub.Invokes args) ∧ ∀ args, sub.Invokes args →
      (AuthoredAlike ws a b args sub.toJson db ↔
        (∃ pair ∈ sub.pairs, ArcValue.ofLiteral? (Text.trim pair.2) = none) ∨
          ∀ pair ∈ sub.pairs, pair.1 ≠ "" ∧ Text.trim pair.1 = pair.1) ∧
      ((∀ pair ∈ sub.pairs, Text.trim pair.1 ≠ "") →
        AuthoredAlike ws a b args sub.trimmed.toJson db) ∧
      ((∃ pair ∈ sub.pairs, Text.trim pair.1 = "") → calledWith ws a args db = none) := by
  refine ⟨sub.exists_invokes, fun args h => ?_⟩
  refine ⟨authoredAlike_iff h sayable ha hb, authoredAlike_trimmed h sayable ws ha hb, ?_⟩
  intro hblank
  rw [calledWith_of_invokes h sayable ws ha, if_pos hblank]

end

/-- A submission with a blank in front of a label. -/
def tea : Submission where
  title := "tea"
  content := some " green "
  tags := ["Hot", "hot"]
  energy := 3
  pairs := [("kind", "drink"), (" size", "big")]

/-- The arguments that say it. -/
def teaArgs : List String :=
  ["add", "--arc", "kind=drink", "--energy=3", "tea", "--tag=Hot", "--content= green ",
    "--arc= size=big", "--tag", "hot"]

theorem tea_invokes : tea.Invokes teaArgs := by
  have said : tea.SaidBy [⟨"arc", some "kind=drink"⟩, ⟨"energy", some "3"⟩, ⟨"tag", some "Hot"⟩,
      ⟨"content", some " green "⟩, ⟨"arc", some " size=big"⟩, ⟨"tag", some "hot"⟩] :=
    ⟨by decide, by decide, by decide, by decide, by decide⟩
  have before : Arguments.Spells [⟨"arc", some "kind=drink"⟩, ⟨"energy", some "3"⟩]
      ["--arc", "kind=drink", "--energy=3"] := .apart (by decide) (.attached .nil)
  exact .intro said
    (.plain before (.attached (.attached (.attached (.apart (by decide) .nil)))) (by decide))

theorem tea_sayable : tea.Sayable :=
  ⟨by decide, by decide, by decide⟩

theorem fresh_lacks (id : NodeId) : Database.fresh.Lacks id :=
  ⟨rfl, rfl⟩

theorem tea_literals : ¬ ∃ pair ∈ tea.pairs, ArcValue.ofLiteral? (Text.trim pair.2) = none := by
  rintro ⟨pair, hpair, hnone⟩
  have hsome : ∀ pair ∈ tea.pairs, (ArcValue.ofLiteral? (Text.trim pair.2)).isSome = true := by
    decide
  have hread := hsome pair hpair
  rw [hnone] at hread
  cases hread

theorem tea_labels : ¬ ∀ pair ∈ tea.pairs, pair.1 ≠ "" ∧ Text.trim pair.1 = pair.1 := by
  decide

theorem authoring_compared_tea :
    tea.Invokes teaArgs ∧ tea.Sayable ∧ Database.fresh.Lacks ⟨1⟩ ∧ Database.fresh.Lacks ⟨2⟩ ∧
      ¬ AuthoredAlike (.inMemory "ann") ⟨1⟩ ⟨2⟩ teaArgs tea.toJson .fresh ∧
      AuthoredAlike (.inMemory "ann") ⟨1⟩ ⟨2⟩ teaArgs tea.trimmed.toJson .fresh := by
  obtain ⟨-, hcompared⟩ := authoring_compared tea_sayable (.inMemory "ann") (fresh_lacks ⟨1⟩)
    (fresh_lacks ⟨2⟩)
  obtain ⟨hiff, htrimmed, -⟩ := hcompared teaArgs tea_invokes
  refine ⟨tea_invokes, tea_sayable, fresh_lacks _, fresh_lacks _, ?_, htrimmed (by decide)⟩
  rw [hiff]
  exact not_or_intro tea_literals tea_labels

/-- Not every submission comes to the same on both ways. -/
theorem authored_apart :
    ¬ ∀ (ws : Workspace) (a b : NodeId) (db : Database) (sub : Submission) (args : List String),
      sub.Invokes args → sub.Sayable → db.Lacks a → db.Lacks b →
        AuthoredAlike ws a b args sub.toJson db := by
  intro halike
  have htea := halike (.inMemory "ann") ⟨1⟩ ⟨2⟩ .fresh tea teaArgs tea_invokes tea_sayable
    (fresh_lacks _) (fresh_lacks _)
  rcases (authoredAlike_iff tea_invokes tea_sayable (fresh_lacks _) (fresh_lacks _)).mp htea with
    hliteral | hlabels
  · exact tea_literals hliteral
  · exact tea_labels hlabels

end Ideas
