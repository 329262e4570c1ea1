/-
Tools: what an assistant can have done for it.

Every tool has a name to call it by and a description to choose it by.  The
instructions tell how the tools work together.
-/

namespace Ideas

/-- What can be asked for. -/
inductive Tool where
  | add
  | discover
  | inspect
  | count
  | unify
deriving DecidableEq, Repr

namespace Tool

/-- All tools, in the order of their names. -/
def all : List Tool :=
  [.add, .discover, .inspect, .count, .unify]

/-- The name that a tool is called by. -/
def name : Tool → String
  | .add => "ig_add_idea"
  | .discover => "ig_discover"
  | .inspect => "ig_show"
  | .count => "ig_stats"
  | .unify => "ig_unify"

/-- What a tool does. -/
def description : Tool → String
  | .add =>
    "Author a new idea. Returns its id. Give arcs to make it a structured (complex) node; "
      ++ "otherwise it is a leaf that only unifies with a same-titled leaf."
  | .discover =>
    "Find ideas similar to the given idea, strongest first, scored on title, content, tags and "
      ++ "energy. Archived ideas are skipped. Returns an empty list when nothing clears the "
      ++ "threshold."
  | .inspect =>
    "Show a node: its arcs, complement arcs, forward reference, materialized copy, generation, "
      ++ "the idea it belongs to (if any) and its forward chain to the canonical node."
  | .count =>
    "Get idea graph statistics: node, idea and archived counts, superseded and materialized "
      ++ "nodes, saved relations."
  | .unify =>
    "Unify two nodes without discarding information. Returns the id of the materialized result, "
      ++ "the canonical node and every forward reference written. Fails if two leaves with "
      ++ "different names meet; work done before the failure is kept."

/-- The tool of a name. -/
def ofName? (name : String) : Option Tool :=
  all.find? fun tool => tool.name = name

theorem ofName?_name (tool : Tool) : ofName? tool.name = some tool := by
  cases tool <;> decide

/-- How the tools work together. -/
def instructions : String :=
  "Idea graph: a store of ideas that can be merged without losing information.\n\n"
    ++ "WORKFLOW:\n"
    ++ "1. CAPTURE: call ig_add_idea for each idea. Add arcs when an idea has structure "
    ++ "(label=value pairs, @id to point at another node).\n"
    ++ "2. RELATE: call ig_discover on an idea to find similar ones.\n"
    ++ "3. MERGE: call ig_unify on a pair worth merging. Both inputs stay readable; "
    ++ "the result is a new node carrying the union of their structure.\n"
    ++ "4. INSPECT: call ig_show to follow forward references and see what was merged.\n\n"
    ++ "Unifying two leaves with different names fails; that is an answer, not an error to retry."

end Tool

end Ideas
