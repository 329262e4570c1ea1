/-
The suffix automaton of a text.

Every word that occurs in the text leads from the root to exactly one state.  The
words of one state are the longest of them and its suffixes down to a certain
length; the next shorter suffix belongs to the state that `link` points at, so the
lengths of the words of a state are those above `len` of its link and up to its own
`len`.  The automaton grows with the text, one character at a time: the states of
the suffixes that did not yet go on with the character get a way to the new state,
and the first one that did may have to give up its shorter words to a new state.

`longestMatches` runs another text over the automaton and tells for every state the
longest of its words that occurs there.
-/

namespace Ideas.Similarity

/-- A state of the automaton. -/
structure State where
  /-- The length of the longest word of the state. -/
  len : Nat
  /-- The state of the longest suffix that is no word of this one; the root has none. -/
  link : Option Nat := none
  /-- The states that the words lead to when one more character follows. -/
  next : List (Char × Nat) := []
deriving Repr

/-- The state with the way for a character set. -/
def State.setNext (s : State) (c : Char) (target : Nat) : State :=
  { s with next := (c, target) :: s.next.filter fun way => way.1 ≠ c }

/-- A suffix automaton: its states, the root first. -/
structure SuffixAutomaton where
  states : Array State
deriving Repr

namespace SuffixAutomaton

/-! ### Looking things up -/

/-- The length of the longest word of a state. -/
def len (a : SuffixAutomaton) (i : Nat) : Nat :=
  match a.states[i]? with
  | some s => s.len
  | none => 0

/-- The link of a state. -/
def link? (a : SuffixAutomaton) (i : Nat) : Option Nat :=
  a.states[i]?.bind State.link

/-- Where a character leads from a state. -/
def next? (a : SuffixAutomaton) (i : Nat) (c : Char) : Option Nat :=
  a.states[i]?.bind fun s => s.next.lookup c

/-- Follow links from a state up to the first one at which `stop` holds: the states passed over,
and the one stopped at.  A link always leads to shorter words. -/
def climb (a : SuffixAutomaton) (stop : Nat → Bool) (i : Nat) : List Nat × Option Nat :=
  if stop i then ([], some i)
  else match a.link? i with
    | none => ([i], none)
    | some j =>
      if a.len j < a.len i then
        let (passed, top) := climb a stop j
        (i :: passed, top)
      else ([i], none)
termination_by a.len i

/-! ### Growing -/

/-- Add a state. -/
def push (a : SuffixAutomaton) (s : State) : SuffixAutomaton :=
  ⟨a.states.push s⟩

/-- Set where a character leads from each of several states. -/
def setNext (a : SuffixAutomaton) (c : Char) (target : Nat) (sources : List Nat) :
    SuffixAutomaton :=
  ⟨sources.foldl (fun states i => states.modify i (·.setNext c target)) a.states⟩

/-- Set the link of a state. -/
def setLink (a : SuffixAutomaton) (i link : Nat) : SuffixAutomaton :=
  ⟨a.states.modify i fun s => { s with link := some link }⟩

/-- The automaton of the empty text. -/
def empty : SuffixAutomaton :=
  ⟨#[{ len := 0 }]⟩

/-- Give the words of `q` that are not longer than one more than those of `i` to a new state, to
which `c` then leads from `i` and from the states that `i` links to. -/
def split (a : SuffixAutomaton) (i q : Nat) (c : Char) : SuffixAutomaton :=
  let twin := a.states.size
  let (moved, _) := a.climb (fun j => a.next? j c ≠ some q) i
  let a := a.push
    { len := a.len i + 1
      link := a.link? q
      next := (a.states[q]?.map State.next).getD [] }
  (a.setNext c twin moved).setLink q twin

/-- Add a character at the end of the text, whose whole belongs to the state `last`; the new
whole belongs to the state that the answer names. -/
def extend (a : SuffixAutomaton) (last : Nat) (c : Char) : SuffixAutomaton × Nat :=
  let new := a.states.size
  let (passed, top) := a.climb (fun i => (a.next? i c).isSome) last
  let a := (a.push { len := a.len last + 1 }).setNext c new passed
  match top.bind fun i => (a.next? i c).map (i, ·) with
  | none => (a.setLink new 0, new)
  | some (i, q) =>
    if a.len i + 1 = a.len q then (a.setLink new q, new)
    else
      let twin := a.states.size
      ((a.split i q c).setLink new twin, new)

/-- Add the characters of a text one by one. -/
def extendAll (a : SuffixAutomaton) (last : Nat) : List Char → SuffixAutomaton
  | [] => a
  | c :: rest =>
    let (a, last) := a.extend last c
    extendAll a last rest

/-- The suffix automaton of a text. -/
def build (text : List Char) : SuffixAutomaton :=
  empty.extendAll 0 text

/-! ### Running a text over it -/

/-- One step: the state of the longest suffix read so far that occurs in the automaton's text,
and the length of that suffix. -/
def advance (a : SuffixAutomaton) (state len : Nat) (c : Char) : Nat × Nat :=
  let (passed, top) := a.climb (fun i => i = 0 || (a.next? i c).isSome) state
  let state := top.getD 0
  let len := if passed.isEmpty then len else a.len state
  match a.next? state c with
  | some next => (next, len + 1)
  | none => (state, 0)

/-- The states and lengths that a text runs through. -/
def run (a : SuffixAutomaton) (state len : Nat) : List Char → List (Nat × Nat)
  | [] => []
  | c :: rest =>
    let (state, len) := a.advance state len c
    (state, len) :: a.run state len rest

/-- Raise an entry to at least a value. -/
def raise (reach : Array Nat) (i value : Nat) : Array Nat :=
  reach.modify i (max value)

/-- The longest length at which a text comes through each state. -/
def longestVisits (a : SuffixAutomaton) (text : List Char) : Array Nat :=
  (a.run 0 0 text).foldl (fun reach (state, len) => raise reach state len)
    (Array.replicate a.states.size 0)

/-- Cut the entry of a state down to its longest word, and pass it on to the state it links to. -/
def settle (a : SuffixAutomaton) (reach : Array Nat) (i : Nat) : Array Nat :=
  let matched := min (reach[i]?.getD 0) (a.len i)
  let reach := reach.modify i fun _ => matched
  match a.link? i with
  | none => reach
  | some j => raise reach j (min matched (a.len j))

/-- All states but the root, those with the longest words first. -/
def longestFirst (a : SuffixAutomaton) : List Nat :=
  ((List.range a.states.size).drop 1).mergeSort fun i j => a.len j ≤ a.len i

/-- For every state, the length of the longest of its words that occurs in a text, and zero where
none does; `order` lists the states so that longer words come first. -/
def longestMatchesIn (a : SuffixAutomaton) (order : List Nat) (text : List Char) : Array Nat :=
  order.foldl a.settle (a.longestVisits text)

/-- For every state, the length of the longest of its words that occurs in a text. -/
def longestMatches (a : SuffixAutomaton) (text : List Char) : Array Nat :=
  a.longestMatchesIn a.longestFirst text

end SuffixAutomaton

end Ideas.Similarity
