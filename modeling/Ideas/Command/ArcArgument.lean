/-
Arcs on the command line.

An arc is written as its label, an equals sign and a literal.  Only the first equals
sign parts the two, blanks around either are dropped, and the label must not be blank.
-/
import Ideas.Arc

namespace Ideas

/-- Why an argument is no arc. -/
inductive ArcArgumentError where
  /-- It has no equals sign. -/
  | noEquals (argument : String)
  | blankLabel (argument : String)
  /-- Its literal is a reference whose id cannot be read. -/
  | badReference
deriving DecidableEq, Repr

/-- The wording of a refused arc. -/
def ArcArgumentError.message : ArcArgumentError → String
  | .noEquals argument => "expected label=value, got '" ++ argument ++ "'"
  | .blankLabel argument => "empty arc label in '" ++ argument ++ "'"
  | .badReference => "bad node reference"

namespace Arc

/-- The two sides of the first equals sign. -/
def sides? (cs : List Char) : Option (List Char × List Char) :=
  match cs.dropWhile (· ≠ '=') with
  | [] => none
  | _ :: literal => some (cs.takeWhile (· ≠ '='), literal)

/-- Read an arc from an argument. -/
def ofArgument (argument : String) : Except ArcArgumentError Arc :=
  match sides? argument.toList with
  | none => .error (.noEquals argument)
  | some (left, right) =>
    let label := Text.trimChars left
    if label = [] then .error (.blankLabel argument)
    else
      match ArcValue.ofLiteral? (String.ofList (Text.trimChars right)) with
      | some value => .ok ⟨String.ofList label, value⟩
      | none => .error .badReference

end Arc

end Ideas
