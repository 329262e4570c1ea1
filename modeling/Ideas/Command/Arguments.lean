/-
The arguments of a command line.

An argument that starts with two hyphens names an option.  The value of an option
stands behind an equals sign or in the next argument, which must then not start with
a hyphen; an option that takes no value has neither.  A single hyphen and arguments
that start with none are words.  After an argument of just two hyphens, all are words.
Nothing else may start with a hyphen.

`scan` tells the options from the words.  For a command that is followed by the name
of another one it stops at the first word and leaves the rest alone.
-/

namespace Ideas.Arguments

/-- An option that a command has. -/
structure Rule where
  name : String
  takesValue : Bool := true
  /-- Whether it may be given more than once. -/
  repeats : Bool := false

/-- An option that was given, with its value if it takes one. -/
structure Setting where
  name : String
  value : Option String
deriving DecidableEq, Repr

/-- What an argument looks like by itself. -/
inductive Form where
  | word
  /-- Two hyphens and nothing else. -/
  | escape
  /-- The name of an option, with the value that is attached to it. -/
  | option (name : String) (attached : Option String)
  /-- One hyphen and more. -/
  | unknown
deriving DecidableEq, Repr

/-- Part an option's name from the value attached to it. -/
def partName (cs : List Char) : Form :=
  let name := String.ofList (cs.takeWhile (· ≠ '='))
  match cs.dropWhile (· ≠ '=') with
  | [] => .option name none
  | _ :: value => .option name (some (String.ofList value))

/-- What an argument looks like. -/
def formOf (argument : String) : Form :=
  match argument.toList with
  | ['-', '-'] => .escape
  | '-' :: '-' :: rest => partName rest
  | ['-'] => .word
  | '-' :: _ => .unknown
  | _ => .word

example : formOf "--tag=a=b" = .option "tag" (some "a=b") := by decide
example : formOf "--tag=" = .option "tag" (some "") := by decide
example : formOf "-" = .word ∧ formOf "--" = .escape ∧ formOf "-5" = .unknown := by decide

/-- Whether the option of a name takes a value, if there is such an option. -/
def takesValue? (rules : List Rule) (name : String) : Option Bool :=
  (rules.find? fun rule => rule.name = name).map Rule.takesValue

/-- Put an option in front of what was read. -/
def withSetting (name : String) (value : Option String) :
    List Setting × List String → List Setting × List String
  | (settings, words) => (⟨name, value⟩ :: settings, words)

/-- Put a word in front of what was read. -/
def withWord (word : String) : List Setting × List String → List Setting × List String
  | (settings, words) => (settings, word :: words)

/-- Tell options from words.  With `untilWord` the scan stops at the first word, and it and all
that follows it are left as they are. -/
def scan (rules : List Rule) (untilWord : Bool) :
    List String → Option (List Setting × List String)
  | [] => some ([], [])
  | argument :: rest =>
    match formOf argument with
    | .word =>
      if untilWord then some ([], argument :: rest)
      else (scan rules untilWord rest).map (withWord argument)
    | .escape => if untilWord then none else some ([], rest)
    | .unknown => none
    | .option name attached =>
      match takesValue? rules name, attached with
      | some true, some value => (scan rules untilWord rest).map (withSetting name (some value))
      | some true, none =>
        match rest with
        | [] => none
        | value :: more =>
          if formOf value = .word then
            (scan rules untilWord more).map (withSetting name (some value))
          else none
      | some false, none => (scan rules untilWord rest).map (withSetting name none)
      | _, _ => none

/-- The settings of an option. -/
def named (name : String) (settings : List Setting) : List Setting :=
  settings.filter fun setting => setting.name = name

/-- Whether every option is given at most as often as it may be. -/
def countsFit (rules : List Rule) (settings : List Setting) : Bool :=
  rules.all fun rule => rule.repeats || (named rule.name settings).length ≤ 1

/-- The values given for an option, in order. -/
def values (name : String) (settings : List Setting) : List String :=
  (named name settings).filterMap Setting.value

/-- The value given for an option. -/
def value? (name : String) (settings : List Setting) : Option String :=
  (values name settings).head?

/-- Whether an option is given. -/
def given (name : String) (settings : List Setting) : Bool :=
  !(named name settings).isEmpty

/-- Read arguments by rules: the options that are given, and the words. -/
def read? (rules : List Rule) (untilWord : Bool) (arguments : List String) :
    Option (List Setting × List String) :=
  (scan rules untilWord arguments).filter fun read => countsFit rules read.1

end Ideas.Arguments
