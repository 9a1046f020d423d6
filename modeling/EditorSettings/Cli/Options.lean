import EditorSettings.Text.Basic

/-!
# Command line options

Arguments are options and operands.  A long option is a word after two hyphens, and its value
follows an `=` or is the next argument.  Short options are single characters after one hyphen;
several of them share the hyphen, and the first that takes a value takes the rest of the
argument, or the next argument if there is no rest.  Everything after the argument `--` is an
operand.

* `OptionSpec` describes an option under a tag;
* `readOption` reads the options of one argument, `readArguments` all arguments.
-/

namespace EditorSettings.Cli

inductive ArgumentError
  | noSuchOption (name : Text)
  | missingValue (name : Text)
  | unexpectedValue (name : Text)
  deriving DecidableEq, Repr

structure OptionSpec (α : Type) where
  /-- What the option is called in the program. -/
  tag : α
  /-- Its characters after one hyphen. -/
  short : List Char
  /-- Its words after two hyphens. -/
  long : List Text
  takesValue : Bool

section

variable {α : Type}

/-- Read short options that share a hyphen.  The flag tells whether the next argument was taken
as a value. -/
def readShort (specs : List (OptionSpec α)) (next : Option Text) :
    Text → Except ArgumentError (List (α × Option Text) × Bool)
  | [] => .ok ([], false)
  | c :: more =>
    match specs.find? (·.short.contains c) with
    | none => .error (.noSuchOption ['-', c])
    | some spec =>
      if spec.takesValue then
        if !more.isEmpty then .ok ([(spec.tag, some more)], false)
        else
          match next with
          | none => .error (.missingValue ['-', c])
          | some value => .ok ([(spec.tag, some value)], true)
      else
        match readShort specs next more with
        | .error e => .error e
        | .ok (options, tookNext) => .ok ((spec.tag, none) :: options, tookNext)

def readLong (spec : OptionSpec α) (name : Text) (value next : Option Text) :
    Except ArgumentError (List (α × Option Text) × Bool) :=
  if spec.takesValue then
    match value, next with
    | some value, _ => .ok ([(spec.tag, some value)], false)
    | none, some value => .ok ([(spec.tag, some value)], true)
    | none, none => .error (.missingValue name)
  else
    match value with
    | some _ => .error (.unexpectedValue name)
    | none => .ok ([(spec.tag, none)], false)

def readOption (specs : List (OptionSpec α)) (argument : Text) (next : Option Text) :
    Except ArgumentError (List (α × Option Text) × Bool) :=
  let name := argument.takeWhile (· ≠ '=')
  let value := (argument.dropWhile (· ≠ '=')).tail?
  match specs.find? fun spec => spec.long.any fun word => "--".toList ++ word = name with
  | some spec => readLong spec name value next
  | none =>
    if "--".toList.isPrefixOf argument then .error (.noSuchOption name)
    else readShort specs next argument.tail

/-- Read all arguments as options, in order, and operands.  Without `interspersed`, everything
after the first operand is an operand. -/
def readArguments (specs : List (OptionSpec α)) (interspersed : Bool) (arguments : List Text) :
    Except ArgumentError (List (α × Option Text) × List Text) :=
  match arguments with
  | [] => .ok ([], [])
  | argument :: rest =>
    if argument = "--".toList then .ok ([], rest)
    else if argument.head? = some '-' && 1 < argument.length then
      match readOption specs argument rest.head? with
      | .error e => .error e
      | .ok (options, tookNext) =>
        match readArguments specs interspersed (if tookNext then rest.tail else rest) with
        | .error e => .error e
        | .ok (more, operands) => .ok (options ++ more, operands)
    else if interspersed then
      match readArguments specs interspersed rest with
      | .error e => .error e
      | .ok (options, operands) => .ok (options, argument :: operands)
    else .ok ([], argument :: rest)
termination_by arguments.length
decreasing_by
  · split <;> simp only [List.length_tail, List.length_cons] <;> omega
  · simp

def lastValue [DecidableEq α] (tag : α) (options : List (α × Option Text)) : Option Text :=
  (options.reverse.find? (·.1 = tag)).bind (·.2)

def hasOption [DecidableEq α] (tag : α) (options : List (α × Option Text)) : Bool :=
  options.any (·.1 = tag)

end

end EditorSettings.Cli
