/-!
# Argument lists

The arguments of a command are options and operands. An option is written `--name value` or
`--name=value`, or just `--name` if it is a switch; a single letter behind one hyphen is a switch
too. Behind `--` everything is an operand. A value of its own must not start with a hyphen, unless it
is only that or the option admits it.
-/

namespace CommandLink

/-- What an option looks like. Its name includes the hyphens. -/
inductive OptionShape where
  /-- It is given or not. -/
  | switch
  /-- It has a value. -/
  | value
  /-- It has a value, which may start with a hyphen. -/
  | anyValue
deriving DecidableEq, Repr

/-- One part of an argument list. -/
inductive Argument where
  | switch (name : String)
  | option (name value : String)
  | operand (text : String)
  /-- The mark that ends the options. -/
  | endOfOptions
deriving DecidableEq, Repr

/-- What one word of an argument list is, as far as the word alone shows it. -/
inductive ArgumentWord where
  | complete (argument : Argument)
  /-- The next word is the value of an option. -/
  | awaitsValue (name : String) (anyValue : Bool)
  /-- No argument starts like this. -/
  | unknown
deriving DecidableEq, Repr

namespace ArgumentWord

/-- The text up to the first equals sign and, if there is one, the text behind it. -/
def splitAttached (text : List Char) : String × Option String :=
  let name := text.takeWhile (· != '=')
  match text.dropWhile (· != '=') with
  | _ :: value => (String.ofList name, some (String.ofList value))
  | [] => (String.ofList name, none)

/-- An option with its attached value, if any. -/
def ofOption (shape? : String → Option OptionShape) (name : String) (attached : Option String) :
    ArgumentWord :=
  match shape? name, attached with
  | some .switch, none => complete (.switch name)
  | some .value, some value | some .anyValue, some value => complete (.option name value)
  | some .value, none => awaitsValue name false
  | some .anyValue, none => awaitsValue name true
  | _, _ => unknown

/-- What a word is among options of the given shapes. -/
def ofText (shape? : String → Option OptionShape) (word : String) : ArgumentWord :=
  match word.toList with
  | ['-', '-'] => complete .endOfOptions
  | '-' :: '-' :: text =>
    let (name, attached) := splitAttached text
    ofOption shape? ("--" ++ name) attached
  | '-' :: letter :: _ => ofOption shape? (String.ofList ['-', letter]) none
  | _ => complete (.operand word)

end ArgumentWord

namespace Argument

/-- Whether a word cannot be the value of an option. -/
def startsLikeOption (word : String) : Bool := word.startsWith "-" && word != "-"

/-- Reads arguments up to the first that `stops` says, or all of them: the arguments and the words
behind. -/
def scan? (shape? : String → Option OptionShape) (stops : Argument → Bool) :
    List String → Option (List Argument × List String)
  | [] => some ([], [])
  | word :: words =>
    match ArgumentWord.ofText shape? word with
    | .unknown => none
    | .complete argument =>
      if stops argument then some ([argument], words)
      else if argument = .endOfOptions then some (argument :: words.map operand, [])
      else (scan? shape? stops words).map fun (arguments, rest) => (argument :: arguments, rest)
    | .awaitsValue name anyValue =>
      match words with
      | [] => none
      | value :: words =>
        if startsLikeOption value && !anyValue then none
        else
          (scan? shape? stops words).map fun (arguments, rest) =>
            (option name value :: arguments, rest)

/-- The values of the option of the given name, in order. -/
def values (name : String) (arguments : List Argument) : List String :=
  arguments.filterMap fun
    | option given value => if given = name then some value else none
    | _ => none

/-- The value of the option of the given name, if it is given; nothing at all if it is given again. -/
def value? (name : String) (arguments : List Argument) : Option (Option String) :=
  match values name arguments with
  | [] => some none
  | [value] => some (some value)
  | _ => none

/-- Whether a switch is given; nothing if it is given again. -/
def isOn? (name : String) (arguments : List Argument) : Option Bool :=
  match arguments.count (switch name) with
  | 0 => some false
  | 1 => some true
  | _ => none

/-- The operands in order. -/
def operands (arguments : List Argument) : List String :=
  arguments.filterMap fun
    | operand text => some text
    | _ => none

end Argument

end CommandLink
