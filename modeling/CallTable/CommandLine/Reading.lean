/-!
Reading a command from its arguments, from left to right. The value of an option may follow it
as an argument of its own; the option is then settled, and its value looked at, once the next
option or the end shows that nothing more belongs to it. The first mistake and the first request
for help end the reading.
-/

namespace CallTable

/-! ### Commands -/

inductive Format where
  | text
  | json
deriving DecidableEq

/-- When to color a printed table. -/
inductive Coloring where
  /-- If the output is a terminal. -/
  | auto
  | always
  | never
deriving DecidableEq

inductive Command where
  /-- Writes the sources into a directory. -/
  | generate (directory : String) (allowCollisions : Bool)
  /-- Prints the table. -/
  | layout (format : Format) (allowCollisions : Bool) (coloring : Coloring)
deriving DecidableEq

namespace Command

/-- Why the arguments end before they make up a command. -/
inductive Stop where
  | help
  | noArguments
  | unknownCommand
  | unknownArgument
  /-- A value that is missing or that its option does not admit. -/
  | badValue
  /-- An option that was given before. -/
  | repeatedOption
  /-- A value for an option that takes none. -/
  | unwantedValue
deriving DecidableEq

/-- Only a request for help is no mistake. -/
def Stop.exitCode : Stop → UInt32
  | .help => 0
  | _ => 2

end Command

def Format.ofName? : String → Option Format
  | "text" => some .text
  | "json" => some .json
  | _ => none

def Coloring.ofName? : String → Option Coloring
  | "auto" => some .auto
  | "always" => some .always
  | "never" => some .never
  | _ => none

/-- JSON is never colored. -/
def Format.colored (format : Format) (coloring : Coloring) (toTerminal : Bool) : Bool :=
  match format, coloring with
  | .json, _ => false
  | .text, .auto => toTerminal
  | .text, .always => true
  | .text, .never => false

namespace Command

/-! ### Arguments by their form -/

inductive Argument where
  /-- Two dashes alone. -/
  | separator
  /-- Two dashes, a name, and a value behind an equals sign if there is one. -/
  | long (name : String) (value : Option String)
  /-- A dash, a letter, and what is attached to it. -/
  | short (letter : Char) (attached : String)
  | plain (text : String)
deriving DecidableEq

/-- Cuts a text at its first equals sign. -/
def splitValue (cs : List Char) : String × Option String :=
  (String.ofList (cs.takeWhile (· ≠ '=')),
    match cs.dropWhile (· ≠ '=') with
    | [] => none
    | _ :: value => some (String.ofList value))

/-- A dash alone is a plain text. -/
def Argument.ofString (text : String) : Argument :=
  match text.toList with
  | ['-', '-'] => .separator
  | '-' :: '-' :: cs => .long (splitValue cs).1 (splitValue cs).2
  | '-' :: letter :: cs => .short letter (String.ofList cs)
  | _ => .plain text

/-- What is attached to a letter is its value, behind an equals sign or not. -/
def attachedValue (attached : String) : Option String :=
  match attached.toList with
  | [] => none
  | '=' :: value => some (String.ofList value)
  | value => some (String.ofList value)

/-! ### Options -/

/-- What a command is called by. -/
inductive Verb where
  | generate
  | layout
deriving DecidableEq

inductive Flag where
  | help
  | directory
  | allowCollisions
  | format
  | coloring
deriving DecidableEq

def Verb.ofName? : String → Option Verb
  | "generate" => some .generate
  | "layout" => some .layout
  | _ => none

namespace Flag

def longName : Flag → String
  | .help => "help"
  | .directory => "out-dir"
  | .allowCollisions => "allow-collisions"
  | .format => "format"
  | .coloring => "color"

def letter? : Flag → Option Char
  | .help => some 'h'
  | .directory => some 'o'
  | _ => none

def takesValue : Flag → Bool
  | .help | .allowCollisions => false
  | .directory | .format | .coloring => true

/-- The values that an option may have. One that takes no value has the empty text instead. -/
def admits : Flag → String → Bool
  | .help, _ | .allowCollisions, _ => true
  | .directory, value => value ≠ ""
  | .format, value => (Format.ofName? value).isSome
  | .coloring, value => (Coloring.ofName? value).isSome

end Flag

def Verb.flags : Verb → List Flag
  | .generate => [.directory, .allowCollisions, .help]
  | .layout => [.format, .allowCollisions, .coloring, .help]

/-- The options settled so far, and the one whose value may still follow or has just done so. -/
structure Reading where
  settled : List (Flag × String) := []
  pending : Option (Flag × Option String) := none

namespace Reading

def value? (r : Reading) (flag : Flag) : Option String := r.settled.lookup flag

/-- Settles an option with its value, provided that it has one, is new, and admits the value. -/
def settleWith (r : Reading) (flag : Flag) (value : Option String) : Except Stop Reading :=
  match value with
  | none => .error .badValue
  | some value =>
      if (r.value? flag).isSome then .error .repeatedOption
      else if flag.admits value then .ok { settled := (flag, value) :: r.settled }
      else .error .badValue

def settle (r : Reading) : Except Stop Reading :=
  match r.pending with
  | none => .ok r
  | some (flag, value) => settleWith { r with pending := none } flag value

/-- Takes in an option, with its value if it came in the same argument. -/
def takeFlag (r : Reading) (flag : Flag) (value : Option String) : Except Stop Reading :=
  match flag.takesValue, value with
  | true, some value => do (← r.settle).settleWith flag (some value)
  | true, none => do return { ← r.settle with pending := some (flag, none) }
  | false, some _ => .error .unwantedValue
  | false, none => do
      let r ← r.settle
      if flag = .help then throw .help
      else r.settleWith flag (some "")

/-- A plain text can only be the value of the option before it. -/
def takeText (r : Reading) (text : String) : Except Stop Reading :=
  match r.pending with
  | some (flag, none) => .ok { r with pending := some (flag, some text) }
  | _ => .error .unknownArgument

/-- Takes in an option that was looked up by its name or letter. -/
def takeNamed (r : Reading) (flag : Option Flag) (value : Flag → Option String) :
    Except Stop Reading :=
  match flag with
  | some flag => r.takeFlag flag (value flag)
  | none => .error .unknownArgument

/-- Reads the arguments of a command. Nothing may follow the separator. -/
def read (verb : Verb) (r : Reading) : List String → Except Stop Reading
  | [] => r.settle
  | argument :: rest =>
      match Argument.ofString argument with
      | .separator => if rest.isEmpty then r.settle else .error .unknownArgument
      | .long name value => do
          let r ← r.takeNamed (verb.flags.find? (·.longName = name)) fun _ => value
          r.read verb rest
      | .short letter attached => do
          let r ← r.takeNamed (verb.flags.find? (·.letter? = some letter)) fun flag =>
            if flag.takesValue then attachedValue attached else none
          r.read verb rest
      | .plain text => do (← r.takeText text).read verb rest

/-- The command that the settled options make up, with defaults for the rest. -/
def command (verb : Verb) (r : Reading) : Command :=
  let allowCollisions := (r.value? .allowCollisions).isSome
  match verb with
  | .generate => .generate ((r.value? .directory).getD "Generated") allowCollisions
  | .layout =>
      .layout (((r.value? .format).bind Format.ofName?).getD .text) allowCollisions
        (((r.value? .coloring).bind Coloring.ofName?).getD .auto)

end Reading

/-- A command has no commands of its own, so help can be asked for by one name at most. -/
def stopOfHelp : List String → Stop
  | [] => .help
  | [name] => if name = "help" ∨ (Verb.ofName? name).isSome then .help else .unknownCommand
  | _ => .unknownCommand

/-- Why no command starts with this argument. -/
def stopOfFirst (argument : String) (rest : List String) : Stop :=
  if argument = "help" then stopOfHelp rest
  else match Argument.ofString argument, rest with
    | .separator, [] => .noArguments
    | .separator, next :: _ =>
        if next = "help" ∨ (Verb.ofName? next).isSome then .unknownArgument else .unknownCommand
    | .long "help" none, _ => .help
    | .long "help" (some _), _ => .unwantedValue
    | .short 'h' _, _ => .help
    | .long .., _ | .short .., _ => .unknownArgument
    | .plain _, _ => .unknownCommand

def parse : List String → Except Stop Command
  | [] => .error .noArguments
  | argument :: rest =>
      match Verb.ofName? argument with
      | some verb => do return (← Reading.read verb {} rest).command verb
      | none => .error (stopOfFirst argument rest)

end Command

end CallTable
