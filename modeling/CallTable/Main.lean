import CallTable.CommandLine.Run

/-!
The program: reads a command from its arguments and runs it on the disk.
-/

namespace CallTable

/-! ### The disk -/

/-- The access error with a number of the operating system. -/
def AccessError.ofCode? (code : UInt32) : Option AccessError :=
  if code = 2 then some .missing
  else if code = 17 then some .exists
  else if code = 20 then some .notDirectory
  else if code = 21 then some .isDirectory
  else if code = 36 then some .nameTooLong
  else none

def AccessError.ofError (e : IO.Error) : AccessError :=
  let known : Option AccessError := match e with
    | .noFileOrDirectory _ code _ | .inappropriateType _ code _ | .alreadyExists _ code _
    | .invalidArgument _ code _ => ofCode? code
    | _ => none
  known.getD (.other (toString e))

/-- Makes an access on the disk. -/
def accessing (access : IO Unit) : IO (Except AccessError Unit) := do
  try
    access
    return .ok ()
  catch e => return .error (.ofError e)

instance : FileSystem IO where
  makeDirectory path := accessing (IO.FS.createDir path.text)
  isDirectory path := do
    try
      (← IO.FS.realPath path.text).isDir
    catch _ => return false
  writeFile text contents := accessing (IO.FS.writeFile text contents)

/-! ### The program -/

namespace Command

def usage : String := Text.unlines [
  "Usage: calltable <COMMAND>",
  "",
  "Commands:",
  "  generate  Write the table header and wrapper class sources",
  "  layout    Print the slot table",
  "",
  "Options of generate:",
  "  -o, --out-dir <DIR>   Directory receiving the generated files [default: Generated]",
  "      --allow-collisions  Let later entries overwrite earlier ones instead of failing",
  "",
  "Options of layout:",
  "      --format <FORMAT>   Output format [default: text] [values: text, json]",
  "      --allow-collisions  Let later entries overwrite earlier ones instead of failing",
  "      --color <WHEN>      Colorize output [default: auto] [values: auto, always, never]",
  "",
  "Options:",
  "  -h, --help  Print help"]

def Stop.message : Stop → String
  | .help | .noArguments => ""
  | .unknownCommand => "error: unrecognized subcommand\n\n"
  | .unknownArgument => "error: unexpected argument\n\n"
  | .badValue => "error: missing or invalid value\n\n"
  | .repeatedOption => "error: the same option cannot be used multiple times\n\n"
  | .unwantedValue => "error: unexpected value for an option without one\n\n"

def Stop.outcome (stop : Stop) : Outcome :=
  match stop with
  | .help => ⟨stop.exitCode, usage, ""⟩
  | _ => ⟨stop.exitCode, "", stop.message ++ usage⟩

/-- Prints what a run tells, and exits like it. -/
def Outcome.finish (outcome : Outcome) : IO UInt32 := do
  IO.print outcome.output
  IO.eprint outcome.errors
  return outcome.exitCode

end Command

end CallTable

open CallTable Command in
def main (args : List String) : IO UInt32 := do
  match parse args with
  | .error stop => stop.outcome.finish
  | .ok command =>
      let toTerminal ← (← IO.getStdout).isTty
      (outcome (← command.run toTerminal)).finish
