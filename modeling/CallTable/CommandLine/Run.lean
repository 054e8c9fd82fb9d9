import CallTable.CommandLine.Reading
import CallTable.Storage

/-!
Running a command on the call table of the graphics driver.
-/

namespace CallTable

/-! ### The graphics driver

Functions whose purpose is unknown are named after their offset. -/

namespace GraphicsDriver

/-- An entry whose arguments are all 32-bit numbers. -/
def words (offset : UInt32) (returnType name : String) (arity : Nat) : Entry :=
  ⟨offset, returnType, name, List.replicate arity "u32"⟩

/-- An entry whose arguments are all untyped pointers. -/
def pointers (offset : UInt32) (returnType name : String) (arity : Nat) : Entry :=
  ⟨offset, returnType, name, List.replicate arity "void*"⟩

/-- An entry that takes a number and the context of the game. -/
def inContext (offset : UInt32) (returnType name : String) : Entry :=
  ⟨offset, returnType, name, ["u32", "FF7::GameContext*"]⟩

def entries : List Entry := [
  words 0x00 "u32" "GfxFn_0" 1,
  words 0x04 "u32" "Shutdown" 1,
  words 0x10 "u32" "EndFrame" 1,
  words 0x14 "u32" "Clear" 2,
  words 0x18 "u32" "ClearAll" 0,
  words 0x4C "u32" "GfxFn_4C" 1,
  pointers 0x50 "void*" "GfxFn_50" 3,
  words 0x54 "u32" "GfxFn_54" 5,
  words 0x58 "u32" "GfxFn_58" 6,
  words 0x64 "u32" "SetRenderState" 3,
  words 0x68 "u32" "GfxFn_68" 2,
  words 0x6C "u32" "GfxFn_6C" 2,
  words 0x70 "u32" "GfxFn_70" 2,
  words 0x74 "u32" "GfxFn_74" 2,
  words 0x78 "u32" "GfxFn_78" 2,
  words 0x7C "u32" "GfxFn_7C" 2,
  words 0x80 "u32" "GfxFn_80" 2,
  inContext 0x84 "void" "GfxFn_84",
  inContext 0x88 "u32" "GfxFn_88",
  words 0x8C "u32" "ResetState" 1,
  words 0xA8 "void" "DrawModel2_A8" 2,
  words 0xAC "void" "DrawModel2_AC" 2,
  words 0xB0 "void" "DrawModel2_B0" 2,
  pointers 0xB4 "void" "DrawTiles" 2,
  words 0xB8 "u32" "GfxFn_B8" 3,
  words 0xBC "u32" "GfxFn_BC" 3,
  words 0xC0 "u32" "GfxFn_C0" 3,
  words 0xC4 "u32" "GfxFn_C4" 3,
  words 0xC8 "u32" "GfxFn_C8" 3,
  words 0xCC "void" "DrawModel3_CC" 2,
  words 0xD0 "void" "DrawModel3_D0" 2,
  words 0xD4 "void" "DrawModel3_D4" 2,
  pointers 0xD8 "void" "DrawTiles2" 2,
  words 0xE4 "u32" "GfxFn_E4" 2,
  words 0xE8 "u32" "GfxFn_E8" 2]

end GraphicsDriver

/-! ### Runs -/

namespace Command

/-- What a run prints and how it exits. -/
structure Outcome where
  exitCode : UInt32
  output : String
  errors : String

def profile (allowCollisions : Bool) : Profile :=
  { policy := if allowCollisions then .lastWins else .strict }

/-- The text of the table in a format. -/
def print (format : Format) (allowCollisions colored : Bool) : Reported Rejection String := do
  let p := { profile allowCollisions with palette := .ofBool colored }
  let t ← Table.arrange p GraphicsDriver.entries
  match format with
  | .text => return t.listing p
  | .json => return t.report.pretty "" ++ "\n"

/-- Runs a command in a file system. A run that generates prints the paths written to. -/
def run {m : Type → Type} [Monad m] [FileSystem m] (toTerminal : Bool) :
    Command → m (Reported Failure String)
  | .generate directory allowCollisions => do
      let p := profile allowCollisions
      let generated := (Sources.ofEntries p GraphicsDriver.entries).mapError Failure.rejected
      match generated.result with
      | .error reason => return ⟨.error reason, generated.events⟩
      | .ok s =>
          let stored ← FileSystem.store s directory p
          return do
            Reported.report generated.events
            return Text.unlines (← stored)
  | .layout format allowCollisions coloring =>
      return (print format allowCollisions (format.colored coloring toTerminal)).mapError .rejected

def perform (toTerminal : Bool) (t : FileTree) (command : Command) :
    FileTree × Reported Failure String :=
  t.run (command.run toTerminal)

def outcome (reported : Reported Failure String) : Outcome :=
  match reported.result with
  | .ok output => ⟨0, output, ""⟩
  | .error reason => ⟨1, "", "error: " ++ reason.message ++ "\n"⟩

end Command

end CallTable
