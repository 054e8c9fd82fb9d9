/-!
File systems as programs see them: paths, the accesses that a program may make, and what can be put
together from these. A program runs in any monad that carries out the accesses.
-/

namespace CallTable

/-! ### Paths

Paths are texts whose steps are separated by slashes. They are taken from the root if the text
starts with a slash and from the working directory otherwise. Slashes next to each other count as
one. -/

structure Path where
  absolute : Bool
  steps : List String
deriving DecidableEq

/-- Why an access fails. -/
inductive AccessError where
  | missing
  | exists
  | notDirectory
  | isDirectory
  | nameTooLong
  | nulInName
  /-- Anything else, in the words of the operating system. -/
  | other (wording : String)
deriving DecidableEq

/-- The wording of the operating system, and its number for the error. -/
def AccessError.message : AccessError → String
  | .missing => "No such file or directory (os error 2)"
  | .exists => "File exists (os error 17)"
  | .notDirectory => "Not a directory (os error 20)"
  | .isDirectory => "Is a directory (os error 21)"
  | .nameTooLong => "File name too long (os error 36)"
  | .nulInName => "file name contained an unexpected NUL byte"
  | .other wording => wording

namespace Path

/-- Cuts a text at its slashes, into a first piece and those that follow. -/
def pieces : List Char → List Char × List (List Char)
  | [] => ([], [])
  | c :: cs =>
      let (piece, rest) := pieces cs
      if c = '/' then ([], piece :: rest) else (c :: piece, rest)

def ofString (text : String) : Path :=
  let (piece, rest) := pieces text.toList
  { absolute := text.toList.head? = some '/'
    steps := ((piece :: rest).filter (· ≠ [])).map String.ofList }

def text (path : Path) : String :=
  (if path.absolute then "/" else "") ++ "/".intercalate path.steps

/-- The longest name in a directory, in bytes. -/
def maxName : Nat := 255

/-- The longest text that is read as a path, in bytes. -/
def maxText : Nat := 4095

/-- Reads a text as a path. -/
def read (text : String) : Except AccessError Path :=
  if '\x00' ∈ text.toList then .error .nulInName
  else if text = "" then .error .missing
  else if maxText < text.utf8ByteSize then .error .nameTooLong
  else .ok (.ofString text)

/-- The steps without those that stay in place, but for one that opens a relative path. -/
def essential (path : Path) : List String :=
  match path.steps with
  | [] => []
  | s :: rest =>
      if s = "." ∧ path.absolute then rest.filter (· ≠ ".") else s :: rest.filter (· ≠ ".")

/-- A name in a directory. A name that is absolute itself does not depend on the directory. -/
def join (directory name : String) : String :=
  if name.toList.head? = some '/' then name
  else if directory = "" ∨ directory.toList.getLast? = some '/' then directory ++ name
  else directory ++ "/" ++ name

end Path

/-! ### Accesses -/

/-- The accesses that a program may make, carried out in a monad. -/
class FileSystem (m : Type → Type) where
  makeDirectory : Path → m (Except AccessError Unit)
  isDirectory : Path → m Bool
  /-- Writes a file, given by the text of its path, replacing what it held. -/
  writeFile (text contents : String) : m (Except AccessError Unit)

namespace FileSystem

variable {m : Type → Type} [Monad m] [FileSystem m]

/-- That a directory cannot be made is no failure if it is there. -/
def orExisting (path : Path) (reason : AccessError) : m (Except AccessError Unit) :=
  return if ← isDirectory path then .ok () else .error reason

/-- Makes a directory unless there is one already. If its parent is missing, `parents` has the
parents made and the directory is tried again. -/
def ensureDirectory (path : Path) (parents : m (Except AccessError Unit)) :
    m (Except AccessError Unit) := do
  match ← makeDirectory path with
  | .ok () => return .ok ()
  | .error .missing =>
      match ← parents with
      | .error reason => return .error reason
      | .ok () =>
          match ← makeDirectory path with
          | .ok () => return .ok ()
          | .error reason => orExisting path reason
  | .error reason => orExisting path reason

/-- Makes the directories on the way to a place, given from its end to its start. -/
def ensureAncestors (absolute : Bool) : List String → m (Except AccessError Unit)
  | [] => return .ok ()
  | name :: up => ensureDirectory ⟨absolute, (name :: up).reverse⟩ (ensureAncestors absolute up)

/-- Makes a directory and all that are missing on the way to it. The empty text stands for the
working directory. A failure leaves what was made on the way. -/
def makeDirectories (text : String) : m (Except AccessError Unit) :=
  if text = "" then return .ok ()
  else match Path.read text with
    | .error reason => return .error reason
    | .ok path =>
        ensureDirectory path (ensureAncestors path.absolute path.essential.dropLast.reverse)

end FileSystem

end CallTable
