import CallTable.FileTree
import CallTable.Sources

/-!
Storage of the generated sources in a directory. The directory is made first, then the documents
are written one after another, and the first failure ends the run.
-/

namespace CallTable

/-- Why a run fails: its table is not built, or a place in the file system cannot be written. -/
inductive Failure where
  | rejected (reason : Rejection)
  | unwritable (path : String) (reason : AccessError)
deriving DecidableEq

def Failure.message : Failure → String
  | .rejected reason => reason.message
  | .unwritable path reason => "failed to write " ++ path ++ ": " ++ reason.message

namespace FileSystem

variable {m : Type → Type} [Monad m] [FileSystem m]

/-- What comes of storing documents, the first of which was written to this path. -/
def reportWritten (path contents : String) (stored : Reported Failure (List String)) :
    Reported Failure (List String) := do
  Reported.report [.wrote path contents.utf8ByteSize]
  return path :: (← stored)

/-- Writes named documents into a directory. The result lists the paths written to. -/
def storeFiles (directory : String) :
    List (String × String) → m (Reported Failure (List String))
  | [] => return pure []
  | (name, contents) :: rest => do
      let path := Path.join directory name
      match ← writeFile path contents with
      | .error reason => return .fail (.unwritable path reason)
      | .ok () => return reportWritten path contents (← storeFiles directory rest)

def store (s : Sources) (directory : String) (p : Profile) :
    m (Reported Failure (List String)) := do
  match ← makeDirectories directory with
  | .error reason => return .fail (.unwritable directory reason)
  | .ok () => storeFiles directory (s.files p)

end FileSystem

/-- Stores the sources in a file tree. -/
def Sources.store (s : Sources) (directory : String) (p : Profile) (t : FileTree) :
    FileTree × Reported Failure (List String) :=
  t.run (FileSystem.store s directory p)

end CallTable
