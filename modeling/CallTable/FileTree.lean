import CallTable.FileSystem

/-!
File trees: directories and files, each at the list of names that leads to it from the root.
What stands at a place is replaced without moving it in the tree, so putting the same thing at
the same place twice is the same as putting it once. A file tree is a file system in itself, and
the program that uses it goes from one tree to another.
-/

namespace CallTable

/-- The names on the way from the root down to a place. -/
abbrev Location := List String

inductive Node where
  | directory
  | file (contents : String)
deriving DecidableEq

/-- The places in use, apart from the root, and the working directory. -/
structure FileTree where
  nodes : List (Location × Node)
  here : Location
deriving DecidableEq

namespace FileTree

def empty : FileTree := ⟨[], []⟩

/-- What stands at a place. The root is a directory. -/
def node? (t : FileTree) (place : Location) : Option Node :=
  if place = [] then some .directory else t.nodes.lookup place

def putNode (place : Location) (node : Node) : List (Location × Node) → List (Location × Node)
  | [] => [(place, node)]
  | (p, n) :: rest => if p = place then (p, node) :: rest else (p, n) :: putNode place node rest

def put (t : FileTree) (place : Location) (node : Node) : FileTree :=
  { t with nodes := putNode place node t.nodes }

@[simp] theorem putNode_putNode (place : Location) (m n : Node) (nodes : List (Location × Node)) :
    putNode place n (putNode place m nodes) = putNode place n nodes := by
  induction nodes with
  | nil => simp [putNode]
  | cons head rest ih =>
      simp only [putNode]
      split <;> simp_all [putNode]

theorem lookup_putNode (place other : Location) (node : Node) (nodes : List (Location × Node)) :
    (putNode place node nodes).lookup other =
      if other = place then some node else nodes.lookup other := by
  induction nodes with
  | nil => grind [putNode]
  | cons head rest ih =>
      simp only [putNode]
      split <;> by_cases h : other = head.1 <;> grind

@[simp] theorem put_put (t : FileTree) (place : Location) (m n : Node) :
    (t.put place m).put place n = t.put place n := by
  simp [put]

/-- Only the place itself changes. -/
theorem node?_put {t : FileTree} {place other : Location} {node : Node} (h : place ≠ []) :
    (t.put place node).node? other = if other = place then some node else t.node? other := by
  simp only [node?, put, lookup_putNode]
  by_cases hroot : other = []
  · simp [hroot, Ne.symm h]
  · simp [hroot]

/-- The places below the working directory, by their names from there. -/
def below (t : FileTree) : List (Location × Node) :=
  t.nodes.filterMap fun (place, node) =>
    if t.here <+: place ∧ place ≠ t.here then some (place.drop t.here.length, node) else none

/-! ### Following a path

Steps are followed one by one, and every step has to start from a directory. -/

/-- Fails unless a place is a directory. -/
def requireDirectory (t : FileTree) (place : Location) : Except AccessError Unit :=
  match t.node? place with
  | some .directory => .ok ()
  | some (.file _) => .error .notDirectory
  | none => .error .missing

/-- The place that a step leads to from a directory. The root is its own parent. -/
def step (t : FileTree) (place : Location) (name : String) : Except AccessError Location := do
  t.requireDirectory place
  if name = "." then return place
  else if name = ".." then return place.dropLast
  else if Path.maxName < name.utf8ByteSize then throw .nameTooLong
  else if (t.node? (place ++ [name])).isSome then return place ++ [name]
  else throw .missing

def walk (t : FileTree) : Location → List String → Except AccessError Location
  | place, [] => .ok place
  | place, name :: rest => do t.walk (← t.step place name) rest

def start (t : FileTree) (path : Path) : Location := if path.absolute then [] else t.here

def resolve (t : FileTree) (path : Path) : Except AccessError Location :=
  t.walk (t.start path) path.steps

def isDirectory (t : FileTree) (path : Path) : Bool :=
  match t.resolve path with
  | .ok place => t.node? place = some .directory
  | .error _ => false

/-- The place that a path names in its directory, where something may stand or not. A path that
ends in a step without a name of its own names an existing directory, and fails for the reason
given. -/
def target (t : FileTree) (path : Path) (whenNameless : AccessError) :
    Except AccessError Location := do
  let parent ← t.walk (t.start path) path.steps.dropLast
  t.requireDirectory parent
  match path.steps.getLast? with
  | none => throw whenNameless
  | some name =>
      if name = "." ∨ name = ".." then throw whenNameless
      else if Path.maxName < name.utf8ByteSize then throw .nameTooLong
      else return parent ++ [name]

/-! ### Changing a tree -/

def makeDirectory (t : FileTree) (path : Path) : Except AccessError FileTree := do
  let place ← t.target path .exists
  match t.node? place with
  | some _ => throw .exists
  | none => return t.put place .directory

/-- Writes a file, replacing what it held. -/
def writeFile (t : FileTree) (text contents : String) : Except AccessError FileTree := do
  let path ← Path.read text
  let place ← t.target path .isDirectory
  match t.node? place with
  | some .directory => throw .isDirectory
  | _ => return t.put place (.file contents)

/-! ### Running a program -/

variable {α β : Type} {t changed : FileTree} {path : Path} {text contents : String}
  {reason : AccessError} {change : FileTree → Except AccessError FileTree}

/-- An access that fails leaves the tree as it is. -/
def access (change : FileTree → Except AccessError FileTree) :
    StateM FileTree (Except AccessError Unit) := fun t =>
  match change t with
  | .ok changed => (.ok (), changed)
  | .error reason => (.error reason, t)

instance : FileSystem (StateM FileTree) where
  makeDirectory path := access fun t => t.makeDirectory path
  isDirectory path := fun t => (t.isDirectory path, t)
  writeFile text contents := access fun t => t.writeFile text contents

/-- Runs a program, with the tree that it leaves and its result. -/
def run (t : FileTree) (program : StateM FileTree α) : FileTree × α :=
  match program t with
  | (a, after) => (after, a)

@[simp] theorem run_pure (t : FileTree) (a : α) : t.run (pure a) = (t, a) := rfl

theorem run_bind (t : FileTree) (x : StateM FileTree α) (f : α → StateM FileTree β) :
    t.run (x >>= f) = (t.run x).1.run (f (t.run x).2) := rfl

theorem run_access_of_ok (h : change t = .ok changed) :
    t.run (access change) = (changed, .ok ()) := by
  rw [run, access, h]

theorem run_access_of_error (h : change t = .error reason) :
    t.run (access change) = (t, .error reason) := by
  rw [run, access, h]

theorem run_makeDirectory_of_ok (h : t.makeDirectory path = .ok changed) :
    t.run (FileSystem.makeDirectory path) = (changed, .ok ()) := run_access_of_ok h

theorem run_makeDirectory_of_error (h : t.makeDirectory path = .error reason) :
    t.run (FileSystem.makeDirectory path) = (t, .error reason) := run_access_of_error h

theorem run_writeFile_of_ok (h : t.writeFile text contents = .ok changed) :
    t.run (FileSystem.writeFile text contents) = (changed, .ok ()) := run_access_of_ok h

theorem run_writeFile_of_error (h : t.writeFile text contents = .error reason) :
    t.run (FileSystem.writeFile text contents) = (t, .error reason) := run_access_of_error h

def makeDirectories (t : FileTree) (text : String) : FileTree × Except AccessError Unit :=
  t.run (FileSystem.makeDirectories text)

end FileTree

end CallTable
