import CallTable.Acceptance
import CallTable.Json

/-!
Tables and their cells. A table starts out as padding around the cell that refers back, and the
entries are then put into their cells one after another. Under the strict policy they are accepted
beforehand, so that no entry finds its cell taken.
-/

namespace CallTable

/-! ### Cells

A cell is printed as one field of a C++ struct, behind a comment that gives its offset. -/

inductive Cell where
  | padding (offset : UInt32)
  | backReference (offset : UInt32)
  | function (offset : UInt32) (entry : Entry)
deriving DecidableEq

namespace Cell

def offset : Cell → UInt32
  | .padding o | .backReference o | .function o _ => o

def isPadding : Cell → Bool
  | .padding _ => true
  | _ => false

def entry? : Cell → Option Entry
  | .function _ e => some e
  | _ => none

/-- The comment in front of a field. -/
def tag (offset : UInt32) : String := "/* " ++ address offset ++ " */"

def paddingName (offset : UInt32) : String := "dword" ++ Text.hex offset.toNat

/-- A function shows the offset that its entry asks for, which may lie inside the cell. -/
def render (palette : Palette) (p : Profile) : Cell → String
  | .padding o =>
      palette.padding ++ tag o ++ " " ++ p.paddingType ++ " " ++ paddingName o ++ ";"
        ++ palette.reset
  | .backReference o =>
      palette.offset ++ tag o ++ palette.reset ++ " " ++ palette.backReference ++ p.className
        ++ "* " ++ p.ownerField ++ palette.reset ++ ";"
  | .function _ e =>
      palette.offset ++ tag e.offset ++ palette.reset ++ " " ++ e.returnType ++ " ("
        ++ p.convention ++ " *" ++ palette.function ++ e.name ++ palette.reset ++ ")("
        ++ Entry.listed e.parameters ++ ");"

end Cell

/-! ### Placing entries -/

structure Table where
  geometry : Geometry
  cells : List Cell

/-- The cell at an index before any entry is placed. -/
def Geometry.initialCell (g : Geometry) (index : Nat) : Cell :=
  if index = g.backIndex then .backReference g.backOffset else .padding (cellOffset index)

def Geometry.initialCells (g : Geometry) : List Cell :=
  (List.range g.cellCount).map g.initialCell

@[simp] theorem Geometry.length_initialCells (g : Geometry) :
    g.initialCells.length = g.cellCount := by
  simp [initialCells]

/-- An entry that takes a cell from its occupant is reported with what it displaces, and one that
does not start at its cell with where it went. -/
def Entry.displacement (e : Entry) (occupant : Cell) : List Event :=
  (match occupant with
    | .padding _ => []
    | .backReference o => [.tookBackReference e.name o]
    | .function o previous => [.tookCell e.name previous.name o])
  ++ if e.Aligned then [] else [.movedToCell e.name e.offset (cellOffset e.index)]

def Entry.placedCell (e : Entry) : Cell := .function (cellOffset e.index) e

/-- Puts entries into the cells of a table of `size` bytes. -/
def place (size : UInt32) : List Cell → List Entry → Reported Rejection (List Cell)
  | cells, [] => pure cells
  | cells, e :: rest =>
      match cells[e.index]? with
      | none => .fail (.outside e.name e.offset size)
      | some occupant => do
          Reported.report (e.displacement occupant)
          place size (cells.set e.index e.placedCell) rest

@[simp] theorem place_nil (size : UInt32) (cells : List Cell) : place size cells [] = pure cells :=
  rfl

/-- An entry outside the table ends the placement. -/
theorem place_cons_of_le {size : UInt32} {cells : List Cell} {e : Entry} {rest : List Entry}
    (h : cells.length ≤ e.index) :
    place size cells (e :: rest) = .fail (.outside e.name e.offset size) := by
  rw [place, List.getElem?_eq_none h]

theorem place_cons_of_lt {size : UInt32} {cells : List Cell} {e : Entry} {rest : List Entry}
    (h : e.index < cells.length) :
    place size cells (e :: rest) =
      ⟨(place size (cells.set e.index e.placedCell) rest).result,
        e.displacement cells[e.index] ++
          (place size (cells.set e.index e.placedCell) rest).events⟩ := by
  rw [place, List.getElem?_eq_getElem h]
  rfl

/-- What has to hold before any entry is placed. -/
def Profile.admit (p : Profile) (entries : List Entry) : Reported Rejection Unit :=
  match p.policy with
  | .strict => accept p.geometry entries
  | .lastWins =>
      match p.geometry.fault? with
      | some r => .fail r
      | none => pure ()

namespace Table

def functionCount (cells : List Cell) : Nat := (cells.filterMap Cell.entry?).length

def arrange (p : Profile) (entries : List Entry) : Reported Rejection Table := do
  p.admit entries
  let cells ← place p.geometry.size p.geometry.initialCells entries
  Reported.report [.arranged cells.length (functionCount cells)]
  return ⟨p.geometry, cells⟩

/-- The cell that an offset falls into. -/
def cellAt? (t : Table) (offset : UInt32) : Option Cell := t.cells[offset.toNat / 4]?

/-- The fields of the table's struct, in order. -/
def fields (t : Table) (p : Profile) : List String := t.cells.map (Cell.render .plain p)

/-- The table as text, in the colors of the profile. -/
def listing (t : Table) (p : Profile) : String :=
  Text.unlines (t.cells.map (Cell.render p.palette p))

end Table

/-! ### Tables as JSON values

A cell says of which kind it is. -/

def Json.ofOffset (offset : UInt32) : Json := .number offset.toNat

def Entry.toJson (e : Entry) : Json := .record [
  ("offset", .ofOffset e.offset),
  ("return_type", .text e.returnType),
  ("name", .text e.name),
  ("arg_types", .list (e.argTypes.map .text))]

def Cell.toJson : Cell → Json
  | .padding o => .record [("kind", .text "placeholder"), ("offset", .ofOffset o)]
  | .backReference o => .record [("kind", .text "back_reference"), ("offset", .ofOffset o)]
  | .function o e => .record [
      ("kind", .text "function"), ("offset", .ofOffset o), ("descriptor", e.toJson)]

namespace Table

def cellsJson (t : Table) : Json := .list (t.cells.map Cell.toJson)

def toJson (t : Table) : Json := .record [("slots", t.cellsJson)]

/-- The cells together with the geometry of the table. -/
def report (t : Table) : Json := .record [
  ("size", .ofOffset t.geometry.size),
  ("back_reference_offset", .ofOffset t.geometry.backOffset),
  ("slots", t.cellsJson)]

end Table

end CallTable
