import CallTable.Entry

/-!
Profiles: the geometry of the table, how to deal with entries that compete for a cell, and the names
and colors in which the table is written.
-/

namespace CallTable

/-! ### Geometry

The geometry of a table is its size in bytes, and the offset of the cell that refers back to the
object owning the table. The table is cut into cells of four bytes. -/

structure Geometry where
  size : UInt32
  backOffset : UInt32
deriving DecidableEq

namespace Geometry

/-- Sixty cells, the tenth of which refers back. -/
def standard : Geometry := ⟨0xF0, 0x24⟩

def cellCount (g : Geometry) : Nat := g.size.toNat / 4

def backIndex (g : Geometry) : Nat := g.backOffset.toNat / 4

/-- The offset lies inside the table. -/
def Contains (g : Geometry) (offset : UInt32) : Prop := offset < g.size

instance (g : Geometry) (offset : UInt32) : Decidable (g.Contains offset) :=
  inferInstanceAs (Decidable (_ < _))

/-- A table consists of whole cells, of which there is at least one, and refers back from the
start of one of them. -/
structure WellFormed (g : Geometry) : Prop where
  size_pos : 0 < g.size.toNat
  size_aligned : g.size.toNat % 4 = 0
  backOffset_aligned : g.backOffset.toNat % 4 = 0
  contains_backOffset : g.Contains g.backOffset

theorem contains_iff {g : Geometry} {offset : UInt32} :
    g.Contains offset ↔ offset.toNat < g.size.toNat := UInt32.lt_iff_toNat_lt

theorem WellFormed.backIndex_lt {g : Geometry} (h : g.WellFormed) :
    g.backIndex < g.cellCount := by
  have := h.size_aligned
  have := h.backOffset_aligned
  have := contains_iff.1 h.contains_backOffset
  simp only [backIndex, cellCount]
  omega

end Geometry

/-- The offset of a cell. Cells that an offset can name have indices of at most 30 bits, so that
their own offsets fit into 32. -/
def cellOffset (index : Nat) : UInt32 := UInt32.ofNat (4 * index)

theorem toNat_cellOffset {index : Nat} (h : index < 0x40000000) :
    (cellOffset index).toNat = 4 * index := by
  have hsize : 4 * index < UInt32.size := by
    simp only [UInt32.size]
    omega
  exact UInt32.toNat_ofNat_of_lt' hsize

theorem Entry.index_lt (e : Entry) : e.index < 0x40000000 := by
  have := e.offset.toNat_lt
  simp only [Entry.index]
  omega

theorem Geometry.cellCount_lt (g : Geometry) : g.cellCount < 0x40000000 := by
  have := g.size.toNat_lt
  simp only [Geometry.cellCount]
  omega

/-! ### Palettes

A palette has the escape sequences that start a part of a printed table, and the one that ends it.
The plain palette prints nothing beside the text. -/

structure Palette where
  function : String
  backReference : String
  padding : String
  offset : String
  reset : String

namespace Palette

def plain : Palette := ⟨"", "", "", "", ""⟩

/-- Functions in blue, the back-reference in green, the rest faint. -/
def colored : Palette where
  function := "\x1b[34m"
  backReference := "\x1b[32m"
  padding := "\x1b[2m"
  offset := "\x1b[2m"
  reset := "\x1b[0m"

def ofBool (enabled : Bool) : Palette := if enabled then colored else plain

end Palette

/-! ### Profiles -/

/-- What happens to entries that do not each have a cell of their own. -/
inductive Policy where
  /-- All entries are refused. -/
  | strict
  /-- An entry takes its cell from whatever was there before. -/
  | lastWins
deriving DecidableEq

structure Profile where
  scope : String := "FF7"
  structName : String := "GfxFunctions"
  className : String := "GfxContextBase"
  /-- The field through which the table refers back to the wrapper object. -/
  ownerField : String := "rendererInstance"
  /-- The expression by which free functions reach the table. -/
  accessor : String := "FF7::GetGfxFunctions()"
  tracer : String := "ScopedD3DEvent"
  convention : String := "__cdecl"
  paddingType : String := "u32"
  geometry : Geometry := .standard
  policy : Policy := .strict
  palette : Palette := .plain

namespace Profile

def tableHeaderName (p : Profile) : String := p.structName ++ ".h"

def classHeaderName (p : Profile) : String := p.className ++ ".h"

def classSourceName (p : Profile) : String := p.className ++ ".cpp"

/-- The struct lives in its scope, or at top level if the scope is empty. -/
def qualifiedStruct (p : Profile) : String :=
  if p.scope.isEmpty then p.structName else p.scope ++ "::" ++ p.structName

end Profile

end CallTable
