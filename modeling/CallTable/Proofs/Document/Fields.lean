import CallTable.Sources
import CallTable.Proofs.Layout
import CallTable.Proofs.Text.Cutting

/-!
The fields of the struct. Each starts with a comment that gives away its offset, so that in a
table laid out for its entries no two cells make the same field, and the fields that are no
padding can be counted off against the entries.
-/

namespace CallTable

open Text (Lacks)

namespace TableHeader

/-- The field of an entry. -/
def entryField (p : Profile) (e : Entry) : String :=
  "/* " ++ address e.offset ++ " */ " ++ e.returnType ++ " (" ++ p.convention ++ " *" ++ e.name
    ++ ")(" ++ Entry.listed e.parameters ++ ");"

/-- The field that refers back. -/
def ownerField (p : Profile) : String :=
  "/* " ++ address p.geometry.backOffset ++ " */ " ++ p.className ++ "* " ++ p.ownerField ++ ";"

def paddingField (p : Profile) (o : UInt32) : String :=
  "/* " ++ address o ++ " */ " ++ p.paddingType ++ " " ++ Cell.paddingName o ++ ";"

/-- The field of an entry ends in a parenthesis and a semicolon. -/
theorem getLast?_dropLast_entryField (p : Profile) (e : Entry) :
    (entryField p e).toList.dropLast.getLast? = some ')' := by
  obtain ⟨front, hend⟩ : ∃ front, (entryField p e).toList = front ++ [')', ';'] :=
    ⟨("/* " ++ address e.offset ++ " */ " ++ e.returnType ++ " (" ++ p.convention ++ " *" ++
      e.name ++ ")(" ++ Entry.listed e.parameters).toList, by simp [entryField]⟩
  rw [hend]
  simp

/-- The field of padding ends in a name and a semicolon. -/
theorem getLast?_dropLast_paddingField (p : Profile) (o : UInt32) :
    (paddingField p o).toList.dropLast.getLast? ≠ some ')' := by
  have hname : ')' ∉ (Cell.paddingName o).toList :=
    (Text.isWord_paddingName o).lacks (by decide)
  have hne : (Cell.paddingName o).toList ≠ [] := by simp [Cell.paddingName]
  have hend : (paddingField p o).toList =
      ("/* " ++ address o ++ " */ " ++ p.paddingType ++ " ").toList ++
        (Cell.paddingName o).toList ++ [';'] := by
    simp [paddingField]
  rw [hend, List.dropLast_concat, List.getLast?_append_of_ne_nil _ hne]
  exact fun h => hname (List.mem_of_getLast? h)

theorem entryField_ne_paddingField (p : Profile) (e : Entry) (o : UInt32) :
    entryField p e ≠ paddingField p o := by
  intro h
  apply getLast?_dropLast_paddingField p o
  rw [← h, getLast?_dropLast_entryField]

end TableHeader

namespace Cell

/-- The offset in the comment in front of a field. -/
def shownOffset : Cell → UInt32
  | .padding o | .backReference o => o
  | .function _ e => e.offset

variable {p : Profile}

@[simp] theorem render_plain_function (o : UInt32) (e : Entry) :
    render .plain p (.function o e) = TableHeader.entryField p e := by
  change _ = "/* " ++ address e.offset ++ " */ " ++ e.returnType ++ " (" ++ p.convention ++ " *"
    ++ e.name ++ ")(" ++ Entry.listed e.parameters ++ ");"
  simp [render, tag, Palette.plain, String.append_assoc]

@[simp] theorem render_plain_backReference :
    render .plain p (.backReference p.geometry.backOffset) = TableHeader.ownerField p := by
  simp [render, tag, Palette.plain, TableHeader.ownerField, String.append_assoc]

@[simp] theorem render_plain_padding (o : UInt32) :
    render .plain p (.padding o) = TableHeader.paddingField p o := by
  simp [render, tag, Palette.plain, TableHeader.paddingField, String.append_assoc]

theorem render_plain_eq_tag_append (c : Cell) :
    ∃ x, c.render .plain p = tag c.shownOffset ++ x := by
  cases c <;> exact ⟨_, by simp [render, Palette.plain, shownOffset, String.append_assoc]; rfl⟩

/-- A comment gives its offset away. -/
theorem eq_of_tag_append_eq {o o' : UInt32} {x y : String}
    (h : tag o ++ x = tag o' ++ y) : o = o' := by
  have haddress (o : UInt32) : ' ' ∉ (address o).toList :=
    (Text.isWord_address o).lacks (by decide)
  -- the address ends at the first blank behind it
  have hcut (o : UInt32) (x : String) : (tag o ++ x).toList =
      "/* ".toList ++ ((address o).toList ++ ' ' :: ("*/".toList ++ x.toList)) := by
    simp [tag]
  have hlist := congrArg String.toList h
  rw [hcut, hcut, List.append_cancel_left_eq,
    Text.append_cons_inj (haddress o) (haddress o')] at hlist
  exact address_injective (String.toList_injective hlist.1)

theorem shownOffset_eq_of_render_eq {c d : Cell}
    (h : c.render .plain p = d.render .plain p) : c.shownOffset = d.shownOffset := by
  obtain ⟨x, hx⟩ := c.render_plain_eq_tag_append (p := p)
  obtain ⟨y, hy⟩ := d.render_plain_eq_tag_append (p := p)
  rw [hx, hy] at h
  exact eq_of_tag_append_eq h

end Cell

namespace LaidOut

variable {p : Profile} {g : Geometry} {entries : List Entry} {cells : List Cell} {c d : Cell}

theorem shownOffset_eq (h : LaidOut g entries cells) (hc : c ∈ cells) :
    c.shownOffset = c.offset := by
  cases c with
  | function o e => exact (h.function_mem_iff.1 hc).2.symm
  | padding o => rfl
  | backReference o => rfl

/-- No two cells make the same field. -/
theorem eq_of_render_eq (h : LaidOut g entries cells) (hc : c ∈ cells) (hd : d ∈ cells)
    (hrender : c.render .plain p = d.render .plain p) : c = d := by
  apply h.eq_of_offset_eq hc hd
  rw [← h.shownOffset_eq hc, ← h.shownOffset_eq hd]
  exact Cell.shownOffset_eq_of_render_eq hrender

theorem render_mem_entryFields_iff (h : LaidOut g entries cells) (hc : c ∈ cells) :
    c.render .plain p ∈ entries.map (TableHeader.entryField p) ↔ (Cell.entry? c).isSome := by
  rw [List.mem_map]
  constructor
  · rintro ⟨e, he, hfield⟩
    have hcell := h.function_mem_iff.2 ⟨he, rfl⟩
    rw [h.eq_of_render_eq hc hcell (by rw [Cell.render_plain_function, hfield])]
    rfl
  · cases c with
    | function o e =>
        intro _
        exact ⟨e, (h.function_mem_iff.1 hc).1, (Cell.render_plain_function o e).symm⟩
    | padding o => simp [Cell.entry?]
    | backReference o => simp [Cell.entry?]

/-- As many fields are those of entries as there are entries. -/
theorem countP_entryFields (h : LaidOut g entries cells) :
    (cells.map (Cell.render .plain p)).countP (· ∈ entries.map (TableHeader.entryField p)) =
      entries.length := by
  rw [List.countP_map, ← h.perm_entries.length_eq, List.length_filterMap_eq_countP]
  refine List.countP_congr fun c hc => ?_
  simpa using h.render_mem_entryFields_iff hc

end LaidOut

/-- The name that a cell's field has in the struct. -/
def Cell.fieldName (p : Profile) : Cell → String
  | .padding o => paddingName o
  | .backReference _ => p.ownerField
  | .function _ e => e.name

/-- The fields are the one that refers back, those of the entries, and padding. -/
theorem LaidOut.perm_fields {p : Profile} {entries : List Entry} {cells : List Cell}
    (h : LaidOut p.geometry entries cells) (hnodup : entries.Nodup) :
    ∃ padding : List UInt32, (cells.map (Cell.render .plain p)).Perm
      (TableHeader.ownerField p :: entries.map (TableHeader.entryField p) ++
        padding.map (TableHeader.paddingField p)) := by
  refine ⟨(cells.filter Cell.isPadding).map Cell.offset, ?_⟩
  have hpadding : (cells.filter Cell.isPadding).map (Cell.render .plain p) =
      ((cells.filter Cell.isPadding).map Cell.offset).map (TableHeader.paddingField p) := by
    rw [List.map_map]
    refine List.map_congr_left fun c hc => ?_
    cases c with
    | padding o => exact Cell.render_plain_padding o
    | backReference o => cases (List.mem_filter.1 hc).2
    | function o e => cases (List.mem_filter.1 hc).2
  have hfields := (h.perm_cells hnodup).map (Cell.render .plain p)
  rw [List.map_append, List.map_cons, List.map_map, hpadding, Cell.render_plain_backReference]
    at hfields
  simpa [Function.comp_def] using hfields

/-- The fields that are no padding are the one that refers back and those of the entries. -/
theorem LaidOut.perm_fieldNames {p : Profile} {g : Geometry} {entries : List Entry}
    {cells : List Cell} (h : LaidOut g entries cells) (hnodup : entries.Nodup) :
    ((cells.filter (!·.isPadding)).map (Cell.fieldName p)).Perm
      (p.ownerField :: entries.map Entry.name) := by
  have hothers := (h.perm_cells hnodup).filter (!·.isPadding)
  have hfunctions : (entries.map fun e => Cell.function e.offset e).filter (!·.isPadding) =
      entries.map fun e => Cell.function e.offset e := by
    rw [List.filter_eq_self]
    intro c hc
    obtain ⟨e, _, rfl⟩ := List.mem_map.1 hc
    rfl
  have hpadding : (cells.filter Cell.isPadding).filter (!·.isPadding) = [] := by
    simp [List.filter_filter]
  rw [List.filter_append, hpadding, List.append_nil, List.filter_cons_of_pos rfl,
    hfunctions] at hothers
  have hnames := hothers.map (Cell.fieldName p)
  rwa [List.map_cons, List.map_map] at hnames

end CallTable
