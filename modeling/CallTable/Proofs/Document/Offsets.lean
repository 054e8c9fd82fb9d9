import CallTable.Proofs.Document.Fields
import CallTable.Proofs.Policy

/-!
The offsets that the fields of the struct show. Under every policy a field shows an offset out of
its own cell, so no two fields show the same. Among accepted entries this is the offset of the cell
itself, and the fields that are no padding stand where the entries and the back-reference belong.
-/

namespace CallTable

/-- The line starts with the comment that names the offset. -/
def Cell.Shows (o : UInt32) (line : String) : Prop := (tag o).toList <+: line.toList

namespace Cell

variable {p : Profile} {c : Cell} {o : UInt32}

theorem shows_tag_append (o : UInt32) (x : String) : Shows o (tag o ++ x) := by
  rw [Shows, String.toList_append]
  exact List.prefix_append _ _

/-- A blank stands behind the comment. -/
theorem exists_render_plain_eq (c : Cell) : ∃ rest, c.render .plain p =
    "/* 0x" ++ Text.hex c.shownOffset.toNat ++ " */ " ++ rest := by
  have hblank (o : UInt32) (rest : String) :
      tag o ++ " " ++ rest = "/* 0x" ++ Text.hex o.toNat ++ " */ " ++ rest := by
    simp [← String.toList_inj, tag, address]
  cases c with
  | padding o =>
      refine ⟨p.paddingType ++ " " ++ paddingName o ++ ";", ?_⟩
      rw [shownOffset, ← hblank]
      simp [render, Palette.plain, String.append_assoc]
  | backReference o =>
      refine ⟨p.className ++ "* " ++ p.ownerField ++ ";", ?_⟩
      rw [shownOffset, ← hblank]
      simp [render, Palette.plain, String.append_assoc]
  | function o e =>
      refine ⟨e.returnType ++ " (" ++ p.convention ++ " *" ++ e.name ++ ")(" ++
        Entry.listed e.parameters ++ ");", ?_⟩
      rw [shownOffset, ← hblank]
      simp [render, Palette.plain, String.append_assoc]

theorem shows_render_iff : Shows o (c.render .plain p) ↔ o = c.shownOffset := by
  obtain ⟨x, hx⟩ := c.render_plain_eq_tag_append (p := p)
  rw [hx]
  constructor
  · rintro ⟨rest, hrest⟩
    apply eq_of_tag_append_eq (x := String.ofList rest) (y := x)
    apply String.toList_injective
    simpa using hrest
  · rintro rfl
    exact shows_tag_append _ _

end Cell

namespace Geometry

variable {g : Geometry} {index : Nat}

/-- The offset that a cell shows lies in the cell. It is that of the cell, or that of an entry which
does not start at its cell. -/
theorem shownOffset_finalCell (entries : List Entry) (hindex : index < g.cellCount) :
    (g.finalCell entries index).shownOffset.toNat / 4 = index ∧
      ((g.finalCell entries index).shownOffset.toNat = 4 * index ∨
        ∃ e ∈ entries,
          g.finalCell entries index = .function (cellOffset index) e ∧ ¬e.Aligned) := by
  have hcell : (cellOffset index).toNat = 4 * index :=
    toNat_cellOffset (Nat.lt_trans hindex g.cellCount_lt)
  cases hlast : lastAt? entries index with
  | some e =>
      obtain ⟨he, rfl⟩ := mem_of_lastAt?_eq_some hlast
      rw [finalCell_eq_function_iff.2 ⟨hlast, rfl⟩]
      refine ⟨rfl, ?_⟩
      by_cases haligned : e.Aligned
      · rw [Entry.Aligned] at haligned
        left
        simp only [Cell.shownOffset, Entry.index]
        omega
      · exact .inr ⟨e, he, rfl, haligned⟩
  | none =>
      have hshown : (g.finalCell entries index).shownOffset = cellOffset index := by
        unfold finalCell
        rw [hlast]
        dsimp only
        split <;> rfl
      rw [hshown, hcell]
      omega

end Geometry

/-- The fields of a table are those of its final cells. -/
theorem getElem?_fields_finalCells {p : Profile} {g : Geometry} {entries : List Entry} {index : Nat}
    {line : String} :
    (Table.fields ⟨g, g.finalCells entries⟩ p)[index]? = some line ↔
      index < g.cellCount ∧ (g.finalCell entries index).render .plain p = line := by
  rw [Table.fields, List.getElem?_map, Option.map_eq_some_iff]
  simp only [Geometry.getElem?_finalCells_eq_some_iff]
  constructor
  · rintro ⟨_, ⟨hindex, rfl⟩, hline⟩
    exact ⟨hindex, hline⟩
  · rintro ⟨hindex, hline⟩
    exact ⟨_, ⟨hindex, rfl⟩, hline⟩

namespace Admissible

variable {g : Geometry} {entries : List Entry} {index : Nat}

/-- Admissible entries start at their cells, so every cell shows its own offset. -/
theorem shownOffset_finalCell (h : Admissible g entries) (hindex : index < g.cellCount) :
    (g.finalCell entries index).shownOffset.toNat = 4 * index := by
  obtain ⟨_, hown | ⟨e, he, _, hmisaligned⟩⟩ :=
    Geometry.shownOffset_finalCell entries hindex
  · exact hown
  · exact absurd (h.sound e he).aligned hmisaligned

theorem shows_render_iff (h : Admissible g entries) (hindex : index < g.cellCount) {p : Profile}
    {o : UInt32} :
    Cell.Shows o ((g.finalCell entries index).render .plain p) ↔ 4 * index = o.toNat := by
  rw [Cell.shows_render_iff, ← UInt32.toNat_inj, h.shownOffset_finalCell hindex, eq_comm]

/-- A cell that is no padding refers back or belongs to an entry. -/
theorem finalCell_eq_padding_or (hg : g.WellFormed) (h : Admissible g entries) (index : Nat) :
    g.finalCell entries index = .padding (cellOffset index) ∨
      4 * index = g.backOffset.toNat ∨ ∃ e ∈ entries, 4 * index = e.offset.toNat := by
  cases hcell : g.finalCell entries index with
  | padding o =>
      obtain ⟨_, _, rfl⟩ := Geometry.finalCell_eq_padding_iff.1 hcell
      exact .inl rfl
  | backReference o =>
      obtain ⟨_, rfl, _⟩ := Geometry.finalCell_eq_backReference_iff.1 hcell
      have := hg.backOffset_aligned
      rw [Geometry.backIndex]
      omega
  | function o e =>
      obtain ⟨hlast, _⟩ := Geometry.finalCell_eq_function_iff.1 hcell
      obtain ⟨he, rfl⟩ := mem_of_lastAt?_eq_some hlast
      have haligned := (h.sound e he).aligned
      rw [Entry.Aligned] at haligned
      refine .inr (.inr ⟨e, he, ?_⟩)
      rw [Entry.index]
      omega

end Admissible

section

variable {p q : Profile} {entries : List Entry} {t : Table}

/-- Under every policy a field shows an offset out of its cell. -/
theorem Table.exists_offset_of_field (h : (arrange p entries).result = .ok t) {i : Nat}
    {line : String} (hline : (t.fields q)[i]? = some line) :
    ∃ v : UInt32, (∃ rest, line = "/* 0x" ++ Text.hex v.toNat ++ " */ " ++ rest) ∧
      (∀ o, Cell.Shows o line ↔ o = v) ∧ v.toNat / 4 = i ∧
      (v.toNat = 4 * i ∨ ∃ e ∈ entries,
        t.cells[i]? = some (.function (cellOffset i) e) ∧ e.offset = v ∧ ¬e.Aligned) := by
  obtain ⟨_, rfl⟩ := eq_of_arrange h
  obtain ⟨hi, rfl⟩ := getElem?_fields_finalCells.1 hline
  obtain ⟨hindex, hshown⟩ := Geometry.shownOffset_finalCell entries hi
  refine ⟨_, Cell.exists_render_plain_eq _, fun o => Cell.shows_render_iff, hindex, ?_⟩
  refine hshown.imp_right ?_
  rintro ⟨e, he, hcell, hmisaligned⟩
  exact ⟨e, he, Geometry.getElem?_finalCells_eq_some_iff.2 ⟨hi, hcell⟩, by rw [hcell]; rfl,
    hmisaligned⟩

end

/-- Under every policy the field at an index starts with a comment that shows an offset out of the
cell at the index, namely that of the cell, unless the cell holds an entry that does not start
there. So an offset is shown by one field at most. Under the strict policy the offset of each cell
is shown by the field of the cell alone; fields other than padding belong to an entry or to the
back-reference, and the field of an entry is none of padding. -/
theorem fields_show_offsets (p q : Profile) (entries : List Entry) (t : Table)
    (h : (Table.arrange p entries).result = .ok t) :
    (t.fields q).length = p.geometry.size.toNat / 4 ∧
    (∀ i line, (t.fields q)[i]? = some line →
      ∃ v : UInt32, (∃ rest, line = "/* 0x" ++ Text.hex v.toNat ++ " */ " ++ rest) ∧
        v.toNat / 4 = i ∧
        (v.toNat = 4 * i ∨ ∃ e ∈ entries,
          t.cells[i]? = some (.function (cellOffset i) e) ∧ e.offset = v ∧ ¬e.Aligned)) ∧
    (∀ (o : UInt32) (i j : Nat) (line line' : String), (t.fields q)[i]? = some line →
      (t.fields q)[j]? = some line' → Cell.Shows o line → Cell.Shows o line' → i = j) ∧
    (p.policy = .strict →
      (∀ o : UInt32, o.toNat % 4 = 0 → o < p.geometry.size →
        (∃ line, (t.fields q)[o.toNat / 4]? = some line ∧ Cell.Shows o line) ∧
        ∀ i line, (t.fields q)[i]? = some line → Cell.Shows o line → i = o.toNat / 4) ∧
      (∀ i line, (t.fields q)[i]? = some line →
        line ≠ TableHeader.paddingField q (cellOffset i) →
          4 * i = p.geometry.backOffset.toNat ∨ ∃ e ∈ entries, 4 * i = e.offset.toNat) ∧
      ∀ e ∈ entries, ∃ line, (t.fields q)[e.offset.toNat / 4]? = some line ∧
        line ≠ TableHeader.paddingField q e.offset) := by
  refine ⟨?length, ?shown, ?once, ?strict⟩
  case length =>
    obtain ⟨_, rfl⟩ := Table.eq_of_arrange h
    rw [Table.fields, List.length_map]
    exact Geometry.length_finalCells
  case shown =>
    intro i line hline
    obtain ⟨v, hstart, _, hindex, hcell⟩ := Table.exists_offset_of_field h hline
    exact ⟨v, hstart, hindex, hcell⟩
  case once =>
    intro o i j line line' hi hj hline hline'
    obtain ⟨v, _, hv, rfl, _⟩ := Table.exists_offset_of_field h hi
    obtain ⟨w, _, hw, rfl, _⟩ := Table.exists_offset_of_field h hj
    rw [← (hv o).1 hline, ← (hw o).1 hline']
  case strict =>
    intro hpolicy
    obtain ⟨⟨hg, hentries⟩, rfl⟩ := (arrange_eq_ok_iff_of_strict hpolicy).1 h
    have hlayout := hentries.laidOut hg
    refine ⟨?cells, ?others, ?entries⟩
    case cells =>
      intro o haligned hin
      have hcell : o.toNat / 4 < p.geometry.cellCount := hg.contains_iff_cell_lt.1 hin
      refine ⟨⟨_, getElem?_fields_finalCells.2 ⟨hcell, rfl⟩, ?_⟩, ?_⟩
      · rw [hentries.shows_render_iff hcell]
        omega
      · intro i line hline hshows
        obtain ⟨hi, rfl⟩ := getElem?_fields_finalCells.1 hline
        have := (hentries.shows_render_iff hi).1 hshows
        omega
    case others =>
      intro i line hline hne
      obtain ⟨hi, rfl⟩ := getElem?_fields_finalCells.1 hline
      refine (hentries.finalCell_eq_padding_or hg i).resolve_left fun hpadding => hne ?_
      rw [hpadding, Cell.render_plain_padding]
    case entries =>
      intro e he
      have hcell := (hlayout.function_iff _ e.offset e).2 ⟨he, rfl, rfl⟩
      refine ⟨TableHeader.entryField q e, ?_, TableHeader.entryField_ne_paddingField q e e.offset⟩
      rw [Table.fields, List.getElem?_map, hcell, Option.map_some, Cell.render_plain_function]

/-- Two entries that the strict policy takes, and one inside a cell that the permissive one takes. -/
theorem fields_show_offsets_misaligned :
    (∃ t, (Table.arrange { geometry := ⟨16, 4⟩ }
        [⟨12, "void", "Last", ["u32"]⟩, ⟨0, "u32", "First", []⟩]).result = .ok t ∧
      (∃ line, (t.fields {})[3]? = some line ∧ Cell.Shows 12 line) ∧
      ∃ line, (t.fields {})[3]? = some line ∧ line ≠ TableHeader.paddingField {} 12) ∧
    ∃ t, (Table.arrange { geometry := ⟨12, 4⟩, policy := .lastWins }
        [⟨10, "u32", "Inside", []⟩]).result = .ok t ∧
      (t.fields {})[2]? = some "/* 0x0A */ u32 (__cdecl *Inside)();" ∧
      ∀ i line, (t.fields {})[i]? = some line → Cell.Shows 10 line → i = 2 := by
  refine ⟨⟨_, rfl, ?_⟩, _, rfl, rfl, fun i line hline hshows => ?_⟩
  · obtain ⟨hcells, _, hentries⟩ := (fields_show_offsets { geometry := ⟨16, 4⟩ } {}
      [⟨12, "void", "Last", ["u32"]⟩, ⟨0, "u32", "First", []⟩] _ rfl).2.2.2 rfl
    exact ⟨(hcells 12 rfl (by decide)).1, hentries ⟨12, "void", "Last", ["u32"]⟩ (by decide)⟩
  · have hinside : Cell.Shows 10 "/* 0x0A */ u32 (__cdecl *Inside)();" := by
      rw [Cell.Shows]
      decide
    exact (fields_show_offsets { geometry := ⟨12, 4⟩, policy := .lastWins } {}
      [⟨10, "u32", "Inside", []⟩] _ rfl).2.2.1 10 i 2 line _ hline rfl hshows hinside

end CallTable
