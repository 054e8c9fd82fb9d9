import CallTable.Proofs.Acceptance
import CallTable.Proofs.Placement
import CallTable.Sources

/-!
The layout of a table under the strict policy. As the entries are admissible, each has its cell to
itself and none has the one that refers back, so no entry is lost on the way into the table and
the table holds nothing but entries, the back-reference and padding.
-/

namespace CallTable

namespace Admissible

variable {g : Geometry} {entries : List Entry} {d e : Entry} {index : Nat}

theorem cellOffset_index (h : Admissible g entries) (he : e ∈ entries) :
    cellOffset e.index = e.offset := by
  have haligned := (h.sound e he).aligned
  rw [Entry.Aligned] at haligned
  apply UInt32.toNat_inj.1
  rw [toNat_cellOffset e.index_lt, Entry.index]
  omega

theorem eq_of_index_eq (h : Admissible g entries) (hd : d ∈ entries) (he : e ∈ entries)
    (hindex : d.index = e.index) : d = e := by
  have hoffset : d.offset = e.offset := by
    rw [← h.cellOffset_index hd, ← h.cellOffset_index he, hindex]
  exact List.inj_on_of_nodup_map h.nodup_offsets hd he hoffset

/-- No entry has to make room for a later one. -/
theorem lastAt?_eq_some_iff (h : Admissible g entries) :
    lastAt? entries index = some e ↔ e ∈ entries ∧ e.index = index := by
  constructor
  · exact mem_of_lastAt?_eq_some
  · rintro ⟨he, rfl⟩
    cases hlast : lastAt? entries e.index with
    | none => exact absurd rfl (lastAt?_eq_none_iff.1 hlast e he)
    | some d =>
        obtain ⟨hd, hindex⟩ := mem_of_lastAt?_eq_some hlast
        rw [h.eq_of_index_eq hd he hindex]

theorem index_lt (hg : g.WellFormed) (h : Admissible g entries) (he : e ∈ entries) :
    e.index < g.cellCount :=
  hg.contains_iff_index_lt.1 (h.sound e he).contains_offset

theorem index_ne_backIndex (hg : g.WellFormed) (h : Admissible g entries) (he : e ∈ entries) :
    e.index ≠ g.backIndex := by
  intro hindex
  apply (h.sound e he).offset_ne
  rw [← h.cellOffset_index he, hindex, hg.cellOffset_backIndex]

theorem find?_outside (h : Admissible g entries) :
    (entries.find? fun e => g.size ≤ e.offset) = none := by
  rw [List.find?_eq_none]
  intro e he
  have hin : e.offset < g.size := (h.sound e he).contains_offset
  simpa [UInt32.not_le] using hin

end Admissible

/-- The strict policy fails where acceptance does, and nowhere else. -/
theorem result_arrange_of_strict {p : Profile} (hpolicy : p.policy = .strict)
    (entries : List Entry) :
    (Table.arrange p entries).result =
      match rejection? p.geometry entries with
      | some r => .error r
      | none => .ok ⟨p.geometry, p.geometry.finalCells entries⟩ := by
  rw [result_arrange, Profile.admit, hpolicy]
  simp only [accept]
  cases hrejection : rejection? p.geometry entries with
  | some r => rfl
  | none =>
      obtain ⟨hg, hentries⟩ := rejection?_eq_none_iff.1 hrejection
      simp only [Reported.report, Except.bind, hg.result_place, hentries.find?_outside]
      rfl

theorem arrange_eq_ok_iff_of_strict {p : Profile} (hpolicy : p.policy = .strict)
    {entries : List Entry} {t : Table} :
    (Table.arrange p entries).result = .ok t ↔
      (p.geometry.WellFormed ∧ Admissible p.geometry entries) ∧
        ⟨p.geometry, p.geometry.finalCells entries⟩ = t := by
  rw [result_arrange_of_strict hpolicy, ← rejection?_eq_none_iff]
  cases rejection? p.geometry entries <;> simp

/-- Under the strict policy sources are generated from admissible entries only, and from their final
cells. -/
theorem ofEntries_eq_ok_iff_of_strict {p : Profile} (hpolicy : p.policy = .strict)
    {entries : List Entry} {s : Sources} :
    (Sources.ofEntries p entries).result = .ok s ↔
      (p.geometry.WellFormed ∧ Admissible p.geometry entries) ∧
        Sources.ofTable p entries ⟨p.geometry, p.geometry.finalCells entries⟩ = s := by
  rw [Sources.ofEntries, Reported.bind_eq_ok_iff]
  constructor
  · rintro ⟨t, ht, hs⟩
    obtain ⟨hadmissible, rfl⟩ := (arrange_eq_ok_iff_of_strict hpolicy).1 ht
    exact ⟨hadmissible, Except.ok.inj hs⟩
  · rintro ⟨hadmissible, rfl⟩
    exact ⟨_, (arrange_eq_ok_iff_of_strict hpolicy).2 ⟨hadmissible, rfl⟩, rfl⟩

/-- The layout that a table of admissible entries has. Every cell is at its own offset; the cell at
the back-reference offset is the only one that refers back; each entry has the cell at its offset,
and there is nothing but these entries in function cells; the remaining cells are padding. -/
structure LaidOut (g : Geometry) (entries : List Entry) (cells : List Cell) : Prop where
  length_cells : cells.length = g.size.toNat / 4
  toNat_offset : ∀ i c, cells[i]? = some c → c.offset.toNat = 4 * i
  backReference_iff : ∀ i o, cells[i]? = some (.backReference o) ↔
    i = g.backOffset.toNat / 4 ∧ o = g.backOffset
  function_iff : ∀ i o e, cells[i]? = some (.function o e) ↔
    e ∈ entries ∧ i = e.offset.toNat / 4 ∧ o = e.offset
  padding_iff : ∀ i o, cells[i]? = some (.padding o) ↔
    i < g.size.toNat / 4 ∧ i ≠ g.backOffset.toNat / 4 ∧
      (∀ e ∈ entries, i ≠ e.offset.toNat / 4) ∧ o.toNat = 4 * i
  perm_entries : (cells.filterMap Cell.entry?).Perm entries

namespace LaidOut

variable {g : Geometry} {entries : List Entry} {cells : List Cell} {o : UInt32} {e : Entry}

theorem backReference_mem_iff (h : LaidOut g entries cells) :
    .backReference o ∈ cells ↔ o = g.backOffset := by
  simp [List.mem_iff_getElem?, h.backReference_iff]

theorem function_mem_iff (h : LaidOut g entries cells) :
    .function o e ∈ cells ↔ e ∈ entries ∧ o = e.offset := by
  simp [List.mem_iff_getElem?, h.function_iff]

theorem eq_of_offset_eq {c d : Cell} (h : LaidOut g entries cells) (hc : c ∈ cells)
    (hd : d ∈ cells) (hoffset : c.offset = d.offset) : c = d := by
  obtain ⟨i, hi⟩ := List.mem_iff_getElem?.1 hc
  obtain ⟨j, hj⟩ := List.mem_iff_getElem?.1 hd
  have hindex : 4 * i = 4 * j := by
    rw [← h.toNat_offset i c hi, ← h.toNat_offset j d hj, hoffset]
  rw [Nat.eq_of_mul_eq_mul_left (by decide) hindex, hj] at hi
  exact (Option.some.inj hi).symm

/-- No two cells are the same, as they are at different offsets. -/
theorem nodup_cells (h : LaidOut g entries cells) : cells.Nodup := by
  rw [List.nodup_iff_getElem?_ne_getElem?]
  intro i j hij hj heq
  have hcell := List.getElem?_eq_getElem hj
  have hoffset := h.toNat_offset i _ (heq.trans hcell)
  rw [h.toNat_offset j _ hcell] at hoffset
  omega

/-- Padding apart, the cells are the back-reference and one for each entry. -/
theorem perm_cells (h : LaidOut g entries cells) (hnodup : entries.Nodup) :
    cells.Perm (.backReference g.backOffset :: (entries.map fun e => .function e.offset e) ++
      cells.filter Cell.isPadding) := by
  have hfunctions : (entries.map fun e => Cell.function e.offset e).Nodup :=
    hnodup.map fun d e heq => (Cell.function.inj heq).2
  have hothers : (Cell.backReference g.backOffset ::
      entries.map fun e => Cell.function e.offset e).Nodup :=
    List.nodup_cons.2 ⟨by simp, hfunctions⟩
  have hdisjoint : (Cell.backReference g.backOffset ::
      entries.map fun e => Cell.function e.offset e).Disjoint (cells.filter Cell.isPadding) := by
    intro c hc hpadding
    have hkind := (List.mem_filter.1 hpadding).2
    rcases List.mem_cons.1 hc with rfl | hc
    · cases hkind
    · obtain ⟨e, _, rfl⟩ := List.mem_map.1 hc
      cases hkind
  rw [List.perm_ext_iff_of_nodup h.nodup_cells
    (hothers.append (h.nodup_cells.filter Cell.isPadding) hdisjoint)]
  intro c
  rw [List.mem_append, List.mem_cons, List.mem_map, List.mem_filter]
  cases c with
  | padding o => simp [Cell.isPadding]
  | backReference o => simp [Cell.isPadding, h.backReference_mem_iff]
  | function o e =>
      simp only [h.function_mem_iff, Cell.isPadding, Bool.false_eq_true, and_false, or_false,
        reduceCtorEq, false_or, Cell.function.injEq]
      constructor
      · rintro ⟨he, rfl⟩
        exact ⟨e, he, rfl, rfl⟩
      · rintro ⟨d, hd, rfl, rfl⟩
        exact ⟨hd, rfl⟩

end LaidOut

namespace Geometry

variable {g : Geometry} {entries : List Entry} {index : Nat} {o : UInt32} {e : Entry}

theorem finalCell_eq_function_iff :
    g.finalCell entries index = .function o e ↔
      lastAt? entries index = some e ∧ cellOffset index = o := by
  unfold finalCell
  cases lastAt? entries index with
  | some d => simp [and_comm]
  | none => by_cases h : index = g.backOffset.toNat / 4 <;> simp [h]

theorem finalCell_eq_backReference_iff :
    g.finalCell entries index = .backReference o ↔
      lastAt? entries index = none ∧ index = g.backIndex ∧ cellOffset index = o := by
  unfold finalCell
  cases lastAt? entries index with
  | some d => simp
  | none => by_cases h : index = g.backOffset.toNat / 4 <;> simp [h, backIndex]

theorem finalCell_eq_padding_iff :
    g.finalCell entries index = .padding o ↔
      lastAt? entries index = none ∧ index ≠ g.backIndex ∧ cellOffset index = o := by
  unfold finalCell
  cases lastAt? entries index with
  | some d => simp
  | none => by_cases h : index = g.backOffset.toNat / 4 <;> simp [h, backIndex]

end Geometry

namespace Admissible

variable {g : Geometry} {entries : List Entry}

/-- Each entry is in one cell of the final table, and each of its function cells holds another. -/
theorem perm_entries_finalCells (hg : g.WellFormed) (h : Admissible g entries) :
    ((g.finalCells entries).filterMap Cell.entry?).Perm entries := by
  have hcells : (g.finalCells entries).filterMap Cell.entry? =
      (List.range g.cellCount).filterMap (lastAt? entries) := by
    rw [Geometry.finalCells, List.filterMap_map]
    congr 1
    funext index
    exact Geometry.entry?_finalCell
  have hnodup : ((List.range g.cellCount).filterMap (lastAt? entries)).Nodup := by
    refine List.Nodup.filterMap ?_ List.nodup_range
    intro i j e hi hj
    exact ((h.lastAt?_eq_some_iff.1 hi).2).symm.trans (h.lastAt?_eq_some_iff.1 hj).2
  -- neither list has repetitions, so it is enough that they have the same members
  rw [hcells, List.perm_ext_iff_of_nodup hnodup (h.nodup_offsets.of_map _)]
  intro e
  simp only [List.mem_filterMap, List.mem_range, h.lastAt?_eq_some_iff]
  constructor
  · rintro ⟨_, _, he, _⟩
    exact he
  · intro he
    exact ⟨e.index, h.index_lt hg he, he, rfl⟩

theorem laidOut (hg : g.WellFormed) (h : Admissible g entries) :
    LaidOut g entries (g.finalCells entries) where
  length_cells := Geometry.length_finalCells
  toNat_offset i c hc := by
    obtain ⟨hi, rfl⟩ := Geometry.getElem?_finalCells_eq_some_iff.1 hc
    rw [Geometry.offset_finalCell]
    exact toNat_cellOffset (Nat.lt_trans hi g.cellCount_lt)
  backReference_iff i o := by
    rw [Geometry.getElem?_finalCells_eq_some_iff, Geometry.finalCell_eq_backReference_iff,
      lastAt?_eq_none_iff]
    constructor
    · rintro ⟨_, _, rfl, rfl⟩
      exact ⟨rfl, hg.cellOffset_backIndex⟩
    · rintro ⟨rfl, rfl⟩
      exact ⟨hg.backIndex_lt, fun e he => h.index_ne_backIndex hg he, rfl, hg.cellOffset_backIndex⟩
  function_iff i o e := by
    rw [Geometry.getElem?_finalCells_eq_some_iff, Geometry.finalCell_eq_function_iff,
      h.lastAt?_eq_some_iff]
    constructor
    · rintro ⟨_, ⟨he, rfl⟩, rfl⟩
      exact ⟨he, rfl, h.cellOffset_index he⟩
    · rintro ⟨he, rfl, rfl⟩
      exact ⟨h.index_lt hg he, ⟨he, rfl⟩, h.cellOffset_index he⟩
  padding_iff i o := by
    rw [Geometry.getElem?_finalCells_eq_some_iff, Geometry.finalCell_eq_padding_iff,
      lastAt?_eq_none_iff]
    constructor
    · rintro ⟨hi, hfree, hback, rfl⟩
      exact ⟨hi, hback, fun e he => (hfree e he).symm,
        toNat_cellOffset (Nat.lt_trans hi g.cellCount_lt)⟩
    · rintro ⟨hi, hback, hfree, ho⟩
      refine ⟨hi, fun e he => (hfree e he).symm, hback, UInt32.toNat_inj.1 ?_⟩
      rw [ho]
      exact toNat_cellOffset (Nat.lt_trans hi g.cellCount_lt)
  perm_entries := h.perm_entries_finalCells hg

end Admissible

/-- A table that is built under the strict policy has the layout of its entries. -/
theorem laidOut_of_arrange_strict (p : Profile) (entries : List Entry) (t : Table)
    (hpolicy : p.policy = .strict) (h : (Table.arrange p entries).result = .ok t) :
    t.geometry = p.geometry ∧ LaidOut p.geometry entries t.cells := by
  obtain ⟨⟨hg, hentries⟩, rfl⟩ := (arrange_eq_ok_iff_of_strict hpolicy).1 h
  exact ⟨rfl, hentries.laidOut hg⟩

/-- Entries that are given in another order than their cells come in. -/
theorem laidOut_of_arrange_strict_reversed :
    ({ geometry := ⟨16, 4⟩ } : Profile).policy = .strict ∧
      (Table.arrange { geometry := ⟨16, 4⟩ }
        [⟨12, "void", "Last", ["u32"]⟩, ⟨0, "u32", "First", []⟩]).result =
        .ok ⟨⟨16, 4⟩, [.function 0 ⟨0, "u32", "First", []⟩, .backReference 4, .padding 8,
          .function 12 ⟨12, "void", "Last", ["u32"]⟩]⟩ ∧
      LaidOut ⟨16, 4⟩ [⟨12, "void", "Last", ["u32"]⟩, ⟨0, "u32", "First", []⟩]
        [.function 0 ⟨0, "u32", "First", []⟩, .backReference 4, .padding 8,
          .function 12 ⟨12, "void", "Last", ["u32"]⟩] :=
  ⟨rfl, rfl, (laidOut_of_arrange_strict { geometry := ⟨16, 4⟩ } _ ⟨_, _⟩ rfl rfl).2⟩

end CallTable
