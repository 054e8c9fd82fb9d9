import CallTable.Table

/-!
Where entries end up. Placing entries one after another leaves in each cell the last entry that
falls into it, or what was there before if none does, and fails exactly at the first entry beyond
the last cell. Under the permissive policy nothing else can go wrong.
-/

namespace CallTable

/-- The last of the entries that fall into the cell at an index. -/
def lastAt? (entries : List Entry) (index : Nat) : Option Entry :=
  (entries.filter (·.index = index)).getLast?

@[simp] theorem lastAt?_nil (index : Nat) : lastAt? [] index = none := rfl

/-- An entry counts only if no later one falls into the same cell. -/
theorem lastAt?_cons (e : Entry) (rest : List Entry) (index : Nat) :
    lastAt? (e :: rest) index =
      (lastAt? rest index).or (if e.index = index then some e else none) := by
  by_cases h : e.index = index
  · simp only [lastAt?, h, decide_true, List.filter_cons_of_pos, if_true]
    rw [List.getLast?_cons]
    cases (rest.filter (·.index = index)).getLast? <;> rfl
  · simp [lastAt?, h]

theorem mem_of_lastAt?_eq_some {entries : List Entry} {index : Nat} {e : Entry}
    (h : lastAt? entries index = some e) : e ∈ entries ∧ e.index = index := by
  have hmem := List.mem_of_getLast? h
  simpa [List.mem_filter] using hmem

theorem lastAt?_eq_none_iff {entries : List Entry} {index : Nat} :
    lastAt? entries index = none ↔ ∀ e ∈ entries, e.index ≠ index := by
  simp [lastAt?]

/-- The cells after entries have been placed into them. -/
def settled (cells : List Cell) (entries : List Entry) : List Cell :=
  cells.mapIdx fun index before => ((lastAt? entries index).map Entry.placedCell).getD before

@[simp] theorem settled_nil (cells : List Cell) : settled cells [] = cells := by
  refine List.ext_getElem (by simp [settled]) fun index _ _ => ?_
  simp [settled]

/-- Placing an entry first and the others afterwards settles all of them. -/
theorem settled_set {cells : List Cell} {e : Entry} {rest : List Entry} :
    settled (cells.set e.index e.placedCell) rest = settled cells (e :: rest) := by
  refine List.ext_getElem (by simp [settled]) fun index _ _ => ?_
  simp only [settled, List.getElem_mapIdx, lastAt?_cons, List.getElem_set]
  cases lastAt? rest index with
  | some later => rfl
  | none =>
      by_cases h : e.index = index <;> simp [h]

/-- The induction is on the entries, from any cells, as each entry changes the cells that the
rest find. -/
theorem result_place (size : UInt32) (cells : List Cell) (entries : List Entry) :
    (place size cells entries).result =
      match entries.find? fun e => cells.length ≤ e.index with
      | some e => .error (.outside e.name e.offset size)
      | none => .ok (settled cells entries) := by
  induction entries generalizing cells with
  | nil => simp
  | cons e rest ih =>
      by_cases hin : e.index < cells.length
      · rw [place_cons_of_lt hin, List.find?_cons_of_neg (by simpa using hin)]
        simp only [ih, List.length_set, settled_set]
      · have hout := Nat.le_of_not_lt hin
        rw [place_cons_of_le hout, List.find?_cons_of_pos (by simpa using hout)]
        rfl

/-- An arrangement is an admission followed by a placement. -/
theorem result_arrange (p : Profile) (entries : List Entry) :
    (Table.arrange p entries).result =
      Except.bind (Reported.result <| Profile.admit p entries) fun _ =>
        (place p.geometry.size p.geometry.initialCells entries).result.map
          fun cells => ⟨p.geometry, cells⟩ := by
  rw [Table.arrange, Reported.result_bind]
  congr 1
  funext _
  rw [Reported.result_bind]
  cases (place p.geometry.size p.geometry.initialCells entries).result <;> rfl

namespace Geometry

variable {g : Geometry} {entries : List Entry} {index : Nat} {e : Entry}

/-- In a table of whole cells the bytes and the cells end at the same place. -/
theorem WellFormed.contains_iff_cell_lt (h : g.WellFormed) {offset : UInt32} :
    g.Contains offset ↔ offset.toNat / 4 < g.cellCount := by
  have := h.size_aligned
  rw [contains_iff, cellCount]
  omega

theorem WellFormed.contains_iff_index_lt (h : g.WellFormed) :
    g.Contains e.offset ↔ e.index < g.cellCount :=
  h.contains_iff_cell_lt

theorem WellFormed.cellOffset_backIndex (h : g.WellFormed) :
    cellOffset g.backIndex = g.backOffset := by
  have := h.backOffset_aligned
  have hindex : g.backIndex < 0x40000000 := Nat.lt_trans h.backIndex_lt g.cellCount_lt
  apply UInt32.toNat_inj.1
  rw [toNat_cellOffset hindex, backIndex]
  omega

/-- The cell at an index of a table that has taken in all entries. -/
def finalCell (g : Geometry) (entries : List Entry) (index : Nat) : Cell :=
  match lastAt? entries index with
  | some e => .function (cellOffset index) e
  | none =>
      if index = g.backOffset.toNat / 4 then .backReference (cellOffset index)
      else .padding (cellOffset index)

def finalCells (g : Geometry) (entries : List Entry) : List Cell :=
  (List.range g.cellCount).map (g.finalCell entries)

@[simp] theorem length_finalCells : (g.finalCells entries).length = g.cellCount := by
  simp [finalCells]

@[simp] theorem offset_finalCell : (g.finalCell entries index).offset = cellOffset index := by
  unfold finalCell
  split
  · rfl
  · split <;> rfl

@[simp] theorem entry?_finalCell :
    Cell.entry? (g.finalCell entries index) = lastAt? entries index := by
  unfold finalCell
  split
  · next h => rw [h]; rfl
  · next h => rw [h]; split <;> rfl

theorem getElem?_finalCells_eq_some_iff {c : Cell} :
    (g.finalCells entries)[index]? = some c ↔
      index < g.cellCount ∧ g.finalCell entries index = c := by
  by_cases h : index < g.cellCount <;> simp [finalCells, h]

theorem WellFormed.settled_initialCells (h : g.WellFormed) :
    settled g.initialCells entries = g.finalCells entries := by
  refine List.ext_getElem (by simp [settled]) fun index _ _ => ?_
  simp only [settled, initialCells, finalCells, List.getElem_mapIdx, List.getElem_map,
    List.getElem_range, finalCell]
  cases hlast : lastAt? entries index with
  | some e =>
      obtain ⟨_, rfl⟩ := mem_of_lastAt?_eq_some hlast
      rfl
  | none =>
      simp only [Option.map_none, Option.getD_none, initialCell]
      by_cases hback : index = g.backIndex
      · rw [if_pos hback, hback, h.cellOffset_backIndex]
        exact (if_pos rfl).symm
      · rw [if_neg hback]
        exact (if_neg hback).symm

/-- Placing entries into a new table, with the range given in bytes. -/
theorem WellFormed.result_place (h : g.WellFormed) (entries : List Entry) :
    (place g.size g.initialCells entries).result =
      match entries.find? fun e => g.size ≤ e.offset with
      | some e => .error (.outside e.name e.offset g.size)
      | none => .ok (g.finalCells entries) := by
  have hrange : (fun e : Entry => decide (g.initialCells.length ≤ e.index)) =
      fun e => decide (g.size ≤ e.offset) := by
    funext e
    rw [decide_eq_decide, length_initialCells, ← Nat.not_lt, ← h.contains_iff_index_lt, Contains,
      UInt32.not_lt]
  rw [CallTable.result_place, hrange, h.settled_initialCells]

end Geometry

/-- Under the permissive policy a geometry at fault is reported first, and then the first entry
beyond the end of the table. Otherwise each cell holds the last entry that falls into it, or else
what a new table has there. -/
theorem arrange_lastWins (p : Profile) (entries : List Entry) (hpolicy : p.policy = .lastWins) :
    (Table.arrange p entries).result =
      match p.geometry.fault? with
      | some r => .error r
      | none =>
          match entries.find? fun e => p.geometry.size ≤ e.offset with
          | some e => .error (.outside e.name e.offset p.geometry.size)
          | none => .ok ⟨p.geometry, (List.range (p.geometry.size.toNat / 4)).map fun i =>
              match (entries.filter fun e => e.offset.toNat / 4 = i).getLast? with
              | some e => .function (cellOffset i) e
              | none =>
                  if i = p.geometry.backOffset.toNat / 4 then .backReference (cellOffset i)
                  else .padding (cellOffset i)⟩ := by
  rw [result_arrange, Profile.admit, hpolicy]
  cases hfault : p.geometry.fault? with
  | some r => rfl
  | none =>
      have hg := Geometry.fault?_eq_none_iff.1 hfault
      simp only [Reported.pure_eq, Except.bind, hg.result_place]
      -- in the last case `finalCells` is the list that the statement writes out
      cases entries.find? fun e => p.geometry.size ≤ e.offset <;> rfl

/-- Two entries compete for the second cell, the later of them from inside it, and a third takes
the cell that refers back. -/
theorem arrange_lastWins_competing :
    ({ geometry := ⟨16, 8⟩, policy := .lastWins } : Profile).policy = .lastWins ∧
      (Table.arrange { geometry := ⟨16, 8⟩, policy := .lastWins }
        [⟨4, "u32", "First", []⟩, ⟨8, "void", "Third", []⟩, ⟨6, "u32", "Second", ["u32"]⟩]).result =
        .ok ⟨⟨16, 8⟩, [.padding 0, .function 4 ⟨6, "u32", "Second", ["u32"]⟩,
          .function 8 ⟨8, "void", "Third", []⟩, .padding 12]⟩ :=
  ⟨rfl, (arrange_lastWins _ _ rfl).trans rfl⟩

end CallTable
