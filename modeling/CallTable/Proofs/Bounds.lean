import CallTable.Proofs.Policy

/-!
Bounds of the arithmetic behind a table. Offsets have 32 bits and cells are taken by their index, so
a product may be too large for an offset, and an index may lie behind the last cell. Tables are
arranged here once more by a computation that looks at each product and at each index before it
uses it, and that stops at the first which is out of bounds. It never stops and its tables are the
same, so none of the arithmetic depends on what happens out of bounds.
-/

namespace CallTable

/-- What a checked computation stops at. -/
inductive OutOfBounds where
  /-- The offset of the cell at an index has more than 32 bits. -/
  | product (index : Nat)
  /-- There is no cell at an index. -/
  | access (index cellCount : Nat)

/-- The offset of a cell, if it has at most 32 bits. -/
def checkedOffset (index : Nat) : Except OutOfBounds UInt32 :=
  if h : 4 * index < UInt32.size then .ok (UInt32.ofNatLT (4 * index) h)
  else .error (.product index)

/-- Replaces the cell at an index, if there is one. -/
def checkedSet (cells : List Cell) (index : Nat) (cell : Cell) : Except OutOfBounds (List Cell) :=
  if index < cells.length then .ok (cells.set index cell)
  else .error (.access index cells.length)

/-- Fills the table with padding and then puts the cell that refers back into it. -/
def Geometry.checkedCells (g : Geometry) : Except OutOfBounds (List Cell) := do
  let padding ← (List.range g.cellCount).mapM fun index => Cell.padding <$> checkedOffset index
  checkedSet padding g.backIndex (.backReference g.backOffset)

/-- Puts entries into cells. The offset of a cell is looked at before it is stored or reported. -/
def checkedPlace (size : UInt32) :
    List Cell → List Entry → Except OutOfBounds (Reported Rejection (List Cell))
  | cells, [] => return pure cells
  | cells, e :: rest =>
      match cells[e.index]? with
      | none => return .fail (.outside e.name e.offset size)
      | some occupant => do
          let offset ← checkedOffset e.index
          let cells ← checkedSet cells e.index (.function offset e)
          let placed ← checkedPlace size cells rest
          return do
            Reported.report (e.displacement occupant)
            placed

/-- Nothing is computed unless the entries are admitted. -/
def Table.checkedArrange (p : Profile) (entries : List Entry) :
    Except OutOfBounds (Reported Rejection Table) :=
  match Reported.result <| Profile.admit p entries with
  | .error reason => return ⟨.error reason, Reported.events <| Profile.admit p entries⟩
  | .ok () => do
      let initial ← p.geometry.checkedCells
      let placed ← checkedPlace p.geometry.size initial entries
      return do
        p.admit entries
        let cells ← placed
        Reported.report [.arranged cells.length (Table.functionCount cells)]
        return ⟨p.geometry, cells⟩

theorem checkedOffset_eq {index : Nat} (h : index < 0x40000000) :
    checkedOffset index = .ok (cellOffset index) := by
  have hsize : 4 * index < UInt32.size := by
    simp only [UInt32.size]
    omega
  rw [checkedOffset, dif_pos hsize]
  congr 1
  apply UInt32.toNat_inj.1
  rw [UInt32.toNat_ofNatLT, toNat_cellOffset h]

theorem checkedSet_eq {cells : List Cell} {index : Nat} (cell : Cell) (h : index < cells.length) :
    checkedSet cells index cell = .ok (cells.set index cell) :=
  if_pos h

/-- A map over a list succeeds if it does at each member. -/
theorem mapM_eq_ok {ε α β : Type} {f : α → Except ε β} {g : α → β} {l : List α}
    (h : ∀ a ∈ l, f a = .ok (g a)) : l.mapM f = .ok (l.map g) := by
  induction l with
  | nil => rfl
  | cons a rest ih =>
      rw [List.mapM_cons, h a List.mem_cons_self, ih fun b hb => h b (List.mem_cons_of_mem a hb)]
      rfl

namespace Geometry

/-- All indices up to that of the last cell have offsets, and the cell that refers back is one of
those filled with padding. -/
theorem WellFormed.checkedCells_eq {g : Geometry} (h : g.WellFormed) :
    g.checkedCells = .ok g.initialCells := by
  have hpadding : (List.range g.cellCount).mapM (fun index => Cell.padding <$> checkedOffset index) =
      .ok ((List.range g.cellCount).map fun index => .padding (cellOffset index)) := by
    refine mapM_eq_ok fun index hindex => ?_
    rw [checkedOffset_eq (Nat.lt_trans (List.mem_range.1 hindex) g.cellCount_lt)]
    rfl
  rw [checkedCells, hpadding]
  refine (checkedSet_eq _ (by simpa using h.backIndex_lt)).trans (congrArg Except.ok ?_)
  refine List.ext_getElem (by simp) fun index _ _ => ?_
  simp only [List.getElem_set, initialCells, List.getElem_map, List.getElem_range, initialCell,
    eq_comm (a := g.backIndex)]

end Geometry

/-- The induction is on the entries, from any cells. Whatever an entry asks for, the index of its
cell comes from an offset, and the cell is there once the entry has been found to lie inside. -/
theorem checkedPlace_eq (size : UInt32) (cells : List Cell) (entries : List Entry) :
    checkedPlace size cells entries = .ok (place size cells entries) := by
  induction entries generalizing cells with
  | nil => rfl
  | cons e rest ih =>
      by_cases hin : e.index < cells.length
      · rw [checkedPlace, List.getElem?_eq_getElem hin, checkedOffset_eq e.index_lt, place,
          List.getElem?_eq_getElem hin]
        have hset : checkedSet cells e.index (.function (cellOffset e.index) e) =
            .ok (cells.set e.index e.placedCell) := checkedSet_eq _ hin
        simp only [bind, Except.bind, hset, ih]
        rfl
      · have hout := List.getElem?_eq_none (Nat.le_of_not_lt hin)
        rw [checkedPlace, hout, place, hout]
        rfl

/-- Entries are admitted for sound geometries only, under every policy. -/
theorem Profile.wellFormed_of_admitted {p : Profile} {entries : List Entry}
    (h : (Reported.result <| Profile.admit p entries) = .ok ()) : p.geometry.WellFormed := by
  unfold Profile.admit at h
  cases hpolicy : p.policy with
  | strict =>
      rw [hpolicy] at h
      exact (accept_eq_ok_iff_admissible.1 h).1
  | lastWins =>
      rw [hpolicy] at h
      rw [← Geometry.fault?_eq_none_iff]
      cases hfault : p.geometry.fault? with
      | none => rfl
      | some r =>
          rw [hfault] at h
          cases h

namespace Table

variable {p : Profile} {entries : List Entry} {t : Table} {c : Cell} {o : UInt32}

theorem checkedArrange_eq (p : Profile) (entries : List Entry) :
    checkedArrange p entries = .ok (arrange p entries) := by
  rw [checkedArrange, arrange]
  rcases hadmitted : p.admit entries with ⟨reason | _, events⟩
  · rfl
  · have hg := Profile.wellFormed_of_admitted (congrArg Reported.result hadmitted)
    simp only [bind, Except.bind, hg.checkedCells_eq, checkedPlace_eq]
    rfl

/-- An offset has a cell in a table that was built if it lies inside. -/
theorem cellAt?_eq_some_iff (h : (arrange p entries).result = .ok t) :
    t.cellAt? o = some c ↔
      p.geometry.Contains o ∧ p.geometry.finalCell entries (o.toNat / 4) = c := by
  obtain ⟨hg, rfl⟩ := eq_of_arrange h
  rw [cellAt?, Geometry.getElem?_finalCells_eq_some_iff, hg.contains_iff_cell_lt]

/-- No table makes the arithmetic leave its bounds, and bytes and cells end at the same place. Under
every policy and for all entries, the computation that stops at a product of more than 32 bits and
at an index without a cell does not stop, and arranges the same table with the same reports. If the
geometry is not at fault, the cell that refers back is one of the table's, and an offset lies inside
the table exactly if its cell does. In a table that was built the offsets inside are those that have
a cell, whatever entries were replaced, and that cell starts at the multiple of four below. -/
theorem arrange_within_bounds (p : Profile) (entries : List Entry) :
    checkedArrange p entries = .ok (arrange p entries) ∧
    (p.geometry.fault? = none →
      p.geometry.backOffset.toNat / 4 < p.geometry.cellCount ∧
      ∀ o, p.geometry.Contains o ↔ o.toNat / 4 < p.geometry.cellCount) ∧
    ∀ t, (arrange p entries).result = .ok t → ∀ o,
      ((t.cellAt? o).isSome ↔ t.geometry.Contains o) ∧
      ∀ c, t.cellAt? o = some c → c.offset.toNat = o.toNat - o.toNat % 4 := by
  refine ⟨checkedArrange_eq p entries, fun hfault => ?_, fun t ht o => ⟨?_, fun c hc => ?_⟩⟩
  · have hg := Geometry.fault?_eq_none_iff.1 hfault
    exact ⟨hg.backIndex_lt, fun _ => hg.contains_iff_cell_lt⟩
  · have hgeometry : t.geometry = p.geometry := congrArg Table.geometry (eq_of_arrange ht).2
    simp [Option.isSome_iff_exists, cellAt?_eq_some_iff ht, hgeometry]
  · obtain ⟨hin, rfl⟩ := (cellAt?_eq_some_iff ht).1 hc
    have hindex : o.toNat / 4 < 0x40000000 := by
      have := o.toNat_lt
      omega
    rw [Geometry.offset_finalCell, toNat_cellOffset hindex]
    omega

/-- The largest table there is, behind whose last cell three offsets are left, and a small one whose
last cell was taken from inside. -/
theorem arrange_within_bounds_edges :
    (⟨0xFFFFFFFC, 0xFFFFFFF8⟩ : Geometry).fault? = none ∧
      ¬(⟨0xFFFFFFFC, 0xFFFFFFF8⟩ : Geometry).Contains 0xFFFFFFFD ∧
      let t : Table := ⟨⟨16, 8⟩, [.padding 0, .padding 4, .backReference 8,
        .function 12 ⟨14, "u32", "Last", []⟩]⟩
      (arrange { geometry := ⟨16, 8⟩, policy := .lastWins } [⟨14, "u32", "Last", []⟩]).result =
        .ok t ∧
      t.cellAt? 15 = some (.function 12 ⟨14, "u32", "Last", []⟩) ∧
      (Cell.function 12 ⟨14, "u32", "Last", []⟩).offset.toNat = 15 - 15 % 4 := by
  have hbytes := ((arrange_within_bounds { geometry := ⟨0xFFFFFFFC, 0xFFFFFFF8⟩ } []).2.1 rfl).2
  refine ⟨rfl, fun hin => absurd ((hbytes _).1 hin) (by decide), rfl, rfl, ?_⟩
  exact ((arrange_within_bounds { geometry := ⟨16, 8⟩, policy := .lastWins }
    [⟨14, "u32", "Last", []⟩]).2.2 _ rfl 15).2 _ rfl

end Table

end CallTable
