import CallTable.Proofs.Policy
import Mathlib.Data.List.FinRange
import Mathlib.Data.List.Sort

/-!
Entries given in another order. A table shows nothing of the order in which its entries were given
except for those that fall into the same cell, and under the strict policy there are no such
entries. So the verdict and the table stay the same under the strict policy, and under the
permissive one as long as competing entries keep their order. The class header lists its methods in
the order of the entries.
-/

namespace CallTable

/-- The same entries at other positions. -/
structure Reordering (entries entries' : List Entry) where
  position : Fin entries.length ≃ Fin entries'.length
  getElem_position : ∀ i, entries'[position i] = entries[i]

namespace Reordering

variable {entries entries' : List Entry}

/-- Of two entries that fall into the same cell, the later one stays the later one. -/
def KeepsCells (r : Reordering entries entries') : Prop :=
  ∀ i j, i < j → entries[i].index = entries[j].index → r.position i < r.position j

theorem perm (r : Reordering entries entries') : entries.Perm entries' := by
  have hpositions : ((List.finRange entries.length).map r.position).Perm
      (List.finRange entries'.length) := by
    rw [List.perm_ext_iff_of_nodup ((List.nodup_finRange _).map r.position.injective)
      (List.nodup_finRange _)]
    intro k
    simpa using r.position.surjective k
  have hget : entries'.get ∘ r.position = entries.get := funext r.getElem_position
  have hentries := hpositions.map entries'.get
  rwa [List.map_map, hget, List.map_get_finRange, List.map_get_finRange] at hentries

/-- Permuted entries are the same entries at other positions: each entry is taken to the one that is
equal to it and comes behind as many others that are. -/
def ofPerm (h : entries.Perm entries') : Reordering entries entries' where
  position := ⟨h.idxBij, h.symm.idxBij, h.idxBij_symm_leftInverse_idxBij,
    h.idxBij_leftInverse_idxBij_symm⟩
  getElem_position i := h.getElem_idxBij_eq_getElem i

theorem nonempty_iff_perm : Nonempty (Reordering entries entries') ↔ entries.Perm entries' :=
  ⟨fun ⟨r⟩ => r.perm, fun h => ⟨ofPerm h⟩⟩

/-- The positions of the entries that fall into a cell. -/
def positionsAt (entries : List Entry) (index : Nat) : List (Fin entries.length) :=
  (List.finRange entries.length).filter fun i => entries[i].index = index

theorem mem_positionsAt {index : Nat} {i : Fin entries.length} :
    i ∈ positionsAt entries index ↔ entries[i].index = index := by
  simp [positionsAt]

theorem pairwise_positionsAt (entries : List Entry) (index : Nat) :
    (positionsAt entries index).Pairwise (· < ·) :=
  (List.pairwise_lt_finRange _).filter _

theorem map_get_positionsAt (entries : List Entry) (index : Nat) :
    (positionsAt entries index).map entries.get = entries.filter (·.index = index) := by
  have hfilter := List.filter_map (f := entries.get) (p := (·.index = index))
    (l := List.finRange entries.length)
  rw [List.map_get_finRange] at hfilter
  exact hfilter.symm

/-- Entries of one cell come in the same order before and after: their positions before are in
order, so are the positions that these are taken to, and these are all the positions after. -/
theorem KeepsCells.filter_index {r : Reordering entries entries'} (h : r.KeepsCells)
    (index : Nat) :
    entries.filter (·.index = index) = entries'.filter (·.index = index) := by
  have hsame (i : Fin entries.length) : entries'[r.position i].index = entries[i].index := by
    rw [r.getElem_position]
  have hordered : ((positionsAt entries index).map r.position).Pairwise (· < ·) := by
    rw [List.pairwise_map]
    refine (pairwise_positionsAt entries index).imp_of_mem fun {i j} hi hj hij => h i j hij ?_
    rw [mem_positionsAt.1 hi, mem_positionsAt.1 hj]
  have hall : ((positionsAt entries index).map r.position).Perm (positionsAt entries' index) := by
    rw [List.perm_ext_iff_of_nodup (hordered.imp ne_of_lt)
      ((pairwise_positionsAt entries' index).imp ne_of_lt)]
    intro k
    obtain ⟨i, rfl⟩ := r.position.surjective k
    rw [List.mem_map_of_injective r.position.injective, mem_positionsAt, mem_positionsAt, hsame]
  have hpositions := hall.eq_of_pairwise (fun i j _ _ hij hji => absurd hij (lt_asymm hji))
    hordered (pairwise_positionsAt entries' index)
  have hget : entries'.get ∘ r.position = entries.get := funext r.getElem_position
  rw [← map_get_positionsAt, ← map_get_positionsAt, ← hpositions, List.map_map, hget]

end Reordering

section

variable {g : Geometry} {entries entries' : List Entry}

theorem Admissible.of_perm (h : Admissible g entries) (hperm : entries.Perm entries') :
    Admissible g entries' where
  sound e he := h.sound e (hperm.mem_iff.2 he)
  nodup_offsets := (hperm.map Entry.offset).nodup_iff.1 h.nodup_offsets
  nodup_names := (hperm.map Entry.name).nodup_iff.1 h.nodup_names

/-- Among admissible entries it does not matter which comes last. -/
theorem Admissible.lastAt?_eq_of_perm (h : Admissible g entries) (hperm : entries.Perm entries')
    (index : Nat) : lastAt? entries index = lastAt? entries' index := by
  ext e
  rw [h.lastAt?_eq_some_iff, (h.of_perm hperm).lastAt?_eq_some_iff, hperm.mem_iff]

theorem Geometry.finalCells_congr (h : ∀ index, lastAt? entries index = lastAt? entries' index) :
    g.finalCells entries = g.finalCells entries' := by
  refine List.map_congr_left fun index _ => ?_
  rw [finalCell, finalCell, h]

/-- Entries in any order are admissible or not, and make the same table. -/
theorem Table.arrange_perm_of_strict {p : Profile} (hpolicy : p.policy = .strict)
    (hperm : entries.Perm entries') {t : Table} (h : (arrange p entries).result = .ok t) :
    (arrange p entries').result = .ok t := by
  obtain ⟨⟨hg, hentries⟩, rfl⟩ := (arrange_eq_ok_iff_of_strict hpolicy).1 h
  rw [arrange_eq_ok_iff_of_strict hpolicy]
  refine ⟨⟨hg, hentries.of_perm hperm⟩, ?_⟩
  rw [Geometry.finalCells_congr (hentries.lastAt?_eq_of_perm hperm)]

/-- Entries that compete in the same order make the same table. -/
theorem Table.arrange_perm_of_lastWins {p : Profile} (hpolicy : p.policy = .lastWins)
    (hperm : entries.Perm entries')
    (hcells : ∀ index, lastAt? entries index = lastAt? entries' index) {t : Table}
    (h : (arrange p entries).result = .ok t) : (arrange p entries').result = .ok t := by
  obtain ⟨⟨hg, hinside⟩, rfl⟩ := (arrange_eq_ok_iff_of_lastWins hpolicy).1 h
  rw [arrange_eq_ok_iff_of_lastWins hpolicy]
  refine ⟨⟨hg, fun e he => hinside e (hperm.mem_iff.2 he)⟩, ?_⟩
  rw [Geometry.finalCells_congr hcells]

end

/-- Sources are made from the table and the entries. -/
theorem Sources.ofEntries_of_arrange {p : Profile} {entries : List Entry} {t : Table}
    (h : (Table.arrange p entries).result = .ok t) :
    (ofEntries p entries).result = .ok (ofTable p entries t) :=
  Reported.bind_eq_ok_iff.2 ⟨t, h, rfl⟩

namespace ClassHeader

variable {entries entries' : List Entry}

/-- The lines of the header that declare the methods. -/
def methodLines (entries : List Entry) : List String := Text.block "    " (entries.map method)

theorem methodLines_of_ne_nil (h : entries ≠ []) :
    methodLines entries = entries.map ("    " ++ method ·) := by
  rw [methodLines, Text.block_of_ne_nil (by simpa using h), List.map_map]
  rfl

theorem getElem?_methodLines (i : Fin entries.length) :
    (methodLines entries)[i]? = some ("    " ++ method entries[i]) := by
  have hne : entries ≠ [] := List.ne_nil_of_length_pos (Nat.zero_lt_of_lt i.isLt)
  simp [methodLines_of_ne_nil hne]

theorem perm_methodLines (h : entries.Perm entries') :
    (methodLines entries).Perm (methodLines entries') := by
  by_cases hne : entries = []
  · subst hne
    rw [List.nil_perm.1 h]
  · have hne' : entries' ≠ [] := fun hnil => hne (List.perm_nil.1 (hnil ▸ h))
    rw [methodLines_of_ne_nil hne, methodLines_of_ne_nil hne']
    exact h.map _

end ClassHeader

/-- Under the strict policy the order of the entries decides neither whether a table is built nor
what it is, so the header of the table is the same as well, and in the header of the class the
methods change places as the entries do. Under the permissive policy the same table is built if
entries that fall into the same cell keep their order. -/
theorem arrange_reordering (p : Profile) (entries entries' : List Entry)
    (r : Reordering entries entries') :
    (p.policy = .strict → ∀ t,
      ((Table.arrange p entries).result = .ok t ↔ (Table.arrange p entries').result = .ok t) ∧
      ((Table.arrange p entries).result = .ok t →
        ∃ s s', (Sources.ofEntries p entries).result = .ok s ∧
          (Sources.ofEntries p entries').result = .ok s' ∧
          s.tableHeader = s'.tableHeader ∧
          s.classHeader = Text.unlines
            (ClassHeader.opening p ++ ClassHeader.methodLines entries ++ ClassHeader.closing p) ∧
          s'.classHeader = Text.unlines
            (ClassHeader.opening p ++ ClassHeader.methodLines entries' ++ ClassHeader.closing p) ∧
          (ClassHeader.methodLines entries).Perm (ClassHeader.methodLines entries') ∧
          ∀ i, (ClassHeader.methodLines entries)[i]? =
              some ("    " ++ ClassHeader.method entries[i]) ∧
            (ClassHeader.methodLines entries')[r.position i]? =
              some ("    " ++ ClassHeader.method entries[i]))) ∧
    (p.policy = .lastWins → r.KeepsCells → ∀ t,
      (Table.arrange p entries).result = .ok t ↔ (Table.arrange p entries').result = .ok t) := by
  constructor
  · intro hpolicy t
    have harrange : (Table.arrange p entries).result = .ok t ↔
        (Table.arrange p entries').result = .ok t :=
      ⟨Table.arrange_perm_of_strict hpolicy r.perm,
        Table.arrange_perm_of_strict hpolicy r.perm.symm⟩
    refine ⟨harrange, fun ht => ?_⟩
    refine ⟨_, _, Sources.ofEntries_of_arrange ht, Sources.ofEntries_of_arrange (harrange.1 ht), ?_⟩
    -- the header of the table depends on the entries only through the table
    dsimp only [Sources.ofTable]
    refine ⟨rfl, rfl, rfl, ClassHeader.perm_methodLines r.perm, fun i => ?_⟩
    rw [ClassHeader.getElem?_methodLines, ← r.getElem_position]
    exact ⟨rfl, ClassHeader.getElem?_methodLines _⟩
  · intro hpolicy hcells t
    have hlast (index : Nat) : lastAt? entries index = lastAt? entries' index := by
      rw [lastAt?, lastAt?, hcells.filter_index]
    exact ⟨Table.arrange_perm_of_lastWins hpolicy r.perm hlast,
      Table.arrange_perm_of_lastWins hpolicy r.perm.symm fun index => (hlast index).symm⟩

/-- Two entries that change places, under the strict policy, and three of which the two that share a
cell stay in order, under the permissive one. -/
theorem arrange_reordering_competing :
    (∃ r : Reordering [⟨0, "u32", "First", []⟩, ⟨12, "void", "Last", ["u32"]⟩]
        [⟨12, "void", "Last", ["u32"]⟩, ⟨0, "u32", "First", []⟩],
      r.position = Equiv.swap 0 1 ∧
      ∃ t : Table, t = ⟨⟨16, 4⟩, [.function 0 ⟨0, "u32", "First", []⟩, .backReference 4, .padding 8,
          .function 12 ⟨12, "void", "Last", ["u32"]⟩]⟩ ∧
        (Table.arrange { geometry := ⟨16, 4⟩ }
          [⟨0, "u32", "First", []⟩, ⟨12, "void", "Last", ["u32"]⟩]).result = .ok t ∧
        (Table.arrange { geometry := ⟨16, 4⟩ }
          [⟨12, "void", "Last", ["u32"]⟩, ⟨0, "u32", "First", []⟩]).result = .ok t ∧
        (ClassHeader.methodLines [⟨12, "void", "Last", ["u32"]⟩, ⟨0, "u32", "First", []⟩])[1]? =
          some "    virtual u32 First();") ∧
    ∃ r : Reordering [⟨4, "u32", "First", []⟩, ⟨6, "u32", "Second", []⟩, ⟨8, "u32", "Third", []⟩]
        [⟨4, "u32", "First", []⟩, ⟨8, "u32", "Third", []⟩, ⟨6, "u32", "Second", []⟩],
      r.KeepsCells ∧
      ∃ t : Table, t = ⟨⟨16, 8⟩, [.padding 0, .function 4 ⟨6, "u32", "Second", []⟩,
          .function 8 ⟨8, "u32", "Third", []⟩, .padding 12]⟩ ∧
        (Table.arrange { geometry := ⟨16, 8⟩, policy := .lastWins }
          [⟨4, "u32", "First", []⟩, ⟨6, "u32", "Second", []⟩, ⟨8, "u32", "Third", []⟩]).result =
            .ok t ∧
        (Table.arrange { geometry := ⟨16, 8⟩, policy := .lastWins }
          [⟨4, "u32", "First", []⟩, ⟨8, "u32", "Third", []⟩, ⟨6, "u32", "Second", []⟩]).result =
            .ok t := by
  constructor
  · let r : Reordering [⟨0, "u32", "First", []⟩, ⟨12, "void", "Last", ["u32"]⟩]
        [⟨12, "void", "Last", ["u32"]⟩, ⟨0, "u32", "First", []⟩] := ⟨Equiv.swap 0 1, by decide⟩
    obtain ⟨harrange, hheaders⟩ := (arrange_reordering { geometry := ⟨16, 4⟩ } _ _ r).1 rfl _
    obtain ⟨_, _, _, _, _, _, _, _, hmethods⟩ := hheaders rfl
    exact ⟨r, rfl, _, rfl, rfl, harrange.1 rfl, (hmethods 0).2⟩
  · let r : Reordering [⟨4, "u32", "First", []⟩, ⟨6, "u32", "Second", []⟩, ⟨8, "u32", "Third", []⟩]
        [⟨4, "u32", "First", []⟩, ⟨8, "u32", "Third", []⟩, ⟨6, "u32", "Second", []⟩] :=
      ⟨Equiv.swap 1 2, by decide⟩
    have hcells : r.KeepsCells := by
      unfold Reordering.KeepsCells
      decide
    have hkept := (arrange_reordering { geometry := ⟨16, 8⟩, policy := .lastWins } _ _ r).2
    exact ⟨r, hcells, _, rfl, rfl, (hkept rfl hcells _).1 rfl⟩

end CallTable
