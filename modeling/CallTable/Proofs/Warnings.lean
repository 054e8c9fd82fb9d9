import CallTable.Proofs.Policy

/-!
What is reported when entries are placed. Under the permissive policy an entry is reported if it
takes its cell from an earlier entry or from the back-reference, and if it does not start at its
cell. Each entry either fills a cell that held none before or replaces an earlier entry with a
report, so no entry is lost in silence. Under the strict policy there is nothing to report.
-/

namespace CallTable

/-- The reports of an entry that comes behind others: of the latest one in its cell, or else of the
back-reference if the cell is that one, and then of its offset. -/
def Entry.warnings (g : Geometry) (earlier : List Entry) (e : Entry) : List Event :=
  (match lastAt? earlier e.index with
    | some previous => [.tookCell e.name previous.name (cellOffset e.index)]
    | none => if e.index = g.backIndex then [.tookBackReference e.name g.backOffset] else [])
  ++ if e.Aligned then [] else [.movedToCell e.name e.offset (cellOffset e.index)]

/-- The event tells of an entry whose place another one took. -/
def Event.replacesEntry : Event → Bool
  | .tookCell .. => true
  | _ => false

/-- The reports of entries in order, each beside those before it. -/
def warnings (g : Geometry) (entries : List Entry) : List Event :=
  (entries.mapIdx fun k e => e.warnings g (entries.take k)).flatten

section

variable {g : Geometry} {earlier entries : List Entry} {e : Entry} {index : Nat}

/-! ### One entry -/

theorem lastAt?_append_singleton :
    lastAt? (earlier ++ [e]) index = if e.index = index then some e else lastAt? earlier index := by
  rw [lastAt?, List.filter_append, List.getLast?_append]
  by_cases h : e.index = index <;> simp [h, lastAt?]

/-- One more entry takes its cell and leaves the others as they are. -/
theorem Geometry.finalCells_append_singleton :
    g.finalCells (earlier ++ [e]) = (g.finalCells earlier).set e.index e.placedCell := by
  apply List.ext_getElem
  · simp
  · intro index _ _
    simp only [finalCells, List.getElem_set, List.getElem_map, List.getElem_range, finalCell,
      lastAt?_append_singleton]
    by_cases h : e.index = index
    · subst h
      simp [Entry.placedCell]
    · simp [h]

theorem Entry.displacement_finalCell (hg : g.WellFormed) :
    e.displacement (g.finalCell earlier e.index) = e.warnings g earlier := by
  unfold displacement warnings Geometry.finalCell
  cases lastAt? earlier e.index with
  | some previous => rfl
  | none =>
      show _ = (if e.index = g.backIndex then _ else _) ++ _
      by_cases hback : e.index = g.backIndex
      · have hcell : e.index = g.backOffset.toNat / 4 := hback
        rw [if_pos hback, if_pos hcell, hback, hg.cellOffset_backIndex]
      · have hcell : ¬e.index = g.backOffset.toNat / 4 := hback
        rw [if_neg hback, if_neg hcell]

theorem Entry.level_of_mem_warnings {event : Event} (h : event ∈ e.warnings g earlier) :
    event.level = .warn := by
  rw [warnings, List.mem_append] at h
  rcases h with h | h
  · split at h
    · rw [List.mem_singleton.1 h]
      rfl
    · split at h
      · rw [List.mem_singleton.1 h]
        rfl
      · cases h
  · split at h
    · cases h
    · rw [List.mem_singleton.1 h]
      rfl

/-- An entry goes without a report if it starts at a cell that nothing has taken. -/
theorem Entry.warnings_eq_nil_iff :
    e.warnings g earlier = [] ↔
      (∀ d ∈ earlier, d.index ≠ e.index) ∧ e.index ≠ g.backIndex ∧ e.Aligned := by
  rw [warnings, List.append_eq_nil_iff, ← lastAt?_eq_none_iff]
  cases lastAt? earlier e.index with
  | some previous => simp
  | none => simp

/-- The wording of the reports. -/
theorem Entry.map_message_warnings :
    (e.warnings g earlier).map Event.message =
      (match lastAt? earlier e.index with
        | some previous =>
            ["`" ++ e.name ++ "` replaces `" ++ previous.name ++ "` at " ++
              address (cellOffset e.index)]
        | none =>
            if e.index = g.backIndex then
              ["`" ++ e.name ++ "` replaces the back-reference slot at " ++ address g.backOffset]
            else []) ++
      if e.Aligned then []
      else ["`" ++ e.name ++ "` at " ++ address e.offset ++ " is misaligned, placed in slot " ++
        address (cellOffset e.index)] := by
  have htook (previous : Entry) (o : UInt32) :
      Event.message (.tookCell e.name previous.name o) =
        "`" ++ e.name ++ "` replaces `" ++ previous.name ++ "` at " ++ address o := by
    simp [← String.toList_inj, Event.message, quoted]
  have hback (o : UInt32) : Event.message (.tookBackReference e.name o) =
      "`" ++ e.name ++ "` replaces the back-reference slot at " ++ address o := by
    simp [← String.toList_inj, Event.message, quoted]
  have hmoved (o : UInt32) : Event.message (.movedToCell e.name e.offset o) =
      "`" ++ e.name ++ "` at " ++ address e.offset ++ " is misaligned, placed in slot " ++
        address o := by
    simp [← String.toList_inj, Event.message, quoted]
  rw [warnings, List.map_append]
  congr 1
  · cases lastAt? earlier e.index with
    | some previous => simp [htook]
    | none => by_cases h : e.index = g.backIndex <;> simp [h, hback]
  · split <;> simp [hmoved]

/-- An entry adds one to the entries in the cells, unless it replaces one and says so. -/
theorem Table.functionCount_set_add {cells : List Cell} (h : e.index < cells.length) :
    functionCount (cells.set e.index e.placedCell) +
      (e.displacement cells[e.index]).countP Event.replacesEntry = functionCount cells + 1 := by
  simp only [functionCount, List.length_filterMap_eq_countP, List.countP_set h]
  have hmoved : (if e.Aligned then [] else
      [Event.movedToCell e.name e.offset (cellOffset e.index)]).countP Event.replacesEntry = 0 := by
    split <;> rfl
  unfold Entry.displacement
  rw [List.countP_append, hmoved]
  -- what leaves the cell counts only if it is an entry, and only then one is reported as replaced
  cases hcell : cells[e.index] with
  | padding o => simp [Entry.placedCell, Cell.entry?]
  | backReference o => simp [Entry.placedCell, Cell.entry?, Event.replacesEntry]
  | function o previous =>
      have hpos : 0 < cells.countP fun c => (Cell.entry? c).isSome :=
        List.countP_pos_iff.2 ⟨_, List.getElem_mem h, by rw [hcell]; rfl⟩
      show (cells.countP fun c => (Cell.entry? c).isSome) - 1 + 1 + 1 = _
      omega

/-! ### A run -/

/-- Entries are reported one after another. The induction goes through the entries that are still
to be placed, and the cells are those that the earlier ones have made. -/
theorem events_place_finalCells (hg : g.WellFormed) (size : UInt32) (earlier : List Entry)
    (hin : ∀ e ∈ entries, e.index < g.cellCount) :
    (place size (g.finalCells earlier) entries).events =
      (entries.mapIdx fun k e => e.warnings g (earlier ++ entries.take k)).flatten := by
  induction entries generalizing earlier with
  | nil => rfl
  | cons e rest ih =>
      have he : e.index < (g.finalCells earlier).length := by
        simpa using hin e List.mem_cons_self
      have hrest := ih (earlier ++ [e]) fun d hd => hin d (List.mem_cons_of_mem e hd)
      have hoccupant : (g.finalCells earlier)[e.index] = g.finalCell earlier e.index := by
        simp [Geometry.finalCells]
      rw [place_cons_of_lt he, List.mapIdx_cons, List.flatten_cons, hoccupant,
        Entry.displacement_finalCell hg, ← Geometry.finalCells_append_singleton, hrest]
      simp

/-- No entry is lost: those in the cells at the end and those reported as replaced are the ones that
were there at the start and the ones placed. -/
theorem functionCount_place_add {size : UInt32} {cells placed : List Cell}
    (h : (place size cells entries).result = .ok placed) :
    Table.functionCount placed + (place size cells entries).events.countP Event.replacesEntry =
      Table.functionCount cells + entries.length := by
  induction entries generalizing cells with
  | nil =>
      simp only [place_nil, Reported.pure_eq, Except.ok.injEq] at h
      simp [h]
  | cons e rest ih =>
      by_cases hin : e.index < cells.length
      · rw [place_cons_of_lt hin] at h ⊢
        have hstep := Table.functionCount_set_add hin
        have hrest := ih h
        simp only [List.countP_append, List.length_cons]
        omega
      · rw [place_cons_of_le (Nat.le_of_not_lt hin)] at h
        cases h

theorem Geometry.finalCells_nil (hg : g.WellFormed) : g.finalCells [] = g.initialCells := by
  rw [← hg.settled_initialCells, settled_nil]

/-- A new table holds no entries. -/
theorem Table.functionCount_initialCells : functionCount g.initialCells = 0 := by
  rw [functionCount, List.length_eq_zero_iff, List.filterMap_eq_nil_iff]
  intro c hc
  obtain ⟨index, _, rfl⟩ := List.mem_map.1 hc
  unfold Geometry.initialCell
  split <;> rfl

theorem level_of_mem_warnings {event : Event} (h : event ∈ warnings g entries) :
    event.level = .warn := by
  obtain ⟨l, hl, hevent⟩ := List.mem_flatten.1 h
  obtain ⟨k, hk, rfl⟩ := List.mem_mapIdx.1 hl
  exact Entry.level_of_mem_warnings hevent

theorem warnings_append_singleton :
    warnings g (entries ++ [e]) = warnings g entries ++ e.warnings g entries := by
  have hbefore : (entries.mapIdx fun k d => d.warnings g ((entries ++ [e]).take k)) =
      entries.mapIdx fun k d => d.warnings g (entries.take k) := by
    apply List.ext_getElem
    · simp
    · intro k hk _
      rw [List.length_mapIdx] at hk
      simp [List.take_append_of_le_length (Nat.le_of_lt hk)]
  rw [warnings, List.mapIdx_append, hbefore]
  simp [warnings]

/-- Cells tell apart the offsets that they start at. -/
theorem div_four_eq_iff {a b : UInt32} (ha : a.toNat % 4 = 0) (hb : b.toNat % 4 = 0) :
    a.toNat / 4 = b.toNat / 4 ↔ a = b := by
  rw [← UInt32.toNat_inj]
  omega

/-- Entries go without reports if each starts at a cell of its own. The induction takes the last
entry away, which is reported beside all others. -/
theorem warnings_eq_nil_iff (hg : g.WellFormed) :
    warnings g entries = [] ↔
      (∀ e ∈ entries, e.Aligned ∧ e.offset ≠ g.backOffset) ∧ (entries.map Entry.offset).Nodup := by
  induction entries using List.reverseRecOn with
  | nil => simp [warnings]
  | append_singleton entries e ih =>
      rw [warnings_append_singleton, List.append_eq_nil_iff, ih, Entry.warnings_eq_nil_iff]
      constructor
      · rintro ⟨⟨hentries, hnodup⟩, hfree, hback, haligned⟩
        have hoffset : e.offset ≠ g.backOffset := fun h =>
          hback ((div_four_eq_iff haligned hg.backOffset_aligned).2 h)
        refine ⟨?_, (Admissible.nodup_map_append_singleton hnodup).2 ?_⟩
        · intro d hd
          rcases List.mem_append.1 hd with hd | hd
          · exact hentries d hd
          · rw [List.mem_singleton.1 hd]
            exact ⟨haligned, hoffset⟩
        · intro hmem
          obtain ⟨d, hd, hsame⟩ := List.mem_map.1 hmem
          exact hfree d hd ((div_four_eq_iff (hentries d hd).1 haligned).2 hsame)
      · rintro ⟨hentries, hnodup⟩
        have hbefore : ∀ d ∈ entries, d.Aligned ∧ d.offset ≠ g.backOffset := fun d hd =>
          hentries d (List.mem_append_left [e] hd)
        obtain ⟨haligned, hoffset⟩ := hentries e (by simp)
        have hoffsets : (entries.map Entry.offset).Nodup := by
          rw [List.map_append] at hnodup
          exact hnodup.of_append_left
        refine ⟨⟨hbefore, hoffsets⟩, ?_, ?_, haligned⟩
        · intro d hd hsame
          apply (Admissible.nodup_map_append_singleton hoffsets).1 hnodup
          rw [← (div_four_eq_iff (hbefore d hd).1 haligned).1 hsame]
          exact List.mem_map_of_mem hd
        · exact fun hsame => hoffset ((div_four_eq_iff haligned hg.backOffset_aligned).1 hsame)

end

/-! ### An arrangement -/

theorem Reported.events_bind_of_ok {ε α β : Type} {x : Reported ε α} {f : α → Reported ε β} {a : α}
    (h : x.result = .ok a) : (x >>= f).events = x.events ++ (f a).events := by
  obtain ⟨result, events⟩ := x
  obtain rfl : result = .ok a := h
  rfl

section

variable {p : Profile} {entries : List Entry} {t : Table}

/-- An arrangement that succeeds reports its admission, its placement, and how many of the cells
hold entries. -/
theorem Table.events_arrange (h : (arrange p entries).result = .ok t) :
    (arrange p entries).events = (Reported.events <| p.admit entries) ++
      ((place p.geometry.size p.geometry.initialCells entries).events ++
        [.arranged t.cells.length (functionCount t.cells)]) := by
  rw [arrange] at h ⊢
  obtain ⟨_, hadmit, h⟩ := Reported.bind_eq_ok_iff.1 h
  obtain ⟨cells, hplace, h⟩ := Reported.bind_eq_ok_iff.1 h
  obtain rfl : ⟨p.geometry, cells⟩ = t := Except.ok.inj h
  rw [Reported.events_bind_of_ok hadmit, Reported.events_bind_of_ok hplace]
  rfl

theorem Table.events_arrange_of_lastWins (hpolicy : p.policy = .lastWins)
    (h : (arrange p entries).result = .ok t) :
    (arrange p entries).events =
      warnings p.geometry entries ++ [.arranged t.cells.length (functionCount t.cells)] := by
  obtain ⟨⟨hg, hinside⟩, _⟩ := (arrange_eq_ok_iff_of_lastWins hpolicy).1 h
  have hadmit : p.admit entries = ⟨.ok (), []⟩ := by
    simp [hpolicy, Profile.admit, Geometry.fault?_eq_none_iff.2 hg]
  have hplace := events_place_finalCells hg p.geometry.size [] fun e he =>
    hg.contains_iff_index_lt.1 (hinside e he)
  rw [events_arrange h, hadmit, ← Geometry.finalCells_nil hg, hplace]
  simp [warnings]

theorem Table.events_arrange_of_strict (hpolicy : p.policy = .strict)
    (h : (arrange p entries).result = .ok t) :
    (arrange p entries).events =
      [.checked entries.length p.geometry.size,
        .arranged t.cells.length (functionCount t.cells)] := by
  obtain ⟨⟨hg, hentries⟩, _⟩ := (arrange_eq_ok_iff_of_strict hpolicy).1 h
  have hadmit : p.admit entries = ⟨.ok (), [.checked entries.length p.geometry.size]⟩ := by
    simp only [hpolicy, Profile.admit, accept, rejection?_eq_none_iff.2 ⟨hg, hentries⟩]
    rfl
  rw [events_arrange h, hadmit, hentries.events_place hg]
  rfl

/-- The entries of a table and those reported as replaced are all that were given. -/
theorem Table.functionCount_add_of_arrange (h : (arrange p entries).result = .ok t) :
    functionCount t.cells + (arrange p entries).events.countP Event.replacesEntry =
      entries.length := by
  have hevents := events_arrange h
  -- neither the admission before nor the summary behind reports that an entry is replaced
  have hadmit : List.countP Event.replacesEntry (Reported.events <| p.admit entries) = 0 := by
    unfold Profile.admit accept
    cases p.policy with
    | strict => cases rejection? p.geometry entries <;> rfl
    | lastWins => cases hfault : p.geometry.fault? <;> simp [Reported.fail]
  obtain ⟨_, _, h⟩ := Reported.bind_eq_ok_iff.1 h
  obtain ⟨cells, hplace, h⟩ := Reported.bind_eq_ok_iff.1 h
  obtain rfl : ⟨p.geometry, cells⟩ = t := Except.ok.inj h
  have hcount := functionCount_place_add hplace
  have hlast : [Event.arranged cells.length (functionCount cells)].countP Event.replacesEntry = 0 :=
    rfl
  rw [hevents, List.countP_append, List.countP_append, hadmit, hlast]
  rw [functionCount_initialCells] at hcount
  show functionCount cells + _ = _
  omega

end

/-- Under the permissive policy the warnings of a run that succeeds are those of its entries in
order. An entry in whose cell others came before is reported with the latest of them, and an entry
that is the first in the cell of the back-reference with that. Then an entry that does not start at
its cell is reported with the offset of the cell. So the entries of the table and the warnings of a
replaced entry add up to the entries that were given, and there are no warnings exactly if all
entries start at cells of their own. Under the strict policy there are none, and all entries are in
the table. -/
theorem warnings_of_arrange (p : Profile) (entries : List Entry) (t : Table)
    (h : (Table.arrange p entries).result = .ok t) :
    (p.policy = .lastWins →
      (Table.arrange p entries).events.filter (·.level = .warn) = warnings p.geometry entries ∧
      ((Table.arrange p entries).events.filter (·.level = .warn)).map Event.message =
        (entries.mapIdx fun k e =>
          (match ((entries.take k).filter fun d =>
              d.offset.toNat / 4 = e.offset.toNat / 4).getLast? with
            | some previous =>
                ["`" ++ e.name ++ "` replaces `" ++ previous.name ++ "` at " ++
                  address (cellOffset (e.offset.toNat / 4))]
            | none =>
                if e.offset.toNat / 4 = p.geometry.backOffset.toNat / 4 then
                  ["`" ++ e.name ++ "` replaces the back-reference slot at " ++
                    address p.geometry.backOffset]
                else []) ++
          if e.offset.toNat % 4 = 0 then []
          else ["`" ++ e.name ++ "` at " ++ address e.offset ++ " is misaligned, placed in slot " ++
            address (cellOffset (e.offset.toNat / 4))]).flatten ∧
      (Table.arrange p entries).events.filter (·.level ≠ .warn) =
        [.arranged t.cells.length (Table.functionCount t.cells)] ∧
      entries.length = Table.functionCount t.cells +
        (Table.arrange p entries).events.countP Event.replacesEntry ∧
      ((∀ event ∈ (Table.arrange p entries).events, event.level ≠ .warn) ↔
        (∀ e ∈ entries, e.offset.toNat % 4 = 0 ∧ e.offset ≠ p.geometry.backOffset) ∧
          (entries.map Entry.offset).Nodup)) ∧
    (p.policy = .strict →
      (Table.arrange p entries).events =
        [.checked entries.length p.geometry.size, .arranged t.cells.length entries.length] ∧
      Table.functionCount t.cells = entries.length ∧
      ∀ event ∈ (Table.arrange p entries).events, event.level ≠ .warn) := by
  have hcount := Table.functionCount_add_of_arrange h
  refine ⟨fun hpolicy => ?lastWins, fun hpolicy => ?strict⟩
  case lastWins =>
    have hg := (Table.eq_of_arrange h).1
    have hevents := Table.events_arrange_of_lastWins hpolicy h
    have hwarn : (Table.arrange p entries).events.filter (·.level = .warn) =
        warnings p.geometry entries := by
      rw [hevents, List.filter_append, List.filter_eq_self.2 fun event hevent => ?_]
      · simp [Event.level]
      · simpa using level_of_mem_warnings hevent
    refine ⟨hwarn, ?texts, ?others, hcount.symm, ?quiet⟩
    case texts =>
      rw [hwarn, warnings, List.map_flatten]
      congr 1
      apply List.ext_getElem
      · simp
      · intro k _ _
        rw [List.getElem_map, List.getElem_mapIdx, List.getElem_mapIdx,
          Entry.map_message_warnings]
        rfl
    case others =>
      rw [hevents, List.filter_append, List.filter_eq_nil_iff.2 fun event hevent => ?_]
      · simp [Event.level]
      · simpa using level_of_mem_warnings hevent
    case quiet =>
      show _ ↔ (∀ e ∈ entries, e.Aligned ∧ _) ∧ _
      rw [← warnings_eq_nil_iff hg, ← hwarn, List.filter_eq_nil_iff]
      simp
  case strict =>
    have hevents := Table.events_arrange_of_strict hpolicy h
    rw [hevents] at hcount ⊢
    have hnone : [Event.checked entries.length p.geometry.size,
        .arranged t.cells.length (Table.functionCount t.cells)].countP Event.replacesEntry = 0 :=
      rfl
    rw [hnone, Nat.add_zero] at hcount
    refine ⟨by rw [hcount], hcount, ?_⟩
    simp [Event.level]

/-- Three entries that displace something: the first takes the cell that refers back, and the third
the cell of the second, from inside it. Two entries that are in nobody's way. -/
theorem warnings_of_arrange_competing :
    (∃ t, (Table.arrange { geometry := ⟨16, 8⟩, policy := .lastWins }
        [⟨8, "void", "First", []⟩, ⟨4, "u32", "Second", []⟩,
          ⟨6, "u32", "Third", ["u32"]⟩]).result = .ok t ∧
      ((Table.arrange { geometry := ⟨16, 8⟩, policy := .lastWins }
        [⟨8, "void", "First", []⟩, ⟨4, "u32", "Second", []⟩,
          ⟨6, "u32", "Third", ["u32"]⟩]).events.filter (·.level = .warn)).map Event.message =
        ["`First` replaces the back-reference slot at 0x08", "`Third` replaces `Second` at 0x04",
          "`Third` at 0x06 is misaligned, placed in slot 0x04"] ∧
      Table.functionCount t.cells = 2 ∧
      3 = Table.functionCount t.cells + (Table.arrange { geometry := ⟨16, 8⟩, policy := .lastWins }
        [⟨8, "void", "First", []⟩, ⟨4, "u32", "Second", []⟩,
          ⟨6, "u32", "Third", ["u32"]⟩]).events.countP Event.replacesEntry) ∧
    ∃ t, (Table.arrange { geometry := ⟨16, 4⟩ }
        [⟨12, "void", "Last", ["u32"]⟩, ⟨0, "u32", "First", []⟩]).result = .ok t ∧
      (Table.arrange { geometry := ⟨16, 4⟩ }
        [⟨12, "void", "Last", ["u32"]⟩, ⟨0, "u32", "First", []⟩]).events =
          [.checked 2 16, .arranged 4 2] := by
  have hlastWins := (warnings_of_arrange { geometry := ⟨16, 8⟩, policy := .lastWins }
    [⟨8, "void", "First", []⟩, ⟨4, "u32", "Second", []⟩, ⟨6, "u32", "Third", ["u32"]⟩] _ rfl).1 rfl
  have hstrict := (warnings_of_arrange { geometry := ⟨16, 4⟩ }
    [⟨12, "void", "Last", ["u32"]⟩, ⟨0, "u32", "First", []⟩] _ rfl).2 rfl
  exact ⟨⟨_, rfl, hlastWins.2.1.trans rfl, rfl, hlastWins.2.2.2.1⟩, _, rfl, hstrict.1⟩

end CallTable
