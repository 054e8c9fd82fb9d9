import CallTable.Acceptance
import Mathlib.Data.List.Nodup

/-!
What acceptance decides. Entries are admissible for a geometry if each is fit in itself and no
two share an offset or a name. Looking at one more entry after admissible ones finds no fault
exactly if they are still admissible together with it, so the scan finds none exactly if all of
them are. A scan that keeps the earlier entries in maps finds the same.
-/

namespace CallTable

namespace Text

/-- The letters A to Z and a to z, and the underscore. -/
def IsLetter (c : Char) : Prop := ('A' ≤ c ∧ c ≤ 'Z') ∨ ('a' ≤ c ∧ c ≤ 'z') ∨ c = '_'

/-- The digits 0 to 9. -/
def IsDigit (c : Char) : Prop := '0' ≤ c ∧ c ≤ '9'

/-- A letter, then letters and digits. -/
def SpellsIdentifier (s : String) : Prop :=
  ∃ c cs, s.toList = c :: cs ∧ IsLetter c ∧ ∀ d ∈ cs, IsLetter d ∨ IsDigit d

theorem isUpper_iff {c : Char} : c.isUpper ↔ 'A' ≤ c ∧ c ≤ 'Z' :=
  decide_eq_true_iff

theorem isLower_iff {c : Char} : c.isLower ↔ 'a' ≤ c ∧ c ≤ 'z' := by
  change (decide ('a' ≤ c) && decide (c ≤ 'z')) = true ↔ _
  rw [Bool.and_eq_true, decide_eq_true_iff, decide_eq_true_iff]

theorem isDigit_iff {c : Char} : c.isDigit ↔ IsDigit c := by
  change (decide ('0' ≤ c) && decide (c ≤ '9')) = true ↔ _
  rw [Bool.and_eq_true, decide_eq_true_iff, decide_eq_true_iff, IsDigit]

theorem startsIdentifier_iff {c : Char} : startsIdentifier c ↔ IsLetter c := by
  change ((c.isUpper || c.isLower) || c == '_') = true ↔ _
  rw [Bool.or_eq_true, Bool.or_eq_true, beq_iff_eq, isUpper_iff, isLower_iff, or_assoc, IsLetter]

theorem continuesIdentifier_iff {c : Char} :
    continuesIdentifier c ↔ IsLetter c ∨ IsDigit c := by
  rw [← startsIdentifier_iff, ← isDigit_iff]
  change ((c.isAlpha || c.isDigit) || c == '_') = true ↔
    (c.isAlpha || c == '_') = true ∨ c.isDigit = true
  simp only [Bool.or_eq_true, or_right_comm]

theorem isIdentifier_iff {s : String} : isIdentifier s ↔ SpellsIdentifier s := by
  unfold isIdentifier SpellsIdentifier
  cases h : s.toList with
  | nil => simp
  | cons c cs =>
      simp only [Bool.and_eq_true, List.all_eq_true, startsIdentifier_iff,
        continuesIdentifier_iff, List.cons.injEq]
      constructor
      · rintro ⟨hc, hcs⟩
        exact ⟨c, cs, ⟨rfl, rfl⟩, hc, hcs⟩
      · rintro ⟨c, cs, ⟨rfl, rfl⟩, hc, hcs⟩
        exact ⟨hc, hcs⟩

end Text

/-- What an entry has to satisfy in itself: it is called by an identifier, and it starts at a cell
of the table other than the one that refers back. -/
structure Entry.Sound (g : Geometry) (e : Entry) : Prop where
  isIdentifier_name : Text.isIdentifier e.name
  aligned : e.Aligned
  contains_offset : g.Contains e.offset
  offset_ne : e.offset ≠ g.backOffset

theorem Entry.ownFault?_eq_none_iff {g : Geometry} {e : Entry} :
    e.ownFault? g = none ↔ e.Sound g := by
  simp only [Entry.ownFault?]
  constructor
  · intro h
    split at h
    · contradiction
    · split at h
      · contradiction
      · split at h
        · contradiction
        · split at h
          · contradiction
          · exact ⟨by simp_all, by simp_all, by simp_all, by assumption⟩
  · rintro ⟨hname, haligned, hin, hback⟩
    simp [hname, haligned, hin, hback]

theorem Entry.clash?_eq_none_iff {earlier : List Entry} {e : Entry} :
    e.clash? earlier = none ↔
      e.offset ∉ earlier.map Entry.offset ∧ e.name ∉ earlier.map Entry.name := by
  have hnone {α : Type} [DecidableEq α] (f : Entry → α) :
      (earlier.find? fun d => f d = f e) = none ↔ f e ∉ earlier.map f := by
    simp [List.find?_eq_none]
  rw [← hnone Entry.offset, ← hnone Entry.name, Entry.clash?]
  cases earlier.find? (·.offset = e.offset) with
  | some first => simp
  | none => cases earlier.find? (·.name = e.name) <;> simp

/-- Entries that can stand in one table together. -/
structure Admissible (g : Geometry) (entries : List Entry) : Prop where
  sound : ∀ e ∈ entries, e.Sound g
  nodup_offsets : (entries.map Entry.offset).Nodup
  nodup_names : (entries.map Entry.name).Nodup

namespace Admissible

variable {g : Geometry} {earlier rest entries : List Entry} {e : Entry}

theorem nil : Admissible g [] := ⟨by simp, by simp, by simp⟩

theorem of_append (h : Admissible g (earlier ++ rest)) : Admissible g earlier := by
  obtain ⟨hsound, hoffsets, hnames⟩ := h
  rw [List.map_append] at hoffsets hnames
  exact ⟨fun e he => hsound e (List.mem_append_left rest he), hoffsets.of_append_left,
    hnames.of_append_left⟩

theorem nodup_map_append_singleton {α : Type} {f : Entry → α} (h : (earlier.map f).Nodup) :
    ((earlier ++ [e]).map f).Nodup ↔ f e ∉ earlier.map f := by
  rw [List.map_append, List.map_singleton, ← List.concat_eq_append, List.nodup_concat,
    and_iff_left h]

/-- The step of the scan: an entry is found without fault exactly if it may join those before
it. -/
theorem fault?_eq_none_iff (h : Admissible g earlier) :
    e.fault? g earlier = none ↔ Admissible g (earlier ++ [e]) := by
  have hfault : e.fault? g earlier = none ↔ e.Sound g ∧
      e.offset ∉ earlier.map Entry.offset ∧ e.name ∉ earlier.map Entry.name := by
    rw [← Entry.ownFault?_eq_none_iff, ← Entry.clash?_eq_none_iff, Entry.fault?]
    cases e.ownFault? g <;> simp
  rw [hfault, ← nodup_map_append_singleton h.nodup_offsets,
    ← nodup_map_append_singleton h.nodup_names]
  constructor
  · rintro ⟨hsound, hoffsets, hnames⟩
    refine ⟨?_, hoffsets, hnames⟩
    intro d hd
    rcases List.mem_append.1 hd with hd | hd
    · exact h.sound d hd
    · rwa [List.mem_singleton.1 hd]
  · rintro ⟨hsound, hoffsets, hnames⟩
    exact ⟨hsound e (by simp), hoffsets, hnames⟩

/-- The scan finds no fault exactly if all entries are admissible. The induction is on the
entries not looked at yet, and those looked at are admissible throughout. -/
theorem firstFault?_eq_none_iff (h : Admissible g earlier) :
    firstFault? g earlier entries = none ↔ Admissible g (earlier ++ entries) := by
  induction entries generalizing earlier with
  | nil => simpa [firstFault?] using h
  | cons e rest ih =>
      rw [firstFault?, show earlier ++ e :: rest = (earlier ++ [e]) ++ rest by simp]
      cases hfault : e.fault? g earlier with
      | some r =>
          have hnot : ¬Admissible g (earlier ++ [e]) := by
            rw [← h.fault?_eq_none_iff, hfault]
            simp
          exact iff_of_false (by simp) fun hall => hnot hall.of_append
      | none => exact ih (h.fault?_eq_none_iff.1 hfault)

end Admissible

/-- The scan goes through a list in two parts as it goes through the whole, and it does not come
to the second part if the first has a fault. -/
theorem firstFault?_append (g : Geometry) (earlier entries rest : List Entry) :
    firstFault? g earlier (entries ++ rest) =
      (firstFault? g earlier entries).or (firstFault? g (earlier ++ entries) rest) := by
  induction entries generalizing earlier with
  | nil => simp [firstFault?]
  | cons e entries ih =>
      rw [List.cons_append, firstFault?, firstFault?]
      cases e.fault? g earlier with
      | some r => rfl
      | none => simpa using ih (earlier ++ [e])

/-! ### The scan with maps

Earlier entries need not be searched through: it is enough to keep two maps, of the names by their
offsets and of the offsets by their names. -/

/-- Maps that are built by insertions. An insertion also gives the value that the key had before. -/
structure InsertionMap (κ ν : Type) [DecidableEq κ] where
  Map : Type
  empty : Map
  get? : Map → κ → Option ν
  insert : Map → κ → ν → Map × Option ν
  get?_empty : ∀ k, get? empty k = none
  previous_insert : ∀ m k v, (insert m k v).2 = get? m k
  get?_insert : ∀ m k v k', get? (insert m k v).1 k' = if k' = k then some v else get? m k'

/-- Pairs of keys and values, the latest first. -/
def InsertionMap.pairs (κ ν : Type) [DecidableEq κ] : InsertionMap κ ν where
  Map := List (κ × ν)
  empty := []
  get? m k := m.lookup k
  insert m k v := ((k, v) :: m, m.lookup k)
  get?_empty _ := rfl
  previous_insert _ _ _ := rfl
  get?_insert m k v k' := by
    by_cases h : k' = k
    · rw [if_pos h, h, List.lookup_cons_self]
    · rw [if_neg h, List.lookup_cons, beq_false_of_ne h]

section

variable (names : InsertionMap UInt32 String) (offsets : InsertionMap String UInt32) (g : Geometry)

/-- The first fault of entries, with the names of the earlier ones by their offsets and their
offsets by their names. -/
def faultByMaps? : names.Map → offsets.Map → List Entry → Option Rejection
  | _, _, [] => none
  | byOffset, byName, e :: rest =>
      match e.ownFault? g with
      | some r => some r
      | none =>
          match names.insert byOffset e.offset e.name with
          | (_, some first) => some (.sharedOffset e.offset first e.name)
          | (byOffset, none) =>
              match offsets.insert byName e.name e.offset with
              | (_, some first) => some (.repeatedName e.name first e.offset)
              | (byName, none) => faultByMaps? byOffset byName rest

variable {names offsets g}

/-- The map gives a value of the first of the earlier entries that has the key. -/
def InsertionMap.Knows {κ ν : Type} [DecidableEq κ] (maps : InsertionMap κ ν) (m : maps.Map)
    (earlier : List Entry) (key : Entry → κ) (value : Entry → ν) : Prop :=
  ∀ k, maps.get? m k = (earlier.find? fun d => key d = k).map value

/-- After the insertion of an entry with a new key, the map knows this entry as well. -/
theorem InsertionMap.Knows.insert {κ ν : Type} [DecidableEq κ] {maps : InsertionMap κ ν}
    {m : maps.Map} {earlier : List Entry} {e : Entry} {key : Entry → κ} {value : Entry → ν}
    (h : maps.Knows m earlier key value)
    (hnew : earlier.find? (fun d => key d = key e) = none) :
    maps.Knows (maps.insert m (key e) (value e)).1 (earlier ++ [e]) key value := by
  intro k
  rw [maps.get?_insert, List.find?_append, h]
  by_cases hk : k = key e
  · subst hk
    simp [hnew]
  · simp [hk, Ne.symm hk]

/-- The loop over the maps finds what the search finds. The induction is on the entries not looked
at yet, and the maps know those before them throughout. -/
theorem faultByMaps?_eq {byOffset : names.Map} {byName : offsets.Map} {earlier entries : List Entry}
    (hoffset : names.Knows byOffset earlier Entry.offset Entry.name)
    (hname : offsets.Knows byName earlier Entry.name Entry.offset) :
    faultByMaps? names offsets g byOffset byName entries = firstFault? g earlier entries := by
  induction entries generalizing byOffset byName earlier with
  | nil => rfl
  | cons e rest ih =>
      have hfirst := (names.previous_insert byOffset e.offset e.name).trans (hoffset e.offset)
      have hsecond := (offsets.previous_insert byName e.name e.offset).trans (hname e.name)
      rw [faultByMaps?, firstFault?, Entry.fault?]
      cases e.ownFault? g with
      | some r => rfl
      | none =>
          dsimp only
          rw [Entry.clash?]
          rcases hnames : names.insert byOffset e.offset e.name with ⟨byOffset', previousName⟩
          rcases hoffsets : offsets.insert byName e.name e.offset with ⟨byName', previousOffset⟩
          rw [hnames] at hfirst
          rw [hoffsets] at hsecond
          cases hsame : earlier.find? fun d => d.offset = e.offset with
          | some first =>
              obtain rfl : previousName = some first.name := by simpa [hsame] using hfirst
              rfl
          | none =>
              obtain rfl : previousName = none := by simpa [hsame] using hfirst
              cases hcalled : earlier.find? fun d => d.name = e.name with
              | some first =>
                  obtain rfl : previousOffset = some first.offset := by
                    simpa [hcalled] using hsecond
                  rfl
              | none =>
                  obtain rfl : previousOffset = none := by simpa [hcalled] using hsecond
                  have hoffset' := hoffset.insert hsame
                  have hname' := hname.insert hcalled
                  rw [hnames] at hoffset'
                  rw [hoffsets] at hname'
                  exact ih hoffset' hname'

end

/-- The scan that looks earlier entries up in maps finds the same fault as the one that searches
through them. -/
theorem firstFault?_eq_faultByMaps? (names : InsertionMap UInt32 String)
    (offsets : InsertionMap String UInt32) (g : Geometry) (entries : List Entry) :
    firstFault? g [] entries =
      faultByMaps? names offsets g names.empty offsets.empty entries :=
  (faultByMaps?_eq (fun o => names.get?_empty o) (fun n => offsets.get?_empty n)).symm

example :
    faultByMaps? (.pairs UInt32 String) (.pairs String UInt32) ⟨16, 4⟩ [] []
        [⟨0, "u32", "Clear", []⟩, ⟨8, "void", "Clear", ["u32"]⟩] =
      some (.repeatedName "Clear" 0 8) :=
  rfl

/-! ### Verdicts -/

/-- Further entries do not change the reason for which the first ones are rejected. -/
theorem rejection?_append {g : Geometry} {entries : List Entry} {r : Rejection}
    (h : rejection? g entries = some r) (rest : List Entry) :
    rejection? g (entries ++ rest) = some r := by
  rw [rejection?] at h ⊢
  cases hfault : g.fault? with
  | some _ => rwa [hfault] at h
  | none =>
      rw [hfault] at h
      have hscan : firstFault? g [] entries = some r := h
      simp [firstFault?_append, hscan]

theorem rejection?_eq_none_iff {g : Geometry} {entries : List Entry} :
    rejection? g entries = none ↔ g.WellFormed ∧ Admissible g entries := by
  rw [← Geometry.fault?_eq_none_iff, rejection?]
  cases g.fault? with
  | some r => simp
  | none =>
      have hscan : firstFault? g [] entries = none ↔ Admissible g entries :=
        Admissible.nil.firstFault?_eq_none_iff
      simpa using hscan

theorem accept_eq_ok_iff_admissible {g : Geometry} {entries : List Entry} :
    (accept g entries).result = .ok () ↔ g.WellFormed ∧ Admissible g entries := by
  rw [← rejection?_eq_none_iff, accept]
  cases rejection? g entries <;> simp [Reported.fail, Reported.report]

theorem result_accept_eq_error_iff {g : Geometry} {entries : List Entry} {r : Rejection} :
    (accept g entries).result = .error r ↔ rejection? g entries = some r := by
  rw [accept]
  cases rejection? g entries <;> simp [Reported.fail, Reported.report]

/-- Entries are accepted exactly if the table consists of whole cells and refers back from the
start of one, each entry is called by an identifier and starts at another cell, and no two
entries share an offset or a name. -/
theorem accept_eq_ok_iff (g : Geometry) (entries : List Entry) :
    (accept g entries).result = .ok () ↔
      (g.size.toNat ≠ 0 ∧ g.size.toNat % 4 = 0) ∧
      (g.backOffset.toNat % 4 = 0 ∧ g.backOffset < g.size) ∧
      (∀ e ∈ entries, Text.SpellsIdentifier e.name) ∧
      (∀ e ∈ entries, e.offset.toNat % 4 = 0 ∧ e.offset < g.size ∧ e.offset ≠ g.backOffset) ∧
      (entries.map Entry.offset).Nodup ∧
      (entries.map Entry.name).Nodup := by
  rw [accept_eq_ok_iff_admissible]
  constructor
  · rintro ⟨hg, hsound, hoffsets, hnames⟩
    refine ⟨⟨Nat.ne_of_gt hg.size_pos, hg.size_aligned⟩,
      ⟨hg.backOffset_aligned, hg.contains_backOffset⟩, ?_, ?_, hoffsets, hnames⟩
    · exact fun e he => Text.isIdentifier_iff.1 (hsound e he).isIdentifier_name
    · exact fun e he => ⟨(hsound e he).aligned, (hsound e he).contains_offset,
        (hsound e he).offset_ne⟩
  · rintro ⟨⟨hpos, hsize⟩, ⟨hback, hin⟩, hnamed, hplaced, hoffsets, hnames⟩
    refine ⟨⟨Nat.pos_of_ne_zero hpos, hsize, hback, hin⟩, ?_, hoffsets, hnames⟩
    intro e he
    obtain ⟨haligned, hcontained, hne⟩ := hplaced e he
    exact ⟨Text.isIdentifier_iff.2 (hnamed e he), haligned, hcontained, hne⟩

/-- Letters beyond ASCII make no identifier. -/
example : (accept .standard [⟨0, "u32", "_a1", []⟩, ⟨4, "u32", "ä1", []⟩]).result =
    .error (.badName "ä1" 4) := rfl

end CallTable
