import CallTable.Proofs.Layout
import Mathlib.Data.List.Induction

/-!
How the two policies compare. Under either of them a run goes through the entries from first to
last and fails for good at the first one it cannot deal with. Whatever the strict policy lets
through, the permissive one arranges in the same way and without a warning, so the strict policy
never fails later than the permissive one.
-/

namespace CallTable

namespace Table

variable {p : Profile} {entries : List Entry} {r : Rejection}

/-- A geometry at fault is refused under every policy and for all entries. -/
theorem result_arrange_of_fault?_eq_some (hfault : p.geometry.fault? = some r)
    (entries : List Entry) : (arrange p entries).result = .error r := by
  rw [result_arrange, Profile.admit]
  cases p.policy with
  | strict => simp [accept, rejection?, hfault, Reported.fail, Except.bind]
  | lastWins => simp [hfault, Reported.fail, Except.bind]

/-- Under the permissive policy a sound geometry leaves the range of the table as the only
thing to go wrong. -/
theorem result_arrange_of_lastWins (hpolicy : p.policy = .lastWins) (hg : p.geometry.WellFormed)
    (entries : List Entry) :
    (arrange p entries).result =
      match entries.find? fun e => p.geometry.size ≤ e.offset with
      | some e => .error (.outside e.name e.offset p.geometry.size)
      | none => .ok ⟨p.geometry, p.geometry.finalCells entries⟩ := by
  rw [result_arrange, Profile.admit, hpolicy]
  simp only [Geometry.fault?_eq_none_iff.2 hg, Reported.pure_eq, Except.bind, hg.result_place]
  cases entries.find? fun e => p.geometry.size ≤ e.offset <;> rfl

/-- Under the permissive policy entries are arranged if none of them lies outside the table. -/
theorem arrange_eq_ok_iff_of_lastWins (hpolicy : p.policy = .lastWins) {t : Table} :
    (arrange p entries).result = .ok t ↔
      (p.geometry.WellFormed ∧ ∀ e ∈ entries, p.geometry.Contains e.offset) ∧
        ⟨p.geometry, p.geometry.finalCells entries⟩ = t := by
  cases hfault : p.geometry.fault? with
  | some r =>
      have hg : ¬p.geometry.WellFormed := by simp [← Geometry.fault?_eq_none_iff, hfault]
      simp [result_arrange_of_fault?_eq_some hfault, hg]
  | none =>
      have hg := Geometry.fault?_eq_none_iff.1 hfault
      have hinside : (entries.find? fun e => p.geometry.size ≤ e.offset) = none ↔
          ∀ e ∈ entries, p.geometry.Contains e.offset := by
        simp [Geometry.Contains, UInt32.not_le]
      rw [result_arrange_of_lastWins hpolicy hg, ← hinside, and_iff_right hg]
      cases entries.find? fun e => p.geometry.size ≤ e.offset <;> simp

/-- Under every policy a table that is built has the final cells of its entries. -/
theorem eq_of_arrange {t : Table} (h : (arrange p entries).result = .ok t) :
    p.geometry.WellFormed ∧ t = ⟨p.geometry, p.geometry.finalCells entries⟩ := by
  cases hpolicy : p.policy with
  | strict =>
      obtain ⟨⟨hg, _⟩, ht⟩ := (arrange_eq_ok_iff_of_strict hpolicy).1 h
      exact ⟨hg, ht.symm⟩
  | lastWins =>
      obtain ⟨⟨hg, _⟩, ht⟩ := (arrange_eq_ok_iff_of_lastWins hpolicy).1 h
      exact ⟨hg, ht.symm⟩

/-- A run that fails is not saved by further entries. -/
theorem result_arrange_append (h : (arrange p entries).result = .error r) (rest : List Entry) :
    (arrange p (entries ++ rest)).result = .error r := by
  cases hfault : p.geometry.fault? with
  | some _ =>
      rw [result_arrange_of_fault?_eq_some hfault] at h ⊢
      exact h
  | none =>
      have hg := Geometry.fault?_eq_none_iff.1 hfault
      cases hpolicy : p.policy with
      | strict =>
          rw [result_arrange_of_strict hpolicy] at h ⊢
          cases hrejection : rejection? p.geometry entries with
          | none => simp [hrejection] at h
          | some _ => simpa [hrejection, rejection?_append hrejection] using h
      | lastWins =>
          rw [result_arrange_of_lastWins hpolicy hg] at h ⊢
          cases hfind : entries.find? fun e => p.geometry.size ≤ e.offset with
          | none => simp [hfind] at h
          | some _ => simpa [hfind, List.find?_append] using h

/-- A run fails at a position, for some reason, if lists of entries that stop short of the
position are arranged and those that reach it are all refused for that reason. -/
structure FailsAt (p : Profile) (entries : List Entry) (position : Nat) (r : Rejection) : Prop where
  lt_length : position < entries.length
  arranged_before : ∀ n ≤ position, ∃ t, (arrange p (entries.take n)).result = .ok t
  refused_after : ∀ n, position < n → (arrange p (entries.take n)).result = .error r

namespace FailsAt

variable {position : Nat} {e : Entry}

/-- A run that gets through some entries and not through the next fails at that one. -/
theorem of_append_singleton {t : Table} (hbefore : (arrange p entries).result = .ok t)
    (hnext : (arrange p (entries ++ [e])).result = .error r) :
    FailsAt p (entries ++ [e]) entries.length r where
  lt_length := by simp
  arranged_before n hn := by
    rw [List.take_append_of_le_length hn]
    cases hresult : (arrange p (entries.take n)).result with
    | ok t => exact ⟨t, rfl⟩
    | error r' =>
        have hwhole := result_arrange_append hresult (entries.drop n)
        rw [List.take_append_drop, hbefore] at hwhole
        cases hwhole
  refused_after n hn := by
    rwa [List.take_of_length_le (by simpa using Nat.succ_le_of_lt hn)]

/-- A run fails at one position only, and for one reason. -/
theorem unique {position' : Nat} {r' : Rejection} (h : FailsAt p entries position r)
    (h' : FailsAt p entries position' r') : position = position' ∧ r = r' := by
  have hnot {i j : Nat} {a b : Rejection} (hi : FailsAt p entries i a)
      (hj : FailsAt p entries j b) : ¬i < j := by
    intro hlt
    obtain ⟨t, ht⟩ := hj.arranged_before (i + 1) hlt
    rw [hi.refused_after (i + 1) (Nat.lt_succ_self i)] at ht
    cases ht
  refine ⟨Nat.le_antisymm (Nat.le_of_not_lt (hnot h' h)) (Nat.le_of_not_lt (hnot h h')), ?_⟩
  have hwhole := h.refused_after entries.length h.lt_length
  rw [h'.refused_after entries.length h'.lt_length] at hwhole
  exact (Except.error.inj hwhole).symm

theorem append (h : FailsAt p entries position r) (rest : List Entry) :
    FailsAt p (entries ++ rest) position r where
  lt_length := by
    have := h.lt_length
    simp only [List.length_append]
    omega
  arranged_before n hn := by
    rw [List.take_append_of_le_length (Nat.le_of_lt (Nat.lt_of_le_of_lt hn h.lt_length))]
    exact h.arranged_before n hn
  refused_after n hn := by
    rw [List.take_append]
    exact result_arrange_append (h.refused_after n hn) _

end FailsAt

/-- A run over a sound geometry that fails does so at some entry. The induction takes entries away
from the end, as long as those before them still fail. -/
theorem exists_failsAt (hg : p.geometry.WellFormed) (h : (arrange p entries).result = .error r) :
    ∃ position, FailsAt p entries position r := by
  induction entries using List.reverseRecOn with
  | nil =>
      cases hpolicy : p.policy with
      | strict =>
          rw [result_arrange_of_strict hpolicy, rejection?_eq_none_iff.2 ⟨hg, .nil⟩] at h
          cases h
      | lastWins =>
          rw [result_arrange_of_lastWins hpolicy hg] at h
          cases h
  | append_singleton entries e ih =>
      cases hbefore : (arrange p entries).result with
      | ok t => exact ⟨_, .of_append_singleton hbefore h⟩
      | error r' =>
          have hsame := result_arrange_append hbefore [e]
          rw [h] at hsame
          cases hsame
          obtain ⟨position, hposition⟩ := ih hbefore
          exact ⟨position, hposition.append [e]⟩

end Table

/-! ### Warnings -/

/-- Whatever a placement reports is reported by an entry as it takes its cell from what those
before it have left there. -/
theorem exists_of_mem_events_place {size : UInt32} {cells : List Cell} {entries : List Entry}
    {event : Event} (h : event ∈ (place size cells entries).events) :
    ∃ earlier e later occupant, entries = earlier ++ e :: later ∧
      (settled cells earlier)[e.index]? = some occupant ∧ event ∈ e.displacement occupant := by
  induction entries generalizing cells with
  | nil => cases h
  | cons e rest ih =>
      by_cases hin : e.index < cells.length
      · rw [place_cons_of_lt hin, List.mem_append] at h
        rcases h with h | h
        · exact ⟨[], e, rest, cells[e.index], rfl, by simp [hin], h⟩
        · obtain ⟨earlier, d, later, occupant, rfl, hcell, hevent⟩ := ih h
          rw [settled_set] at hcell
          exact ⟨e :: earlier, d, later, occupant, rfl, hcell, hevent⟩
      · rw [place_cons_of_le (Nat.le_of_not_lt hin)] at h
        cases h

namespace Admissible

variable {g : Geometry} {entries earlier later : List Entry} {e : Entry}

theorem index_ne_of_mem_earlier (h : Admissible g (earlier ++ e :: later)) :
    ∀ d ∈ earlier, d.index ≠ e.index := by
  intro d hd hindex
  have hsame := h.eq_of_index_eq (List.mem_append_left _ hd) (by simp) hindex
  have hdisjoint := (List.nodup_append.1 h.nodup_offsets.of_map).2.2
  exact hdisjoint d hd e List.mem_cons_self hsame

/-- An admissible entry finds padding in its cell. -/
theorem finalCell_eq_padding (hg : g.WellFormed) (h : Admissible g (earlier ++ e :: later)) :
    g.finalCell earlier e.index = .padding (cellOffset e.index) :=
  Geometry.finalCell_eq_padding_iff.2 ⟨lastAt?_eq_none_iff.2 h.index_ne_of_mem_earlier,
    h.index_ne_backIndex hg (by simp), rfl⟩

/-- Admissible entries displace nothing. -/
theorem events_place (hg : g.WellFormed) (h : Admissible g entries) :
    (place g.size g.initialCells entries).events = [] := by
  rw [List.eq_nil_iff_forall_not_mem]
  intro event hevent
  obtain ⟨earlier, e, later, occupant, rfl, hcell, hevent⟩ := exists_of_mem_events_place hevent
  rw [hg.settled_initialCells, Geometry.getElem?_finalCells_eq_some_iff,
    h.finalCell_eq_padding hg] at hcell
  have haligned := (h.sound e (by simp)).aligned
  rw [← hcell.2, Entry.displacement, if_pos haligned] at hevent
  cases hevent

end Admissible

/-! ### The policies compared -/

/-- The same profile under another policy. -/
def Profile.under (p : Profile) (policy : Policy) : Profile := { p with policy }

namespace Profile

@[simp] theorem policy_under (p : Profile) (policy : Policy) : (p.under policy).policy = policy :=
  rfl

@[simp] theorem geometry_under (p : Profile) (policy : Policy) :
    (p.under policy).geometry = p.geometry := rfl

end Profile

section

variable {p : Profile} {entries : List Entry} {r : Rejection}

/-- Admissible entries are arranged without being checked, and this is all that is reported. -/
theorem Admissible.arrange_of_lastWins (hpolicy : p.policy = .lastWins)
    (hg : p.geometry.WellFormed) (h : Admissible p.geometry entries) :
    Table.arrange p entries =
      ⟨.ok ⟨p.geometry, p.geometry.finalCells entries⟩,
        [.arranged (p.geometry.finalCells entries).length
          (Table.functionCount (p.geometry.finalCells entries))]⟩ := by
  have hresult : (place p.geometry.size p.geometry.initialCells entries).result =
      .ok (p.geometry.finalCells entries) := by
    rw [hg.result_place, h.find?_outside]
  have hplace : place p.geometry.size p.geometry.initialCells entries =
      ⟨.ok (p.geometry.finalCells entries), []⟩ :=
    congrArg₂ Reported.mk hresult (h.events_place hg)
  have hadmit : p.admit entries = ⟨.ok (), []⟩ := by
    simp [hpolicy, Profile.admit, Geometry.fault?_eq_none_iff.2 hg]
  rw [Table.arrange, hadmit, hplace]
  rfl

/-- What the strict policy lets through, the permissive one makes into the same sources. -/
theorem ofEntries_lastWins {s : Sources}
    (h : (Sources.ofEntries (p.under .strict) entries).result = .ok s) :
    (Sources.ofEntries (p.under .lastWins) entries).result = .ok s ∧
      ∀ event ∈ (Sources.ofEntries (p.under .lastWins) entries).events, event.level ≠ .warn := by
  obtain ⟨⟨hg, hentries⟩, rfl⟩ := (ofEntries_eq_ok_iff_of_strict (Profile.policy_under _ _)).1 h
  rw [Profile.geometry_under] at hg hentries
  have harrange := hentries.arrange_of_lastWins (p := p.under .lastWins) rfl hg
  rw [Sources.ofEntries, harrange]
  constructor
  -- the documents depend on the policy only through the table
  · rfl
  · intro event hevent
    simp only [Reported.report, Reported.bind_ok, Reported.pure_eq, List.cons_append,
      List.nil_append, List.append_nil, List.mem_cons, List.not_mem_nil, or_false] at hevent
    rcases hevent with rfl | rfl <;> simp [Event.level]

/-- What the permissive policy cannot arrange, the strict one refuses. -/
theorem exists_refused_strict (h : (Table.arrange (p.under .lastWins) entries).result = .error r) :
    ∃ r', (Table.arrange (p.under .strict) entries).result = .error r' := by
  cases hstrict : (Table.arrange (p.under .strict) entries).result with
  | error r' => exact ⟨r', rfl⟩
  | ok t =>
      obtain ⟨⟨hg, hentries⟩, _⟩ :=
        (arrange_eq_ok_iff_of_strict (Profile.policy_under _ _)).1 hstrict
      rw [hentries.arrange_of_lastWins (p := p.under .lastWins) rfl hg] at h
      cases h

/-- The strict policy fails no later than the permissive one: it refuses the entries up to and
including the one that the permissive policy fails at. -/
theorem Table.FailsAt.strict {position : Nat} (hg : p.geometry.WellFormed)
    (h : FailsAt (p.under .lastWins) entries position r) :
    ∃ earlier ≤ position, ∃ r', FailsAt (p.under .strict) entries earlier r' := by
  obtain ⟨r', hr'⟩ := exists_refused_strict (h.refused_after (position + 1) (by omega))
  obtain ⟨earlier, hearlier⟩ := exists_failsAt (p := p.under .strict) hg hr'
  have hle : earlier ≤ position := by
    have := hearlier.lt_length
    rw [List.length_take] at this
    omega
  have hwhole := hearlier.append (entries.drop (position + 1))
  rw [List.take_append_drop] at hwhole
  exact ⟨earlier, hle, r', hwhole⟩

end

/-- The strict policy refines the permissive one. Sources that it generates are generated by the
permissive policy as well, to the letter and without a warning. Where the permissive policy fails,
the strict one fails too: for the same reason if the geometry is at fault, and otherwise at the
same entry or an earlier one. Finally the strict policy fails exactly where acceptance does and
for the same reason, as accepted entries can all be placed. -/
theorem strict_refines_lastWins (p : Profile) (entries : List Entry) :
    (∀ s, (Sources.ofEntries (p.under .strict) entries).result = .ok s →
      (Sources.ofEntries (p.under .lastWins) entries).result = .ok s ∧
        ∀ event ∈ (Sources.ofEntries (p.under .lastWins) entries).events, event.level ≠ .warn) ∧
    (∀ r, (Table.arrange (p.under .lastWins) entries).result = .error r →
      (¬p.geometry.WellFormed →
        (Table.arrange (p.under .strict) entries).result = .error r) ∧
      (p.geometry.WellFormed →
        ∃ position, Table.FailsAt (p.under .lastWins) entries position r ∧
          ∃ earlier ≤ position, ∃ r', Table.FailsAt (p.under .strict) entries earlier r')) ∧
    (∀ r, (Table.arrange (p.under .strict) entries).result = .error r ↔
      (accept p.geometry entries).result = .error r) ∧
    ((accept p.geometry entries).result = .ok () →
      ∃ cells, (place p.geometry.size p.geometry.initialCells entries).result = .ok cells) := by
  refine ⟨fun s hs => ofEntries_lastWins hs, ?permissive, ?acceptance, ?placement⟩
  case permissive =>
    intro r hr
    constructor
    · intro hg
      obtain ⟨fault, hfault⟩ : ∃ fault, p.geometry.fault? = some fault := by
        rw [← Option.ne_none_iff_exists']
        exact fun hnone => hg (Geometry.fault?_eq_none_iff.1 hnone)
      have hrefused (policy : Policy) :
          (Table.arrange (p.under policy) entries).result = .error fault :=
        Table.result_arrange_of_fault?_eq_some (p := p.under policy) hfault entries
      rw [hrefused] at hr ⊢
      exact hr
    · intro hg
      obtain ⟨position, hposition⟩ := Table.exists_failsAt (p := p.under .lastWins) hg hr
      exact ⟨position, hposition, hposition.strict hg⟩
  case acceptance =>
    intro r
    rw [result_arrange_of_strict (Profile.policy_under _ _), result_accept_eq_error_iff,
      Profile.geometry_under]
    cases rejection? p.geometry entries <;> simp
  case placement =>
    intro haccept
    obtain ⟨hg, hentries⟩ := accept_eq_ok_iff_admissible.1 haccept
    exact ⟨_, by rw [hg.result_place, hentries.find?_outside]⟩

/-- Two entries that both policies take, and three of which the permissive policy gets stuck at the
last, beyond the table, and the strict one at the second, inside a cell. -/
theorem strict_refines_lastWins_misaligned :
    (∃ s, (Sources.ofEntries (Profile.under { geometry := ⟨16, 8⟩ } .strict)
        [⟨12, "void", "Last", ["u32"]⟩, ⟨0, "u32", "First", []⟩]).result = .ok s ∧
      (Sources.ofEntries (Profile.under { geometry := ⟨16, 8⟩ } .lastWins)
        [⟨12, "void", "Last", ["u32"]⟩, ⟨0, "u32", "First", []⟩]).result = .ok s ∧
      s.tableHeader = Text.unlines [
        "",
        "#pragma once",
        "",
        "class GfxContextBase;",
        "",
        "namespace FF7",
        "\x7b",
        "    struct GfxFunctions",
        "    \x7b",
        "        /* 0x00 */ u32 (__cdecl *First)();",
        "        /* 0x04 */ u32 dword04;",
        "        /* 0x08 */ GfxContextBase* rendererInstance;",
        "        /* 0x0C */ void (__cdecl *Last)(u32 a0);",
        "    \x7d;",
        "\x7d"]) ∧
    ∃ entries : List Entry, entries =
        [⟨4, "u32", "First", []⟩, ⟨6, "u32", "Second", []⟩, ⟨16, "u32", "Third", []⟩] ∧
      (Table.arrange (Profile.under { geometry := ⟨16, 8⟩ } .lastWins) entries).result =
        .error (.outside "Third" 16 16) ∧
      ∃ position,
        Table.FailsAt (Profile.under { geometry := ⟨16, 8⟩ } .lastWins) entries position
          (.outside "Third" 16 16) ∧
        ∃ earlier ≤ position, ∃ r,
          Table.FailsAt (Profile.under { geometry := ⟨16, 8⟩ } .strict) entries earlier r ∧
          position = 2 ∧ earlier = 1 ∧ r = .misaligned "Second" 6 := by
  refine ⟨⟨_, rfl, ((strict_refines_lastWins { geometry := ⟨16, 8⟩ } _).1 _ rfl).1, rfl⟩,
    _, rfl, rfl, ?_⟩
  obtain ⟨position, hlate, earlier, hle, r, hearly⟩ :=
    ((strict_refines_lastWins { geometry := ⟨16, 8⟩ }
      [⟨4, "u32", "First", []⟩, ⟨6, "u32", "Second", []⟩, ⟨16, "u32", "Third", []⟩]).2.1 _ rfl).2
        (Geometry.fault?_eq_none_iff.1 rfl)
  refine ⟨position, hlate, earlier, hle, r, hearly, ?_⟩
  have hthird : Table.FailsAt (Profile.under { geometry := ⟨16, 8⟩ } .lastWins)
      ([⟨4, "u32", "First", []⟩, ⟨6, "u32", "Second", []⟩] ++ [⟨16, "u32", "Third", []⟩]) 2
      (.outside "Third" 16 16) := .of_append_singleton rfl rfl
  have hsecond : Table.FailsAt (Profile.under { geometry := ⟨16, 8⟩ } .strict)
      ([⟨4, "u32", "First", []⟩] ++ [⟨6, "u32", "Second", []⟩]) 1 (.misaligned "Second" 6) :=
    .of_append_singleton rfl rfl
  exact ⟨(hlate.unique hthird).1, hearly.unique (hsecond.append _)⟩

end CallTable
