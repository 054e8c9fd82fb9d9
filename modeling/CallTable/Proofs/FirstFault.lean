import CallTable.Proofs.Acceptance

/-!
Which entry a rejection is about. The scan looks at one entry after another and stops at the first
that has a fault, so a rejection speaks of the entry by which the entries cease to be admissible.
Those before it are admissible, and with distinct offsets and names among them there is just one
that a later entry can clash with.
-/

namespace CallTable

/-- An entry is at fault beside the entries before it, for the first of six reasons that applies.
Another entry is named as a reason only if no third one has the offset or the name in question. -/
inductive Entry.AtFault (g : Geometry) (earlier : List Entry) (e : Entry) : Rejection → Prop where
  | badName (h : ¬Text.SpellsIdentifier e.name) :
      AtFault g earlier e (.badName e.name e.offset)
  | misaligned (hname : Text.SpellsIdentifier e.name) (h : e.offset.toNat % 4 ≠ 0) :
      AtFault g earlier e (.misaligned e.name e.offset)
  | outside (hname : Text.SpellsIdentifier e.name) (haligned : e.offset.toNat % 4 = 0)
      (h : g.size ≤ e.offset) :
      AtFault g earlier e (.outside e.name e.offset g.size)
  | onBackReference (hname : Text.SpellsIdentifier e.name) (haligned : e.offset.toNat % 4 = 0)
      (hin : e.offset < g.size) (h : e.offset = g.backOffset) :
      AtFault g earlier e (.onBackReference e.name e.offset)
  | sharedOffset (first : Entry) (hsound : e.Sound g)
      (h : earlier.filter (·.offset = e.offset) = [first]) :
      AtFault g earlier e (.sharedOffset e.offset first.name e.name)
  | repeatedName (first : Entry) (hsound : e.Sound g) (hoffset : ∀ d ∈ earlier, d.offset ≠ e.offset)
      (h : earlier.filter (·.name = e.name) = [first]) :
      AtFault g earlier e (.repeatedName e.name first.offset e.offset)

/-- Where no value is taken twice, the first entry with a value is the only one. -/
theorem find?_eq_some_iff_of_nodup {α : Type} [DecidableEq α] {f : Entry → α} {a : α}
    {entries : List Entry} {e : Entry} (h : (entries.map f).Nodup) :
    (entries.find? fun d => f d = a) = some e ↔ (entries.filter fun d => f d = a) = [e] := by
  induction entries with
  | nil => simp
  | cons d rest ih =>
      rw [List.map_cons, List.nodup_cons] at h
      by_cases hd : f d = a
      · have hrest : (rest.filter fun d => f d = a) = [] := by
          rw [List.filter_eq_nil_iff]
          intro c hc hsame
          apply h.1
          rw [hd, ← of_decide_eq_true hsame]
          exact List.mem_map_of_mem hc
        simp [hd, hrest]
      · simpa [hd] using ih h.2

namespace Entry

variable {g : Geometry} {earlier : List Entry} {e : Entry} {r : Rejection}

/-- An entry that has none of the faults in itself is sound. -/
theorem exists_atFault_of_not_sound (hsound : ¬e.Sound g) : ∃ r, e.AtFault g earlier r := by
  by_contra hnone
  apply hsound
  have hname : Text.SpellsIdentifier e.name := by_contra fun h => hnone ⟨_, .badName h⟩
  have haligned : e.offset.toNat % 4 = 0 := by_contra fun h => hnone ⟨_, .misaligned hname h⟩
  have hin : e.offset < g.size :=
    by_contra fun h => hnone ⟨_, .outside hname haligned (UInt32.not_lt.1 h)⟩
  have hback : e.offset ≠ g.backOffset := fun h =>
    hnone ⟨_, .onBackReference hname haligned hin h⟩
  exact ⟨Text.isIdentifier_iff.2 hname, haligned, hin, hback⟩

theorem AtFault.ownFault?_eq (hsound : ¬e.Sound g) (h : e.AtFault g earlier r) :
    e.ownFault? g = some r := by
  rw [ownFault?]
  cases h with
  | badName hname => simp [Text.isIdentifier_iff, hname]
  | misaligned hname haligned => simp [Text.isIdentifier_iff, hname, Aligned, haligned]
  | outside hname haligned hout =>
      have hcontains : ¬g.Contains e.offset := UInt32.not_lt.2 hout
      simp [Text.isIdentifier_iff, hname, Aligned, haligned, hcontains]
  | onBackReference hname haligned hin hback =>
      have haligned : e.Aligned := haligned
      have hcontains : g.Contains e.offset := hin
      rw [if_neg (not_not.2 (Text.isIdentifier_iff.2 hname)), if_neg (not_not.2 haligned),
        if_neg (not_not.2 hcontains), if_pos hback]
  | sharedOffset _ h => exact absurd h hsound
  | repeatedName _ h => exact absurd h hsound

/-- An entry that is not sound in itself is not compared with others. -/
theorem ownFault?_eq_some_iff (hsound : ¬e.Sound g) :
    e.ownFault? g = some r ↔ e.AtFault g earlier r := by
  constructor
  · intro hown
    obtain ⟨r', hr'⟩ : ∃ r', e.AtFault g earlier r' := exists_atFault_of_not_sound hsound
    rw [hr'.ownFault?_eq hsound] at hown
    rwa [← Option.some.inj hown]
  · exact AtFault.ownFault?_eq hsound

end Entry

namespace Admissible

variable {g : Geometry} {earlier : List Entry} {e : Entry} {r : Rejection}

/-- An entry that is sound in itself can only clash with one that came before it. -/
theorem clash?_eq_some_iff (h : Admissible g earlier) (hsound : e.Sound g) :
    e.clash? earlier = some r ↔ e.AtFault g earlier r := by
  have hshared (first : Entry) :=
    find?_eq_some_iff_of_nodup (f := Entry.offset) (a := e.offset) (e := first) h.nodup_offsets
  have hrepeated (first : Entry) :=
    find?_eq_some_iff_of_nodup (f := Entry.name) (a := e.name) (e := first) h.nodup_names
  have hidentifier := Text.isIdentifier_iff.1 hsound.isIdentifier_name
  have hin : e.offset < g.size := hsound.contains_offset
  constructor
  · intro hclash
    rw [Entry.clash?] at hclash
    cases hoffset : earlier.find? (·.offset = e.offset) with
    | some first =>
        rw [hoffset] at hclash
        obtain rfl := Option.some.inj hclash
        exact .sharedOffset first hsound ((hshared first).1 hoffset)
    | none =>
        rw [hoffset] at hclash
        cases hname : earlier.find? (·.name = e.name) with
        | some first =>
            rw [hname] at hclash
            obtain rfl := Option.some.inj hclash
            refine .repeatedName first hsound ?_ ((hrepeated first).1 hname)
            simpa using hoffset
        | none =>
            rw [hname] at hclash
            cases hclash
  · intro hfault
    cases hfault with
    | badName hname => exact absurd hidentifier hname
    | misaligned _ haligned => exact absurd hsound.aligned haligned
    | outside _ _ hout => exact absurd hin (UInt32.not_lt.2 hout)
    | onBackReference _ _ _ hback => exact absurd hback hsound.offset_ne
    | sharedOffset first _ hfirst => rw [Entry.clash?, (hshared first).2 hfirst]
    | repeatedName first _ hoffset hfirst =>
        have hnone : earlier.find? (·.offset = e.offset) = none := by simpa using hoffset
        rw [Entry.clash?, hnone, (hrepeated first).2 hfirst]

/-- After admissible entries, the fault that the scan finds is the one that the entry has. -/
theorem fault?_eq_some_iff (h : Admissible g earlier) :
    e.fault? g earlier = some r ↔ e.AtFault g earlier r := by
  by_cases hsound : e.Sound g
  · rw [Entry.fault?, Entry.ownFault?_eq_none_iff.2 hsound]
    exact h.clash?_eq_some_iff hsound
  · rw [← Entry.ownFault?_eq_some_iff hsound]
    obtain ⟨own, hown⟩ : ∃ own, e.ownFault? g = some own := by
      rw [← Option.ne_none_iff_exists', ne_eq, Entry.ownFault?_eq_none_iff]
      exact hsound
    rw [Entry.fault?, hown]

end Admissible

section

variable {g : Geometry} {earlier entries : List Entry} {r : Rejection}

/-- The scan stops at an entry with a fault, behind entries without one. -/
theorem firstFault?_eq_some_iff :
    firstFault? g earlier entries = some r ↔
      ∃ before e after, entries = before ++ e :: after ∧
        firstFault? g earlier before = none ∧ e.fault? g (earlier ++ before) = some r := by
  constructor
  · intro h
    induction entries generalizing earlier with
    | nil => cases h
    | cons d rest ih =>
        rw [firstFault?] at h
        cases hd : d.fault? g earlier with
        | some own =>
            rw [hd] at h
            exact ⟨[], d, rest, rfl, rfl, by simpa [hd] using h⟩
        | none =>
            rw [hd] at h
            obtain ⟨before, e, after, rfl, hbefore, hfault⟩ := ih h
            refine ⟨d :: before, e, after, rfl, ?_, by simpa using hfault⟩
            simpa [firstFault?, hd] using hbefore
  · rintro ⟨before, e, after, rfl, hbefore, hfault⟩
    rw [firstFault?_append, hbefore, Option.none_or, firstFault?, hfault]

/-- Over a sound geometry entries are rejected at one of them, those before it being admissible. -/
theorem rejection?_eq_some_iff (hg : g.WellFormed) :
    rejection? g entries = some r ↔
      ∃ before e after, entries = before ++ e :: after ∧
        Admissible g before ∧ e.AtFault g before r := by
  rw [rejection?, Geometry.fault?_eq_none_iff.2 hg]
  change firstFault? g [] entries = some r ↔ _
  rw [firstFault?_eq_some_iff]
  have hscan {before : List Entry} : firstFault? g [] before = none ↔ Admissible g before :=
    Admissible.nil.firstFault?_eq_none_iff
  constructor
  · rintro ⟨before, e, after, hentries, hbefore, hfault⟩
    have hadmissible := hscan.1 hbefore
    exact ⟨before, e, after, hentries, hadmissible, hadmissible.fault?_eq_some_iff.1 hfault⟩
  · rintro ⟨before, e, after, hentries, hbefore, hfault⟩
    exact ⟨before, e, after, hentries, hscan.2 hbefore, hbefore.fault?_eq_some_iff.2 hfault⟩

end

/-- A geometry at fault is what all entries are rejected for. Otherwise entries are rejected at one
of them: up to there they are accepted, from there on they are rejected for the same reason, and
the reason is the first fault of this entry. So nothing that follows rejected entries changes the
reason for which they are. -/
theorem accept_fails_at_first_fault (g : Geometry) (entries : List Entry) :
    (¬g.WellFormed → ∃ r, g.fault? = some r ∧ (accept g entries).result = .error r) ∧
    (g.WellFormed → ∀ r, (accept g entries).result = .error r →
      ∃ k, ∃ hk : k < entries.length,
        (∀ n ≤ k, (accept g (entries.take n)).result = .ok ()) ∧
        (∀ n, k < n → (accept g (entries.take n)).result = .error r) ∧
        entries[k].AtFault g (entries.take k) r) ∧
    ∀ r, (accept g entries).result = .error r →
      ∀ rest, (accept g (entries ++ rest)).result = .error r := by
  refine ⟨?geometry, ?entry, ?further⟩
  case geometry =>
    intro hg
    obtain ⟨r, hr⟩ : ∃ r, g.fault? = some r := by
      rw [← Option.ne_none_iff_exists']
      exact fun hnone => hg (Geometry.fault?_eq_none_iff.1 hnone)
    refine ⟨r, hr, result_accept_eq_error_iff.2 ?_⟩
    rw [rejection?, hr]
  case entry =>
    intro hg r hr
    obtain ⟨before, e, after, rfl, hbefore, hfault⟩ :=
      (rejection?_eq_some_iff hg).1 (result_accept_eq_error_iff.1 hr)
    refine ⟨before.length, by simp, fun n hn => ?_, fun n hn => ?_, by simpa using hfault⟩
    · rw [List.take_append_of_le_length hn, accept_eq_ok_iff_admissible]
      rw [← List.take_append_drop n before] at hbefore
      exact ⟨hg, hbefore.of_append⟩
    · obtain ⟨m, rfl⟩ : ∃ m, n = before.length + (m + 1) := ⟨n - before.length - 1, by omega⟩
      rw [List.take_length_add_append, List.take_succ_cons, result_accept_eq_error_iff]
      exact (rejection?_eq_some_iff hg).2 ⟨before, e, after.take m, rfl, hbefore, hfault⟩
  case further =>
    intro r hr rest
    rw [result_accept_eq_error_iff] at hr ⊢
    exact rejection?_append hr rest

/-- The third of four entries is refused, for the offset of the first, and the fourth is not looked
at. If the table has a size that is no multiple of four, none of them is. -/
theorem accept_fails_at_first_fault_shared :
    ∃ entries : List Entry, entries = [⟨0, "u32", "Clear", []⟩, ⟨8, "u32", "ClearAll", []⟩,
        ⟨0, "void", "ClearAgain", ["u32"]⟩, ⟨3, "u32", "Odd", []⟩] ∧
      (accept ⟨16, 4⟩ entries).result = .error (.sharedOffset 0 "Clear" "ClearAgain") ∧
      (∃ k, ∃ hk : k < entries.length,
        (∀ n ≤ k, (accept ⟨16, 4⟩ (entries.take n)).result = .ok ()) ∧
        (∀ n, k < n → (accept ⟨16, 4⟩ (entries.take n)).result =
          .error (.sharedOffset 0 "Clear" "ClearAgain")) ∧
        entries[k].AtFault ⟨16, 4⟩ (entries.take k) (.sharedOffset 0 "Clear" "ClearAgain")) ∧
      (accept ⟨16, 4⟩ (entries ++ entries)).result =
        .error (.sharedOffset 0 "Clear" "ClearAgain") ∧
      ∃ r, Geometry.fault? ⟨18, 4⟩ = some r ∧ (accept ⟨18, 4⟩ entries).result = .error r :=
  ⟨_, rfl, rfl,
    (accept_fails_at_first_fault ⟨16, 4⟩ _).2.1 (Geometry.fault?_eq_none_iff.1 rfl) _ rfl,
    (accept_fails_at_first_fault ⟨16, 4⟩ _).2.2 _ rfl _,
    (accept_fails_at_first_fault ⟨18, 4⟩ _).1 fun h => absurd h.size_aligned (by decide)⟩

end CallTable
