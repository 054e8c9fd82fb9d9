import CallTable.Profile
import CallTable.Reported

/-!
Acceptance of entries under the strict policy. Entries are looked at one after another, each
against those before it, and the first fault found is the one that is reported.
-/

namespace CallTable

/-- What is wrong with a geometry, if anything. -/
def Geometry.fault? (g : Geometry) : Option Rejection :=
  if g.size.toNat = 0 ∨ g.size.toNat % 4 ≠ 0 then some (.badSize g.size)
  else if g.backOffset.toNat % 4 ≠ 0 then some (.misalignedBackReference g.backOffset)
  else if ¬g.Contains g.backOffset then some (.backReferenceOutside g.backOffset g.size)
  else none

/-- What is wrong with an entry in itself. -/
def Entry.ownFault? (g : Geometry) (e : Entry) : Option Rejection :=
  if ¬Text.isIdentifier e.name then some (.badName e.name e.offset)
  else if ¬e.Aligned then some (.misaligned e.name e.offset)
  else if ¬g.Contains e.offset then some (.outside e.name e.offset g.size)
  else if e.offset = g.backOffset then some (.onBackReference e.name e.offset)
  else none

/-- What is wrong with an entry beside earlier ones: they took its offset or its name. -/
def Entry.clash? (earlier : List Entry) (e : Entry) : Option Rejection :=
  match earlier.find? (·.offset = e.offset) with
  | some first => some (.sharedOffset e.offset first.name e.name)
  | none =>
      match earlier.find? (·.name = e.name) with
      | some first => some (.repeatedName e.name first.offset e.offset)
      | none => none

def Entry.fault? (g : Geometry) (earlier : List Entry) (e : Entry) : Option Rejection :=
  match e.ownFault? g with
  | some r => some r
  | none => e.clash? earlier

/-- The first fault of the entries that follow the `earlier` ones. -/
def firstFault? (g : Geometry) (earlier : List Entry) : List Entry → Option Rejection
  | [] => none
  | e :: rest =>
      match e.fault? g earlier with
      | some r => some r
      | none => firstFault? g (earlier ++ [e]) rest

/-- A fault of the geometry comes before those of the entries. -/
def rejection? (g : Geometry) (entries : List Entry) : Option Rejection :=
  match g.fault? with
  | some r => some r
  | none => firstFault? g [] entries

def accept (g : Geometry) (entries : List Entry) : Reported Rejection Unit :=
  match rejection? g entries with
  | some r => .fail r
  | none => .report [.checked entries.length g.size]

/-- A geometry is at fault exactly if it is not well formed. -/
theorem Geometry.fault?_eq_none_iff {g : Geometry} : g.fault? = none ↔ g.WellFormed := by
  simp only [Geometry.fault?]
  constructor
  · intro h
    split at h
    · contradiction
    · split at h
      · contradiction
      · split at h
        · contradiction
        · exact ⟨by omega, by omega, by omega, by simp_all⟩
  · rintro ⟨hpos, hsize, hback, hin⟩
    simp [show g.size.toNat ≠ 0 by omega, hsize, hback, hin]

end CallTable
