import CallTable.Proofs.FileTree.Directories
import CallTable.Proofs.Storage

/-!
What a run that stores documents may touch. A run makes directories on the way to its directory and
then writes documents one after another, up to the first that cannot be written. However far it
comes, nothing else in the file tree changes.
-/

namespace CallTable

variable {s : Sources} {directory : String} {p : Profile} {written : List (String × String)}
  {t made after : FileTree} {result : Except Failure (List String)}

/-- A run consists of making directories and of writing documents. -/
theorem StoreRun.exists_wrote (h : StoreRun s directory p t written after result) :
    ∃ made, FileTree.ExtendedAlong (Path.ofString directory) t made ∧
      Wrote directory written made after := by
  have hextended := FileTree.extendedAlong_makeDirectories t directory
  cases h with
  | noDirectory hmade =>
      rw [hmade] at hextended
      exact ⟨after, hextended, .nil after⟩
  | stopped hmade _ _ hwrote =>
      rw [hmade] at hextended
      exact ⟨_, hextended, hwrote⟩
  | finished hmade _ hwrote =>
      rw [hmade] at hextended
      exact ⟨_, hextended, hwrote⟩

/-- Why a place may differ after some documents have been written: one of them leads there, and there
was no directory before; or there was nothing before, and now there is a directory on the way to the
one that receives the documents. -/
inductive Touched (directory : String) (written : List (String × String)) (t after : FileTree)
    (place : Location) : Prop
  | byDocument (file : String × String) (hfile : file ∈ written)
      (hlead : after.locate? (Path.join directory file.1) = some place)
      (hbefore : t.node? place ≠ some .directory)
  | byDirectory (hway : after.OnTheWay (Path.ofString directory) place)
      (hbefore : t.node? place = none) (hafter : after.node? place = some .directory)

/-- The difference that writing some documents has made. Each of them leads to a file, which holds
the last one that leads there. Whatever was there before is still there, and it is the same unless a
document leads there. -/
structure Footprint (directory : String) (written : List (String × String))
    (t after : FileTree) : Prop where
  here_eq : after.here = t.here
  contents : ∀ file ∈ written, ∃ place last,
    after.locate? (Path.join directory file.1) = some place ∧
    lastLeadingTo? after directory written place = some last ∧
    after.contents? (Path.join directory file.1) = some last.2
  touched : ∀ place, after.node? place ≠ t.node? place → Touched directory written t after place
  kept : ∀ place node, t.node? place = some node →
    (∀ file ∈ written, after.locate? (Path.join directory file.1) ≠ some place) →
    after.node? place = some node
  isSome : ∀ place, (t.node? place).isSome → (after.node? place).isSome

namespace Wrote

/-- A place differs because of the last document that leads there, or if there is none, because of
the directories that were made before. -/
theorem touched {place : Location}
    (hmade : FileTree.ExtendedAlong (Path.ofString directory) t made)
    (h : Wrote directory written made after) (hplace : after.node? place ≠ t.node? place) :
    Touched directory written t after place := by
  have hnode := h.stored.node?_eq place
  cases hlast : lastLeadingTo? after directory written place with
  | some last =>
      obtain ⟨hfile, hlead⟩ := exists_of_lastLeadingTo?_eq_some hlast
      refine .byDocument last hfile hlead fun hbefore => hplace ?_
      rw [hbefore]
      exact (hmade.grows.trans h.stored.grows).directory place hbefore
  | none =>
      rw [hlast, Option.map_none, Option.none_or] at hnode
      rw [hnode] at hplace
      obtain ⟨hbefore, hdirectory, hway⟩ := hmade.made place hplace
      exact .byDirectory (h.stored.grows.onTheWay hway) hbefore (hnode.trans hdirectory)

theorem footprint (hmade : FileTree.ExtendedAlong (Path.ofString directory) t made)
    (h : Wrote directory written made after) : Footprint directory written t after where
  here_eq := h.stored.grows.here_eq.trans hmade.grows.here_eq
  contents file hfile := by
    obtain ⟨place, hplace⟩ := h.stored.exists_place file hfile
    obtain ⟨last, hlast⟩ := exists_lastLeadingTo?_eq_some hfile hplace
    refine ⟨place, last, hplace, hlast, ?_⟩
    rw [h.stored.contents?_eq hfile hplace, hlast, Option.map_some]
  touched _ hplace := h.touched hmade hplace
  kept place node hnode hothers := by
    by_cases hsame : after.node? place = t.node? place
    · rw [hsame, hnode]
    · cases h.touched hmade hsame with
      | byDocument file hfile hlead => exact absurd hlead (hothers file hfile)
      | byDirectory _ hbefore => simp [hnode] at hbefore
  isSome place hplace := h.stored.grows.isSome place (hmade.grows.isSome place hplace)

end Wrote

/-- A run makes its directory, then writes the table header, the class header and the class source
in this order, and stops at the first failure, which names the directory or the path of that
document. A document is only written once the directory is there. Whether it fails or not, a run
touches the files of the documents that it has written, and directories that it made on its way, and
nothing else. -/
theorem footprint_of_store (s : Sources) (directory : String) (p : Profile) (t : FileTree) :
    s.files p = [(p.structName ++ ".h", s.tableHeader), (p.className ++ ".h", s.classHeader),
      (p.className ++ ".cpp", s.classSource)] ∧
    ∃ written,
      StoreRun s directory p t written (s.store directory p t).1
        (s.store directory p t).2.result ∧
      Footprint directory written t (s.store directory p t).1 := by
  obtain ⟨written, hrun⟩ := exists_storeRun s directory p t
  obtain ⟨made, hmade, hwrote⟩ := hrun.exists_wrote
  exact ⟨rfl, written, hrun, hwrote.footprint hmade⟩

/-- A directory is in the way of the class header. The table header has been written by then, and the
directory that was missing stays. -/
example :
    let t : FileTree := ⟨[(["C.h"], .directory)], []⟩
    let after := Sources.store ⟨"table", "class", "source"⟩ "new/.."
      { structName := "S", className := "C" } t
    after.2.result = .error (.unwritable "new/../C.h" .isDirectory) ∧
      after.1.nodes = [(["C.h"], .directory), (["new"], .directory), (["S.h"], .file "table")] := by
  dsimp only
  decide +kernel

end CallTable
