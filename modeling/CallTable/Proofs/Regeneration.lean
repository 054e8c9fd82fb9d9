import CallTable.Proofs.FileTree.Directories
import CallTable.Proofs.Storage

/-!
Storing the same documents a second time. The directories are there already. Every path leads where
it led before, and what it leads to is written with what the file held at that moment of the first
run, so in the end each file holds what it held at the end of the first run, and nothing has moved.
-/

namespace CallTable

/-! ### Putting nodes in another order -/

namespace FileTree

variable {t : FileTree} {place other : Location} {m n : Node}

theorem putNode_eq_self {nodes : List (Location × Node)} (h : nodes.lookup place = some n) :
    putNode place n nodes = nodes := by
  induction nodes with
  | nil => cases h
  | cons head rest ih =>
      obtain ⟨p, x⟩ := head
      rw [putNode]
      split
      · next heq =>
          subst heq
          rw [List.lookup_cons_self, Option.some.injEq] at h
          rw [h]
      · next hne =>
          have hrest : rest.lookup place = some n := by
            rwa [List.lookup_cons, beq_false_of_ne (Ne.symm hne)] at h
          rw [ih hrest]

/-- What is put where something stands already takes no new place, so it does not matter what is put
elsewhere before. -/
theorem putNode_comm {nodes : List (Location × Node)} (hne : place ≠ other)
    (hplace : (nodes.lookup place).isSome) :
    putNode other n (putNode place m nodes) = putNode place m (putNode other n nodes) := by
  induction nodes with
  | nil => cases hplace
  | cons head rest ih =>
      obtain ⟨p, x⟩ := head
      by_cases hp : p = place
      · subst hp
        simp [putNode, hne]
      · by_cases ho : p = other
        · subst ho
          simp [putNode, hp]
        · have hrest : (rest.lookup place).isSome := by
            rwa [List.lookup_cons, beq_false_of_ne (Ne.symm hp)] at hplace
          simp [putNode, hp, ho, ih hrest]

theorem put_eq_self (hroot : place ≠ []) (h : t.node? place = some n) : t.put place n = t := by
  rw [node?, if_neg hroot] at h
  rw [put, putNode_eq_self h]

theorem put_comm (hroot : place ≠ []) (hne : place ≠ other) (h : (t.node? place).isSome) :
    (t.put place m).put other n = (t.put other n).put place m := by
  rw [node?, if_neg hroot] at h
  simp only [put, putNode_comm hne h]

end FileTree

/-! ### Writing documents again -/

namespace Wrote

variable {directory : String} {files : List (String × String)} {t t' : FileTree}
  {place : Location} {old contents : String}

/-- What a file holds before it is written makes no difference. The induction is on the documents:
either the first of them is written to the file, or one of the others is, and the first does not
get in the way. -/
theorem put (h : Wrote directory files t t') (hroot : place ≠ [])
    (hfile : t.node? place = some (.file old))
    (hlead : ∃ file ∈ files, t'.locate? (Path.join directory file.1) = some place)
    (contents : String) : Wrote directory files (t.put place (.file contents)) t' := by
  induction h with
  | nil t => simp at hlead
  | @cons name written rest t u t' hwrite hrest ih =>
      have hgrows : t.Grows (t.put place (.file contents)) := .put hroot (by simp [hfile])
      obtain ⟨other, hother, hnode, rfl, hlocate, hagain⟩ := FileTree.writeFile_eq_ok hwrite
      have hnode' : (t.put place (.file contents)).node? other ≠ some .directory := by
        rw [FileTree.node?_put hroot]
        split
        · simp
        · exact hnode
      refine .cons (hagain _ hgrows hnode') ?_
      by_cases hsame : place = other
      · subst hsame
        rwa [FileTree.put_put]
      · have hfile' : (t.put other (.file written)).node? place = some (.file old) := by
          rw [FileTree.node?_put hother, if_neg hsame, hfile]
        rw [FileTree.put_comm hroot hsame (by simp [hfile])]
        refine ih hfile' ?_
        obtain ⟨file, hmem, hplace⟩ := hlead
        rcases List.mem_cons.1 hmem with rfl | hmem
        · have hlocate' := hrest.stored.grows.locate? hlocate
          exact absurd (Option.some.inj (hplace.symm.trans hlocate')) hsame
        · exact ⟨file, hmem, hplace⟩

/-- Documents that were written can be written again, and this leaves the tree as it is. -/
theorem again (h : Wrote directory files t t') : Wrote directory files t' t' := by
  induction h with
  | nil t => exact .nil t
  | @cons name contents rest t u t' hwrite hrest ih =>
      obtain ⟨place, hroot, hplace, rfl, hlocate, hagain⟩ := FileTree.writeFile_eq_ok hwrite
      have hgrows : t.Grows t' := (FileTree.Grows.put hroot hplace).trans hrest.stored.grows
      have hnode := hrest.stored.node?_eq place
      rw [FileTree.node?_put hroot, if_pos rfl] at hnode
      cases hlast : lastLeadingTo? t' directory rest place with
      | none =>
          -- no later document was written to the file, which holds this one
          rw [hlast] at hnode
          have hkept : t'.put place (.file contents) = t' := FileTree.put_eq_self hroot hnode
          have hfirst := hagain t' hgrows (by simp [hnode])
          rw [hkept] at hfirst
          exact .cons hfirst ih
      | some last =>
          rw [hlast] at hnode
          obtain ⟨hmem, hlead⟩ := exists_of_lastLeadingTo?_eq_some hlast
          exact .cons (hagain t' hgrows (by simp [hnode]))
            (ih.put hroot hnode ⟨last, hmem, hlead⟩ contents)

end Wrote

/-- Storing the same sources a second time, after a run without a failure, leaves the file tree as it
is, and has the same result and the same reports. -/
theorem store_again (s : Sources) (directory : String) (p : Profile) (t : FileTree)
    (paths : List String) (h : (s.store directory p t).2.result = .ok paths) :
    (s.store directory p (s.store directory p t).1).1 = (s.store directory p t).1 ∧
      (s.store directory p (s.store directory p t).1).2.result = .ok paths ∧
      (s.store directory p (s.store directory p t).1).2.events =
        (s.store directory p t).2.events := by
  obtain ⟨made, hmade, rfl, hwrote⟩ := exists_wrote_of_store h
  have hfirst := store_of_ok (s := s) (p := p) hmade
  generalize (s.store directory p t).1 = after at hwrote ⊢
  have hthere := FileTree.hasDirectory_of_makeDirectories hmade
  have hdirectories : after.makeDirectories directory = (after, .ok ()) :=
    (hwrote.stored.grows.hasDirectory hthere).makeDirectories_eq
  rw [hfirst, store_of_ok hdirectories, hwrote.run_storeFiles, hwrote.again.run_storeFiles]
  exact ⟨rfl, rfl, rfl⟩

/-- Two headers that share a file, in a directory that has to be made beside one that is there, and
a source that replaces a longer file. -/
theorem store_again_shared :
    let s : Sources := ⟨"table", "class", "source"⟩
    let p : Profile := { structName := "X", className := "./X" }
    let t : FileTree := ⟨[(["out"], .directory), (["out", "X.cpp"], .file "an older source")], []⟩
    (s.store "out/new/.." p t).2.result =
        .ok ["out/new/../X.h", "out/new/.././X.h", "out/new/.././X.cpp"] ∧
      (s.store "out/new/.." p t).1.nodes =
        [(["out"], .directory), (["out", "X.cpp"], .file "source"), (["out", "new"], .directory),
          (["out", "X.h"], .file "class")] ∧
      (s.store "out/new/.." p (s.store "out/new/.." p t).1).1 = (s.store "out/new/.." p t).1 := by
  intro s p t
  have hstore : (s.store "out/new/.." p t).2.result =
      .ok ["out/new/../X.h", "out/new/.././X.h", "out/new/.././X.cpp"] := by
    dsimp only [s, p, t]
    decide +kernel
  refine ⟨hstore, ?_, (store_again s "out/new/.." p t _ hstore).1⟩
  dsimp only [s, p, t]
  decide +kernel

end CallTable
