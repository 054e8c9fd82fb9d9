import CallTable.Proofs.FileTree.Directories
import CallTable.Proofs.FileTree.Path
import CallTable.Storage
import Mathlib.Data.List.Basic

/-!
What a run that stores documents leaves in the file tree. The documents are written one after
another, so a file holds the last document whose path leads to it. The class source always has a
file of its own, as no header ends like it. The two headers share a file if the struct and the class
are called alike, and then only the class header is left.
-/

namespace CallTable

open Text (Lacks)

variable {directory name contents : String} {files rest : List (String × String)}
  {t t' u : FileTree} {place : Location} {paths : List String}

/-! ### Writing one document after another -/

/-- The last of the documents whose path leads to a place. -/
def lastLeadingTo? (t : FileTree) (directory : String) (files : List (String × String))
    (place : Location) : Option (String × String) :=
  (files.filter fun file => t.locate? (Path.join directory file.1) = some place).getLast?

theorem lastLeadingTo?_cons_of_ne (h : t.locate? (Path.join directory name) ≠ some place) :
    lastLeadingTo? t directory ((name, contents) :: files) place =
      lastLeadingTo? t directory files place := by
  rw [lastLeadingTo?, List.filter_cons_of_neg (by simpa using h), lastLeadingTo?]

theorem lastLeadingTo?_cons_of_eq (h : t.locate? (Path.join directory name) = some place) :
    lastLeadingTo? t directory ((name, contents) :: files) place =
      some ((lastLeadingTo? t directory files place).getD (name, contents)) := by
  rw [lastLeadingTo?, List.filter_cons_of_pos (by simpa using h), List.getLast?_cons,
    lastLeadingTo?]

theorem exists_of_lastLeadingTo?_eq_some {file : String × String}
    (h : lastLeadingTo? t directory files place = some file) :
    file ∈ files ∧ t.locate? (Path.join directory file.1) = some place := by
  simpa using List.mem_filter.1 (List.mem_of_getLast? h)

/-- A document is among those whose paths lead to its place. -/
theorem exists_lastLeadingTo?_eq_some (hfile : (name, contents) ∈ files)
    (hplace : t.locate? (Path.join directory name) = some place) :
    ∃ last, lastLeadingTo? t directory files place = some last := by
  rw [← Option.ne_none_iff_exists', lastLeadingTo?, ne_eq, List.getLast?_eq_none_iff,
    List.filter_eq_nil_iff]
  exact fun hnone => hnone _ hfile (by simpa using hplace)

/-- The second tree is the first with the documents written into it, in their order. -/
structure Stored (directory : String) (files : List (String × String)) (t t' : FileTree) :
    Prop where
  grows : t.Grows t'
  exists_place : ∀ file ∈ files, ∃ place, t'.locate? (Path.join directory file.1) = some place
  node?_eq : ∀ place, t'.node? place =
    ((lastLeadingTo? t' directory files place).map fun file => .file file.2).or (t.node? place)

namespace Stored

theorem nil (directory : String) (t : FileTree) : Stored directory [] t t :=
  ⟨.refl t, by simp, fun _ => rfl⟩

theorem cons (hwrite : t.writeFile (Path.join directory name) contents = .ok u)
    (hrest : Stored directory rest u t') : Stored directory ((name, contents) :: rest) t t' := by
  obtain ⟨place, hroot, hplace, rfl, hlocate, -⟩ := FileTree.writeFile_eq_ok hwrite
  have hlocate' : t'.locate? (Path.join directory name) = some place := hrest.grows.locate? hlocate
  refine ⟨(FileTree.Grows.put hroot hplace).trans hrest.grows, ?_, fun other => ?_⟩
  · intro file hfile
    rcases List.mem_cons.1 hfile with rfl | hfile
    · exact ⟨place, hlocate'⟩
    · exact hrest.exists_place file hfile
  · rw [hrest.node?_eq, FileTree.node?_put hroot]
    by_cases hother : other = place
    · subst hother
      rw [lastLeadingTo?_cons_of_eq hlocate']
      cases lastLeadingTo? t' directory rest other <;> simp
    · have hne : t'.locate? (Path.join directory name) ≠ some other := by
        simpa [hlocate'] using Ne.symm hother
      rw [lastLeadingTo?_cons_of_ne hne, if_neg hother]

/-- A document's path leads to a file, which holds the last document whose path leads there. -/
theorem contents?_eq (h : Stored directory files t t') (hfile : (name, contents) ∈ files)
    (hplace : t'.locate? (Path.join directory name) = some place) :
    t'.contents? (Path.join directory name) =
      (lastLeadingTo? t' directory files place).map (·.2) := by
  obtain ⟨last, hlast⟩ := exists_lastLeadingTo?_eq_some hfile hplace
  rw [FileTree.contents?, hplace, Option.bind_some, h.node?_eq, hlast]
  rfl

end Stored

/-- The documents are written one after another, each into the tree that those before it left. -/
inductive Wrote (directory : String) : List (String × String) → FileTree → FileTree → Prop
  | nil (t : FileTree) : Wrote directory [] t t
  | cons {name contents : String} {rest : List (String × String)} {t u t' : FileTree}
      (hwrite : t.writeFile (Path.join directory name) contents = .ok u)
      (hrest : Wrote directory rest u t') : Wrote directory ((name, contents) :: rest) t t'

theorem Wrote.stored (h : Wrote directory files t t') : Stored directory files t t' := by
  induction h with
  | nil t => exact .nil directory t
  | cons hwrite _ ih => exact ih.cons hwrite

theorem result_reportWritten (path contents : String) (stored : Reported Failure (List String)) :
    (FileSystem.reportWritten path contents stored).result = stored.result.map (path :: ·) := by
  obtain ⟨result, events⟩ := stored
  cases result <;> rfl

theorem run_storeFiles_of_ok (rest : List (String × String))
    (h : t.writeFile (Path.join directory name) contents = .ok u) :
    t.run (FileSystem.storeFiles directory ((name, contents) :: rest)) =
      ((u.run (FileSystem.storeFiles directory rest)).1,
        FileSystem.reportWritten (Path.join directory name) contents
          (u.run (FileSystem.storeFiles directory rest)).2) := by
  rw [FileSystem.storeFiles, FileTree.run_bind, FileTree.run_writeFile_of_ok h]
  rfl

theorem run_storeFiles_of_error (rest : List (String × String)) {reason : AccessError}
    (h : t.writeFile (Path.join directory name) contents = .error reason) :
    t.run (FileSystem.storeFiles directory ((name, contents) :: rest)) =
      (t, .fail (.unwritable (Path.join directory name) reason)) := by
  rw [FileSystem.storeFiles, FileTree.run_bind, FileTree.run_writeFile_of_error h]
  rfl

/-- A run that can write all documents does so, and reports each. -/
theorem Wrote.run_storeFiles (h : Wrote directory files t t') :
    t.run (FileSystem.storeFiles directory files) =
      (t', ⟨.ok (files.map fun file => Path.join directory file.1),
        files.map fun file => .wrote (Path.join directory file.1) file.2.utf8ByteSize⟩) := by
  induction h with
  | nil t => rfl
  | cons hwrite _ ih =>
      simp [run_storeFiles_of_ok _ hwrite, ih, FileSystem.reportWritten, Reported.report]

/-- A run writes the documents in their order, up to the first that cannot be written. -/
theorem exists_wrote (directory : String) (files : List (String × String)) (t : FileTree) :
    ∃ written left, files = written ++ left ∧
      Wrote directory written t (t.run (FileSystem.storeFiles directory files)).1 ∧
      match left with
      | [] => (t.run (FileSystem.storeFiles directory files)).2.result =
          .ok (written.map fun file => Path.join directory file.1)
      | (name, contents) :: _ => ∃ reason,
          (t.run (FileSystem.storeFiles directory files)).1.writeFile
            (Path.join directory name) contents = .error reason ∧
          (t.run (FileSystem.storeFiles directory files)).2.result =
            .error (.unwritable (Path.join directory name) reason) := by
  induction files generalizing t with
  | nil => exact ⟨[], [], rfl, .nil t, rfl⟩
  | cons file files ih =>
      obtain ⟨name, contents⟩ := file
      cases hwrite : t.writeFile (Path.join directory name) contents with
      | error reason =>
          rw [run_storeFiles_of_error files hwrite]
          exact ⟨[], (name, contents) :: files, rfl, .nil t, reason, hwrite, rfl⟩
      | ok u =>
          rw [run_storeFiles_of_ok files hwrite]
          obtain ⟨written, left, rfl, hwrote, hleft⟩ := ih u
          refine ⟨(name, contents) :: written, left, rfl, .cons hwrite hwrote, ?_⟩
          rw [result_reportWritten]
          cases left with
          | nil => rw [hleft]; rfl
          | cons next rest =>
              obtain ⟨reason, hfails, hreason⟩ := hleft
              exact ⟨reason, hfails, by rw [hreason]; rfl⟩

/-- How a run goes, with the documents that it has written, the tree that it leaves and its result.
Either the directory cannot be made, and no document is written; or the directory is there, some
documents are written and the next one cannot be, so that those behind it are not looked at; or the
directory is there and all of them are written. -/
inductive StoreRun (s : Sources) (directory : String) (p : Profile) (t : FileTree) :
    List (String × String) → FileTree → Except Failure (List String) → Prop
  | noDirectory {made : FileTree} {reason : AccessError}
      (hmade : t.makeDirectories directory = (made, .error reason)) :
      StoreRun s directory p t [] made (.error (.unwritable directory reason))
  | stopped {made after : FileTree} {written left : List (String × String)}
      {name contents : String} {reason : AccessError}
      (hmade : t.makeDirectories directory = (made, .ok ()))
      (hthere : made.HasDirectory directory)
      (hfiles : s.files p = written ++ (name, contents) :: left)
      (hwrote : Wrote directory written made after)
      (hfails : after.writeFile (Path.join directory name) contents = .error reason) :
      StoreRun s directory p t written after
        (.error (.unwritable (Path.join directory name) reason))
  | finished {made after : FileTree}
      (hmade : t.makeDirectories directory = (made, .ok ()))
      (hthere : made.HasDirectory directory)
      (hwrote : Wrote directory (s.files p) made after) :
      StoreRun s directory p t (s.files p) after
        (.ok ((s.files p).map fun file => Path.join directory file.1))

theorem store_of_error {s : Sources} {p : Profile} {made : FileTree} {reason : AccessError}
    (h : t.makeDirectories directory = (made, .error reason)) :
    s.store directory p t = (made, .fail (.unwritable directory reason)) := by
  rw [FileTree.makeDirectories] at h
  rw [Sources.store, FileSystem.store, FileTree.run_bind, h]
  rfl

theorem store_of_ok {s : Sources} {p : Profile} {made : FileTree}
    (h : t.makeDirectories directory = (made, .ok ())) :
    s.store directory p t = made.run (FileSystem.storeFiles directory (s.files p)) := by
  rw [FileTree.makeDirectories] at h
  rw [Sources.store, FileSystem.store, FileTree.run_bind, h]

theorem exists_storeRun (s : Sources) (directory : String) (p : Profile) (t : FileTree) :
    ∃ written, StoreRun s directory p t written (s.store directory p t).1
      (s.store directory p t).2.result := by
  rcases hmade : t.makeDirectories directory with ⟨made, reason | _⟩
  · rw [store_of_error hmade]
    exact ⟨[], .noDirectory hmade⟩
  · have hthere := FileTree.hasDirectory_of_makeDirectories hmade
    rw [store_of_ok hmade]
    obtain ⟨written, left, hfiles, hwrote, hleft⟩ := exists_wrote directory (s.files p) made
    refine ⟨written, ?_⟩
    cases left with
    | nil =>
        rw [List.append_nil] at hfiles
        subst hfiles
        rw [hleft]
        exact .finished hmade hthere hwrote
    | cons next left =>
        obtain ⟨reason, hfails, hresult⟩ := hleft
        rw [hresult]
        exact .stopped hmade hthere hfiles hwrote hfails

theorem exists_wrote_of_store {s : Sources} {p : Profile}
    (h : (s.store directory p t).2.result = .ok paths) :
    ∃ made, t.makeDirectories directory = (made, .ok ()) ∧
      paths = (s.files p).map (fun file => Path.join directory file.1) ∧
      Wrote directory (s.files p) made (s.store directory p t).1 := by
  obtain ⟨written, hrun⟩ := exists_storeRun s directory p t
  rw [h] at hrun
  cases hrun with
  | finished hmade _ hwrote => exact ⟨_, hmade, rfl, hwrote⟩

theorem exists_stored_of_store {s : Sources} {p : Profile}
    (h : (s.store directory p t).2.result = .ok paths) :
    ∃ made, t.makeDirectories directory = (made, .ok ()) ∧
      paths = (s.files p).map (fun file => Path.join directory file.1) ∧
      Stored directory (s.files p) made (s.store directory p t).1 := by
  obtain ⟨made, hmade, hpaths, hwrote⟩ := exists_wrote_of_store h
  exact ⟨made, hmade, hpaths, hwrote.stored⟩

/-! ### Which documents have a file of their own -/

theorem ne_dots_of_getLast? {c : Char} (h : name.toList.getLast? = some c) (hdot : c ≠ '.') :
    name ≠ "." ∧ name ≠ ".." := by
  constructor <;> rintro rfl <;> exact hdot (Option.some.inj h).symm

theorem getLast?_toList_append {text suffix : String} {c : Char}
    (h : suffix.toList.getLast? = some c) : (text ++ suffix).toList.getLast? = some c := by
  rw [String.toList_append, List.getLast?_append, h, Option.some_or]

/-- A path to a name with a suffix leads to a place that is called with the suffix, too. -/
theorem exists_name_of_locate? {text suffix : String} {c : Char} (hslash : Lacks '/' suffix)
    (hlast : suffix.toList.getLast? = some c) (hdot : c ≠ '.')
    (h : t.locate? (Path.join directory (text ++ suffix)) = some place) :
    ∃ name, place.getLast? = some name ∧ name.toList.getLast? = some c := by
  obtain ⟨front, hfront⟩ := Path.exists_join_eq directory (text ++ suffix)
  have hne : suffix ≠ "" := by
    rintro rfl
    cases hlast
  obtain ⟨name, hname⟩ := Path.exists_getLast?_steps (front ++ text) hslash hne
  rw [String.append_assoc, ← hfront] at hname
  have hend : (name ++ suffix).toList.getLast? = some c := getLast?_toList_append hlast
  obtain ⟨hhere, hup⟩ := ne_dots_of_getLast? hend hdot
  exact ⟨name ++ suffix, FileTree.getLast?_of_locate? h hname hhere hup, hend⟩

/-- The class source has a place of its own. -/
theorem locate?_source_ne_header {p : Profile} {text : String}
    (h : t.locate? (Path.join directory p.classSourceName) = some place) :
    t.locate? (Path.join directory (text ++ ".h")) ≠ some place := by
  intro hheader
  obtain ⟨name, hname, hend⟩ := exists_name_of_locate? (by decide) (by rfl) (by decide) h
  obtain ⟨name', hname', hend'⟩ :=
    exists_name_of_locate? (by decide) (by rfl) (by decide) hheader
  obtain rfl : name = name' := Option.some.inj (hname.symm.trans hname')
  exact absurd (hend.symm.trans hend') (by decide)

/-- A header is called like its struct or class, unless there are slashes in that name. -/
theorem getLast?_of_locate?_header {text : String} (htext : Lacks '/' text)
    (h : t.locate? (Path.join directory (text ++ ".h")) = some place) :
    place.getLast? = some (text ++ ".h") := by
  have hend : (text ++ ".h").toList.getLast? = some 'h' := getLast?_toList_append rfl
  obtain ⟨hhere, hup⟩ := ne_dots_of_getLast? hend (by decide)
  have hlacks : Lacks '/' (text ++ ".h") := Text.lacks_append.2 ⟨htext, by decide⟩
  have hne : text ++ ".h" ≠ "" := by simp
  exact FileTree.getLast?_of_locate? h (Path.getLast?_steps_join directory hlacks hne) hhere hup

/-- The paths of the two headers lead to the same place. -/
def HeadersMeet (t : FileTree) (directory : String) (p : Profile) : Prop :=
  t.locate? (Path.join directory p.tableHeaderName) =
    t.locate? (Path.join directory p.classHeaderName)

instance (t : FileTree) (directory : String) (p : Profile) :
    Decidable (HeadersMeet t directory p) :=
  inferInstanceAs (Decidable (_ = _))

/-- Without slashes in their names, the headers meet exactly if the struct and the class are called
alike. -/
theorem headersMeet_iff {p : Profile} (hstruct : Lacks '/' p.structName)
    (hclass : Lacks '/' p.className)
    (hplace : t.locate? (Path.join directory p.tableHeaderName) = some place) :
    HeadersMeet t directory p ↔ p.structName = p.className := by
  constructor
  · intro hmeet
    have hname := getLast?_of_locate?_header hstruct hplace
    rw [HeadersMeet, hplace] at hmeet
    rw [getLast?_of_locate?_header hclass hmeet.symm, Option.some.injEq] at hname
    exact (String.append_left_inj ".h").1 hname.symm
  · intro heq
    rw [HeadersMeet, Profile.tableHeaderName, heq, Profile.classHeaderName]

/-- After a run without a failure, the class header and the class source are in their files, and the
table header is in its own unless the headers meet. -/
theorem contents_of_store {s : Sources} {p : Profile}
    (h : (s.store directory p t).2.result = .ok paths) :
    paths = [Path.join directory p.tableHeaderName, Path.join directory p.classHeaderName,
        Path.join directory p.classSourceName] ∧
      paths.map (s.store directory p t).1.contents? =
        [some (if HeadersMeet (s.store directory p t).1 directory p
            then s.classHeader else s.tableHeader),
          some s.classHeader, some s.classSource] ∧
      (Lacks '/' p.structName → Lacks '/' p.className →
        (HeadersMeet (s.store directory p t).1 directory p ↔ p.structName = p.className)) := by
  obtain ⟨made, -, rfl, hstored⟩ := exists_stored_of_store h
  generalize (s.store directory p t).1 = left at hstored
  have htable : (p.tableHeaderName, s.tableHeader) ∈ s.files p := by simp [Sources.files]
  have hheader : (p.classHeaderName, s.classHeader) ∈ s.files p := by simp [Sources.files]
  have hsource : (p.classSourceName, s.classSource) ∈ s.files p := by simp [Sources.files]
  obtain ⟨a, ha⟩ := hstored.exists_place _ htable
  obtain ⟨b, hb⟩ := hstored.exists_place _ hheader
  obtain ⟨c, hc⟩ := hstored.exists_place _ hsource
  have hac : a ≠ c := fun heq => locate?_source_ne_header hc (heq ▸ ha)
  have hbc : b ≠ c := fun heq => locate?_source_ne_header hc (heq ▸ hb)
  refine ⟨rfl, ?_, fun hstruct hclass => headersMeet_iff hstruct hclass ha⟩
  simp only [Sources.files, List.map_cons, List.map_nil, hstored.contents?_eq htable ha,
    hstored.contents?_eq hheader hb, hstored.contents?_eq hsource hc]
  by_cases hab : a = b
  · subst hab
    have hmeet : HeadersMeet left directory p := ha.trans hb.symm
    simp [lastLeadingTo?, ha, hb, hc, hmeet, hac, Ne.symm hac]
  · have hmeet : ¬HeadersMeet left directory p := by simpa [HeadersMeet, ha, hb] using hab
    simp [lastLeadingTo?, ha, hb, hc, hmeet, hab, Ne.symm hab, Ne.symm hac, Ne.symm hbc]

theorem contents_of_store_replaced :
    let s : Sources := ⟨"table", "class", "source"⟩
    let t : FileTree := ⟨[(["out"], .directory), (["out", "GfxFunctions.h"], .file "old")], []⟩
    let paths := ["out/GfxFunctions.h", "out/GfxContextBase.h", "out/GfxContextBase.cpp"]
    (s.store "out" {} t).2.result = .ok paths ∧
      paths.map (s.store "out" {} t).1.contents? =
        [some "table", some "class", some "source"] := by
  intro s t paths
  have hstore : (s.store "out" {} t).2.result = .ok paths := by
    dsimp only [s, t, paths]
    decide +kernel
  obtain ⟨-, hcontents, hmeet⟩ := contents_of_store hstore
  have hapart : ¬HeadersMeet (s.store "out" {} t).1 "out" {} := by
    rw [hmeet (by decide) (by decide)]
    decide
  rw [if_neg hapart] at hcontents
  exact ⟨hstore, hcontents⟩

/-- A class header that is called like the table header takes its place. -/
theorem table_header_lost_of_store :
    let p : Profile := { structName := "X", className := "X", geometry := ⟨8, 4⟩ }
    ∃ s, (Sources.ofEntries p []).result = .ok s ∧
      (s.store "out" p .empty).2.result = .ok ["out/X.h", "out/X.h", "out/X.cpp"] ∧
      (s.store "out" p .empty).1.contents? "out/X.h" ≠ some s.tableHeader :=
  ⟨_, rfl, by decide +kernel, by decide +kernel⟩

end CallTable
