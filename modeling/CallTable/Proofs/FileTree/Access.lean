import CallTable.FileTree

/-!
What accesses to a file tree do, and how they bear on each other. As long as a tree only grows, so
that directories stay directories and nothing disappears, every path leads where it led before. A
file that is written makes the tree grow in this sense, and is found where its path leads.
-/

namespace CallTable

theorem Path.eq_ofString_of_read {text : String} {path : Path} (h : Path.read text = .ok path) :
    path = Path.ofString text := by
  rw [Path.read] at h
  split at h
  · cases h
  · split at h
    · cases h
    · split at h
      · cases h
      · exact (Except.ok.inj h).symm

namespace FileTree

/-- Two steps in a row succeed if each does. -/
theorem bind_eq_ok_iff {ε α β : Type} {x : Except ε α} {f : α → Except ε β} {b : β} :
    x >>= f = .ok b ↔ ∃ a, x = .ok a ∧ f a = .ok b := by
  cases x <;> simp [bind, Except.bind]

variable {t t' : FileTree} {place next : Location} {name : String}

/-! ### Following a path -/

theorem requireDirectory_eq_ok_iff {u : Unit} :
    t.requireDirectory place = .ok u ↔ t.node? place = some .directory := by
  rw [requireDirectory]
  cases t.node? place with
  | none => simp
  | some node => cases node <;> simp

theorem step_eq_ok_iff :
    t.step place name = .ok next ↔
      t.node? place = some .directory ∧
        if name = "." then next = place
        else if name = ".." then next = place.dropLast
        else name.utf8ByteSize ≤ Path.maxName ∧ (t.node? (place ++ [name])).isSome ∧
          next = place ++ [name] := by
  simp only [step, bind_eq_ok_iff, requireDirectory_eq_ok_iff]
  by_cases hhere : name = "."
  · simp [hhere, pure, Except.pure, eq_comm]
  · by_cases hup : name = ".."
    · simp [hup, pure, Except.pure, eq_comm]
    · by_cases hlong : Path.maxName < name.utf8ByteSize
      · simp [hhere, hup, hlong, Nat.not_le.2 hlong, throw, throwThe, MonadExceptOf.throw]
      · by_cases hsome : (t.node? (place ++ [name])).isSome
        · simp [hhere, hup, hlong, hsome, pure, Except.pure, eq_comm, Nat.le_of_not_lt hlong]
        · simp [hhere, hup, hlong, hsome, throw, throwThe, MonadExceptOf.throw]

theorem walk_append (place : Location) (front back : List String) :
    t.walk place (front ++ back) = t.walk place front >>= fun mid => t.walk mid back := by
  induction front generalizing place with
  | nil => rfl
  | cons name front ih =>
      rw [List.cons_append, walk, walk]
      cases t.step place name with
      | error reason => rfl
      | ok mid => exact ih mid

theorem walk_concat_eq_ok_iff {steps : List String} :
    t.walk place (steps ++ [name]) = .ok next ↔
      ∃ mid, t.walk place steps = .ok mid ∧ t.step mid name = .ok next := by
  rw [walk_append, bind_eq_ok_iff]
  simp only [walk, bind_eq_ok_iff, Except.ok.injEq, exists_eq_right]

/-! ### Growing -/

/-- Directories stay directories, and nothing disappears. -/
structure Grows (t t' : FileTree) : Prop where
  here_eq : t'.here = t.here
  directory : ∀ place, t.node? place = some .directory → t'.node? place = some .directory
  isSome : ∀ place, (t.node? place).isSome → (t'.node? place).isSome

namespace Grows

theorem refl (t : FileTree) : Grows t t := ⟨rfl, fun _ h => h, fun _ h => h⟩

theorem trans {u : FileTree} (h : Grows t t') (h' : Grows t' u) : Grows t u where
  here_eq := h'.here_eq.trans h.here_eq
  directory place hplace := h'.directory place (h.directory place hplace)
  isSome place hplace := h'.isSome place (h.isSome place hplace)

/-- What is put in the place of anything but a directory is no loss. -/
theorem put {node : Node} (hroot : place ≠ []) (hplace : t.node? place ≠ some .directory) :
    Grows t (t.put place node) where
  here_eq := rfl
  directory other hother := by
    have hne : other ≠ place := fun heq => hplace (heq ▸ hother)
    rwa [node?_put hroot, if_neg hne]
  isSome other hother := by
    rw [node?_put hroot]
    split
    · rfl
    · exact hother

theorem step (h : Grows t t') (hstep : t.step place name = .ok next) :
    t'.step place name = .ok next := by
  rw [step_eq_ok_iff] at hstep ⊢
  obtain ⟨hplace, hnext⟩ := hstep
  refine ⟨h.directory place hplace, ?_⟩
  by_cases hhere : name = "."
  · simpa [hhere] using hnext
  · by_cases hup : name = ".."
    · simpa [hup] using hnext
    · simp only [hhere, hup, if_false] at hnext ⊢
      exact ⟨hnext.1, h.isSome _ hnext.2.1, hnext.2.2⟩

/-- Paths lead where they led before. -/
theorem walk (h : Grows t t') {steps : List String} (hwalk : t.walk place steps = .ok next) :
    t'.walk place steps = .ok next := by
  induction steps generalizing place with
  | nil => exact hwalk
  | cons name steps ih =>
      rw [FileTree.walk, bind_eq_ok_iff] at hwalk ⊢
      obtain ⟨mid, hstep, hrest⟩ := hwalk
      exact ⟨mid, h.step hstep, ih hrest⟩

theorem start_eq (h : Grows t t') (path : Path) : t'.start path = t.start path := by
  rw [start, start, h.here_eq]

theorem resolve {path : Path} (h : Grows t t') (hplace : t.resolve path = .ok place) :
    t'.resolve path = .ok place := by
  rw [FileTree.resolve, h.start_eq]
  exact h.walk hplace

end Grows

/-! ### Reading and writing files -/

/-- The place that a text leads to as a path, if it leads anywhere. -/
def locate? (t : FileTree) (text : String) : Option Location :=
  match Path.read text with
  | .error _ => none
  | .ok path => (t.resolve path).toOption

/-- What the file holds that a text leads to as a path, if there is such a file. -/
def contents? (t : FileTree) (text : String) : Option String :=
  match (t.locate? text).bind t.node? with
  | some (.file contents) => some contents
  | _ => none

theorem locate?_eq_some_iff {text : String} :
    t.locate? text = some place ↔
      ∃ path, Path.read text = .ok path ∧ t.walk (t.start path) path.steps = .ok place := by
  rw [locate?]
  cases Path.read text with
  | error reason => simp
  | ok path =>
      simp only [resolve, Except.ok.injEq, exists_eq_left']
      cases t.walk (t.start path) path.steps <;> simp [Except.toOption]

theorem Grows.locate? {text : String} (h : Grows t t') (hplace : t.locate? text = some place) :
    t'.locate? text = some place := by
  rw [locate?_eq_some_iff] at hplace ⊢
  obtain ⟨path, hpath, hwalk⟩ := hplace
  exact ⟨path, hpath, h.resolve hwalk⟩

/-- A path leads to a place that is called like its last step. -/
theorem getLast?_of_locate? {text : String} (h : t.locate? text = some place)
    (hname : (Path.ofString text).steps.getLast? = some name) (hhere : name ≠ ".")
    (hup : name ≠ "..") : place.getLast? = some name := by
  obtain ⟨path, hpath, hwalk⟩ := locate?_eq_some_iff.1 h
  obtain ⟨steps, hsteps⟩ := List.getLast?_eq_some_iff.1 hname
  rw [Path.eq_ofString_of_read hpath, hsteps, walk_concat_eq_ok_iff] at hwalk
  obtain ⟨mid, -, hstep⟩ := hwalk
  have hnext := (step_eq_ok_iff.1 hstep).2
  rw [if_neg hhere, if_neg hup] at hnext
  simp [hnext.2.2]

theorem target_eq_ok_iff {path : Path} {reason : AccessError} :
    t.target path reason = .ok place ↔
      ∃ parent name, t.walk (t.start path) path.steps.dropLast = .ok parent ∧
        t.node? parent = some .directory ∧ path.steps.getLast? = some name ∧
        name ≠ "." ∧ name ≠ ".." ∧ name.utf8ByteSize ≤ Path.maxName ∧
        place = parent ++ [name] := by
  simp only [target, bind_eq_ok_iff, requireDirectory_eq_ok_iff]
  cases path.steps.getLast? with
  | none => simp [throw, throwThe, MonadExceptOf.throw]
  | some name =>
      by_cases hhere : name = "."
      · simp [hhere, throw, throwThe, MonadExceptOf.throw]
      · by_cases hup : name = ".."
        · simp [hup, throw, throwThe, MonadExceptOf.throw]
        · by_cases hlong : Path.maxName < name.utf8ByteSize
          · simp [hhere, hup, hlong, Nat.not_le.2 hlong, throw, throwThe, MonadExceptOf.throw]
          · simp [hhere, hup, hlong, Nat.le_of_not_lt hlong, pure, Except.pure, eq_comm]

theorem Grows.target {path : Path} {reason : AccessError} (h : Grows t t')
    (htarget : t.target path reason = .ok place) : t'.target path reason = .ok place := by
  rw [target_eq_ok_iff] at htarget ⊢
  obtain ⟨parent, name, hwalk, hparent, hlast⟩ := htarget
  exact ⟨parent, name, h.start_eq path ▸ h.walk hwalk, h.directory parent hparent, hlast⟩

/-- Once something stands at the target of a path, the path leads there. -/
theorem resolve_of_target {path : Path} {reason : AccessError}
    (h : t.target path reason = .ok place) (hgrows : Grows t t')
    (hplace : (t'.node? place).isSome) : t'.resolve path = .ok place := by
  obtain ⟨parent, name, hwalk, hparent, hlast, hhere, hup, hlong, rfl⟩ := target_eq_ok_iff.1 h
  obtain ⟨steps, hsteps⟩ := List.getLast?_eq_some_iff.1 hlast
  rw [hsteps, List.dropLast_concat] at hwalk
  rw [resolve, hgrows.start_eq, hsteps, walk_concat_eq_ok_iff]
  refine ⟨parent, hgrows.walk hwalk, step_eq_ok_iff.2 ⟨hgrows.directory _ hparent, ?_⟩⟩
  rw [if_neg hhere, if_neg hup]
  exact ⟨hlong, hplace, rfl⟩

theorem writeFile_eq_ok_iff {text contents : String} :
    t.writeFile text contents = .ok t' ↔
      ∃ path place, Path.read text = .ok path ∧ t.target path .isDirectory = .ok place ∧
        t.node? place ≠ some .directory ∧ t' = t.put place (.file contents) := by
  simp only [writeFile, bind_eq_ok_iff]
  refine exists_congr fun path => ?_
  rw [← exists_and_left]
  refine exists_congr fun place => and_congr_right fun _ => and_congr_right fun _ => ?_
  split
  · next hplace => simp [hplace, throw, throwThe, MonadExceptOf.throw]
  · next hplace =>
      have hne : t.node? place ≠ some .directory := hplace
      simp [pure, Except.pure, hne, eq_comm (a := t')]

/-- A file that is written stands where its path leads, in the place of no directory, and as long as
the tree grows and no directory comes there, it is written at that place again. -/
theorem writeFile_eq_ok {text contents : String} (h : t.writeFile text contents = .ok t') :
    ∃ place, place ≠ [] ∧ t.node? place ≠ some .directory ∧ t' = t.put place (.file contents) ∧
      t'.locate? text = some place ∧
      ∀ u, Grows t u → u.node? place ≠ some .directory →
        u.writeFile text contents = .ok (u.put place (.file contents)) := by
  obtain ⟨path, place, hpath, htarget, hplace, rfl⟩ := writeFile_eq_ok_iff.1 h
  have hroot : place ≠ [] := by
    rintro rfl
    exact hplace rfl
  have hput : ((t.put place (.file contents)).node? place).isSome := by simp [node?_put hroot]
  refine ⟨place, hroot, hplace, rfl, locate?_eq_some_iff.2 ⟨path, hpath, ?_⟩, fun u hgrows hu => ?_⟩
  · exact resolve_of_target htarget (.put hroot hplace) hput
  · exact writeFile_eq_ok_iff.2 ⟨path, place, hpath, hgrows.target htarget, hu, rfl⟩

end FileTree

end CallTable
