import CallTable.Proofs.FileTree.Access

/-!
What making directories does. Only directories on the way to the last one are made, each where
nothing stood before, and this also holds if the run fails. If it does not fail, its path leads to
a directory, and making this directory another time changes nothing.
-/

namespace CallTable.FileTree

variable {t t' u : FileTree} {path route : Path} {place next : Location}

theorem isDirectory_iff :
    t.isDirectory path ↔ ∃ place, t.resolve path = .ok place ∧ t.node? place = some .directory := by
  rw [isDirectory]
  cases t.resolve path <;> simp

theorem Grows.isDirectory (h : Grows t t') (hpath : t.isDirectory path) : t'.isDirectory path := by
  obtain ⟨place, hplace, hnode⟩ := isDirectory_iff.1 hpath
  exact isDirectory_iff.2 ⟨place, h.resolve hplace, h.directory place hnode⟩

/-! ### Making one directory -/

/-- A directory that is made stands where its path leads, and nothing stood there before. -/
theorem exists_of_makeDirectory (h : t.makeDirectory path = .ok t') :
    ∃ place, place ≠ [] ∧ t.node? place = none ∧ t' = t.put place .directory ∧
      t'.resolve path = .ok place := by
  rw [makeDirectory, bind_eq_ok_iff] at h
  obtain ⟨place, htarget, hput⟩ := h
  obtain ⟨parent, name, -, -, -, -, -, -, hname⟩ := target_eq_ok_iff.1 htarget
  have hroot : place ≠ [] := by simp [hname]
  cases hnode : t.node? place with
  | some node =>
      rw [hnode] at hput
      cases hput
  | none =>
      rw [hnode] at hput
      obtain rfl : t.put place .directory = t' := Except.ok.inj hput
      have hgrows : Grows t (t.put place .directory) := .put hroot (by simp [hnode])
      exact ⟨place, hroot, hnode, rfl,
        resolve_of_target htarget hgrows (by simp [node?_put hroot])⟩

/-- What is there already is not made. -/
theorem makeDirectory_of_isDirectory (h : t.isDirectory path) :
    t.makeDirectory path = .error .exists := by
  obtain ⟨place, hplace, hnode⟩ := isDirectory_iff.1 h
  rw [resolve] at hplace
  rcases List.eq_nil_or_concat path.steps with hsteps | ⟨steps, name, hsteps⟩
  · rw [hsteps, walk, Except.ok.injEq] at hplace
    have hstart : t.requireDirectory (t.start path) = .ok () := by
      rw [requireDirectory_eq_ok_iff, hplace, hnode]
    simp [makeDirectory, target, hsteps, walk, hstart, bind, Except.bind, throw, throwThe,
      MonadExceptOf.throw]
  · rw [hsteps, List.concat_eq_append, walk_concat_eq_ok_iff] at hplace
    obtain ⟨parent, hwalk, hstep⟩ := hplace
    obtain ⟨hparent, hnext⟩ := step_eq_ok_iff.1 hstep
    have hrequired : t.requireDirectory parent = .ok () := requireDirectory_eq_ok_iff.2 hparent
    have htarget : t.target path .exists =
        if name = "." ∨ name = ".." then .error .exists
        else if Path.maxName < name.utf8ByteSize then .error .nameTooLong
        else .ok (parent ++ [name]) := by
      simp [target, hsteps, hwalk, hrequired, bind, Except.bind, throw, throwThe,
        MonadExceptOf.throw, pure, Except.pure]
    rw [makeDirectory, htarget]
    by_cases hdots : name = "." ∨ name = ".."
    · rw [if_pos hdots]
      rfl
    · rw [not_or] at hdots
      rw [if_neg hdots.1, if_neg hdots.2] at hnext
      obtain ⟨hlong, -, rfl⟩ := hnext
      rw [if_neg (by simp [hdots]), if_neg (Nat.not_lt.2 hlong)]
      simp [bind, Except.bind, hnode, throw, throwThe, MonadExceptOf.throw]

/-! ### The way to a directory -/

/-- A place that the first steps of a path lead to. -/
def OnTheWay (t : FileTree) (route : Path) (place : Location) : Prop :=
  ∃ front, front <+: route.steps ∧ t.resolve ⟨route.absolute, front⟩ = .ok place

theorem Grows.onTheWay (h : Grows t t') (hplace : t.OnTheWay route place) :
    t'.OnTheWay route place := by
  obtain ⟨front, hfront, hresolve⟩ := hplace
  exact ⟨front, hfront, h.resolve hresolve⟩

/-- A path whose directory is on the way that another path takes, in any tree. -/
def Follows (path route : Path) : Prop :=
  ∀ (t : FileTree) (place : Location), t.resolve path = .ok place →
    t.node? place = some .directory → t.OnTheWay route place

theorem Follows.refl (path : Path) : Follows path path :=
  fun _ _ hplace _ => ⟨path.steps, List.prefix_rfl, hplace⟩

theorem directory_of_walk {steps : List String} (h : t.walk place steps = .ok next)
    (hnext : t.node? next = some .directory) : t.node? place = some .directory := by
  cases steps with
  | nil =>
      obtain rfl : place = next := Except.ok.inj h
      exact hnext
  | cons name steps =>
      rw [walk, bind_eq_ok_iff] at h
      obtain ⟨mid, hstep, -⟩ := h
      exact (step_eq_ok_iff.1 hstep).1

/-- Steps that stay in place make no difference to the way to a directory. -/
theorem walk_of_filter {steps : List String}
    (h : t.walk place (steps.filter (· ≠ ".")) = .ok next)
    (hnext : t.node? next = some .directory) : t.walk place steps = .ok next := by
  induction steps generalizing place with
  | nil => exact h
  | cons name steps ih =>
      rw [walk, bind_eq_ok_iff]
      by_cases hhere : name = "."
      · rw [List.filter_cons_of_neg (by simpa using hhere)] at h
        have hstay : t.step place name = .ok place :=
          step_eq_ok_iff.2 ⟨directory_of_walk h hnext, if_pos hhere ▸ rfl⟩
        exact ⟨place, hstay, ih h⟩
      · rw [List.filter_cons_of_pos (by simpa using hhere), walk, bind_eq_ok_iff] at h
        obtain ⟨mid, hstep, hrest⟩ := h
        exact ⟨mid, hstep, ih hrest⟩

/-- The first essential steps of a path are those on its way. -/
theorem follows_of_prefix_essential {front : List String} (h : front <+: route.essential) :
    Follows ⟨route.absolute, front⟩ route := by
  intro t place hplace hnode
  obtain ⟨absolute, steps⟩ := route
  simp only [resolve, start, Path.essential] at h hplace
  cases steps with
  | nil => exact ⟨front, h, hplace⟩
  | cons name steps =>
      simp only at h
      split at h
      · next hhere =>
          obtain ⟨front, hfront, rfl⟩ := List.prefix_filter_iff.1 h
          refine ⟨name :: front, List.cons_prefix_cons.2 ⟨rfl, hfront⟩, walk_of_filter ?_ hnode⟩
          rwa [List.filter_cons_of_neg (by simpa using hhere.1)]
      · rcases List.prefix_cons_iff.1 h with rfl | ⟨rest, rfl, hrest⟩
        · exact ⟨[], List.nil_prefix, hplace⟩
        · obtain ⟨front, hfront, rfl⟩ := List.prefix_filter_iff.1 hrest
          rw [walk, bind_eq_ok_iff] at hplace
          obtain ⟨mid, hstep, hwalk⟩ := hplace
          refine ⟨name :: front, List.cons_prefix_cons.2 ⟨rfl, hfront⟩, ?_⟩
          rw [resolve, walk, bind_eq_ok_iff]
          exact ⟨mid, hstep, walk_of_filter hwalk hnode⟩

/-- The second tree is the first with new directories on the way that a path takes. -/
structure ExtendedAlong (route : Path) (t t' : FileTree) : Prop where
  grows : t.Grows t'
  made : ∀ place, t'.node? place ≠ t.node? place →
    t.node? place = none ∧ t'.node? place = some .directory ∧ t'.OnTheWay route place

namespace ExtendedAlong

theorem refl (route : Path) (t : FileTree) : ExtendedAlong route t t :=
  ⟨.refl t, fun _ h => absurd rfl h⟩

theorem trans (h : ExtendedAlong route t t') (h' : ExtendedAlong route t' u) :
    ExtendedAlong route t u where
  grows := h.grows.trans h'.grows
  made place hplace := by
    by_cases hlater : u.node? place = t'.node? place
    · rw [hlater] at hplace ⊢
      obtain ⟨hnone, hmade, hway⟩ := h.made place hplace
      exact ⟨hnone, hmade, h'.grows.onTheWay hway⟩
    · obtain ⟨hnone, hmade, hway⟩ := h'.made place hlater
      refine ⟨?_, hmade, hway⟩
      -- what was there at first would still be there
      rw [← Option.not_isSome_iff_eq_none]
      intro hsome
      simpa [hnone] using h.grows.isSome place hsome

theorem of_makeDirectory (hpath : Follows path route) (h : t.makeDirectory path = .ok t') :
    ExtendedAlong route t t' := by
  obtain ⟨place, hroot, hnone, rfl, hresolve⟩ := exists_of_makeDirectory h
  refine ⟨.put hroot (by simp [hnone]), fun other hother => ?_⟩
  have hput : (t.put place .directory).node? other =
      if other = place then some .directory else t.node? other := node?_put hroot
  rw [hput] at hother ⊢
  split at hother
  · next hplace =>
      subst hplace
      rw [if_pos rfl] at hput ⊢
      exact ⟨hnone, rfl, hpath _ _ hresolve hput⟩
  · exact absurd rfl hother

end ExtendedAlong

/-! ### Making directories -/

variable {parents : StateM FileTree (Except AccessError Unit)}

theorem run_orExisting (t : FileTree) (path : Path) (reason : AccessError) :
    t.run (FileSystem.orExisting path reason) =
      (t, if t.isDirectory path then .ok () else .error reason) := rfl

theorem orExisting_cases (t : FileTree) (path : Path) (reason : AccessError) :
    (t.isDirectory path ∧ t.run (FileSystem.orExisting path reason) = (t, .ok ())) ∨
      ∃ reason', t.run (FileSystem.orExisting path reason) = (t, .error reason') := by
  rw [run_orExisting]
  by_cases h : t.isDirectory path
  · exact .inl ⟨h, by rw [if_pos h]⟩
  · exact .inr ⟨reason, by rw [if_neg h]⟩

/-- What may come of ensuring a directory: it is made, or it is there already, or neither. Before
that, its parents may have been made. -/
theorem ensureDirectory_cases (path : Path) (parents : StateM FileTree (Except AccessError Unit))
    (t : FileTree) :
    ∃ u, (u = t ∨ u = (t.run parents).1) ∧
      ((∃ made, u.makeDirectory path = .ok made ∧
          t.run (FileSystem.ensureDirectory path parents) = (made, .ok ())) ∨
        (u.isDirectory path ∧
          t.run (FileSystem.ensureDirectory path parents) = (u, .ok ())) ∨
        ∃ reason, t.run (FileSystem.ensureDirectory path parents) = (u, .error reason)) := by
  rw [FileSystem.ensureDirectory, run_bind]
  cases hfirst : t.makeDirectory path with
  | ok made =>
      rw [run_makeDirectory_of_ok hfirst]
      exact ⟨t, .inl rfl, .inl ⟨made, hfirst, rfl⟩⟩
  | error reason =>
      rw [run_makeDirectory_of_error hfirst]
      cases reason with
      | missing =>
          dsimp only
          rw [run_bind]
          rcases hparents : t.run parents with ⟨u, reason | _⟩
          · exact ⟨u, .inr rfl, .inr (.inr ⟨reason, rfl⟩)⟩
          · dsimp only
            rw [run_bind]
            cases hsecond : u.makeDirectory path with
            | ok made =>
                rw [run_makeDirectory_of_ok hsecond]
                exact ⟨u, .inr rfl, .inl ⟨made, hsecond, rfl⟩⟩
            | error reason =>
                rw [run_makeDirectory_of_error hsecond]
                exact ⟨u, .inr rfl, .inr (orExisting_cases u path reason)⟩
      | «exists» | notDirectory | isDirectory | nameTooLong | nulInName | other wording =>
          exact ⟨t, .inl rfl, .inr (orExisting_cases t path _)⟩

/-- A run that does not fail leaves a directory where its path leads. -/
theorem isDirectory_of_ensureDirectory
    (h : t.run (FileSystem.ensureDirectory path parents) = (u, .ok ())) : u.isDirectory path := by
  obtain ⟨u', -, ⟨made, hmade, heq⟩ | ⟨hthere, heq⟩ | ⟨reason, heq⟩⟩ :=
    ensureDirectory_cases path parents t
  · obtain ⟨rfl, -⟩ := Prod.mk.inj (heq.symm.trans h)
    obtain ⟨place, hroot, -, rfl, hresolve⟩ := exists_of_makeDirectory hmade
    exact isDirectory_iff.2 ⟨place, hresolve, by simp [node?_put hroot]⟩
  · obtain ⟨rfl, -⟩ := Prod.mk.inj (heq.symm.trans h)
    exact hthere
  · cases heq.symm.trans h

theorem ensureDirectory_of_isDirectory (parents : StateM FileTree (Except AccessError Unit))
    (h : t.isDirectory path) :
    t.run (FileSystem.ensureDirectory path parents) = (t, .ok ()) := by
  rw [FileSystem.ensureDirectory, run_bind,
    run_makeDirectory_of_error (makeDirectory_of_isDirectory h)]
  dsimp only
  rw [run_orExisting, if_pos h]

namespace ExtendedAlong

theorem ensureDirectory (hpath : Follows path route)
    (hparents : ∀ t : FileTree, ExtendedAlong route t (t.run parents).1) (t : FileTree) :
    ExtendedAlong route t (t.run (FileSystem.ensureDirectory path parents)).1 := by
  obtain ⟨u, hu, hcases⟩ := ensureDirectory_cases path parents t
  have hfirst : ExtendedAlong route t u := by
    rcases hu with rfl | rfl
    · exact .refl route u
    · exact hparents t
  rcases hcases with ⟨made, hmade, heq⟩ | ⟨-, heq⟩ | ⟨reason, heq⟩
  · rw [heq]
    exact hfirst.trans (.of_makeDirectory hpath hmade)
  · rwa [heq]
  · rwa [heq]

/-- The induction is on the steps from the last to the first, as each directory has those before it
made when they are missing. -/
theorem ensureAncestors {steps : List String} (h : steps.reverse <+: route.essential)
    (t : FileTree) :
    ExtendedAlong route t (t.run (FileSystem.ensureAncestors route.absolute steps)).1 := by
  induction steps generalizing t with
  | nil => exact .refl route t
  | cons name up ih =>
      have hup : up.reverse <+: route.essential := by
        rw [List.reverse_cons] at h
        exact (List.prefix_append _ _).trans h
      exact ensureDirectory (follows_of_prefix_essential h) (ih hup) t

end ExtendedAlong

/-- Making directories is ensuring the last of them, unless its text is empty or no path. -/
theorem makeDirectories_cases (t : FileTree) (text : String) :
    (text = "" ∧ t.makeDirectories text = (t, .ok ())) ∨
      (∃ reason, Path.read text = .error reason ∧
        t.makeDirectories text = (t, .error reason)) ∨
      ∃ path, Path.read text = .ok path ∧ t.makeDirectories text =
        t.run (FileSystem.ensureDirectory path
          (FileSystem.ensureAncestors path.absolute path.essential.dropLast.reverse)) := by
  rw [makeDirectories, FileSystem.makeDirectories]
  by_cases hempty : text = ""
  · rw [if_pos hempty]
    exact .inl ⟨hempty, rfl⟩
  · rw [if_neg hempty]
    cases hread : Path.read text with
    | error reason => exact .inr (.inl ⟨reason, rfl, rfl⟩)
    | ok path => exact .inr (.inr ⟨path, rfl, rfl⟩)

/-- Making directories adds directories on the way to the last one, and does nothing else. -/
theorem extendedAlong_makeDirectories (t : FileTree) (directory : String) :
    ExtendedAlong (Path.ofString directory) t (t.makeDirectories directory).1 := by
  obtain ⟨-, heq⟩ | ⟨reason, -, heq⟩ | ⟨path, hread, heq⟩ := makeDirectories_cases t directory
  · rw [heq]
    exact .refl _ t
  · rw [heq]
    exact .refl _ t
  · rw [heq]
    obtain rfl := Path.eq_ofString_of_read hread
    refine .ensureDirectory (.refl _) (.ensureAncestors ?_) t
    rw [List.reverse_reverse]
    exact List.dropLast_prefix _

/-- A text that leads to a directory, as a path or because it is empty and stands for the working
directory. -/
def HasDirectory (t : FileTree) (text : String) : Prop :=
  text = "" ∨ ∃ path, Path.read text = .ok path ∧ t.isDirectory path

theorem Grows.hasDirectory {directory : String} (h : Grows t t')
    (hthere : t.HasDirectory directory) : t'.HasDirectory directory := by
  obtain hempty | ⟨path, hread, hpath⟩ := hthere
  · exact .inl hempty
  · exact .inr ⟨path, hread, h.isDirectory hpath⟩

/-- Once directories have been made, they are there. -/
theorem hasDirectory_of_makeDirectories {directory : String}
    (h : t.makeDirectories directory = (u, .ok ())) : u.HasDirectory directory := by
  obtain ⟨hempty, -⟩ | ⟨reason, -, heq⟩ | ⟨path, hread, heq⟩ := makeDirectories_cases t directory
  · exact .inl hempty
  · cases heq.symm.trans h
  · exact .inr ⟨path, hread, isDirectory_of_ensureDirectory (heq.symm.trans h)⟩

/-- Making directories that are there does nothing. -/
theorem HasDirectory.makeDirectories_eq {directory : String} (h : t.HasDirectory directory) :
    t.makeDirectories directory = (t, .ok ()) := by
  rw [makeDirectories, FileSystem.makeDirectories]
  obtain rfl | ⟨path, hread, hpath⟩ := h
  · rw [if_pos rfl, run_pure]
  · split
    · rfl
    · rw [hread]
      exact ensureDirectory_of_isDirectory _ hpath

end CallTable.FileTree
