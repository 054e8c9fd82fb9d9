import CallTable.Proofs.Document.Agreement

/-!
The names that the documents declare. The fields of the struct are named after their offsets, by the
profile and after the entries, and next to the methods and hooks of the entries the class has names
of its own. Acceptance compares the names of entries with each other only, so an entry can take a
name that is there already. This is the only way for two names to be the same.
-/

namespace CallTable

/-- A line that declares a name, with what stands around it. -/
structure Declaration where
  front : String
  name : String
  back : String

def Declaration.text (d : Declaration) : String := d.front ++ d.name ++ d.back

/-! ### Fields of the struct -/

/-- The field that a cell is declared as. -/
def Cell.declaration (p : Profile) : Cell → Declaration
  | .padding o => ⟨tag o ++ " " ++ p.paddingType ++ " ", paddingName o, ";"⟩
  | .backReference o => ⟨tag o ++ " " ++ p.className ++ "* ", p.ownerField, ";"⟩
  | .function _ e =>
      ⟨tag e.offset ++ " " ++ e.returnType ++ " (" ++ p.convention ++ " *", e.name,
        ")(" ++ Entry.listed e.parameters ++ ");"⟩

namespace Table

def declarations (t : Table) (p : Profile) : List Declaration := t.cells.map (Cell.declaration p)

def fieldNames (t : Table) (p : Profile) : List String :=
  (t.declarations p).map Declaration.name

theorem map_text_declarations (t : Table) (p : Profile) :
    (t.declarations p).map Declaration.text = t.fields p := by
  rw [declarations, fields, List.map_map]
  refine List.map_congr_left fun c _ => ?_
  cases c <;>
    simp [Cell.declaration, Declaration.text, Cell.render, Palette.plain, String.append_assoc]

theorem fieldNames_eq (t : Table) (p : Profile) :
    t.fieldNames p = t.cells.map (Cell.fieldName p) := by
  rw [fieldNames, declarations, List.map_map]
  refine List.map_congr_left fun c _ => ?_
  cases c <;> rfl

end Table

theorem Cell.paddingName_injective {a b : UInt32} (h : paddingName a = paddingName b) : a = b := by
  have hdigits := congrArg String.toList h
  simp only [paddingName, String.toList_append, List.append_cancel_left_eq] at hdigits
  exact UInt32.toNat_inj.1 (Text.hex_injective (String.toList_injective hdigits))

namespace LaidOut

variable {p : Profile} {g : Geometry} {entries : List Entry} {cells : List Cell}

/-- No two cells of padding have the same name. -/
theorem nodup_paddingNames (h : LaidOut g entries cells) :
    ((cells.filter Cell.isPadding).map (Cell.fieldName p)).Nodup := by
  refine List.Nodup.map_on ?_ (h.nodup_cells.filter _)
  intro c hc d hd hname
  obtain ⟨hc, hcpadding⟩ := List.mem_filter.1 hc
  obtain ⟨hd, hdpadding⟩ := List.mem_filter.1 hd
  cases c <;> cases d <;> cases hcpadding <;> cases hdpadding
  rw [Cell.paddingName_injective hname]

theorem mem_paddingNames {name : String} :
    name ∈ (cells.filter Cell.isPadding).map (Cell.fieldName p) ↔
      ∃ o, .padding o ∈ cells ∧ Cell.paddingName o = name := by
  constructor
  · intro hname
    obtain ⟨c, hc, rfl⟩ := List.mem_map.1 hname
    obtain ⟨hc, hpadding⟩ := List.mem_filter.1 hc
    cases c <;> cases hpadding
    exact ⟨_, hc, rfl⟩
  · rintro ⟨o, ho, rfl⟩
    exact List.mem_map.2 ⟨.padding o, List.mem_filter.2 ⟨ho, rfl⟩, rfl⟩

/-- The names of the fields differ if and only if those that come from the entries differ from the
name of the field that refers back and from those of the padding, and these differ from each
other. -/
theorem nodup_fieldNames (h : LaidOut g entries cells) (hnames : (entries.map Entry.name).Nodup) :
    (cells.map (Cell.fieldName p)).Nodup ↔
      (∀ o, .padding o ∈ cells → Cell.paddingName o ≠ p.ownerField) ∧
      (∀ e ∈ entries, e.name ≠ p.ownerField) ∧
      ∀ e ∈ entries, ∀ o, .padding o ∈ cells → e.name ≠ Cell.paddingName o := by
  have hperm := (h.perm_cells hnames.of_map).map (Cell.fieldName p)
  have hfunctions : (entries.map fun e => Cell.function e.offset e).map (Cell.fieldName p) =
      entries.map Entry.name := by
    rw [List.map_map]
    rfl
  rw [List.map_append, List.map_cons, hfunctions] at hperm
  rw [hperm.nodup_iff, List.cons_append, List.nodup_cons, List.nodup_append]
  simp only [hnames, h.nodup_paddingNames, true_and, List.mem_append, mem_paddingNames,
    Cell.fieldName, not_or]
  constructor
  · rintro ⟨⟨hentry, hpadding⟩, hdisjoint⟩
    refine ⟨fun o ho hname => hpadding ⟨o, ho, hname⟩, fun e he hname => hentry ?_, ?_⟩
    · exact List.mem_map.2 ⟨e, he, hname⟩
    · exact fun e he o ho => hdisjoint e.name (List.mem_map_of_mem he) _ ⟨o, ho, rfl⟩
  · rintro ⟨hpadding, hentry, hdisjoint⟩
    refine ⟨⟨?_, ?_⟩, ?_⟩
    · intro hmem
      obtain ⟨e, he, hname⟩ := List.mem_map.1 hmem
      exact hentry e he hname
    · rintro ⟨o, ho, hname⟩
      exact hpadding o ho hname
    · rintro _ hmem _ ⟨o, ho, rfl⟩
      obtain ⟨e, he, rfl⟩ := List.mem_map.1 hmem
      exact hdisjoint e he o ho

end LaidOut

/-- In a struct with the usual names, fields have different names if and only if no entry is called
like the field that refers back or like padding of the table. A name that the constructor sets then
belongs to one field. -/
theorem nodup_fieldNames_iff (g : Geometry) (entries : List Entry) (s : Sources)
    (h : (Sources.ofEntries { geometry := g } entries).result = .ok s) :
    ∃ t, (Table.arrange { geometry := g } entries).result = .ok t ∧
      s.tableHeader = Text.unlines (TableHeader.lines { geometry := g } t) ∧
      t.fields { geometry := g } =
        (t.declarations { geometry := g }).map Declaration.text ∧
      ((t.fieldNames { geometry := g }).Nodup ↔
        (∀ e ∈ entries, e.name ≠ "rendererInstance") ∧
        ∀ e ∈ entries, ∀ o, .padding o ∈ t.cells → e.name ≠ "dword" ++ Text.hex o.toNat) ∧
      ((t.fieldNames { geometry := g }).Nodup →
        ∀ name ∈ "rendererInstance" :: entries.map Entry.name,
          (t.fieldNames { geometry := g }).count name = 1) := by
  obtain ⟨⟨hg, hentries⟩, rfl⟩ := (ofEntries_eq_ok_iff_of_strict rfl).1 h
  have ht := (arrange_eq_ok_iff_of_strict (p := { geometry := g }) rfl).2 ⟨⟨hg, hentries⟩, rfl⟩
  dsimp only [Sources.ofTable]
  have hlayout := hentries.laidOut hg
  refine ⟨_, ht, rfl, (Table.map_text_declarations _ _).symm, ?names, ?assigned⟩
  case names =>
    have hpadding (o : UInt32) : Cell.paddingName o ≠ "rendererInstance" := by
      simp [Cell.paddingName, ← String.toList_inj]
    rw [Table.fieldNames_eq, hlayout.nodup_fieldNames hentries.nodup_names]
    exact and_iff_right fun o _ => hpadding o
  case assigned =>
    intro hnodup name hname
    refine List.count_eq_one_of_mem hnodup ?_
    have hassigned : name ∈ ((Geometry.finalCells g entries).filter (!·.isPadding)).map
        (Cell.fieldName { geometry := g }) :=
      (hlayout.perm_fieldNames hentries.nodup_names.of_map).mem_iff.2 hname
    obtain ⟨c, hc, rfl⟩ := List.mem_map.1 hassigned
    rw [Table.fieldNames_eq]
    exact List.mem_map_of_mem (List.mem_filter.1 hc).1

/-- Names that only look like those of padding: the cells that padding would be called so in are
taken. -/
theorem nodup_fieldNames_iff_dword :
    ∃ s, (Sources.ofEntries { geometry := ⟨16, 4⟩ }
        [⟨12, "void", "dword04", ["u32"]⟩, ⟨0, "u32", "dword00", []⟩]).result = .ok s ∧
      Table.fieldNames ⟨⟨16, 4⟩, [.function 0 ⟨0, "u32", "dword00", []⟩, .backReference 4,
          .padding 8, .function 12 ⟨12, "void", "dword04", ["u32"]⟩]⟩ { geometry := ⟨16, 4⟩ } =
        ["dword00", "rendererInstance", "dword08", "dword04"] ∧
      ["dword00", "rendererInstance", "dword08", "dword04"].Nodup := by
  obtain ⟨t, ht, _, _, hnames, _⟩ := nodup_fieldNames_iff ⟨16, 4⟩
    [⟨12, "void", "dword04", ["u32"]⟩, ⟨0, "u32", "dword00", []⟩] _ rfl
  obtain rfl : ⟨⟨16, 4⟩, [.function 0 ⟨0, "u32", "dword00", []⟩, .backReference 4, .padding 8,
      .function 12 ⟨12, "void", "dword04", ["u32"]⟩]⟩ = t := Except.ok.inj ht
  refine ⟨_, rfl, rfl, hnames.2 ⟨by decide, fun e he o ho => ?_⟩⟩
  obtain rfl : o = 8 := by simpa using ho
  revert e
  decide

/-- An entry called like the field that refers back is accepted, and the struct gets two fields of
that name. -/
theorem not_nodup_fieldNames_rendererInstance :
    ∃ s t, (Sources.ofEntries { geometry := ⟨8, 4⟩ }
        [⟨0, "u32", "rendererInstance", []⟩]).result = .ok s ∧
      (Table.arrange { geometry := ⟨8, 4⟩ } [⟨0, "u32", "rendererInstance", []⟩]).result = .ok t ∧
      t.fieldNames { geometry := ⟨8, 4⟩ } = ["rendererInstance", "rendererInstance"] ∧
      ¬(t.fieldNames { geometry := ⟨8, 4⟩ }).Nodup :=
  ⟨_, _, rfl, rfl, rfl, by decide⟩

/-! ### Names in the class -/

namespace ClassHeader

/-- What the class declares beside its destructor: its constructor and the getter, a method for each
entry, and two members for the tables. -/
def declarations (p : Profile) (entries : List Entry) : List Declaration :=
  [⟨"    ", p.className, "(" ++ p.qualifiedStruct ++ "* impl);"⟩,
    ⟨"    " ++ p.qualifiedStruct ++ "* ", "GetFunctions", "();"⟩]
  ++ entries.map (fun e => ⟨"    virtual " ++ e.returnType ++ " ", e.name,
      "(" ++ Entry.listed e.parameters ++ ");"⟩)
  ++ [⟨"    " ++ p.qualifiedStruct ++ "* const ", "m_originalImpl", ";"⟩,
    ⟨"    " ++ p.qualifiedStruct ++ " ", "m_impl", ";"⟩]

theorem sublist_declarations (p : Profile) (entries : List Entry) :
    ((declarations p entries).map Declaration.text).Sublist (lines p entries) := by
  have hfront : [⟨"    ", p.className, "(" ++ p.qualifiedStruct ++ "* impl);"⟩,
      ⟨"    " ++ p.qualifiedStruct ++ "* ", "GetFunctions", "();"⟩].map Declaration.text =
        ((opening p).drop 8).take 2 := by
    simp [opening, Declaration.text, ← String.toList_inj]
  have hback : [⟨"    " ++ p.qualifiedStruct ++ "* const ", "m_originalImpl", ";"⟩,
      ⟨"    " ++ p.qualifiedStruct ++ " ", "m_impl", ";"⟩].map Declaration.text =
        ((closing p).drop 2).take 2 := by
    simp [closing, Declaration.text, ← String.toList_inj]
  have hmethods : ((entries.map fun e => Declaration.mk ("    virtual " ++ e.returnType ++ " ")
      e.name ("(" ++ Entry.listed e.parameters ++ ");")).map Declaration.text).Sublist
        (Text.block "    " (entries.map method)) := by
    rw [block_method, List.map_map]
    split
    · next hempty => simp [hempty]
    · simp [Function.comp_def, Declaration.text, String.append_assoc]
  rw [declarations, List.map_append, List.map_append, hfront, hback, lines]
  exact (((List.take_sublist ..).trans (List.drop_sublist ..)).append hmethods).append
    ((List.take_sublist ..).trans (List.drop_sublist ..))

end ClassHeader

namespace ClassSource

/-- The hooks are declared outside of the class. -/
def declarations (p : Profile) (entries : List Entry) : List Declaration :=
  entries.map fun e => ⟨"static " ++ e.returnType ++ " " ++ p.convention ++ " ", hookName e,
    parameterList e⟩

theorem text_declaration_mem_hook (p : Profile) (e : Entry) :
    "static " ++ e.returnType ++ " " ++ p.convention ++ " " ++ hookName e ++ parameterList e ∈
      hook p e := by
  simp [hook]

theorem sublist_declarations (p : Profile) (entries : List Entry) :
    ((declarations p entries).map Declaration.text).Sublist (lines p entries) := by
  have hhooks : ((declarations p entries).map Declaration.text).Sublist
      (entries.flatMap (hook p)) := by
    induction entries with
    | nil => exact List.Sublist.refl _
    | cons e rest ih =>
        have hhead := List.singleton_sublist.2 (text_declaration_mem_hook p e)
        exact hhead.append ih
  refine hhooks.trans (List.IsInfix.sublist ⟨[""], ["", ""] ++ constructor p entries ++ [""] ++
    getter p ++ [""] ++ entries.flatMap (method p) ++ [""], ?_⟩)
  simp [lines]

end ClassSource

/-- Hooks have different names if the entries do. -/
theorem ClassSource.nodup_hookNames {entries : List Entry}
    (hnames : (entries.map Entry.name).Nodup) : (entries.map hookName).Nodup := by
  have hinjective : Function.Injective fun name : String => name ++ "_wrapper" := by
    intro a b h
    have hlists := congrArg String.toList h
    simp only [String.toList_append, List.append_cancel_right_eq] at hlists
    exact String.toList_injective hlists
  have hmap : entries.map hookName = (entries.map Entry.name).map (· ++ "_wrapper") := by
    rw [List.map_map]
    rfl
  rw [hmap]
  exact hnames.map hinjective

section

variable {p : Profile} {entries : List Entry}

/-- The names that the class has for itself. -/
def Profile.ownNames (p : Profile) : List String :=
  [p.className, "GetFunctions", "m_originalImpl", "m_impl"]

/-- All names that the header and the source of the class declare. -/
def Sources.classNames (p : Profile) (entries : List Entry) : List String :=
  (ClassHeader.declarations p entries ++ ClassSource.declarations p entries).map Declaration.name

theorem perm_classNames : (Sources.classNames p entries).Perm
    (p.ownNames ++ entries.map Entry.name ++ entries.map ClassSource.hookName) := by
  have hheader : (ClassHeader.declarations p entries).map Declaration.name =
      [p.className, "GetFunctions"] ++
        (entries.map Entry.name ++ ["m_originalImpl", "m_impl"]) := by
    simp [ClassHeader.declarations]
  have hsource : (ClassSource.declarations p entries).map Declaration.name =
      entries.map ClassSource.hookName := by
    simp [ClassSource.declarations]
  rw [Sources.classNames, List.map_append, hheader, hsource]
  exact (List.perm_append_comm.append_left [p.className, "GetFunctions"]).append_right _

/-- If neither the class nor any hook stands in the way, the names of the class differ if and only
if no entry takes one of its own names or that of a hook. -/
theorem nodup_classNames (hown : p.ownNames.Nodup)
    (hhooks : ∀ e ∈ entries, ClassSource.hookName e ∉ p.ownNames)
    (hnames : (entries.map Entry.name).Nodup) :
    (Sources.classNames p entries).Nodup ↔
      (∀ e ∈ entries, e.name ∉ p.ownNames) ∧
      ∀ d ∈ entries, ∀ e ∈ entries, e.name ≠ ClassSource.hookName d := by
  rw [perm_classNames.nodup_iff, List.nodup_append, List.nodup_append]
  simp only [hown, hnames, ClassSource.nodup_hookNames hnames, true_and, List.mem_append]
  constructor
  · rintro ⟨hentries, hdisjoint⟩
    refine ⟨fun e he hname => ?_, fun d hd e he => ?_⟩
    · exact hentries _ hname _ (List.mem_map_of_mem he) rfl
    · exact hdisjoint _ (.inr (List.mem_map_of_mem he)) _ (List.mem_map_of_mem hd)
  · rintro ⟨hentries, hdisjoint⟩
    constructor
    · rintro name hname _ hmem rfl
      obtain ⟨e, he, rfl⟩ := List.mem_map.1 hmem
      exact hentries e he hname
    · rintro name hname _ hmem rfl
      obtain ⟨d, hd, rfl⟩ := List.mem_map.1 hmem
      rcases hname with hname | hname
      · exact hhooks d hd hname
      · obtain ⟨e, he, hsame⟩ := List.mem_map.1 hname
        exact hdisjoint d hd e he hsame

end

/-- In a class with the usual names, all names differ if and only if no entry is called like the
class, its getter or one of its members, nor like the hook of an entry. -/
theorem nodup_classNames_iff (g : Geometry) (entries : List Entry) (s : Sources)
    (h : (Sources.ofEntries { geometry := g } entries).result = .ok s) :
    s.classHeader = Text.unlines (ClassHeader.lines { geometry := g } entries) ∧
      ((ClassHeader.declarations { geometry := g } entries).map Declaration.text).Sublist
        (ClassHeader.lines { geometry := g } entries) ∧
      s.classSource = Text.unlines (ClassSource.lines { geometry := g } entries) ∧
      ((ClassSource.declarations { geometry := g } entries).map Declaration.text).Sublist
        (ClassSource.lines { geometry := g } entries) ∧
      ((Sources.classNames { geometry := g } entries).Nodup ↔
        (∀ e ∈ entries,
          e.name ∉ ["GfxContextBase", "GetFunctions", "m_originalImpl", "m_impl"]) ∧
        ∀ d ∈ entries, ∀ e ∈ entries, e.name ≠ d.name ++ "_wrapper") := by
  obtain ⟨⟨_, hentries⟩, rfl⟩ := (ofEntries_eq_ok_iff_of_strict rfl).1 h
  dsimp only [Sources.ofTable]
  have hown : Profile.ownNames { geometry := g } =
      ["GfxContextBase", "GetFunctions", "m_originalImpl", "m_impl"] := rfl
  refine ⟨rfl, ClassHeader.sublist_declarations _ _, rfl, ClassSource.sublist_declarations _ _,
    nodup_classNames (p := { geometry := g }) (by rw [hown]; decide) ?_ hentries.nodup_names⟩
  -- none of the names of the class ends like that of a hook
  have hlast : ∀ name ∈ ["GfxContextBase", "GetFunctions", "m_originalImpl", "m_impl"],
      name.toList.getLast? ≠ some 'r' := by
    decide
  intro e _ hname
  exact hlast _ hname (by simp [ClassSource.hookName])

/-- A method may be called like a hook, if it is not the hook of an entry. -/
theorem nodup_classNames_iff_wrapper :
    ∃ s, (Sources.ofEntries { geometry := ⟨16, 4⟩ }
        [⟨12, "void", "Clear_wrapper", ["u32"]⟩, ⟨0, "u32", "ClearAll", []⟩]).result = .ok s ∧
      Sources.classNames { geometry := ⟨16, 4⟩ }
          [⟨12, "void", "Clear_wrapper", ["u32"]⟩, ⟨0, "u32", "ClearAll", []⟩] =
        ["GfxContextBase", "GetFunctions", "Clear_wrapper", "ClearAll", "m_originalImpl", "m_impl",
          "Clear_wrapper_wrapper", "ClearAll_wrapper"] ∧
      ["GfxContextBase", "GetFunctions", "Clear_wrapper", "ClearAll", "m_originalImpl", "m_impl",
        "Clear_wrapper_wrapper", "ClearAll_wrapper"].Nodup :=
  ⟨_, rfl, rfl, (nodup_classNames_iff ⟨16, 4⟩
    [⟨12, "void", "Clear_wrapper", ["u32"]⟩, ⟨0, "u32", "ClearAll", []⟩] _ rfl).2.2.2.2.2
      ⟨by decide, by decide⟩⟩

/-- An entry called like the hook of another is accepted, and its method has the name of that
hook. -/
theorem not_nodup_classNames_wrapper :
    ∃ s, (Sources.ofEntries { geometry := ⟨12, 4⟩ }
        [⟨0, "u32", "Clear", []⟩, ⟨8, "u32", "Clear_wrapper", []⟩]).result = .ok s ∧
      Sources.classNames { geometry := ⟨12, 4⟩ }
          [⟨0, "u32", "Clear", []⟩, ⟨8, "u32", "Clear_wrapper", []⟩] =
        ["GfxContextBase", "GetFunctions", "Clear", "Clear_wrapper", "m_originalImpl", "m_impl",
          "Clear_wrapper", "Clear_wrapper_wrapper"] ∧
      ¬(Sources.classNames { geometry := ⟨12, 4⟩ }
          [⟨0, "u32", "Clear", []⟩, ⟨8, "u32", "Clear_wrapper", []⟩]).Nodup :=
  ⟨_, rfl, rfl, by decide⟩

end CallTable
