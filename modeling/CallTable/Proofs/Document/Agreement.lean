import CallTable.Proofs.Document.Fields
import CallTable.Proofs.Document.Lines

/-!
Agreement of the generated documents. Under the strict policy the struct of the table header, the
methods of the class header, and the hooks and the constructor of the class source all speak of
the same entries: the struct in the order of their offsets, the others in the order in which they
are given.
-/

namespace CallTable

open Text (Lacks)

/-- How the documents speak of the same entries. The struct has a field for each cell, among them
one for each entry at its offset. The class header has a method for each entry. The class source
starts with a hook of six lines for each entry, and its constructor first makes the table refer
back and then installs the hooks, so that it sets all fields of the struct but the padding.
Without entries, the methods and the installed hooks leave a line with the margin alone. -/
structure Sources.Agree (p : Profile) (entries : List Entry) (t : Table) (s : Sources) : Prop where
  lines_tableHeader : Text.lines s.tableHeader =
    ["", "#pragma once", "", "class " ++ p.className ++ ";", ""] ++
      (if p.scope.isEmpty then
        ["struct " ++ p.structName, "\x7b"] ++ (t.fields p).map ("    " ++ ·) ++ ["\x7d;"]
      else
        ["namespace " ++ p.scope, "\x7b", "    struct " ++ p.structName, "    \x7b"] ++
          (t.fields p).map ("        " ++ ·) ++ ["    \x7d;", "\x7d"]) ++ [""]
  length_fields : (t.fields p).length = p.geometry.size.toNat / 4
  countP_fields : (t.fields p).countP (· ∈ entries.map (TableHeader.entryField p)) = entries.length
  field_entry : ∀ e ∈ entries,
    (t.fields p)[e.offset.toNat / 4]? = some (TableHeader.entryField p e)
  lines_classHeader : ∃ methods,
    Text.lines s.classHeader = ClassHeader.opening p ++ methods ++ ClassHeader.closing p ++ [""] ∧
      methods = if entries = [] then ["    "] else entries.map fun e =>
        "    virtual " ++ e.returnType ++ " " ++ e.name ++ "(" ++ Entry.listed e.parameters ++ ");"
  lines_classSource : ∃ installs rest,
    Text.lines s.classSource = [""] ++
      (entries.flatMap fun e => ["",
        "static " ++ e.returnType ++ " " ++ p.convention ++ " " ++ e.name ++
          "_wrapper(" ++ Entry.listed e.parameters ++ ")",
        "\x7b",
        ClassSource.trace p e,
        "    " ++ (if e.returnsVoid then "" else "return ") ++ p.accessor ++ "->" ++
          p.ownerField ++ "->" ++ e.name ++ "(" ++ Entry.listed e.argumentNames ++ ");",
        "\x7d"]) ++
      ["", "", p.className ++ "::" ++ p.className ++ "(" ++ p.qualifiedStruct ++ "* impl):",
        "    m_originalImpl(impl), m_impl(*impl)",
        "\x7b",
        "    m_impl." ++ p.ownerField ++ " = this;"] ++ installs ++ ["\x7d", ""] ++ rest ∧
      installs = if entries = [] then ["    "] else entries.map fun e =>
        "    m_impl." ++ e.name ++ " = " ++ e.name ++ "_wrapper;"
  perm_fields : ∃ padding : List UInt32, (t.fields p).Perm
    (TableHeader.ownerField p :: entries.map (TableHeader.entryField p) ++
      padding.map (TableHeader.paddingField p))
  perm_assigned : ((t.cells.filter (!·.isPadding)).map (Cell.fieldName p)).Perm
    (p.ownerField :: entries.map Entry.name)

theorem Text.block_map {α : Type} (margin : String) (f : α → String) (l : List α) :
    Text.block margin (l.map f) = if l = [] then [margin] else l.map fun a => margin ++ f a := by
  by_cases h : l = []
  · simp [h, Text.block]
  · rw [Text.block_of_ne_nil (by simpa using h), if_neg h, List.map_map]
    rfl

namespace ClassSource

variable {p : Profile} {entries : List Entry}

theorem hook_eq (p : Profile) (e : Entry) : hook p e = ["",
    "static " ++ e.returnType ++ " " ++ p.convention ++ " " ++ e.name ++
      "_wrapper(" ++ Entry.listed e.parameters ++ ")",
    "\x7b",
    trace p e,
    "    " ++ (if e.returnsVoid then "" else "return ") ++ p.accessor ++ "->" ++
      p.ownerField ++ "->" ++ e.name ++ "(" ++ Entry.listed e.argumentNames ++ ");",
    "\x7d"] := by
  have hhead : "static " ++ e.returnType ++ " " ++ p.convention ++ " " ++ hookName e ++
      parameterList e = "static " ++ e.returnType ++ " " ++ p.convention ++ " " ++ e.name ++
        "_wrapper(" ++ Entry.listed e.parameters ++ ")" := by
    simp [← String.toList_inj, hookName, parameterList]
  have hcall : handOn e (p.accessor ++ "->" ++ p.ownerField ++ "->" ++ e.name ++ argumentList e) =
      "    " ++ (if e.returnsVoid then "" else "return ") ++ p.accessor ++ "->" ++
        p.ownerField ++ "->" ++ e.name ++ "(" ++ Entry.listed e.argumentNames ++ ");" := by
    simp [← String.toList_inj, handOn, argumentList]
  rw [hook, hhead, hcall]

theorem block_install :
    Text.block "    " (entries.map install) =
      if entries = [] then ["    "] else entries.map fun e =>
        "    m_impl." ++ e.name ++ " = " ++ e.name ++ "_wrapper;" := by
  have hline (e : Entry) : "    " ++ install e =
      "    m_impl." ++ e.name ++ " = " ++ e.name ++ "_wrapper;" := by
    simp [← String.toList_inj, install, hookName]
  rw [Text.block_map]
  simp only [hline]

end ClassSource

theorem ClassHeader.block_method {entries : List Entry} :
    Text.block "    " (entries.map method) =
      if entries = [] then ["    "] else entries.map fun e =>
        "    virtual " ++ e.returnType ++ " " ++ e.name ++ "(" ++ Entry.listed e.parameters ++
          ");" := by
  have hline (e : Entry) : "    " ++ method e =
      "    virtual " ++ e.returnType ++ " " ++ e.name ++ "(" ++ Entry.listed e.parameters ++
        ");" := by
    simp [← String.toList_inj, method]
  rw [Text.block_map]
  simp only [hline]

/-- The lines of a table header whose struct has fields at all. -/
theorem TableHeader.lines_eq {p : Profile} {t : Table} (h : t.fields p ≠ []) :
    lines p t = ["", "#pragma once", "", "class " ++ p.className ++ ";", ""] ++
      if p.scope.isEmpty then
        ["struct " ++ p.structName, "\x7b"] ++ (t.fields p).map ("    " ++ ·) ++ ["\x7d;"]
      else
        ["namespace " ++ p.scope, "\x7b", "    struct " ++ p.structName, "    \x7b"] ++
          (t.fields p).map ("        " ++ ·) ++ ["    \x7d;", "\x7d"] := by
  rw [lines, opening, body, Text.block_of_ne_nil h, Text.block_of_ne_nil h]

theorem Admissible.singleLine {g : Geometry} {entries : List Entry} (h : Admissible g entries)
    (htypes : ∀ e ∈ entries, ∀ s ∈ e.types, Lacks '\n' s) : ∀ e ∈ entries, e.SingleLine := by
  intro e he
  have hword := Text.isWord_of_isIdentifier (h.sound e he).isIdentifier_name
  exact ⟨hword.lacks (by decide), htypes e he⟩

theorem LaidOut.singleLine {g : Geometry} {entries : List Entry} {cells : List Cell}
    (h : LaidOut g entries cells) (hentries : ∀ e ∈ entries, e.SingleLine) :
    ∀ c ∈ cells, c.SingleLine := by
  intro c hc e he
  cases c with
  | function o d =>
      rw [← Option.some.inj he]
      exact hentries d (h.function_mem_iff.1 hc).1
  | padding o => cases he
  | backReference o => cases he

/-- From accepted entries the strict policy generates sources, and if all texts are free of line
feeds, these agree on the entries. -/
theorem agree_of_accept_strict (p : Profile) (entries : List Entry)
    (hpolicy : p.policy = .strict) (h : (accept p.geometry entries).result = .ok ())
    (hp : ∀ x ∈ p.texts, Lacks '\n' x) (htypes : ∀ e ∈ entries, ∀ x ∈ e.types, Lacks '\n' x) :
    ∃ t s, (Table.arrange p entries).result = .ok t ∧
      (Sources.ofEntries p entries).result = .ok s ∧ s.Agree p entries t := by
  obtain ⟨hg, hentries⟩ := accept_eq_ok_iff_admissible.1 h
  have ht := (arrange_eq_ok_iff_of_strict hpolicy).2 ⟨⟨hg, hentries⟩, rfl⟩
  have hlayout := hentries.laidOut hg
  have hsingle := hentries.singleLine htypes
  have hlength : (Table.fields ⟨p.geometry, p.geometry.finalCells entries⟩ p).length =
      p.geometry.size.toNat / 4 := by
    rw [Table.fields, List.length_map, hlayout.length_cells]
  refine ⟨_, _, ht, Reported.bind_eq_ok_iff.2 ⟨_, ht, rfl⟩, ?tableHeader, hlength,
    hlayout.countP_entryFields, ?entryFields, ?classHeader, ?classSource,
    hlayout.perm_fields hentries.nodup_offsets.of_map,
    hlayout.perm_fieldNames hentries.nodup_offsets.of_map⟩
  case tableHeader =>
    -- a table has at least one cell, so that its struct is not left with a bare margin
    have hfields : Table.fields ⟨p.geometry, p.geometry.finalCells entries⟩ p ≠ [] := by
      rw [← List.length_pos_iff, hlength]
      exact Nat.zero_lt_of_lt hg.backIndex_lt
    rw [Sources.ofTable, TableHeader.lines_unlines hp (hlayout.singleLine hsingle),
      TableHeader.lines_eq hfields]
  case entryFields =>
    intro e he
    have hcell := (hlayout.function_iff _ e.offset e).2 ⟨he, rfl, rfl⟩
    rw [Table.fields, List.getElem?_map, hcell, Option.map_some, Cell.render_plain_function]
  case classHeader =>
    refine ⟨_, ?_, ClassHeader.block_method⟩
    rw [Sources.ofTable, ClassHeader.lines_unlines hp hsingle, ClassHeader.lines]
  case classSource =>
    refine ⟨_, ClassSource.getter p ++ [""] ++ entries.flatMap (ClassSource.method p) ++
      [""] ++ [""], ?_, ClassSource.block_install⟩
    have hhooks : entries.flatMap (ClassSource.hook p) = _ :=
      List.flatMap_congr fun e _ => ClassSource.hook_eq p e
    rw [Sources.ofTable, ClassSource.lines_unlines hp hsingle, ClassSource.lines,
      ClassSource.constructor, hhooks]
    simp only [List.append_assoc, List.cons_append, List.nil_append]

/-- Two functions that are given in another order than their cells come in, one of them without a
result. -/
theorem agree_of_accept_strict_reversed :
    ({ geometry := ⟨16, 4⟩ } : Profile).policy = .strict ∧
      (accept ⟨16, 4⟩ [⟨12, "void", "Last", ["u32"]⟩, ⟨0, "u32", "First", []⟩]).result = .ok () ∧
      (∀ x ∈ ({ geometry := ⟨16, 4⟩ } : Profile).texts, Lacks '\n' x) ∧
      (∀ e ∈ [(⟨12, "void", "Last", ["u32"]⟩ : Entry), ⟨0, "u32", "First", []⟩],
        ∀ x ∈ e.types, Lacks '\n' x) ∧
      ∃ t s, (Table.arrange { geometry := ⟨16, 4⟩ }
          [⟨12, "void", "Last", ["u32"]⟩, ⟨0, "u32", "First", []⟩]).result = .ok t ∧
        (Sources.ofEntries { geometry := ⟨16, 4⟩ }
          [⟨12, "void", "Last", ["u32"]⟩, ⟨0, "u32", "First", []⟩]).result = .ok s ∧
        s.Agree { geometry := ⟨16, 4⟩ }
          [⟨12, "void", "Last", ["u32"]⟩, ⟨0, "u32", "First", []⟩] t :=
  ⟨rfl, rfl, by decide, by decide,
    agree_of_accept_strict { geometry := ⟨16, 4⟩ } _ rfl rfl (by decide) (by decide)⟩

end CallTable
