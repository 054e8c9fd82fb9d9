import CallTable.Proofs.Document.Agreement
import Mathlib.Data.List.DropRight

/-!
Reading the headers back. The methods of the class header give the signatures of the entries in
order, as long as no type contains a character that has a meaning between types, and the fields of
the struct give the offset of each name. Together the two headers give the entries that they were
made from.
-/

namespace CallTable

open Text (Lacks before after beforeLast afterLast)

/-- All of an entry but its offset. -/
structure Signature where
  returnType : String
  name : String
  argTypes : List String
deriving DecidableEq

/-- What is left of a list without its ends. -/
theorem drop_rdrop_append {α : Type} {front middle back : List α} {m n : Nat}
    (hm : front.length = m) (hn : back.length = n) :
    ((front ++ middle ++ back).drop m).rdrop n = middle := by
  subst hm hn
  simp [List.rdrop]

/-- A line without its first characters. -/
def unindent (width : Nat) (line : String) : String := String.ofList (line.toList.drop width)

namespace Entry

def signature (e : Entry) : Signature := ⟨e.returnType, e.name, e.argTypes⟩

/-- The types of the entry can be told apart where they are written one after another. -/
structure Readable (e : Entry) : Prop where
  name : Text.IsWord e.name
  types : ∀ s ∈ e.types, Lacks '\n' s ∧ Lacks ',' s ∧ Lacks '(' s ∧ Lacks ')' s

/-- Types are found in front of the names of their arguments, which contain no blank. -/
def readTypes (parameters : String) : List String :=
  if parameters = "" then []
  else (Text.split ", " parameters).map fun piece => String.ofList (beforeLast ' ' piece.toList)

variable {e : Entry}

theorem Readable.singleLine (he : e.Readable) : e.SingleLine :=
  ⟨he.name.lacks (by decide), fun s hs => (he.types s hs).1⟩

theorem Readable.parameters_lack (he : e.Readable) : ∀ m ∈ e.parameters, Lacks ',' m :=
  lacks_of_mem_parameters (by decide) (by decide) fun s hs =>
    (he.types s (List.mem_cons_of_mem _ hs)).2.1

/-- A list of parameters is not empty if there are any. -/
theorem listed_parameters_ne_empty (he : e.Readable) (hne : e.parameters ≠ []) :
    listed e.parameters ≠ "" := by
  intro hempty
  have hpieces := split_listed hne he.parameters_lack
  have hnothing : Text.split ", " "" = [""] := by simp [Text.split, Text.splitChars]
  rw [hempty, hnothing] at hpieces
  have hpiece : "" ∈ e.parameters := hpieces ▸ List.mem_singleton_self ""
  rw [parameters_eq_mapIdx, List.mem_mapIdx] at hpiece
  obtain ⟨i, hi, heq⟩ := hpiece
  simp at heq

theorem readTypes_listed (he : e.Readable) : readTypes (listed e.parameters) = e.argTypes := by
  by_cases hempty : e.parameters = []
  · have harity : e.argTypes = [] := by simpa [hempty, arity] using e.length_parameters.symm
    rw [harity]
    simp [hempty, listed, readTypes]
  · rw [readTypes, if_neg (listed_parameters_ne_empty he hempty),
      split_listed hempty he.parameters_lack, parameters_eq_mapIdx]
    refine List.ext_getElem (by simp) fun i _ _ => ?_
    have hname : ' ' ∉ (argumentName i).toList := (Text.isWord_argumentName i).lacks (by decide)
    simp [Text.beforeLast_append_cons hname]

end Entry

namespace ClassHeader

/-- The signature that a line of a method declares, behind its margin and `virtual`. -/
def readMethod (line : String) : Signature where
  returnType := String.ofList (beforeLast ' ' (before '(' (line.toList.drop 12)))
  name := String.ofList (afterLast ' ' (before '(' (line.toList.drop 12)))
  argTypes := Entry.readTypes (String.ofList (beforeLast ')' (after '(' (line.toList.drop 12))))

/-- The signatures that a class header declares. There are eleven lines in front of the methods and
five behind, and a margin alone stands in place of methods if there are none. -/
def read (document : String) : List Signature :=
  ((((Text.lines document).drop 11).rdrop 6).filter (· ≠ "    ")).map readMethod

theorem readMethod_method {e : Entry} (he : e.Readable) :
    readMethod ("    " ++ method e) = e.signature := by
  have hline : ("    " ++ method e).toList.drop 12 =
      (e.returnType.toList ++ ' ' :: e.name.toList) ++
        '(' :: ((Entry.listed e.parameters).toList ++ ')' :: [';']) := by
    simp [method]
  have hname : '(' ∉ e.name.toList ∧ ' ' ∉ e.name.toList :=
    ⟨he.name.lacks (by decide), he.name.lacks (by decide)⟩
  have hreturn : '(' ∉ e.returnType.toList := (he.types _ List.mem_cons_self).2.2.1
  have hfront : '(' ∉ e.returnType.toList ++ ' ' :: e.name.toList := by
    simp [hreturn, hname.1]
  rw [readMethod, hline, Text.before_append_cons hfront, Text.after_append_cons hfront,
    Text.beforeLast_append_cons hname.2, Text.afterLast_append_cons hname.2,
    Text.beforeLast_append_cons (by decide)]
  simp [Entry.signature, Entry.readTypes_listed he]

/-- A margin alone is no method. -/
theorem filter_block_method (entries : List Entry) :
    (Text.block "    " (entries.map method)).filter (· ≠ "    ") =
      entries.map fun e => "    " ++ method e := by
  rw [Text.block_map]
  split
  · next hempty => simp [hempty]
  · rw [List.filter_eq_self]
    intro line hline
    obtain ⟨e, _, rfl⟩ := List.mem_map.1 hline
    simp [← String.toList_inj, method]

theorem read_unlines {p : Profile} {entries : List Entry} (hp : ∀ s ∈ p.texts, Lacks '\n' s)
    (hentries : ∀ e ∈ entries, e.Readable) :
    read (Text.unlines (lines p entries)) = entries.map Entry.signature := by
  have hinner : ((lines p entries ++ [""]).drop 11).rdrop 6 =
      Text.block "    " (entries.map method) := by
    rw [lines, List.append_assoc]
    exact drop_rdrop_append rfl rfl
  rw [read, lines_unlines hp fun e he => (hentries e he).singleLine, hinner, filter_block_method,
    List.map_map]
  exact List.map_congr_left fun e he => readMethod_method (hentries e he)

end ClassHeader

namespace TableHeader

/-- The fields of the struct that a table header declares. The struct is indented by the scope
around it, if there is one. -/
def readFields (p : Profile) (document : String) : List String :=
  if p.scope.isEmpty then
    (((Text.lines document).drop 7).rdrop 2).map (unindent 4)
  else
    (((Text.lines document).drop 9).rdrop 3).map (unindent 8)

/-- The name that a field gives to a function, with its offset. A field that refers back is known by
its text, and padding does not end in a list of parameters. -/
def readField (p : Profile) (field : String) : Option (String × UInt32) :=
  if field = ownerField p then none
  else if field.toList.dropLast.getLast? = some ')' then
    some (String.ofList (before ')' ((after '(' field.toList).drop (p.convention.length + 2))),
      UInt32.ofNat (Text.hexValue (before ' ' (field.toList.drop 5))))
  else none

/-- The names of the functions that a table header declares, with their offsets. -/
def readOffsets (p : Profile) (document : String) : List (String × UInt32) :=
  (readFields p document).filterMap (readField p)

variable {p : Profile}

theorem unindent_append (margin line : String) :
    unindent margin.length (margin ++ line) = line := by
  rw [unindent, String.toList_append, List.drop_left' (String.length_toList ..),
    String.ofList_toList]

/-- Fields are what remains of the inner lines of a document behind their margin. -/
theorem map_unindent_inner (margin : String) {fields front back : List String} {m n : Nat}
    (hm : front.length = m) (hn : back.length = n) :
    (((front ++ fields.map (margin ++ ·) ++ back).drop m).rdrop n).map (unindent margin.length) =
      fields := by
  rw [drop_rdrop_append hm hn, List.map_map]
  exact List.map_id'' (unindent_append margin) fields

theorem readFields_unlines {t : Table} (hp : ∀ s ∈ p.texts, Lacks '\n' s)
    (ht : ∀ c ∈ t.cells, c.SingleLine) (hne : t.fields p ≠ []) :
    readFields p (Text.unlines (lines p t)) = t.fields p := by
  rw [readFields, lines_unlines hp ht, lines_eq hne]
  by_cases hscope : p.scope.isEmpty
  · rw [if_pos hscope, if_pos hscope, ← List.append_assoc, ← List.append_assoc, List.append_assoc]
    exact map_unindent_inner "    " rfl rfl
  · rw [if_neg hscope, if_neg hscope, ← List.append_assoc, ← List.append_assoc, List.append_assoc]
    exact map_unindent_inner "        " rfl rfl

variable {e : Entry}

theorem toList_entryField (p : Profile) (e : Entry) :
    (entryField p e).toList = "/* 0x".toList ++ ((Text.hex e.offset.toNat).toList ++
      ' ' :: ("*/ ".toList ++ (e.returnType.toList ++ ' ' :: '(' :: (p.convention.toList ++
        ' ' :: '*' :: (e.name.toList ++ ')' :: '(' :: ((Entry.listed e.parameters).toList ++
          [')', ';'])))))) := by
  change ("/* " ++ address e.offset ++ " */ " ++ e.returnType ++ " (" ++ p.convention ++ " *" ++
    e.name ++ ")(" ++ Entry.listed e.parameters ++ ");").toList = _
  simp [address]

/-- A field is cut at the blank behind its offset. -/
theorem drop_toList_entryField (p : Profile) (e : Entry) : ∃ rest,
    (entryField p e).toList.drop 5 = (Text.hex e.offset.toNat).toList ++ ' ' :: rest := by
  rw [toList_entryField]
  exact ⟨_, List.drop_left' rfl⟩

/-- A field is cut at the first opening parenthesis and, behind the convention, at the closing
one. -/
theorem exists_toList_entryField (he : e.Readable) : ∃ front rest, '(' ∉ front ∧
    (entryField p e).toList =
      front ++ '(' :: (p.convention.toList ++ [' ', '*'] ++ (e.name.toList ++ ')' :: rest)) := by
  have hhex : '(' ∉ (Text.hex e.offset.toNat).toList := (Text.isWord_hex _).lacks (by decide)
  have hreturn : '(' ∉ e.returnType.toList := (he.types _ List.mem_cons_self).2.2.1
  refine ⟨"/* 0x".toList ++ (Text.hex e.offset.toNat).toList ++ " */ ".toList ++
    e.returnType.toList ++ [' '], '(' :: ((Entry.listed e.parameters).toList ++ [')', ';']), ?_, ?_⟩
  · simp [hhex, hreturn]
  · simp [toList_entryField]

theorem readField_entryField (he : e.Readable) (hback : e.offset ≠ p.geometry.backOffset) :
    readField p (entryField p e) = some (e.name, e.offset) := by
  have hne : entryField p e ≠ ownerField p := by
    intro heq
    have hrender : Cell.render .plain p (.function e.offset e) =
        Cell.render .plain p (.backReference p.geometry.backOffset) := by
      rw [Cell.render_plain_function, Cell.render_plain_backReference, heq]
    exact hback (Cell.shownOffset_eq_of_render_eq hrender)
  obtain ⟨behindOffset, hoffset⟩ := drop_toList_entryField p e
  obtain ⟨front, rest, hfront, hfield⟩ := exists_toList_entryField (p := p) he
  have hhex : ' ' ∉ (Text.hex e.offset.toNat).toList := (Text.isWord_hex _).lacks (by decide)
  have hname : ')' ∉ e.name.toList := he.name.lacks (by decide)
  have hconvention :
      (p.convention.toList ++ [' ', '*']).length = p.convention.length + 2 := by
    rw [List.length_append, String.length_toList]
    rfl
  rw [readField, if_neg hne, if_pos (getLast?_dropLast_entryField p e), hoffset,
    Text.before_append_cons hhex, hfield, Text.after_append_cons hfront,
    List.drop_left' hconvention, Text.before_append_cons hname]
  simp

theorem readField_paddingField (o : UInt32) : readField p (paddingField p o) = none := by
  simp only [readField, if_neg (getLast?_dropLast_paddingField p o), ite_self]

/-- Only functions have fields with names to read. -/
theorem readField_render {cells : List Cell} {entries : List Entry}
    (hlayout : LaidOut p.geometry entries cells) (hentries : Admissible p.geometry entries)
    (hread : ∀ e ∈ entries, e.Readable) {c : Cell} (hc : c ∈ cells) :
    readField p (c.render .plain p) = c.entry?.map fun e => (e.name, e.offset) := by
  cases c with
  | padding o => exact (congrArg _ (Cell.render_plain_padding o)).trans (readField_paddingField o)
  | backReference o =>
      rw [hlayout.backReference_mem_iff.1 hc, Cell.render_plain_backReference, readField,
        if_pos rfl]
      rfl
  | function o e =>
      have he := (hlayout.function_mem_iff.1 hc).1
      rw [Cell.render_plain_function,
        readField_entryField (hread e he) (hentries.sound e he).offset_ne]
      rfl

/-- The struct gives all names their offsets, in the order of the offsets. -/
theorem readOffsets_unlines {t : Table} {entries : List Entry} (hp : ∀ s ∈ p.texts, Lacks '\n' s)
    (hg : p.geometry.WellFormed) (hlayout : LaidOut p.geometry entries t.cells)
    (hentries : Admissible p.geometry entries) (hread : ∀ e ∈ entries, e.Readable) :
    readOffsets p (Text.unlines (lines p t)) =
      (t.cells.filterMap Cell.entry?).map fun e => (e.name, e.offset) := by
  have hfields : t.fields p ≠ [] := by
    rw [← List.length_pos_iff, Table.fields, List.length_map, hlayout.length_cells]
    exact Nat.zero_lt_of_lt hg.backIndex_lt
  have hsingle := hlayout.singleLine fun e he => (hread e he).singleLine
  rw [readOffsets, readFields_unlines hp hsingle hfields, Table.fields, List.filterMap_map,
    List.map_filterMap]
  exact List.filterMap_congr fun c hc => readField_render hlayout hentries hread hc

end TableHeader

/-! ### Both headers together -/

/-- The entry of a signature, with the offset that its name has in the struct. -/
def Signature.toEntry (offsets : List (String × UInt32)) (s : Signature) : Entry :=
  ⟨((offsets.find? (·.1 = s.name)).map Prod.snd).getD 0, s.returnType, s.name, s.argTypes⟩

/-- The entries that two headers were made from. -/
def Sources.readEntries (p : Profile) (tableHeader classHeader : String) : List Entry :=
  (ClassHeader.read classHeader).map (Signature.toEntry (TableHeader.readOffsets p tableHeader))

/-- If no name has two offsets, an entry has the one that is found for its name. -/
theorem Signature.toEntry_signature {offsets : List (String × UInt32)} {e : Entry}
    (hnodup : (offsets.map Prod.fst).Nodup) (he : (e.name, e.offset) ∈ offsets) :
    e.signature.toEntry offsets = e := by
  have hfind : offsets.find? (·.1 = e.name) = some (e.name, e.offset) := by
    cases hfound : offsets.find? (·.1 = e.name) with
    | none => exact absurd (List.find?_eq_none.1 hfound _ he) (by simp)
    | some found =>
        have hname : found.1 = e.name := by simpa using List.find?_some hfound
        rw [List.inj_on_of_nodup_map hnodup (List.mem_of_find?_eq_some hfound) he hname]
  rw [Entry.signature, toEntry, hfind]
  rfl

section

variable {p : Profile} {entries : List Entry} {s : Sources}

/-- What is read from the headers of accepted entries: the signatures in order, an offset for each
name, and with these the entries. -/
theorem read_headers (hpolicy : p.policy = .strict)
    (h : (Sources.ofEntries p entries).result = .ok s) (hp : ∀ x ∈ p.texts, Lacks '\n' x)
    (htypes : ∀ e ∈ entries, ∀ x ∈ e.types,
      Lacks '\n' x ∧ Lacks ',' x ∧ Lacks '(' x ∧ Lacks ')' x) :
    ClassHeader.read s.classHeader = entries.map Entry.signature ∧
      (TableHeader.readOffsets p s.tableHeader).Perm (entries.map fun e => (e.name, e.offset)) ∧
      Sources.readEntries p s.tableHeader s.classHeader = entries := by
  obtain ⟨⟨hg, hentries⟩, rfl⟩ := (ofEntries_eq_ok_iff_of_strict hpolicy).1 h
  dsimp only [Sources.ofTable]
  have hread : ∀ e ∈ entries, e.Readable := fun e he =>
    ⟨Text.isWord_of_isIdentifier (hentries.sound e he).isIdentifier_name, htypes e he⟩
  have hlayout := hentries.laidOut hg
  have hsignatures := ClassHeader.read_unlines hp hread
  have hoffsets : (TableHeader.readOffsets p (Text.unlines (TableHeader.lines p
      ⟨p.geometry, p.geometry.finalCells entries⟩))).Perm
        (entries.map fun e => (e.name, e.offset)) := by
    rw [TableHeader.readOffsets_unlines hp hg hlayout hentries hread]
    exact hlayout.perm_entries.map _
  refine ⟨hsignatures, hoffsets, ?_⟩
  have hnodup := (hoffsets.map Prod.fst).nodup_iff.2 (by
    rw [List.map_map]
    exact hentries.nodup_names)
  rw [Sources.readEntries, hsignatures, List.map_map]
  refine (List.map_congr_left fun e he => ?_).trans (List.map_id entries)
  exact Signature.toEntry_signature hnodup
    (hoffsets.mem_iff.2 (List.mem_map_of_mem he))

end

/-- Entries are determined by their two headers. If the strict policy accepts two lists of entries
whose types can be told apart, and generates the same headers from both, then the lists are the
same. The signatures can be read back from the class header in order, and the offset of each name
from the table header. -/
theorem entries_eq_of_headers_eq (p : Profile) (entries₁ entries₂ : List Entry) (s₁ s₂ : Sources)
    (hpolicy : p.policy = .strict)
    (h₁ : (Sources.ofEntries p entries₁).result = .ok s₁)
    (h₂ : (Sources.ofEntries p entries₂).result = .ok s₂)
    (hp : ∀ x ∈ p.texts, Lacks '\n' x)
    (htypes₁ : ∀ e ∈ entries₁, ∀ x ∈ e.types,
      Lacks '\n' x ∧ Lacks ',' x ∧ Lacks '(' x ∧ Lacks ')' x)
    (htypes₂ : ∀ e ∈ entries₂, ∀ x ∈ e.types,
      Lacks '\n' x ∧ Lacks ',' x ∧ Lacks '(' x ∧ Lacks ')' x) :
    (s₁.tableHeader = s₂.tableHeader → s₁.classHeader = s₂.classHeader → entries₁ = entries₂) ∧
      ClassHeader.read s₁.classHeader = entries₁.map Entry.signature ∧
      (TableHeader.readOffsets p s₁.tableHeader).Perm
        (entries₁.map fun e => (e.name, e.offset)) ∧
      Sources.readEntries p s₁.tableHeader s₁.classHeader = entries₁ := by
  obtain ⟨hsignatures₁, hoffsets₁, hentries₁⟩ := read_headers hpolicy h₁ hp htypes₁
  obtain ⟨_, _, hentries₂⟩ := read_headers hpolicy h₂ hp htypes₂
  refine ⟨fun htable hclass => ?_, hsignatures₁, hoffsets₁, hentries₁⟩
  rw [← hentries₁, ← hentries₂, htable, hclass]

/-- A function with blanks in its types stands in front of one without arguments, which has the
lower offset. -/
theorem entries_eq_of_headers_eq_reversed :
    (∀ x ∈ ({ geometry := ⟨16, 4⟩ } : Profile).texts, Lacks '\n' x) ∧
      (∀ e ∈ [(⟨12, "void", "Last", ["unsigned int", "char *"]⟩ : Entry), ⟨0, "u32", "First", []⟩],
        ∀ x ∈ e.types, Lacks '\n' x ∧ Lacks ',' x ∧ Lacks '(' x ∧ Lacks ')' x) ∧
      ∃ s, (Sources.ofEntries { geometry := ⟨16, 4⟩ }
          [⟨12, "void", "Last", ["unsigned int", "char *"]⟩, ⟨0, "u32", "First", []⟩]).result =
            .ok s ∧
        ClassHeader.read s.classHeader =
          [⟨"void", "Last", ["unsigned int", "char *"]⟩, ⟨"u32", "First", []⟩] ∧
        (TableHeader.readOffsets { geometry := ⟨16, 4⟩ } s.tableHeader).Perm
          [("Last", 12), ("First", 0)] ∧
        Sources.readEntries { geometry := ⟨16, 4⟩ } s.tableHeader s.classHeader =
          [⟨12, "void", "Last", ["unsigned int", "char *"]⟩, ⟨0, "u32", "First", []⟩] :=
  ⟨by decide, by decide, _, rfl, (entries_eq_of_headers_eq { geometry := ⟨16, 4⟩ }
    [⟨12, "void", "Last", ["unsigned int", "char *"]⟩, ⟨0, "u32", "First", []⟩]
    [⟨12, "void", "Last", ["unsigned int", "char *"]⟩, ⟨0, "u32", "First", []⟩]
    _ _ rfl rfl rfl (by decide) (by decide) (by decide)).2⟩

end CallTable
