import CallTable.Proofs.Text.Cutting
import CallTable.Sources

/-!
The lines of the generated documents. If no name of the profile and no type of an entry contains
a line feed, then no line of a document does, and cutting a document at its line feeds gives the
lines that it was made from.
-/

namespace CallTable

open Text (Lacks)

/-- The texts of a profile that stand in the documents. -/
def Profile.texts (p : Profile) : List String :=
  [p.scope, p.structName, p.className, p.ownerField, p.accessor, p.tracer, p.convention,
    p.paddingType]

/-- The types of an entry, that of its result first. -/
def Entry.types (e : Entry) : List String := e.returnType :: e.argTypes

/-- A parameter is its type and the name that goes with its position. -/
theorem Entry.parameters_eq_mapIdx (e : Entry) :
    e.parameters = e.argTypes.mapIdx fun i type => type ++ " " ++ argumentName i := by
  refine List.ext_getElem (by simp [arity]) fun i _ _ => ?_
  simp [parameters, argumentNames]

/-- Beside its type, a parameter contains a blank and a word. -/
theorem Entry.lacks_of_mem_parameters {c : Char} {e : Entry} (hc : ¬Text.continuesIdentifier c)
    (hblank : Lacks c " ") (htypes : ∀ s ∈ e.argTypes, Lacks c s) :
    ∀ s ∈ e.parameters, Lacks c s := by
  intro s hs
  rw [parameters_eq_mapIdx, List.mem_mapIdx] at hs
  obtain ⟨i, hi, rfl⟩ := hs
  have htype : Lacks c e.argTypes[i] := htypes _ (List.getElem_mem hi)
  exact Text.lacks_append.2
    ⟨Text.lacks_append.2 ⟨htype, hblank⟩, (Text.isWord_argumentName i).lacks hc⟩

theorem Entry.lacks_of_mem_argumentNames {c : Char} {e : Entry}
    (hc : ¬Text.continuesIdentifier c) : ∀ s ∈ e.argumentNames, Lacks c s := by
  intro s hs
  obtain ⟨i, _, rfl⟩ := List.mem_map.1 hs
  exact (Text.isWord_argumentName i).lacks hc

/-- Beside a percent sign, a conversion contains letters and digits. -/
theorem Entry.lacks_of_mem_conversions {c : Char} {e : Entry} (hc : ¬Text.continuesIdentifier c)
    (hpercent : c ≠ '%') : ∀ s ∈ e.conversions, Lacks c s := by
  intro s hs
  obtain ⟨type, _, rfl⟩ := List.mem_map.1 hs
  have hne {d : Char} (hd : Text.continuesIdentifier d) : c ≠ d := fun h => hc (h ▸ hd)
  rw [TypeName.conversion]
  split
  · simp [Lacks, hpercent, hne (d := 'p') (by decide)]
  · simp [Lacks, hpercent, hne (d := '0') (by decide), hne (d := 'x') (by decide)]

/-- A list is cut into its members again if these contain no comma. -/
theorem Entry.split_listed {members : List String} (hne : members ≠ [])
    (h : ∀ m ∈ members, Lacks ',' m) : Text.split ", " (listed members) = members :=
  Text.split_intercalate rfl hne h

section

variable {c : Char} (hc : ¬Text.continuesIdentifier c) (hseparator : Lacks c ", ")

include hc hseparator

/-- Lists of parameters contain commas, blanks and words beside the types. -/
theorem Entry.lacks_listed_parameters {e : Entry} (htypes : ∀ s ∈ e.types, Lacks c s) :
    Lacks c (listed e.parameters) := by
  have hblank : Lacks c " " := fun h => hseparator (List.mem_cons_of_mem ',' h)
  exact Text.lacks_intercalate hseparator
    (lacks_of_mem_parameters hc hblank fun s hs => htypes s (List.mem_cons_of_mem _ hs))

theorem Entry.lacks_listed_argumentNames (e : Entry) : Lacks c (listed e.argumentNames) :=
  Text.lacks_intercalate hseparator (lacks_of_mem_argumentNames hc)

theorem Entry.lacks_listed_conversions (hpercent : c ≠ '%') (e : Entry) :
    Lacks c (listed e.conversions) :=
  Text.lacks_intercalate hseparator (lacks_of_mem_conversions hc hpercent)

end

/-- An entry that is written on one line. -/
structure Entry.SingleLine (e : Entry) : Prop where
  name : Lacks '\n' e.name
  types : ∀ s ∈ e.types, Lacks '\n' s

namespace Entry.SingleLine

variable {e : Entry}

theorem returnType (h : e.SingleLine) : Lacks '\n' e.returnType :=
  h.types _ List.mem_cons_self

theorem listed_parameters (h : e.SingleLine) : Lacks '\n' (Entry.listed e.parameters) :=
  lacks_listed_parameters (by decide) (by decide) h.types

end Entry.SingleLine

theorem Profile.lacks_qualifiedStruct {c : Char} {p : Profile} (hc : Lacks c "::")
    (hp : ∀ s ∈ p.texts, Lacks c s) : Lacks c p.qualifiedStruct := by
  simp only [texts, List.forall_mem_cons] at hp
  unfold qualifiedStruct
  split
  · exact hp.2.1
  · simp [hc, hp]

/-- A cell whose entry, if it holds one, is written on one line. -/
def Cell.SingleLine (c : Cell) : Prop := ∀ e ∈ c.entry?, e.SingleLine

section

variable {p : Profile} {e : Entry}

theorem Cell.SingleLine.render {c : Cell} (hp : ∀ s ∈ p.texts, Lacks '\n' s) (hc : c.SingleLine) :
    Lacks '\n' (c.render .plain p) := by
  simp only [Profile.texts, List.forall_mem_cons] at hp
  have haddress (o : UInt32) : Lacks '\n' (address o) := (Text.isWord_address o).lacks (by decide)
  cases c with
  | padding o =>
      have hname : Lacks '\n' (Cell.paddingName o) :=
        (Text.isWord_paddingName o).lacks (by decide)
      simp +decide [Cell.render, Cell.tag, haddress, hname, hp, Palette.plain]
  | backReference o => simp +decide [Cell.render, Cell.tag, haddress, hp, Palette.plain]
  | function o e =>
      have he : e.SingleLine := hc e rfl
      simp +decide [Cell.render, Cell.tag, haddress, hp, Palette.plain, he.name,
        he.returnType, he.listed_parameters]

theorem Text.lacks_of_mem_block {c : Char} {margin : String} {members : List String}
    (hmargin : Lacks c margin) (hmembers : ∀ m ∈ members, Lacks c m) :
    ∀ l ∈ Text.block margin members, Lacks c l := by
  intro l hl
  rw [Text.block] at hl
  split at hl
  · rwa [List.mem_singleton.1 hl]
  · obtain ⟨m, hm, rfl⟩ := List.mem_map.1 hl
    exact Text.lacks_append.2 ⟨hmargin, hmembers m hm⟩

/-- The header of the table consists of its lines. -/
theorem TableHeader.lines_unlines {t : Table} (hp : ∀ s ∈ p.texts, Lacks '\n' s)
    (ht : ∀ c ∈ t.cells, c.SingleLine) :
    Text.lines (Text.unlines (lines p t)) = lines p t ++ [""] := by
  apply Text.lines_unlines
  have hfields : ∀ l ∈ t.fields p, Lacks '\n' l := by
    intro l hl
    obtain ⟨c, hc, rfl⟩ := List.mem_map.1 hl
    exact (ht c hc).render hp
  have hblock {margin : String} (hmargin : Lacks '\n' margin) :=
    Text.lacks_of_mem_block hmargin hfields
  simp only [Profile.texts, List.forall_mem_cons] at hp
  have hopening : ∀ l ∈ opening p, Lacks '\n' l := by simp +decide [opening, hp]
  unfold lines body
  split
  · simp only [List.forall_mem_append]
    exact ⟨hopening, ⟨by simp +decide [hp], hblock (by decide)⟩, by decide⟩
  · simp only [List.forall_mem_append]
    exact ⟨hopening, ⟨by simp +decide [hp], hblock (by decide)⟩, by decide⟩

/-- The header of the class consists of its lines. -/
theorem ClassHeader.lines_unlines {entries : List Entry} (hp : ∀ s ∈ p.texts, Lacks '\n' s)
    (hentries : ∀ e ∈ entries, e.SingleLine) :
    Text.lines (Text.unlines (lines p entries)) = lines p entries ++ [""] := by
  apply Text.lines_unlines
  have hstruct := Profile.lacks_qualifiedStruct (by decide) hp
  have hmethods : ∀ l ∈ entries.map method, Lacks '\n' l := by
    intro l hl
    obtain ⟨e, he, rfl⟩ := List.mem_map.1 hl
    have he := hentries e he
    simp +decide [method, he.name, he.returnType, he.listed_parameters]
  simp only [Profile.texts, List.forall_mem_cons] at hp
  have hopening : ∀ l ∈ opening p, Lacks '\n' l := by simp +decide [opening, hp, hstruct]
  have hclosing : ∀ l ∈ closing p, Lacks '\n' l := by simp +decide [closing, hstruct]
  simp only [lines, List.forall_mem_append]
  exact ⟨⟨hopening, Text.lacks_of_mem_block (by decide) hmethods⟩, hclosing⟩

theorem ClassSource.lacks_of_mem_hook (hp : ∀ s ∈ p.texts, Lacks '\n' s) (he : e.SingleLine) :
    ∀ l ∈ hook p e, Lacks '\n' l := by
  have hnames : Lacks '\n' (Entry.listed e.argumentNames) :=
    e.lacks_listed_argumentNames (by decide) (by decide)
  have hconversions : Lacks '\n' (Entry.listed e.conversions) :=
    e.lacks_listed_conversions (by decide) (by decide) (by decide)
  simp only [Profile.texts, List.forall_mem_cons] at hp
  simp only [hook, handOn, trace, traceFormat, traceArguments, parameterList, argumentList,
    hookName]
  -- by whether there are arguments to trace and whether there is a value to hand on
  split <;> split <;>
    simp +decide [hp, he.name, he.returnType, he.listed_parameters, hnames, hconversions]

theorem ClassSource.lacks_of_mem_method (hp : ∀ s ∈ p.texts, Lacks '\n' s) (he : e.SingleLine) :
    ∀ l ∈ method p e, Lacks '\n' l := by
  have hnames : Lacks '\n' (Entry.listed e.argumentNames) :=
    e.lacks_listed_argumentNames (by decide) (by decide)
  simp only [Profile.texts, List.forall_mem_cons] at hp
  simp only [method, handOn, parameterList, argumentList]
  split <;> simp +decide [hp, he.name, he.returnType, he.listed_parameters, hnames]

theorem ClassSource.lacks_of_mem_constructor {entries : List Entry}
    (hp : ∀ s ∈ p.texts, Lacks '\n' s) (hentries : ∀ e ∈ entries, e.SingleLine) :
    ∀ l ∈ constructor p entries, Lacks '\n' l := by
  have hstruct := Profile.lacks_qualifiedStruct (by decide) hp
  have hinstalls : ∀ l ∈ entries.map install, Lacks '\n' l := by
    intro l hl
    obtain ⟨e, he, rfl⟩ := List.mem_map.1 hl
    simp +decide [install, hookName, (hentries e he).name]
  simp only [Profile.texts, List.forall_mem_cons] at hp
  simp only [constructor, List.forall_mem_append]
  exact ⟨⟨by simp +decide [hp, hstruct], Text.lacks_of_mem_block (by decide) hinstalls⟩,
    by decide⟩

/-- The source of the class consists of its lines. -/
theorem ClassSource.lines_unlines {entries : List Entry} (hp : ∀ s ∈ p.texts, Lacks '\n' s)
    (hentries : ∀ e ∈ entries, e.SingleLine) :
    Text.lines (Text.unlines (lines p entries)) = lines p entries ++ [""] := by
  apply Text.lines_unlines
  have hhooks : ∀ l ∈ entries.flatMap (hook p), Lacks '\n' l := by
    intro l hl
    obtain ⟨e, he, hl⟩ := List.mem_flatMap.1 hl
    exact lacks_of_mem_hook hp (hentries e he) l hl
  have hmethods : ∀ l ∈ entries.flatMap (method p), Lacks '\n' l := by
    intro l hl
    obtain ⟨e, he, hl⟩ := List.mem_flatMap.1 hl
    exact lacks_of_mem_method hp (hentries e he) l hl
  have hconstructor := lacks_of_mem_constructor hp hentries
  have hgetter : ∀ l ∈ getter p, Lacks '\n' l := by
    have hstruct := Profile.lacks_qualifiedStruct (by decide) hp
    simp only [Profile.texts, List.forall_mem_cons] at hp
    simp +decide [getter, hp, hstruct]
  simp only [lines, List.forall_mem_append]
  exact ⟨⟨⟨⟨⟨⟨⟨⟨by decide, hhooks⟩, by decide⟩, hconstructor⟩, by decide⟩, hgetter⟩, by decide⟩,
    hmethods⟩, by decide⟩

end

end CallTable
