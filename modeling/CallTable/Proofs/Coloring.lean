import CallTable.Proofs.Document.Agreement
import CallTable.Proofs.Policy

/-!
Colors. A printed table is scanned for escape sequences, and without them it is the list of fields
that the struct is made of. The scan goes from left to right, so what a part of the text prints is
defined by what is left of it in front of any other text, and the parts can then be put together.
-/

namespace CallTable

open Text (Lacks)

namespace Text

/-- What stands behind the escape sequence that a text starts with, if it starts with one. -/
def behindEscape? : List Char → Option (List Char)
  | '\x1b' :: '[' :: rest =>
      match rest.dropWhile Char.isDigit with
      | 'm' :: behind => some behind
      | _ => none
  | _ => none

theorem length_behindEscape?_lt {text behind : List Char} (h : behindEscape? text = some behind) :
    behind.length < text.length := by
  unfold behindEscape? at h
  split at h
  · rename_i rest
    split at h
    · rename_i rest' hdigits
      obtain rfl : rest' = behind := Option.some.inj h
      have hlength := (List.dropWhile_suffix (l := rest) Char.isDigit).length_le
      rw [hdigits] at hlength
      simp only [List.length_cons] at hlength ⊢
      omega
    · cases h
  · cases h

/-- A text without its escape sequences. -/
def withoutEscapes : List Char → List Char
  | [] => []
  | c :: rest =>
      match _h : behindEscape? (c :: rest) with
      | some behind => withoutEscapes behind
      | none => c :: withoutEscapes rest
termination_by text => text.length
decreasing_by
  · exact length_behindEscape?_lt _h
  · simp

theorem withoutEscapes_append_of_not_mem {cs : List Char} (h : '\x1b' ∉ cs) (rest : List Char) :
    withoutEscapes (cs ++ rest) = cs ++ withoutEscapes rest := by
  induction cs with
  | nil => rfl
  | cons c cs ih =>
      rw [List.mem_cons, not_or] at h
      have hnone : behindEscape? (c :: (cs ++ rest)) = none := by
        unfold behindEscape?
        split
        · rename_i heq
          exact absurd (List.head_eq_of_cons_eq heq).symm h.1
        · rfl
      rw [List.cons_append, withoutEscapes, hnone]
      show c :: withoutEscapes (cs ++ rest) = _
      rw [ih h.2, List.cons_append]

/-- In front of any text, `s` leaves behind `t` when the escape sequences are gone. -/
def Prints (s t : String) : Prop :=
  ∀ rest, withoutEscapes (s.toList ++ rest) = t.toList ++ withoutEscapes rest

namespace Prints

variable {s s' t t' : String}

theorem withoutEscapes_eq (h : Prints s t) : withoutEscapes s.toList = t.toList := by
  have hwhole := h []
  rwa [List.append_nil, withoutEscapes, List.append_nil] at hwhole

theorem append (h : Prints s t) (h' : Prints s' t') : Prints (s ++ s') (t ++ t') := by
  intro rest
  rw [String.toList_append, String.toList_append, List.append_assoc, h, h', List.append_assoc]

/-- A text that escapes nothing prints itself. -/
theorem of_lacks (h : Lacks '\x1b' s) : Prints s s :=
  withoutEscapes_append_of_not_mem h

theorem escape (digits : List Char) (h : digits.all Char.isDigit) :
    Prints (.ofList ('\x1b' :: '[' :: (digits ++ ['m']))) "" := by
  intro rest
  have hdigits : (digits ++ 'm' :: rest).dropWhile Char.isDigit = 'm' :: rest :=
    List.dropWhile_append_of_pos (List.all_eq_true.1 h)
  have hbehind : behindEscape? ('\x1b' :: '[' :: (digits ++ 'm' :: rest)) = some rest := by
    simp only [behindEscape?, hdigits]
  have htext : (String.ofList ('\x1b' :: '[' :: (digits ++ ['m']))).toList ++ rest =
      '\x1b' :: '[' :: (digits ++ 'm' :: rest) := by simp
  rw [htext, withoutEscapes, hbehind]
  rfl

theorem unlines {α : Type} {l : List α} {f g : α → String} (h : ∀ a ∈ l, Prints (f a) (g a)) :
    Prints (Text.unlines (l.map f)) (Text.unlines (l.map g)) := by
  induction l with
  | nil => exact of_lacks (show Lacks '\x1b' "" by decide)
  | cons a rest ih =>
      have hline := h a List.mem_cons_self
      have hrest := ih fun b hb => h b (List.mem_cons_of_mem a hb)
      simpa using (hline.append (of_lacks (by decide))).append hrest

end Prints

end Text

open Text (Prints)

/-- The codes of a palette leave nothing behind. -/
structure Palette.Invisible (palette : Palette) : Prop where
  function : Prints palette.function ""
  backReference : Prints palette.backReference ""
  padding : Prints palette.padding ""
  offset : Prints palette.offset ""
  reset : Prints palette.reset ""

theorem Palette.invisible_ofBool (enabled : Bool) : (Palette.ofBool enabled).Invisible := by
  have hempty : Prints "" "" := .of_lacks (by decide)
  cases enabled with
  | false => exact ⟨hempty, hempty, hempty, hempty, hempty⟩
  | true =>
      have hfaint : Prints "\x1b[2m" "" := .escape ['2'] rfl
      exact ⟨.escape ['3', '4'] rfl, .escape ['3', '2'] rfl,
        hfaint, hfaint, .escape ['0'] rfl⟩

section

variable {palette : Palette} {q : Profile}

/-- With the codes or without them, a cell prints the same field. -/
theorem Cell.prints_render (hpalette : palette.Invisible) (hq : ∀ x ∈ q.texts, Lacks '\x1b' x)
    {c : Cell} (hc : ∀ e ∈ c.entry?, Lacks '\x1b' e.name ∧ ∀ x ∈ e.types, Lacks '\x1b' x) :
    Prints (c.render palette q) (c.render .plain q) := by
  simp only [Profile.texts, List.forall_mem_cons] at hq
  have haddress (o : UInt32) : Lacks '\x1b' (address o) := (Text.isWord_address o).lacks (by decide)
  -- the codes stand around the parts of a field and never inside a text that was given
  have htag (o : UInt32) : Prints (tag o) (tag o) := .of_lacks (by simp +decide [tag, haddress])
  have hblank : Prints " " " " := .of_lacks (by decide)
  have hsemicolon : Prints ";" ";" := .of_lacks (by decide)
  cases c with
  | padding o =>
      have hname : Lacks '\x1b' (paddingName o) := (Text.isWord_paddingName o).lacks (by decide)
      have hfield : Prints (" " ++ q.paddingType ++ " " ++ paddingName o ++ ";")
          (" " ++ q.paddingType ++ " " ++ paddingName o ++ ";") :=
        .of_lacks (by simp +decide [hq, hname])
      have hwhole := ((hpalette.padding.append (htag o)).append hfield).append hpalette.reset
      simpa [render, Palette.plain, String.append_assoc] using hwhole
  | backReference o =>
      have hname : Prints (q.className ++ "* " ++ q.ownerField)
          (q.className ++ "* " ++ q.ownerField) := .of_lacks (by simp +decide [hq])
      have hcomment := (hpalette.offset.append (htag o)).append hpalette.reset
      have hfield := (hpalette.backReference.append hname).append hpalette.reset
      have hwhole := ((hcomment.append hblank).append hfield).append hsemicolon
      simpa [render, Palette.plain, String.append_assoc] using hwhole
  | function o e =>
      obtain ⟨hname, htypes⟩ := hc e rfl
      have hreturn : Lacks '\x1b' e.returnType := htypes _ List.mem_cons_self
      have hparameters : Lacks '\x1b' (Entry.listed e.parameters) :=
        e.lacks_listed_parameters (by decide) (by decide) htypes
      have htype : Prints (" " ++ e.returnType ++ " (" ++ q.convention ++ " *")
          (" " ++ e.returnType ++ " (" ++ q.convention ++ " *") :=
        .of_lacks (by simp +decide [hq, hreturn])
      have hrest : Prints (")(" ++ Entry.listed e.parameters ++ ");")
          (")(" ++ Entry.listed e.parameters ++ ");") := .of_lacks (by simp +decide [hparameters])
      have hcomment := (hpalette.offset.append (htag e.offset)).append hpalette.reset
      have hcalled := (hpalette.function.append (.of_lacks hname)).append hpalette.reset
      have hwhole := ((hcomment.append htype).append hcalled).append hrest
      simpa [render, Palette.plain, String.append_assoc] using hwhole

theorem Geometry.mem_of_mem_finalCells {g : Geometry} {entries : List Entry} {c : Cell} {e : Entry}
    (hc : c ∈ g.finalCells entries) (he : e ∈ c.entry?) : e ∈ entries := by
  obtain ⟨index, _, rfl⟩ := List.mem_map.1 hc
  rw [entry?_finalCell] at he
  exact (mem_of_lastAt?_eq_some he).1

/-- Without its escape sequences the printed table is the list of its fields. -/
theorem Table.prints_listing {t : Table} (hpalette : q.palette.Invisible)
    (hq : ∀ x ∈ q.texts, Lacks '\x1b' x)
    (ht : ∀ c ∈ t.cells, ∀ e ∈ c.entry?, Lacks '\x1b' e.name ∧ ∀ x ∈ e.types, Lacks '\x1b' x) :
    Prints (t.listing q) (Text.unlines (t.fields q)) :=
  Prints.unlines fun c hc => Cell.prints_render hpalette hq (ht c hc)

end

/-- Colors change how a table is printed and nothing else. If no text of the profile or of the
entries has an escape character, then a table printed in colors or without them is, but for the
escape sequences, the list of the fields that its header indents. And whatever the texts, the
generated sources and the reports do not depend on the palette. -/
theorem withoutEscapes_listing (p : Profile) (entries : List Entry) :
    (∀ (t : Table) (q : Profile) (colored : Bool), (Table.arrange p entries).result = .ok t →
      (∀ x ∈ q.texts, Lacks '\x1b' x) →
      (∀ e ∈ entries, Lacks '\x1b' e.name ∧ ∀ x ∈ e.types, Lacks '\x1b' x) →
      Text.withoutEscapes (t.listing { q with palette := .ofBool colored }).toList =
          (Text.unlines (t.fields q)).toList ∧
        TableHeader.lines q t = ["", "#pragma once", "", "class " ++ q.className ++ ";", ""] ++
          if q.scope.isEmpty then
            ["struct " ++ q.structName, "\x7b"] ++ (t.fields q).map ("    " ++ ·) ++ ["\x7d;"]
          else
            ["namespace " ++ q.scope, "\x7b", "    struct " ++ q.structName, "    \x7b"] ++
              (t.fields q).map ("        " ++ ·) ++ ["    \x7d;", "\x7d"]) ∧
    ∀ palette palette' : Palette, Sources.ofEntries { p with palette := palette } entries =
      Sources.ofEntries { p with palette := palette' } entries := by
  refine ⟨fun t q colored ht hq hentries => ?listing, fun palette palette' => rfl⟩
  case listing =>
    obtain ⟨hg, rfl⟩ := Table.eq_of_arrange ht
    constructor
    · have hfields : Table.fields ⟨p.geometry, p.geometry.finalCells entries⟩
          { q with palette := .ofBool colored } =
            Table.fields ⟨p.geometry, p.geometry.finalCells entries⟩ q :=
        List.map_congr_left fun c _ => by cases c <;> rfl
      rw [← hfields]
      refine (Table.prints_listing (q := { q with palette := .ofBool colored })
        (Palette.invisible_ofBool colored) hq ?_).withoutEscapes_eq
      exact fun c hc e he => hentries e (Geometry.mem_of_mem_finalCells hc he)
    · apply TableHeader.lines_eq
      rw [Table.fields, Ne, List.map_eq_nil_iff, ← List.length_eq_zero_iff,
        Geometry.length_finalCells]
      exact Nat.ne_zero_of_lt hg.backIndex_lt

/-- A table with one cell of each kind, printed in colors. -/
theorem withoutEscapes_listing_kinds :
    ∃ t : Table, t = ⟨⟨12, 4⟩,
        [.padding 0, .backReference 4, .function 8 ⟨8, "void", "Draw", ["u32*"]⟩]⟩ ∧
      (Table.arrange { geometry := ⟨12, 4⟩ } [⟨8, "void", "Draw", ["u32*"]⟩]).result = .ok t ∧
      (∀ x ∈ ({} : Profile).texts, Lacks '\x1b' x) ∧
      (∀ e ∈ [(⟨8, "void", "Draw", ["u32*"]⟩ : Entry)],
        Lacks '\x1b' e.name ∧ ∀ x ∈ e.types, Lacks '\x1b' x) ∧
      t.listing { palette := .ofBool true } = Text.unlines [
        "\x1b[2m/* 0x00 */ u32 dword00;\x1b[0m",
        "\x1b[2m/* 0x04 */\x1b[0m \x1b[32mGfxContextBase* rendererInstance\x1b[0m;",
        "\x1b[2m/* 0x08 */\x1b[0m void (__cdecl *\x1b[34mDraw\x1b[0m)(u32* a0);"] ∧
      Text.withoutEscapes (t.listing { palette := .ofBool true }).toList =
        (Text.unlines [
          "/* 0x00 */ u32 dword00;",
          "/* 0x04 */ GfxContextBase* rendererInstance;",
          "/* 0x08 */ void (__cdecl *Draw)(u32* a0);"]).toList :=
  ⟨_, rfl, rfl, by decide, by decide, rfl,
    ((withoutEscapes_listing { geometry := ⟨12, 4⟩ } [⟨8, "void", "Draw", ["u32*"]⟩]).1 _ {} true
      rfl (by decide) (by decide)).1⟩

end CallTable
