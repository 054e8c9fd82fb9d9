import CallTable.Proofs.Text.Cutting
import CallTable.Table
import Mathlib.Data.List.Basic

/-!
Compact JSON is read in one way only. A text ends at the quote that closes it, a list or a record at
its bracket, and a number where the digits end. So a value can be told from whatever is written
behind it, as long as that does not go on with a digit, and values that are written alike are equal.
Nothing is lost when a table is written as JSON either: the values of entries and of cells determine
them, the kind of a cell included, and the text determines the value.
-/

namespace CallTable

namespace Json

variable {rest rest' : List Char}

/-! ### Codes in a row -/

section

variable {α : Type} {code : α → List Char} {Ends : List Char → Prop} {as bs : List α} {mark : Char}

/-- What is written can be told from everything that may stand behind it. -/
def Separable (Ends : List Char → Prop) (code : α → List Char) (a : α) : Prop :=
  ∀ b rest rest', Ends rest → Ends rest' → code a ++ rest = code b ++ rest' → a = b ∧ rest = rest'

/-- What is written in a row is told apart, and from what follows, if the row ends with a mark that
nothing in it begins with. -/
theorem flatMap_append_inj (hcode : ∀ a ∈ as, Separable Ends code a)
    (hends : ∀ (cs : List α) rest, Ends (cs.flatMap code ++ mark :: rest))
    (hmark : ∀ a rest rest', code a ++ rest ≠ mark :: rest')
    (h : as.flatMap code ++ mark :: rest = bs.flatMap code ++ mark :: rest') :
    as = bs ∧ rest = rest' := by
  induction as generalizing bs with
  | nil =>
      cases bs with
      | nil => simpa using h
      | cons b bs =>
          rw [List.flatMap_cons, List.append_assoc] at h
          exact absurd h.symm (hmark b _ _)
  | cons a as ih =>
      rw [List.flatMap_cons, List.append_assoc] at h
      cases bs with
      | nil => exact absurd h (hmark a _ _)
      | cons b bs =>
          rw [List.flatMap_cons, List.append_assoc] at h
          obtain ⟨rfl, hmore⟩ := hcode a List.mem_cons_self b _ _ (hends as _) (hends bs _) h
          obtain ⟨rfl, hrest⟩ := ih (fun c hc => hcode c (List.mem_cons_of_mem a hc)) hmore
          exact ⟨rfl, hrest⟩

end

/-! ### Texts -/

/-- The first character of a text with escapes, and what stands behind it. -/
def unescape : List Char → Option (Char × List Char)
  | '\\' :: 'b' :: rest => some ('\x08', rest)
  | '\\' :: 't' :: rest => some ('\t', rest)
  | '\\' :: 'n' :: rest => some ('\n', rest)
  | '\\' :: 'f' :: rest => some ('\x0c', rest)
  | '\\' :: 'r' :: rest => some ('\r', rest)
  | '\\' :: 'u' :: '0' :: '0' :: high :: low :: rest =>
      some (.ofNat (Text.hexValue [high.toUpper, low.toUpper]), rest)
  | '\\' :: c :: rest => some (c, rest)
  | c :: rest => some (c, rest)
  | [] => none

theorem unescape_of_ne {c : Char} (h : c ≠ '\\') : unescape (c :: rest) = some (c, rest) := by
  unfold unescape
  split <;> simp_all

theorem hexValue_digitChar_digitChar {n : Nat} (h : n < 256) :
    Text.hexValue [(Nat.digitChar (n / 16)).toUpper, (Nat.digitChar (n % 16)).toUpper] = n := by
  have hhigh := Text.hexDigitValue_digitChar (d := n / 16) (by omega)
  have hlow := Text.hexDigitValue_digitChar (d := n % 16) (by omega)
  simp only [Text.hexValue, List.foldl_cons, List.foldl_nil, hhigh, hlow]
  omega

theorem unescape_escape (c : Char) : unescape (escape c ++ rest) = some (c, rest) := by
  unfold escape
  -- the characters that have a letter of their own, or escape themselves
  iterate 7 (split; next h => rw [h]; rfl)
  split
  · next h =>
      have hvalue := hexValue_digitChar_digitChar (n := c.toNat) (by omega)
      simp [unescape, hvalue]
  · next hne _ _ _ _ _ _ => exact unescape_of_ne hne

/-- An escaped character can be told from anything behind it. -/
theorem separable_escape (c : Char) : Separable (fun _ => True) escape c := by
  intro d rest rest' _ _ h
  have hread := congrArg unescape h
  simpa only [unescape_escape, Option.some.injEq, Prod.mk.injEq] using hread

/-- The quote that ends a text is not taken for a character of it. -/
theorem escape_append_ne_quote (c : Char) : escape c ++ rest ≠ '"' :: rest' := by
  intro h
  have hread := congrArg unescape h
  rw [unescape_escape, unescape_of_ne (by decide)] at hread
  obtain ⟨rfl, rfl⟩ := Prod.mk.inj (Option.some.inj hread)
  have hlength := congrArg List.length h
  simp [escape] at hlength

theorem toList_quote_append (s : String) (rest : List Char) :
    (quote s).toList ++ rest = '"' :: (s.toList.flatMap escape ++ '"' :: rest) := by
  simp [quote]

theorem quote_append_inj {s t : String} (h : (quote s).toList ++ rest = (quote t).toList ++ rest') :
    s = t ∧ rest = rest' := by
  rw [toList_quote_append, toList_quote_append] at h
  obtain ⟨hchars, hrest⟩ := flatMap_append_inj (fun c _ => separable_escape c) (fun _ _ => trivial)
    (fun c _ _ => escape_append_ne_quote c) (List.cons.inj h).2
  exact ⟨String.toList_injective hchars, hrest⟩

/-! ### Numbers -/

/-- A number ends in front of this, as it does not go on with a digit. -/
def Stops (rest : List Char) : Prop := ∀ c ∈ rest.head?, ¬c.isDigit

theorem Stops.nil : Stops [] := by simp [Stops]

theorem Stops.cons {c : Char} (h : ¬c.isDigit) : Stops (c :: rest) := by simpa [Stops] using h

/-- The digits of a number give it back. -/
theorem ofDigitChars_repr (n : Nat) : Nat.ofDigitChars 10 (Nat.repr n).toList 0 = n := by
  rw [Nat.repr_eq_ofList_toDigits, String.toList_ofList,
    Nat.ofDigitChars_toDigits (by decide) (by decide)]

theorem repr_append_inj {m n : Nat} (hrest : Stops rest) (hrest' : Stops rest')
    (h : (Nat.repr m).toList ++ rest = (Nat.repr n).toList ++ rest') : m = n ∧ rest = rest' := by
  have hdigits := congrArg (List.takeWhile Char.isDigit) h
  rw [Text.takeWhile_run (fun _ => Text.isDigit_of_mem_repr) hrest,
    Text.takeWhile_run (fun _ => Text.isDigit_of_mem_repr) hrest'] at hdigits
  rw [hdigits] at h
  have hvalue := congrArg (Nat.ofDigitChars 10 · 0) hdigits
  simp only [ofDigitChars_repr] at hvalue
  exact ⟨hvalue, List.append_cancel_left h⟩

/-! ### Members -/

/-- A value can be told from everything behind it that does not go on with a digit. -/
def Legible {α : Type} (write : α → String) (a : α) : Prop :=
  ∀ b rest rest', Stops rest → Stops rest' →
    (write a).toList ++ rest = (write b).toList ++ rest' → a = b ∧ rest = rest'

section

variable {α : Type} {write : α → String} {as bs : List α} {closing : Char}

/-- A comma in front of the first member makes it look like the others. -/
theorem cons_toList_intercalate (h : as ≠ []) :
    ',' :: (",".intercalate (as.map write)).toList =
      as.flatMap fun a => ',' :: (write a).toList := by
  induction as with
  | nil => exact absurd rfl h
  | cons a as ih =>
      cases as with
      | nil => simp
      | cons b as =>
          rw [List.flatMap_cons, ← ih (List.cons_ne_nil b as)]
          simp [String.intercalate_cons_cons]

theorem stops_members (hdigit : ¬closing.isDigit) :
    Stops ((as.flatMap fun a => ',' :: (write a).toList) ++ closing :: rest) := by
  cases as with
  | nil => exact .cons hdigit
  | cons _ _ => exact .cons (by decide)

/-- Members are told apart, and from what follows their bracket. What a member begins with shows that
an empty list of them is empty. -/
theorem members_inj (hlegible : ∀ a ∈ as, Legible write a)
    (hdigit : ¬closing.isDigit) (hcomma : closing ≠ ',')
    (hopens : ∀ a, ∃ c cs, (write a).toList = c :: cs ∧ c ≠ closing)
    (h : (",".intercalate (as.map write)).toList ++ closing :: rest =
      (",".intercalate (bs.map write)).toList ++ closing :: rest') :
    as = bs ∧ rest = rest' := by
  have nonempty (a : α) (cs : List α) (behind behind' : List Char) :
      (",".intercalate ((a :: cs).map write)).toList ++ behind ≠ closing :: behind' := by
    intro heq
    have hled := congrArg (',' :: ·) heq
    simp only [← List.cons_append, cons_toList_intercalate (List.cons_ne_nil a cs)] at hled
    obtain ⟨c, front, hfront, hne⟩ := hopens a
    simp [hfront, hne] at hled
  cases as with
  | nil =>
      cases bs with
      | nil => simpa using h
      | cons b bs => exact absurd h.symm (nonempty b bs _ _)
  | cons a as =>
      cases bs with
      | nil => exact absurd h (nonempty a as _ _)
      | cons b bs =>
          have hled := congrArg (',' :: ·) h
          simp only [← List.cons_append, cons_toList_intercalate (List.cons_ne_nil _ _)] at hled
          refine flatMap_append_inj ?_ (fun _ _ => stops_members hdigit) ?_ hled
          · intro c hc d behind behind' hstops hstops' heq
            exact hlegible c hc d _ _ hstops hstops' (List.cons.inj heq).2
          · intro c behind behind' heq
            exact hcomma (List.cons.inj heq).1.symm

end

/-! ### Values -/

/-- A record's field as it is written. -/
def compactField (field : String × Json) : String := quote field.1 ++ ":" ++ compact field.2

theorem compactItems_eq_map (items : List Json) : compactItems items = items.map compact := by
  induction items with
  | nil => rfl
  | cons j items ih => rw [compactItems, ih, List.map_cons]

theorem compactFields_eq_map (fields : List (String × Json)) :
    compactFields fields = fields.map compactField := by
  induction fields with
  | nil => rfl
  | cons field fields ih => rw [compactFields, ih, List.map_cons, compactField]

theorem toList_compact_list_append (items : List Json) (rest : List Char) :
    (compact (.list items)).toList ++ rest =
      '[' :: ((",".intercalate (items.map compact)).toList ++ ']' :: rest) := by
  simp [compact, compactItems_eq_map]

theorem toList_compact_record_append (fields : List (String × Json)) (rest : List Char) :
    (compact (.record fields)).toList ++ rest =
      '\x7b' :: ((",".intercalate (fields.map compactField)).toList ++ '\x7d' :: rest) := by
  simp [compact, compactFields_eq_map]

theorem toList_compactField_append (field : String × Json) (rest : List Char) :
    (compactField field).toList ++ rest =
      (quote field.1).toList ++ ':' :: ((compact field.2).toList ++ rest) := by
  simp [compactField]

/-- The characters that a value of this kind can begin with. -/
def OpensWith (c : Char) : Json → Prop
  | .number _ => c.isDigit
  | .text _ => c = '"'
  | .list _ => c = '['
  | .record _ => c = '\x7b'

theorem exists_compact_eq (j : Json) : ∃ c cs, (compact j).toList = c :: cs ∧ j.OpensWith c := by
  cases j with
  | number n =>
      have hne : (Nat.repr n).toList ≠ [] := by simp [Nat.repr_eq_ofList_toDigits]
      obtain ⟨c, cs, hdigits⟩ := List.exists_cons_of_ne_nil hne
      exact ⟨c, cs, hdigits, Text.isDigit_of_mem_repr (n := n) (by simp [hdigits])⟩
  | text s => exact ⟨_, _, by simpa [compact] using toList_quote_append s [], rfl⟩
  | list items => exact ⟨_, _, by simpa using toList_compact_list_append items [], rfl⟩
  | record fields =>
      exact ⟨_, _, by simpa using toList_compact_record_append fields [], rfl⟩

theorem opensWith_of_append_eq {c : Char} {cs : List Char} {j : Json}
    (h : c :: cs = (compact j).toList ++ rest) : j.OpensWith c := by
  obtain ⟨d, ds, hj, hopens⟩ := exists_compact_eq j
  rw [hj] at h
  rwa [(List.cons.inj h).1]

theorem legible_number (n : Nat) : Legible compact (.number n) := by
  intro k rest rest' hrest hrest' h
  obtain ⟨c, cs, hn, hdigit⟩ := exists_compact_eq (.number n)
  have hopens : k.OpensWith c := opensWith_of_append_eq (by rw [← h, hn, List.cons_append])
  cases k with
  | number m =>
      obtain ⟨rfl, hsame⟩ := repr_append_inj hrest hrest' h
      exact ⟨rfl, hsame⟩
  | text _ | list _ | record _ =>
      obtain rfl : c = _ := hopens
      exact absurd hdigit (by simp [OpensWith])

theorem legible_text (s : String) : Legible compact (.text s) := by
  intro k rest rest' _ _ h
  have hopens : k.OpensWith '"' := by
    apply opensWith_of_append_eq
    rw [← h, compact, toList_quote_append]
  cases k with
  | text t =>
      obtain ⟨rfl, hsame⟩ := quote_append_inj h
      exact ⟨rfl, hsame⟩
  | number _ | list _ | record _ => exact absurd hopens (by simp [OpensWith])

theorem legible_list {items : List Json} (hitems : ∀ j ∈ items, Legible compact j) :
    Legible compact (.list items) := by
  intro k rest rest' _ _ h
  rw [toList_compact_list_append] at h
  have hopens := opensWith_of_append_eq h
  cases k with
  | list others =>
      rw [toList_compact_list_append] at h
      have hfirst (j : Json) : ∃ c cs, (compact j).toList = c :: cs ∧ c ≠ ']' := by
        obtain ⟨c, cs, hj, hopens⟩ := exists_compact_eq j
        refine ⟨c, cs, hj, ?_⟩
        rintro rfl
        cases j <;> simp [OpensWith] at hopens
      obtain ⟨rfl, hsame⟩ :=
        members_inj hitems (by decide) (by decide) hfirst (List.cons.inj h).2
      exact ⟨rfl, hsame⟩
  | number _ | text _ | record _ => exact absurd hopens (by simp [OpensWith])

theorem legible_field {field : String × Json} (h : Legible compact field.2) :
    Legible compactField field := by
  intro other rest rest' hrest hrest' heq
  rw [toList_compactField_append, toList_compactField_append] at heq
  obtain ⟨hkey, hbehind⟩ := quote_append_inj heq
  obtain ⟨hvalue, hsame⟩ := h _ _ _ hrest hrest' (List.cons.inj hbehind).2
  exact ⟨Prod.ext hkey hvalue, hsame⟩

theorem legible_record {fields : List (String × Json)}
    (hfields : ∀ field ∈ fields, Legible compact field.2) : Legible compact (.record fields) := by
  intro k rest rest' _ _ h
  rw [toList_compact_record_append] at h
  have hopens := opensWith_of_append_eq h
  cases k with
  | record others =>
      rw [toList_compact_record_append] at h
      have hfirst (field : String × Json) :
          ∃ c cs, (compactField field).toList = c :: cs ∧ c ≠ '\x7d' := by
        have hfield := toList_compactField_append field []
        rw [toList_quote_append, List.append_nil] at hfield
        exact ⟨_, _, hfield, by decide⟩
      obtain ⟨rfl, hsame⟩ := members_inj (fun field hfield => legible_field (hfields field hfield))
        (by decide) (by decide) hfirst (List.cons.inj h).2
      exact ⟨rfl, hsame⟩
  | number _ | text _ | list _ => exact absurd hopens (by simp [OpensWith])

theorem legible (j : Json) : Legible compact j := by
  induction j using induction with
  | number n => exact legible_number n
  | text s => exact legible_text s
  | list items ih => exact legible_list ih
  | record fields ih => exact legible_record ih

/-- Different values are written differently. -/
theorem compact_injective {j k : Json} (h : compact j = compact k) : j = k :=
  (legible j k [] [] .nil .nil (by rw [h])).1

end Json

/-! ### Entries, cells and tables -/

theorem Json.ofOffset_injective {a b : UInt32} (h : Json.ofOffset a = Json.ofOffset b) : a = b :=
  UInt32.toNat_inj.1 (Json.number.inj h)

theorem Entry.toJson_injective {d e : Entry} (h : d.toJson = e.toJson) : d = e := by
  obtain ⟨offset, returnType, name, argTypes⟩ := d
  obtain ⟨offset', returnType', name', argTypes'⟩ := e
  simp only [toJson, Json.record.injEq, List.cons.injEq, Prod.mk.injEq, true_and, and_true,
    Json.text.injEq, Json.list.injEq] at h
  obtain ⟨hoffset, hreturn, hname, hargs⟩ := h
  rw [Json.ofOffset_injective hoffset, hreturn, hname,
    List.map_injective_iff.2 (fun _ _ => Json.text.inj) hargs]

/-- The first field of a cell tells of which kind it is, so cells of two kinds are never taken for
each other. -/
theorem Cell.toJson_injective {c d : Cell} (h : c.toJson = d.toJson) : c = d := by
  cases c with
  | padding o =>
      cases d with
      | padding o' =>
          have hoffset : Json.ofOffset o = Json.ofOffset o' := by simpa [toJson] using h
          rw [Json.ofOffset_injective hoffset]
      | backReference _ | function _ _ => simp [toJson] at h
  | backReference o =>
      cases d with
      | backReference o' =>
          have hoffset : Json.ofOffset o = Json.ofOffset o' := by simpa [toJson] using h
          rw [Json.ofOffset_injective hoffset]
      | padding _ | function _ _ => simp [toJson] at h
  | function o e =>
      cases d with
      | function o' e' =>
          have hboth : Json.ofOffset o = Json.ofOffset o' ∧ e.toJson = e'.toJson := by
            simpa [toJson] using h
          rw [Json.ofOffset_injective hboth.1, Entry.toJson_injective hboth.2]
      | padding _ | backReference _ => simp [toJson] at h

/-- Two tables are written as one text exactly if they have the same cells: as many of them, and at
each place cells of one kind with one offset and, where a function is, one entry to its last type. -/
theorem Table.compact_toJson_eq_iff (t u : Table) :
    t.toJson.compact = u.toJson.compact ↔ t.cells = u.cells := by
  constructor
  · intro h
    have hvalue : t.toJson = u.toJson := Json.compact_injective h
    have hcells : t.cells.map Cell.toJson = u.cells.map Cell.toJson := by
      simpa [toJson, cellsJson] using hvalue
    exact List.map_injective_iff.2 (fun _ _ => Cell.toJson_injective) hcells
  · intro h
    rw [toJson, toJson, cellsJson, cellsJson, h]

/-- One type is told from two, even if it spells out the quotes between them. -/
example : (Entry.toJson ⟨0, "u32", "Clear", ["u32\",\"u32"]⟩).compact ≠
    (Entry.toJson ⟨0, "u32", "Clear", ["u32", "u32"]⟩).compact := by
  decide

end CallTable
