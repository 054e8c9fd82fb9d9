import CallTable.Proofs.FirstFault
import CallTable.Proofs.Policy
import CallTable.Proofs.Text.Cutting

/-!
The wording of a rejection tells all of it. A message is read from its end: the words behind its last
number, or a name that it closes with, give the kind of the rejection, and the name and the number in
front are then found at fixed marks. Only a name at the end could mislead, if it contained a back
quote, and this is always the name of an entry that was accepted.
-/

namespace CallTable

open Text (Lacks continuesIdentifier beforeLast afterLast)

/-! ### Numbers and names in a text -/

/-- A text around the last number in it. -/
structure Numbered where
  front : String
  number : UInt32
  words : String

def lastNumber (s : String) : Numbered :=
  let behind := afterLast 'x' s.toList
  ⟨String.ofList (beforeLast 'x' s.toList).dropLast,
    .ofNat (Text.hexValue (behind.takeWhile continuesIdentifier)),
    String.ofList (behind.dropWhile continuesIdentifier)⟩

/-- Words that can stand behind the last number. They contain no number themselves, and they do not
begin with what could be taken for a digit. -/
structure Trails (words : String) : Prop where
  lacks_mark : Lacks 'x' words
  head : ∀ c ∈ words.toList.head?, ¬continuesIdentifier c

instance (words : String) : Decidable (Trails words) :=
  decidable_of_iff (Lacks 'x' words ∧ words.toList.head?.all (!continuesIdentifier ·)) <| by
    rw [Option.all_eq_true]
    exact ⟨fun h => ⟨h.1, by simpa using h.2⟩, fun h => ⟨h.lacks_mark, by simpa using h.head⟩⟩

theorem lastNumber_append (front : String) (o : UInt32) (words : String) (h : Trails words) :
    lastNumber (front ++ address o ++ words) = ⟨front, o, words⟩ := by
  have hbehind : 'x' ∉ (Text.hex o.toNat).toList ++ words.toList := by
    rw [List.mem_append, not_or]
    exact ⟨Text.lacks_hex o.toNat, h.lacks_mark⟩
  have htext : (front ++ address o ++ words).toList =
      (front.toList ++ ['0']) ++ 'x' :: ((Text.hex o.toNat).toList ++ words.toList) := by
    simp [address]
  rw [lastNumber, htext, Text.afterLast_append_cons hbehind, Text.beforeLast_append_cons hbehind,
    Text.takeWhile_run (Text.isWord_hex o.toNat) h.head,
    Text.dropWhile_run (Text.isWord_hex o.toNat) h.head]
  simp

/-- The name in back quotes at the beginning of a text without other back quotes. -/
def leadingName (s : String) : String := String.ofList (beforeLast '`' s.toList).tail

theorem leadingName_append (name words : String) (h : Lacks '`' words) :
    leadingName (quoted name ++ words) = name := by
  have htext : (quoted name ++ words).toList = ('`' :: name.toList) ++ '`' :: words.toList := by
    simp [quoted]
  rw [leadingName, htext, Text.beforeLast_append_cons h, List.tail_cons, String.ofList_toList]

def BeginsWithName (s : String) : Prop := s.toList.head? = some '`'

def EndsWithName (s : String) : Prop := s.toList.getLast? = some '`'

instance (s : String) : Decidable (BeginsWithName s) := inferInstanceAs (Decidable (_ = _))

instance (s : String) : Decidable (EndsWithName s) := inferInstanceAs (Decidable (_ = _))

theorem beginsWithName_append (name words : String) : BeginsWithName (quoted name ++ words) := by
  simp [BeginsWithName, quoted]

theorem toList_append_quoted (front name : String) :
    (front ++ quoted name).toList = (front.toList ++ '`' :: name.toList) ++ ['`'] := by
  simp [quoted]

theorem not_endsWithName_append {front words : String} (hne : words ≠ "") (h : Lacks '`' words) :
    ¬EndsWithName (front ++ words) := by
  intro hends
  have hnil : words.toList ≠ [] := by simpa using hne
  rw [EndsWithName, String.toList_append, List.getLast?_append_of_ne_nil _ hnil] at hends
  exact h (List.mem_of_getLast? hends)

namespace Rejection

/-! ### Reading a message -/

/-- The rejection with a message that does not end in a name, which is given around its last
number. -/
def readNumbered (m : Numbered) : Rejection :=
  let inner := lastNumber m.front
  if m.words = " is not a positive multiple of 4" then .badSize m.number
  else if m.words = " is not aligned to a 4-byte slot" then
    if BeginsWithName m.front then .misaligned (leadingName m.front) m.number
    else .misalignedBackReference m.number
  else if m.words = ")" then
    if BeginsWithName m.front then .outside (leadingName inner.front) inner.number m.number
    else .backReferenceOutside inner.number m.number
  else if m.words = " is not a valid identifier" then .badName (leadingName m.front) m.number
  else if m.words = " collides with the back-reference slot" then
    .onBackReference (leadingName m.front) m.number
  else .repeatedName (leadingName inner.front) inner.number m.number

/-- The rejection with a message that ends in a name, given without the quote that closes it. -/
def readNamed (unclosed : List Char) : Rejection :=
  let inner := lastNumber (String.ofList (beforeLast '`' unclosed))
  .sharedOffset inner.number (String.ofList (afterLast '`' unclosed)) (leadingName inner.front)

/-- The rejection with a message. -/
def read (message : String) : Rejection :=
  if EndsWithName message then readNamed message.toList.dropLast
  else readNumbered (lastNumber message)

/-- A name at the end of a message is found if it contains no back quote. -/
theorem read_append_quoted (front : String) {name : String} (h : Lacks '`' name) :
    read (front ++ quoted name) =
      .sharedOffset (lastNumber front).number name (leadingName (lastNumber front).front) := by
  have hends : EndsWithName (front ++ quoted name) := by
    rw [EndsWithName, toList_append_quoted, List.getLast?_concat]
  rw [read, if_pos hends, toList_append_quoted, List.dropLast_concat, readNamed,
    Text.beforeLast_append_cons h, Text.afterLast_append_cons h, String.ofList_toList,
    String.ofList_toList]

theorem read_append_address (front : String) (o : UInt32) :
    read (front ++ address o) = readNumbered ⟨front, o, ""⟩ := by
  have hname : Lacks '`' (address o) := (Text.isWord_address o).lacks (by decide)
  have hnumber := lastNumber_append front o "" (by decide)
  rw [String.append_empty] at hnumber
  rw [read, if_neg (not_endsWithName_append (by simp [address]) hname), hnumber]

theorem read_append (front : String) (o : UInt32) {words : String} (hne : words ≠ "")
    (h : Trails words ∧ Lacks '`' words) :
    read (front ++ address o ++ words) = readNumbered ⟨front, o, words⟩ := by
  rw [read, if_neg (not_endsWithName_append hne h.2), lastNumber_append front o words h.1]

/-- The name of an earlier entry that is given as a reason is an identifier. -/
def CitesIdentifier : Rejection → Prop
  | .sharedOffset _ first _ => Text.isIdentifier first
  | _ => True

/-- A message gives its rejection back, whatever the other names in it. -/
theorem read_message {r : Rejection} (h : r.CitesIdentifier) : read r.message = r := by
  have hname (name : String) : leadingName (quoted name ++ " at ") = name :=
    leadingName_append name " at " (by decide)
  cases r with
  | badSize size =>
      unfold message
      rw [read_append "table size " size (by decide) (by decide)]
      simp [readNumbered]
  | misalignedBackReference offset =>
      unfold message
      rw [read_append "back-reference offset " offset (by decide) (by decide)]
      simp [readNumbered, BeginsWithName]
  | backReferenceOutside offset size =>
      -- the front of the last number is read for a number in its turn
      unfold message
      rw [read_append ("back-reference offset " ++ address offset ++ " is outside the table (size ")
        size (by decide) (by decide), readNumbered, lastNumber_append _ _ _ (by decide)]
      simp [BeginsWithName]
  | badName name offset =>
      unfold message
      rw [read_append (quoted name ++ " at ") offset (by decide) (by decide)]
      simp [readNumbered, hname]
  | misaligned name offset =>
      unfold message
      rw [read_append (quoted name ++ " at ") offset (by decide) (by decide)]
      simp [readNumbered, beginsWithName_append, hname]
  | outside name offset size =>
      unfold message
      rw [read_append (quoted name ++ " at " ++ address offset ++ " is outside the table (size ")
        size (by decide) (by decide), readNumbered, lastNumber_append _ _ _ (by decide)]
      simp [beginsWithName_append, hname, String.append_assoc]
  | onBackReference name offset =>
      unfold message
      rw [read_append (quoted name ++ " at ") offset (by decide) (by decide)]
      simp [readNumbered, hname]
  | sharedOffset offset first second =>
      have hfirst : Lacks '`' first := (Text.isWord_of_isIdentifier h).lacks (by decide)
      unfold message
      rw [read_append_quoted _ hfirst, lastNumber_append _ _ _ (by decide), hname]
  | repeatedName name firstOffset secondOffset =>
      unfold message
      rw [read_append_address, readNumbered, lastNumber_append _ _ _ (by decide)]
      simp [leadingName_append name " is declared at both " (by decide)]

/-- Names with back quotes can make one message of two rejections. -/
example : (sharedOffset 0 "C" "A` at 0x00 collides with `B").message =
    (sharedOffset 0 "B` at 0x00 collides with `C" "A").message := by
  decide

end Rejection

/-! ### The rejections that arise -/

theorem Geometry.citesIdentifier_of_fault? {g : Geometry} {r : Rejection} (h : g.fault? = some r) :
    r.CitesIdentifier := by
  rw [fault?] at h
  split at h
  · obtain rfl := Option.some.inj h
    trivial
  · split at h
    · obtain rfl := Option.some.inj h
      trivial
    · split at h
      · obtain rfl := Option.some.inj h
        trivial
      · cases h

/-- Entries are only compared with entries that are admissible. -/
theorem Entry.AtFault.citesIdentifier {g : Geometry} {earlier : List Entry} {e : Entry}
    {r : Rejection} (hearlier : Admissible g earlier) (h : e.AtFault g earlier r) :
    r.CitesIdentifier := by
  cases h with
  | sharedOffset first hsound hfirst =>
      have hmem : first ∈ earlier.filter (·.offset = e.offset) := by simp [hfirst]
      exact (hearlier.sound first (List.mem_of_mem_filter hmem)).isIdentifier_name
  | badName | misaligned | outside | onBackReference | repeatedName => trivial

namespace Table

theorem citesIdentifier_of_arrange {p : Profile} {entries : List Entry} {r : Rejection}
    (h : (arrange p entries).result = .error r) : r.CitesIdentifier := by
  cases hfault : p.geometry.fault? with
  | some fault =>
      rw [result_arrange_of_fault?_eq_some hfault] at h
      obtain rfl := Except.error.inj h
      exact Geometry.citesIdentifier_of_fault? hfault
  | none =>
      have hg := Geometry.fault?_eq_none_iff.1 hfault
      cases hpolicy : p.policy with
      | strict =>
          rw [result_arrange_of_strict hpolicy] at h
          cases hrejection : rejection? p.geometry entries with
          | none => simp [hrejection] at h
          | some reason =>
              simp only [hrejection, Except.error.injEq] at h
              obtain ⟨before, e, after, -, hbefore, hat⟩ := (rejection?_eq_some_iff hg).1 hrejection
              rw [← h]
              exact hat.citesIdentifier hbefore
      | lastWins =>
          rw [result_arrange_of_lastWins hpolicy hg] at h
          cases hfind : entries.find? fun e => p.geometry.size ≤ e.offset with
          | none => simp [hfind] at h
          | some e =>
              simp only [hfind, Except.error.injEq] at h
              rw [← h]
              trivial

/-- Two runs that fail with one message fail for one reason, whatever their profiles, policies and
entries: it is of the same kind and gives the same names, offsets and size. -/
theorem rejection_eq_of_message_eq {p q : Profile} {entries others : List Entry} {r s : Rejection}
    (hr : (arrange p entries).result = .error r) (hs : (arrange q others).result = .error s)
    (h : r.message = s.message) : r = s := by
  calc r = Rejection.read r.message := (Rejection.read_message (citesIdentifier_of_arrange hr)).symm
    _ = Rejection.read s.message := by rw [h]
    _ = s := Rejection.read_message (citesIdentifier_of_arrange hs)

/-- An entry whose name looks like the beginning of a message, behind the end of two tables. -/
theorem rejection_eq_of_message_eq_outside :
    ∃ r s, (arrange { geometry := ⟨8, 4⟩, policy := .lastWins }
        [⟨9, "u32", "A` at 0x08", []⟩]).result = .error r ∧
      (arrange { geometry := ⟨8, 0⟩, policy := .lastWins }
        [⟨0, "u32", "Clear", []⟩, ⟨9, "void", "A` at 0x08", ["u32"]⟩]).result = .error s ∧
      r.message = s.message ∧ r = s := by
  have hfirst : (arrange { geometry := ⟨8, 4⟩, policy := .lastWins }
      [⟨9, "u32", "A` at 0x08", []⟩]).result = .error (.outside "A` at 0x08" 9 8) := rfl
  have hsecond : (arrange { geometry := ⟨8, 0⟩, policy := .lastWins }
      [⟨0, "u32", "Clear", []⟩, ⟨9, "void", "A` at 0x08", ["u32"]⟩]).result =
        .error (.outside "A` at 0x08" 9 8) := rfl
  exact ⟨_, _, hfirst, hsecond, rfl, rejection_eq_of_message_eq hfirst hsecond rfl⟩

end Table

end CallTable
