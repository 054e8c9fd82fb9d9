/-!
JSON values as they describe tables: whole numbers, texts, lists, and records whose fields keep
their order. A value has two written forms: `compact`, without any blank between its tokens, and
`pretty`, with one list item or record field to a line.
-/

namespace CallTable

inductive Json where
  | number (n : Nat)
  | text (s : String)
  | list (items : List Json)
  | record (fields : List (String × Json))

namespace Json

theorem sizeOf_lt_of_mem_fields {fields : List (String × Json)} {field : String × Json}
    (h : field ∈ fields) : sizeOf field.2 < sizeOf (Json.record fields) := by
  have hinside := List.sizeOf_lt_of_mem h
  obtain ⟨key, value⟩ := field
  simp only [Json.record.sizeOf_spec, Prod.mk.sizeOf_spec] at hinside ⊢
  omega

/-- What holds of a list or a record as soon as it holds of the values inside, for all values. -/
@[elab_as_elim]
theorem induction {motive : Json → Prop} (number : ∀ n, motive (.number n))
    (text : ∀ s, motive (.text s))
    (list : ∀ items, (∀ j ∈ items, motive j) → motive (.list items))
    (record : ∀ fields, (∀ field ∈ fields, motive field.2) → motive (.record fields))
    (j : Json) : motive j :=
  match j with
  | .number n => number n
  | .text s => text s
  | .list items => list items fun j _ => induction number text list record j
  | .record fields => record fields fun field _ => induction number text list record field.2
termination_by j
decreasing_by
  · decreasing_tactic
  · exact sizeOf_lt_of_mem_fields ‹_›

/-! ### Quoted texts

Quotes, backslashes and the control characters below the space are escaped; every other character
stands for itself. -/

/-- A control character without a letter of its own is written with four hexadecimal digits, in
lower case. -/
def escape (c : Char) : List Char :=
  if c = '"' then ['\\', '"']
  else if c = '\\' then ['\\', '\\']
  else if c = '\x08' then ['\\', 'b']
  else if c = '\t' then ['\\', 't']
  else if c = '\n' then ['\\', 'n']
  else if c = '\x0c' then ['\\', 'f']
  else if c = '\r' then ['\\', 'r']
  else if c.toNat < 0x20 then
    ['\\', 'u', '0', '0', Nat.digitChar (c.toNat / 16), Nat.digitChar (c.toNat % 16)]
  else [c]

def quote (s : String) : String := String.ofList ('"' :: s.toList.flatMap escape ++ ['"'])

/-! ### The written forms -/

mutual

def compact : Json → String
  | .number n => Nat.repr n
  | .text s => quote s
  | .list items => "[" ++ ",".intercalate (compactItems items) ++ "]"
  | .record fields => "\x7b" ++ ",".intercalate (compactFields fields) ++ "\x7d"

def compactItems : List Json → List String
  | [] => []
  | j :: rest => compact j :: compactItems rest

def compactFields : List (String × Json) → List String
  | [] => []
  | (key, j) :: rest => (quote key ++ ":" ++ compact j) :: compactFields rest

end

/-- Members stand between the brackets on lines of their own. Nothing is written between the
brackets of an empty list or record. -/
def enclose (opening closing margin : String) (members : List String) : String :=
  if members.isEmpty then opening ++ closing
  else opening ++ "\n" ++ ",\n".intercalate members ++ "\n" ++ margin ++ closing

mutual

/-- Members are two spaces further in than `margin`, the margin of the value itself. -/
def pretty (margin : String) : Json → String
  | .number n => Nat.repr n
  | .text s => quote s
  | .list items => enclose "[" "]" margin (prettyItems (margin ++ "  ") items)
  | .record fields => enclose "\x7b" "\x7d" margin (prettyFields (margin ++ "  ") fields)

def prettyItems (margin : String) : List Json → List String
  | [] => []
  | j :: rest => (margin ++ pretty margin j) :: prettyItems margin rest

def prettyFields (margin : String) : List (String × Json) → List String
  | [] => []
  | (key, j) :: rest =>
      (margin ++ quote key ++ ": " ++ pretty margin j) :: prettyFields margin rest

end

end Json

end CallTable
