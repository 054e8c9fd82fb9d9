/-!
Texts: hexadecimal numerals, blanks and identifiers, and documents as lists of lines.
-/

namespace CallTable.Text

/-! ### Hexadecimal numerals

Numerals are in upper case and have at least two digits. Reading the digits back gives the number
again, so different numbers are written differently. -/

def hexDigits (n : Nat) : List Char := (Nat.toDigits 16 n).map Char.toUpper

def hex (n : Nat) : String := String.ofList ((hexDigits n).leftpad 2 '0')

def hexDigitValue (c : Char) : Nat :=
  if c.isDigit then c.toNat - '0'.toNat else c.toNat - 'A'.toNat + 10

/-- The number that digits denote, the most significant digit first. -/
def hexValue (cs : List Char) : Nat := cs.foldl (fun v c => v * 16 + hexDigitValue c) 0

theorem hexDigitValue_digitChar {d : Nat} (h : d < 16) :
    hexDigitValue (Nat.digitChar d).toUpper = d := by
  have all : ∀ i : Fin 16, hexDigitValue (Nat.digitChar i).toUpper = i := by decide
  exact all ⟨d, h⟩

theorem hexValue_append_singleton (cs : List Char) (c : Char) :
    hexValue (cs ++ [c]) = hexValue cs * 16 + hexDigitValue c := by
  simp [hexValue]

theorem hexValue_hexDigits (n : Nat) : hexValue (hexDigits n) = n := by
  induction n using Nat.strongRecOn with
  | ind n ih =>
      rw [hexDigits, Nat.toDigits_eq_if (by omega)]
      split
      · next h => simp [hexValue, hexDigitValue_digitChar h]
      · next h =>
          have hlast := hexDigitValue_digitChar (Nat.mod_lt n (show 0 < 16 by omega))
          have hrest := ih (n / 16) (by omega)
          rw [hexDigits] at hrest
          rw [List.map_append, List.map_singleton, hexValue_append_singleton, hrest, hlast]
          omega

/-- Zeros in front do not count. -/
theorem hexValue_leftpad (width : Nat) (cs : List Char) :
    hexValue (cs.leftpad width '0') = hexValue cs := by
  have zeros (k : Nat) :
      (List.replicate k '0').foldl (fun v c => v * 16 + hexDigitValue c) 0 = 0 := by
    induction k with
    | zero => rfl
    | succ k ih => simpa [List.replicate_succ, hexDigitValue] using ih
  simp [hexValue, List.leftpad, List.foldl_append, zeros]

@[simp] theorem hexValue_hex (n : Nat) : hexValue (hex n).toList = n := by
  rw [hex, String.toList_ofList, hexValue_leftpad, hexValue_hexDigits]

theorem hex_injective {m n : Nat} (h : hex m = hex n) : m = n := by
  rw [← hexValue_hex m, h, hexValue_hex]

/-! ### Blanks -/

/-- The code points with the Unicode property White_Space, as inclusive ranges. -/
def blankRanges : List (Nat × Nat) :=
  [(0x09, 0x0D), (0x20, 0x20), (0x85, 0x85), (0xA0, 0xA0), (0x1680, 0x1680), (0x2000, 0x200A),
    (0x2028, 0x2029), (0x202F, 0x202F), (0x205F, 0x205F), (0x3000, 0x3000)]

def isBlank (c : Char) : Bool := blankRanges.any fun r => r.1 ≤ c.toNat && c.toNat ≤ r.2

def trimStart (cs : List Char) : List Char := cs.dropWhile isBlank

def trimEnd (cs : List Char) : List Char := (cs.reverse.dropWhile isBlank).reverse

def trim (cs : List Char) : List Char := trimEnd (trimStart cs)

/-! ### Identifiers

An identifier is a letter or an underscore, then letters, digits and underscores, all in ASCII. -/

def startsIdentifier (c : Char) : Bool := c.isAlpha || c == '_'

def continuesIdentifier (c : Char) : Bool := c.isAlphanum || c == '_'

def isIdentifier (s : String) : Bool :=
  match s.toList with
  | [] => false
  | c :: cs => startsIdentifier c && cs.all continuesIdentifier

theorem continuesIdentifier_of_startsIdentifier {c : Char} (h : startsIdentifier c) :
    continuesIdentifier c := by
  simp only [startsIdentifier, continuesIdentifier, Char.isAlphanum, Bool.or_eq_true] at *
  exact h.imp_left Or.inl

/-- Every character of an identifier may stand inside one. -/
theorem continuesIdentifier_of_mem {s : String} (hs : isIdentifier s) :
    ∀ c ∈ s.toList, continuesIdentifier c := by
  intro c hc
  unfold isIdentifier at hs
  split at hs
  · contradiction
  · next d ds heq =>
      simp only [Bool.and_eq_true, List.all_eq_true] at hs
      rw [heq] at hc
      rcases List.mem_cons.1 hc with rfl | h
      · exact continuesIdentifier_of_startsIdentifier hs.1
      · exact hs.2 c h

/-! ### Lines

A document is written by ending each of its lines with a line feed. Its parts are put together as
lists, so that what stands on which line can be read off. -/

def unlines (lines : List String) : String := String.join (lines.map (· ++ "\n"))

@[simp] theorem unlines_nil : unlines [] = "" := by simp [unlines]

@[simp] theorem unlines_cons (l : String) (ls : List String) :
    unlines (l :: ls) = l ++ "\n" ++ unlines ls := by
  simp [unlines]

@[simp] theorem unlines_append (ls ms : List String) :
    unlines (ls ++ ms) = unlines ls ++ unlines ms := by
  simp [unlines]

/-- The members of a block stand one to a line behind its margin. A block without members still
takes up a line, which holds the margin alone. -/
def block (margin : String) (members : List String) : List String :=
  if members.isEmpty then [margin] else members.map (margin ++ ·)

theorem block_of_ne_nil {margin : String} {members : List String} (h : members ≠ []) :
    block margin members = members.map (margin ++ ·) := by
  simp [block, h]

end CallTable.Text
