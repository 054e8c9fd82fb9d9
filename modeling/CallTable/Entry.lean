import CallTable.Text

/-!
Entries of a call table: functions known by the byte offset of their pointer, a return type, a
name and argument types. Types are known by their spelling alone. Arguments have no names of their
own and are called `a0`, `a1` and so on wherever one is needed, so the lists derived here agree
position by position.
-/

namespace CallTable

namespace TypeName

/-- A pointer type ends in an asterisk. -/
def isPointer (type : String) : Bool := (Text.trimEnd type.toList).getLast? == some '*'

def isVoid (type : String) : Bool := Text.trim type.toList == ['v', 'o', 'i', 'd']

/-- The conversion that prints a value of the type in a trace: an address for a pointer, else a
hexadecimal number. -/
def conversion (type : String) : String := if isPointer type then "%p" else "0x%x"

end TypeName

structure Entry where
  offset : UInt32
  returnType : String
  name : String
  argTypes : List String
deriving DecidableEq

namespace Entry

def arity (e : Entry) : Nat := e.argTypes.length

def hasArguments (e : Entry) : Bool := !e.argTypes.isEmpty

def returnsVoid (e : Entry) : Bool := TypeName.isVoid e.returnType

def argumentName (i : Nat) : String := "a" ++ Nat.repr i

def argumentNames (e : Entry) : List String := (List.range e.arity).map argumentName

/-- The parameters as a declaration spells them. -/
def parameters (e : Entry) : List String :=
  List.zipWith (fun type name => type ++ " " ++ name) e.argTypes e.argumentNames

/-- The conversions that print the arguments in a trace. -/
def conversions (e : Entry) : List String := e.argTypes.map TypeName.conversion

/-- Lists are written with a comma and a space between their members. -/
def listed (members : List String) : String := ", ".intercalate members

/-- The index of the cell that the offset falls into. Cells are four bytes wide. -/
def index (e : Entry) : Nat := e.offset.toNat / 4

/-- The offset is that of a cell, and not of a place inside one. -/
def Aligned (e : Entry) : Prop := e.offset.toNat % 4 = 0

instance (e : Entry) : Decidable e.Aligned := inferInstanceAs (Decidable (_ = _))

@[simp] theorem length_argumentNames (e : Entry) : e.argumentNames.length = e.arity := by
  simp [argumentNames]

@[simp] theorem length_parameters (e : Entry) : e.parameters.length = e.arity := by
  simp [parameters, arity]

@[simp] theorem length_conversions (e : Entry) : e.conversions.length = e.arity := by
  simp [conversions, arity]

theorem argumentName_injective {i j : Nat} (h : argumentName i = argumentName j) : i = j := by
  have hdigits := congrArg String.toList h
  simp only [argumentName, String.toList_append, List.append_cancel_left_eq,
    Nat.repr_eq_ofList_toDigits, String.toList_ofList] at hdigits
  have hvalue := congrArg (Nat.ofDigitChars 10 · 0) hdigits
  simpa [Nat.ofDigitChars_toDigits] using hvalue

end Entry

end CallTable
