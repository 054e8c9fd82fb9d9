import CallTable.Text

/-!
What runs tell: the reasons for which a table is not built, the events that are reported beside a
result, and computations that may fail and that report events in either case.
-/

namespace CallTable

/-! ### Rejections -/

/-- Why a table is not built. -/
inductive Rejection where
  /-- The table is empty, or not made of whole cells. -/
  | badSize (size : UInt32)
  | misalignedBackReference (offset : UInt32)
  | backReferenceOutside (offset size : UInt32)
  /-- The name is no identifier. -/
  | badName (name : String) (offset : UInt32)
  | misaligned (name : String) (offset : UInt32)
  | outside (name : String) (offset size : UInt32)
  | onBackReference (name : String) (offset : UInt32)
  | sharedOffset (offset : UInt32) (first second : String)
  | repeatedName (name : String) (firstOffset secondOffset : UInt32)
deriving DecidableEq

/-- Offsets and sizes are written in hexadecimal. -/
def address (offset : UInt32) : String := "0x" ++ Text.hex offset.toNat

theorem address_injective {a b : UInt32} (h : address a = address b) : a = b := by
  have := congrArg String.toList h
  simp only [address, String.toList_append, List.append_cancel_left_eq] at this
  exact UInt32.toNat_inj.1 (Text.hex_injective (String.toList_injective this))

/-- Names stand between back quotes. -/
def quoted (name : String) : String := "`" ++ name ++ "`"

def Rejection.message : Rejection → String
  | .badSize size => "table size " ++ address size ++ " is not a positive multiple of 4"
  | .misalignedBackReference offset =>
      "back-reference offset " ++ address offset ++ " is not aligned to a 4-byte slot"
  | .backReferenceOutside offset size =>
      "back-reference offset " ++ address offset ++ " is outside the table (size "
        ++ address size ++ ")"
  | .badName name offset => quoted name ++ " at " ++ address offset ++ " is not a valid identifier"
  | .misaligned name offset =>
      quoted name ++ " at " ++ address offset ++ " is not aligned to a 4-byte slot"
  | .outside name offset size =>
      quoted name ++ " at " ++ address offset ++ " is outside the table (size "
        ++ address size ++ ")"
  | .onBackReference name offset =>
      quoted name ++ " at " ++ address offset ++ " collides with the back-reference slot"
  | .sharedOffset offset first second =>
      quoted second ++ " at " ++ address offset ++ " collides with " ++ quoted first
  | .repeatedName name firstOffset secondOffset =>
      quoted name ++ " is declared at both " ++ address firstOffset ++ " and "
        ++ address secondOffset

/-! ### Events -/

inductive Level where
  | debug
  | info
  | warn
deriving DecidableEq

inductive Event where
  /-- All entries were found fit for a table of this many bytes. -/
  | checked (entries : Nat) (size : UInt32)
  /-- An entry took the cell that refers back, which has this offset. -/
  | tookBackReference (name : String) (offset : UInt32)
  /-- An entry took the cell of an earlier one. -/
  | tookCell (name previous : String) (offset : UInt32)
  /-- An entry whose offset lies inside a cell was given that cell. -/
  | movedToCell (name : String) (offset cell : UInt32)
  | arranged (cells functions : Nat)
  | emitting (className : String) (entries : Nat)
  | wrote (path : String) (bytes : Nat)
deriving DecidableEq

namespace Event

def level : Event → Level
  | .checked .. | .arranged .. | .emitting .. => .debug
  | .wrote .. => .info
  | .tookBackReference .. | .tookCell .. | .movedToCell .. => .warn

def message : Event → String
  | .checked entries size =>
      "validated " ++ Nat.repr entries ++ " descriptors against a " ++ address size
        ++ "-byte table"
  | .tookBackReference name offset =>
      quoted name ++ " replaces the back-reference slot at " ++ address offset
  | .tookCell name previous offset =>
      quoted name ++ " replaces " ++ quoted previous ++ " at " ++ address offset
  | .movedToCell name offset cell =>
      quoted name ++ " at " ++ address offset ++ " is misaligned, placed in slot " ++ address cell
  | .arranged cells functions =>
      "laid out " ++ Nat.repr cells ++ " slots, " ++ Nat.repr functions
        ++ " described"
  | .emitting className entries =>
      "emitting " ++ className ++ " for " ++ Nat.repr entries ++ " functions"
  | .wrote path bytes => "wrote " ++ path ++ " (" ++ Nat.repr bytes ++ " bytes)"

end Event

/-! ### Computations that report

A failure ends a computation but keeps what was reported until then. -/

structure Reported (ε α : Type) where
  result : Except ε α
  events : List Event

namespace Reported

variable {ε α β : Type}

def report (events : List Event) : Reported ε Unit := ⟨.ok (), events⟩

def fail (reason : ε) : Reported ε α := ⟨.error reason, []⟩

def bind (x : Reported ε α) (f : α → Reported ε β) : Reported ε β :=
  match x.result with
  | .error reason => ⟨.error reason, x.events⟩
  | .ok a => ⟨(f a).result, x.events ++ (f a).events⟩

instance : Monad (Reported ε) where
  pure a := ⟨.ok a, []⟩
  bind := bind

/-- The same computation, failing for the image of its reason. -/
def mapError {δ : Type} (f : ε → δ) (x : Reported ε α) : Reported δ α :=
  ⟨x.result.mapError f, x.events⟩

@[simp] theorem pure_eq (a : α) : (pure a : Reported ε α) = ⟨.ok a, []⟩ := rfl

@[simp] theorem bind_ok (a : α) (events : List Event) (f : α → Reported ε β) :
    (⟨.ok a, events⟩ : Reported ε α) >>= f = ⟨(f a).result, events ++ (f a).events⟩ := rfl

@[simp] theorem bind_error (reason : ε) (events : List Event) (f : α → Reported ε β) :
    (⟨.error reason, events⟩ : Reported ε α) >>= f = ⟨.error reason, events⟩ := rfl

theorem result_bind (x : Reported ε α) (f : α → Reported ε β) :
    (x >>= f).result = x.result.bind fun a => (f a).result := by
  obtain ⟨result, events⟩ := x
  cases result <;> rfl

/-- A result of two steps in a row is a result of each. -/
theorem bind_eq_ok_iff {x : Reported ε α} {f : α → Reported ε β} {b : β} :
    (x >>= f).result = .ok b ↔ ∃ a, x.result = .ok a ∧ (f a).result = .ok b := by
  rw [result_bind]
  cases x.result <;> simp [Except.bind]

end Reported

end CallTable
