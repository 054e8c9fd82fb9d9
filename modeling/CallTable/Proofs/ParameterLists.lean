import CallTable.Proofs.Document.Lines
import Mathlib.Data.List.Nodup

/-!
The three lists of an entry, which are its parameters, the names of its arguments and the
conversions that print them. Each is written with a comma and a blank between its members, and as
long as no type contains a comma, cutting it there gives the members again. So what stands at a
position of one list belongs to what stands at that position of the others.
-/

namespace CallTable.Entry

open Text (Lacks)

variable {e : Entry}

theorem nodup_argumentNames : e.argumentNames.Nodup :=
  List.nodup_range.map fun _ _ => argumentName_injective

/-- The lists of an entry agree position by position. They are empty if there are no arguments.
Otherwise each has a piece for every argument: its name, which is the letter `a` with the position
behind it, the type in front of this name, and the conversion for the type. No two arguments have
the same name. -/
theorem lists_agree (e : Entry) (hcomma : ∀ type ∈ e.argTypes, Lacks ',' type) :
    (e.arity = 0 →
      listed e.parameters = "" ∧ listed e.argumentNames = "" ∧ listed e.conversions = "") ∧
    (e.arity ≠ 0 →
      (Text.split ", " (listed e.parameters)).length = e.arity ∧
      (Text.split ", " (listed e.argumentNames)).length = e.arity ∧
      (Text.split ", " (listed e.conversions)).length = e.arity ∧
      ∀ i (hi : i < e.argTypes.length),
        (Text.split ", " (listed e.argumentNames))[i]? = some ("a" ++ Nat.repr i) ∧
        (Text.split ", " (listed e.parameters))[i]? =
          some (e.argTypes[i] ++ " " ++ ("a" ++ Nat.repr i)) ∧
        (Text.split ", " (listed e.conversions))[i]? =
          some (TypeName.conversion e.argTypes[i])) ∧
    ((List.range e.arity).map fun i => "a" ++ Nat.repr i).Nodup := by
  refine ⟨fun hempty => ?_, fun hsome => ?_, nodup_argumentNames⟩
  · have htypes : e.argTypes = [] := List.eq_nil_of_length_eq_zero hempty
    simp [parameters, argumentNames, conversions, arity, htypes, listed]
  · have hne {members : List String} (hlength : members.length = e.arity) : members ≠ [] :=
      List.ne_nil_of_length_pos (hlength ▸ Nat.pos_of_ne_zero hsome)
    have hparameters := split_listed (hne e.length_parameters)
      (lacks_of_mem_parameters (by decide) (by decide) hcomma)
    have hnames := split_listed (hne e.length_argumentNames)
      (lacks_of_mem_argumentNames (by decide))
    have hconversions := split_listed (hne e.length_conversions)
      (lacks_of_mem_conversions (by decide) (by decide))
    rw [hparameters, hnames, hconversions]
    refine ⟨e.length_parameters, e.length_argumentNames, e.length_conversions, fun i hi => ?_⟩
    simp [argumentNames, argumentName, parameters_eq_mapIdx, conversions, arity, hi]

/-- A type with parentheses and blanks in it, beside others. -/
theorem lists_agree_mixed :
    let e : Entry := ⟨8, "void", "Sort", ["u8 * ", "int (*)(int)", "u32"]⟩
    (∀ type ∈ e.argTypes, Lacks ',' type) ∧ e.arity ≠ 0 ∧
      listed e.parameters = "u8 *  a0, int (*)(int) a1, u32 a2" ∧
      listed e.argumentNames = "a0, a1, a2" ∧
      listed e.conversions = "%p, 0x%x, 0x%x" ∧
      (Text.split ", " "u8 *  a0, int (*)(int) a1, u32 a2")[1]? = some "int (*)(int) a1" ∧
      (Text.split ", " "a0, a1, a2")[1]? = some "a1" ∧
      (Text.split ", " "%p, 0x%x, 0x%x")[0]? = some "%p" ∧
      (Text.split ", " "%p, 0x%x, 0x%x")[1]? = some "0x%x" := by
  intro e
  have hcomma : ∀ type ∈ e.argTypes, Lacks ',' type := by decide
  have hpieces := ((lists_agree e hcomma).2.1 (by decide)).2.2.2
  have htags : listed e.conversions = "%p, 0x%x, 0x%x" := rfl
  obtain ⟨-, -, hpointer⟩ := hpieces 0 (by decide)
  obtain ⟨hname, hparameter, hnumber⟩ := hpieces 1 (by decide)
  have htypes : TypeName.conversion e.argTypes[0] = "%p" ∧
      TypeName.conversion e.argTypes[1] = "0x%x" := by decide
  rw [htags, htypes.1] at hpointer
  rw [htags, htypes.2] at hnumber
  exact ⟨hcomma, by decide, rfl, rfl, htags, hparameter, hname, hpointer, hnumber⟩

end CallTable.Entry
