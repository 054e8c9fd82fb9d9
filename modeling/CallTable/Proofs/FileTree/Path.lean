import CallTable.FileSystem
import CallTable.Proofs.Text.Cutting

/-!
The last step of a path. What a text has behind its last slash is the last step that it spells, so
a name that is joined to a directory ends up as a step of its own, and the suffix of the name stays
the suffix of the last step even if there are slashes in the name.
-/

namespace CallTable.Path

open Text (Lacks)

/-- The pieces between the slashes of a text. -/
def pieceList (cs : List Char) : List (List Char) := (pieces cs).1 :: (pieces cs).2

theorem pieceList_append_cons (front back : List Char) :
    pieceList (front ++ '/' :: back) = pieceList front ++ pieceList back := by
  induction front with
  | nil => simp [pieceList, pieces]
  | cons c front ih =>
      simp only [pieceList, List.cons_append, List.cons.injEq] at ih
      by_cases hc : c = '/' <;> simp [pieceList, pieces, hc, ih]

theorem pieceList_of_not_mem {cs : List Char} (h : '/' ∉ cs) : pieceList cs = [cs] := by
  induction cs with
  | nil => rfl
  | cons c cs ih =>
      rw [List.mem_cons, not_or] at h
      have hrest : pieces cs = (cs, []) := by simpa [pieceList, Prod.ext_iff] using ih h.2
      simp [pieceList, pieces, hrest, Ne.symm h.1]

theorem steps_ofString (text : String) :
    (ofString text).steps = ((pieceList text.toList).filter (· ≠ [])).map String.ofList := rfl

variable {name : String}

theorem steps_ofString_of_lacks (h : Lacks '/' name) (hne : name ≠ "") :
    (ofString name).steps = [name] := by
  have hchars : name.toList ≠ [] := by simpa using hne
  simp [steps_ofString, pieceList_of_not_mem h, hchars]

/-- A name behind a slash is the last step. -/
theorem getLast?_steps_of_slash (front : String) (h : Lacks '/' name) (hne : name ≠ "") :
    (ofString (front ++ "/" ++ name)).steps.getLast? = some name := by
  have hchars : name.toList ≠ [] := by simpa using hne
  have htext : (front ++ "/" ++ name).toList = front.toList ++ '/' :: name.toList := by simp
  rw [steps_ofString, htext, pieceList_append_cons, pieceList_of_not_mem h]
  simp [hchars]

/-- A text ends in a slash, if it has one, and further characters. -/
theorem exists_eq_slash_append (text : String) :
    Lacks '/' text ∨ ∃ front back : String, text = front ++ "/" ++ back ∧ Lacks '/' back := by
  by_cases h : '/' ∈ text.toList
  · right
    obtain ⟨back, front, heq, hback⟩ := List.eq_append_cons_of_mem (List.mem_reverse.2 h)
    refine ⟨String.ofList front.reverse, String.ofList back.reverse, ?_,
      by simpa [Lacks] using hback⟩
    have hcs := congrArg List.reverse heq
    simpa [← String.toList_inj] using hcs
  · exact .inl h

/-- The end of a text is the end of its last step, unless there is a slash in it. -/
theorem exists_getLast?_steps (text : String) {suffix : String} (h : Lacks '/' suffix)
    (hne : suffix ≠ "") :
    ∃ name, (ofString (text ++ suffix)).steps.getLast? = some (name ++ suffix) := by
  have hend {front : String} : front ++ suffix ≠ "" := by simp [hne]
  rcases exists_eq_slash_append text with htext | ⟨front, back, rfl, hback⟩
  · refine ⟨text, ?_⟩
    rw [steps_ofString_of_lacks (Text.lacks_append.2 ⟨htext, h⟩) hend]
    rfl
  · refine ⟨back, ?_⟩
    rw [String.append_assoc]
    exact getLast?_steps_of_slash front (Text.lacks_append.2 ⟨hback, h⟩) hend

/-- A path in a directory ends in the name. -/
theorem exists_join_eq (directory name : String) :
    ∃ front, join directory name = front ++ name := by
  rw [join]
  split
  · exact ⟨"", by simp⟩
  · split
    · exact ⟨directory, rfl⟩
    · exact ⟨directory ++ "/", rfl⟩

/-- A name without slashes is the last step of its path in a directory. -/
theorem getLast?_steps_join (directory : String) (h : Lacks '/' name) (hne : name ≠ "") :
    (ofString (join directory name)).steps.getLast? = some name := by
  have hhead : name.toList.head? ≠ some '/' := fun hslash => h (List.mem_of_head? hslash)
  rw [join, if_neg hhead]
  split
  · next hdirectory =>
      rcases hdirectory with rfl | hslash
      · rw [String.empty_append, steps_ofString_of_lacks h hne]
        rfl
      · obtain ⟨front, hfront⟩ := List.getLast?_eq_some_iff.1 hslash
        have htext : directory = String.ofList front ++ "/" := by
          simpa [← String.toList_inj] using hfront
        rw [htext]
        exact getLast?_steps_of_slash _ h hne
  · exact getLast?_steps_of_slash directory h hne

end CallTable.Path
