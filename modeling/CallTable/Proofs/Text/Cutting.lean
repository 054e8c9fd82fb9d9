import CallTable.Table

/-!
Cutting texts at a character or at a separator. A text that lacks the character is a piece on its
own, so a document whose lines lack line feeds is cut into just these lines again. Names and numerals
are words, made of letters, digits and underscores, and lack whatever a word does.
-/

namespace CallTable.Text

/-- The character does not occur in the text. -/
def Lacks (c : Char) (s : String) : Prop := c ∉ s.toList

instance (c : Char) (s : String) : Decidable (Lacks c s) := inferInstanceAs (Decidable (_ ∉ _))

variable {c : Char}

@[simp] theorem lacks_append {s t : String} : Lacks c (s ++ t) ↔ Lacks c s ∧ Lacks c t := by
  simp [Lacks]

theorem lacks_intercalate {separator : String} {members : List String}
    (hseparator : Lacks c separator) (hmembers : ∀ m ∈ members, Lacks c m) :
    Lacks c (separator.intercalate members) := by
  induction members with
  | nil => simp [Lacks]
  | cons m rest ih =>
      have hm := hmembers m List.mem_cons_self
      have hrest := ih fun n hn => hmembers n (List.mem_cons_of_mem m hn)
      by_cases hne : rest = []
      · rwa [hne, String.intercalate_singleton]
      · rw [String.intercalate_cons_of_ne_nil hne]
        exact lacks_append.2 ⟨lacks_append.2 ⟨hm, hseparator⟩, hrest⟩

/-! ### Runs -/

section

variable {kind : Char → Bool} {as bs : List Char}

/-- A run of characters of one kind ends in front of a character of another. -/
theorem takeWhile_run (has : ∀ d ∈ as, kind d) (hbs : ∀ d ∈ bs.head?, ¬kind d) :
    (as ++ bs).takeWhile kind = as := by
  rw [List.takeWhile_append_of_pos has]
  cases bs with
  | nil => simp
  | cons d bs => simp [hbs d rfl]

theorem dropWhile_run (has : ∀ d ∈ as, kind d) (hbs : ∀ d ∈ bs.head?, ¬kind d) :
    (as ++ bs).dropWhile kind = bs := by
  rw [List.dropWhile_append_of_pos has]
  cases bs with
  | nil => rfl
  | cons d bs => simp [hbs d rfl]

end

/-! ### The parts around a character -/

/-- What stands in front of the first occurrence of a character. -/
def before (c : Char) (cs : List Char) : List Char := cs.takeWhile (· != c)

/-- What stands behind the first occurrence of a character. -/
def after (c : Char) (cs : List Char) : List Char := (cs.dropWhile (· != c)).tail

/-- What stands in front of the last occurrence of a character. -/
def beforeLast (c : Char) (cs : List Char) : List Char := (after c cs.reverse).reverse

/-- What stands behind the last occurrence of a character. -/
def afterLast (c : Char) (cs : List Char) : List Char := (before c cs.reverse).reverse

section

variable {as bs cs ds : List Char}

theorem forall_bne_of_not_mem (h : c ∉ as) : ∀ d ∈ as, (d != c) = true := by
  intro d hd
  simpa using fun heq : d = c => h (heq ▸ hd)

theorem before_append_cons (h : c ∉ as) : before c (as ++ c :: bs) = as := by
  rw [before, takeWhile_run (forall_bne_of_not_mem h) (by simp)]

theorem after_append_cons (h : c ∉ as) : after c (as ++ c :: bs) = bs := by
  rw [after, dropWhile_run (forall_bne_of_not_mem h) (by simp), List.tail_cons]

/-- Where a character occurs for the first time is determined by the whole. -/
theorem append_cons_inj (ha : c ∉ as) (hb : c ∉ bs) :
    as ++ c :: cs = bs ++ c :: ds ↔ as = bs ∧ cs = ds := by
  constructor
  · intro h
    have hbefore := congrArg (before c) h
    have hafter := congrArg (after c) h
    rw [before_append_cons ha, before_append_cons hb] at hbefore
    rw [after_append_cons ha, after_append_cons hb] at hafter
    exact ⟨hbefore, hafter⟩
  · rintro ⟨rfl, rfl⟩
    rfl

theorem beforeLast_append_cons (h : c ∉ bs) : beforeLast c (as ++ c :: bs) = as := by
  have hreverse : (as ++ c :: bs).reverse = bs.reverse ++ c :: as.reverse := by simp
  rw [beforeLast, hreverse, after_append_cons (by simpa using h), List.reverse_reverse]

theorem afterLast_append_cons (h : c ∉ bs) : afterLast c (as ++ c :: bs) = bs := by
  have hreverse : (as ++ c :: bs).reverse = bs.reverse ++ c :: as.reverse := by simp
  rw [afterLast, hreverse, before_append_cons (by simpa using h), List.reverse_reverse]

end

/-! ### Separators -/

/-- The pieces of a text between the separators in it. Separators are found from the left and do not
overlap. -/
def splitChars (separator : List Char) : List Char → List (List Char)
  | [] => [[]]
  | c :: cs =>
      if separator <+: c :: cs then [] :: splitChars separator (cs.drop (separator.length - 1))
      else (splitChars separator cs).modifyHead (c :: ·)
termination_by cs => cs.length
decreasing_by all_goals grind

def split (separator s : String) : List String :=
  (splitChars separator.toList s.toList).map String.ofList

section

variable {piece separator : List Char}

/-- A text without the first character of a separator is a piece on its own. -/
theorem splitChars_of_not_mem (h : c ∉ piece) : splitChars (c :: separator) piece = [piece] := by
  induction piece with
  | nil => rw [splitChars]
  | cons d piece ih =>
      rw [List.mem_cons, not_or] at h
      have hfirst : ¬c :: separator <+: d :: piece := fun hprefix =>
        h.1 (List.cons_prefix_cons.1 hprefix).1
      rw [splitChars, if_neg hfirst, ih h.2, List.modifyHead_cons]

theorem splitChars_append (h : c ∉ piece) (rest : List Char) :
    splitChars (c :: separator) (piece ++ (c :: separator ++ rest)) =
      piece :: splitChars (c :: separator) rest := by
  induction piece with
  | nil =>
      have hfirst : c :: separator <+: c :: (separator ++ rest) := ⟨rest, rfl⟩
      rw [List.nil_append, List.cons_append, splitChars, if_pos hfirst]
      simp
  | cons d piece ih =>
      rw [List.mem_cons, not_or] at h
      have hfirst : ¬c :: separator <+: d :: (piece ++ (c :: separator ++ rest)) := fun hprefix =>
        h.1 (List.cons_prefix_cons.1 hprefix).1
      rw [List.cons_append, splitChars, if_neg hfirst, ih h.2, List.modifyHead_cons]

end

/-- Members that lack the first character of the separator are found again in their list. -/
theorem split_intercalate {separator : String} {back : List Char} {members : List String}
    (hseparator : separator.toList = c :: back) (hne : members ≠ [])
    (hmembers : ∀ m ∈ members, Lacks c m) :
    split separator (separator.intercalate members) = members := by
  induction members with
  | nil => exact absurd rfl hne
  | cons m rest ih =>
      have hm : c ∉ m.toList := hmembers m List.mem_cons_self
      by_cases hrest : rest = []
      · rw [hrest, String.intercalate_singleton, split, hseparator, splitChars_of_not_mem hm]
        simp
      · have hpieces := ih hrest fun n hn => hmembers n (List.mem_cons_of_mem m hn)
        rw [split, hseparator] at hpieces
        rw [split, String.intercalate_cons_of_ne_nil hrest, String.append_assoc,
          String.toList_append, String.toList_append, hseparator, splitChars_append hm,
          List.map_cons, hpieces, String.ofList_toList]

/-! ### Words -/

/-- Letters, digits and underscores only. -/
def IsWord (s : String) : Prop := ∀ c ∈ s.toList, continuesIdentifier c

instance (s : String) : Decidable (IsWord s) := List.decidableBAll _ s.toList

theorem IsWord.append {s t : String} (hs : IsWord s) (ht : IsWord t) : IsWord (s ++ t) := by
  intro c hc
  rw [String.toList_append, List.mem_append] at hc
  exact hc.elim (hs c) (ht c)

theorem IsWord.lacks {s : String} (h : IsWord s) (hc : ¬continuesIdentifier c) : Lacks c s :=
  fun hmem => hc (h c hmem)

theorem isWord_of_isIdentifier {s : String} (h : isIdentifier s) : IsWord s :=
  continuesIdentifier_of_mem h

theorem isDigit_of_mem_repr {n : Nat} {d : Char} (h : d ∈ (Nat.repr n).toList) : d.isDigit := by
  rw [Nat.repr_eq_ofList_toDigits, String.toList_ofList] at h
  exact Nat.isDigit_of_mem_toDigits (by decide) (by decide) h

theorem isWord_repr (n : Nat) : IsWord (Nat.repr n) := by
  intro d hd
  simp [continuesIdentifier, Char.isAlphanum, isDigit_of_mem_repr hd]

theorem exists_of_mem_hexDigits {n : Nat} {d : Char} (h : d ∈ hexDigits n) :
    ∃ i < 16, d = (Nat.digitChar i).toUpper := by
  induction n using Nat.strongRecOn with
  | ind n ih =>
      rw [hexDigits, Nat.toDigits_eq_if (by omega)] at h
      split at h
      · next hsmall =>
          rw [List.map_singleton, List.mem_singleton] at h
          exact ⟨n, hsmall, h⟩
      · rw [List.map_append, List.map_singleton, List.mem_append, List.mem_singleton] at h
        rcases h with h | h
        · exact ih (n / 16) (by omega) h
        · exact ⟨n % 16, Nat.mod_lt n (by omega), h⟩

/-- What holds of the sixteen digits holds of every character of a numeral. -/
theorem forall_mem_hex {P : Char → Prop} (h : ∀ i : Fin 16, P (Nat.digitChar i).toUpper) (n : Nat) :
    ∀ d ∈ (hex n).toList, P d := by
  intro d hd
  rw [hex, String.toList_ofList, List.leftpad, List.mem_append] at hd
  rcases hd with hd | hd
  · rw [List.eq_of_mem_replicate hd]
    exact h 0
  · obtain ⟨i, hi, rfl⟩ := exists_of_mem_hexDigits hd
    exact h ⟨i, hi⟩

theorem isWord_hex (n : Nat) : IsWord (hex n) := forall_mem_hex (by decide) n

/-- The mark in front of the digits is not found among them. -/
theorem lacks_hex (n : Nat) : Lacks 'x' (hex n) := fun hmem =>
  forall_mem_hex (P := (· ≠ 'x')) (by decide) n 'x' hmem rfl

theorem isWord_address (o : UInt32) : IsWord (address o) :=
  IsWord.append (by decide) (isWord_hex o.toNat)

theorem isWord_paddingName (o : UInt32) : IsWord (Cell.paddingName o) :=
  IsWord.append (by decide) (isWord_hex o.toNat)

theorem isWord_argumentName (i : Nat) : IsWord (Entry.argumentName i) :=
  IsWord.append (by decide) (isWord_repr i)

/-! ### Lines -/

/-- The pieces of a text between its line feeds. -/
def lines (s : String) : List String := (s.toList.splitOn '\n').map String.ofList

/-- The last line feed of a document is followed by an empty piece. -/
theorem lines_unlines {ls : List String} (h : ∀ l ∈ ls, Lacks '\n' l) :
    lines (unlines ls) = ls ++ [""] := by
  induction ls with
  | nil => rfl
  | cons l ls ih =>
      have hl : '\n' ∉ l.toList := h l List.mem_cons_self
      have hls := ih fun m hm => h m (List.mem_cons_of_mem l hm)
      have hdocument : (unlines (l :: ls)).toList = l.toList ++ '\n' :: (unlines ls).toList := by
        simp
      rw [lines] at hls ⊢
      rw [hdocument, List.splitOn_append_cons_self_of_not_mem hl, List.map_cons, hls,
        String.ofList_toList, List.cons_append]

end CallTable.Text
