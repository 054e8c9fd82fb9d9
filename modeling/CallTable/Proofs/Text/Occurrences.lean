import CallTable.Proofs.Text.Cutting
import Mathlib.Data.List.Induction
import Mathlib.Data.List.Infix

/-!
How often a pattern occurs in a text. A pattern that ends in a mark can occur only where the text
has the mark, so the text is cut at its marks, and of each piece it is asked which word stands in
front of the mark and what stands in front of the word. In this way a piece adds to the occurrences
independently of the text that it continues.
-/

namespace CallTable.Text

/-- How often a pattern occurs in a text. Occurrences are counted where they end. -/
def occurrences (pattern text : List Char) : Nat :=
  text.inits.countP fun start => pattern <:+ start

/-- A stretch adds this many occurrences of a pattern to every text that it continues. -/
def Adds (pattern : List Char) (n : Nat) (stretch : List Char) : Prop :=
  ∀ text, occurrences pattern (text ++ stretch) = occurrences pattern text + n

section

variable {pattern front s t text : List Char} {m n : Nat} {mark c : Char}

theorem occurrences_append_singleton (pattern text : List Char) (c : Char) :
    occurrences pattern (text ++ [c]) =
      occurrences pattern text + if pattern <:+ text ++ [c] then 1 else 0 := by
  by_cases h : pattern <:+ text ++ [c] <;> simp [occurrences, h]

/-- Occurrences of a pattern that ends in a mark are found at the marks. -/
theorem occurrences_append_mark (front text : List Char) (mark c : Char) :
    occurrences (front ++ [mark]) (text ++ [c]) =
      occurrences (front ++ [mark]) text + if c = mark ∧ front <:+ text then 1 else 0 := by
  have hsuffix : front ++ [mark] <:+ text ++ [c] ↔ c = mark ∧ front <:+ text := by
    rw [List.suffix_concat_iff]
    constructor
    · rintro (h | ⟨t, ht, htext⟩)
      · simp at h
      · obtain ⟨rfl, h⟩ := List.append_inj' ht rfl
        exact ⟨(List.head_eq_of_cons_eq h).symm, htext⟩
    · rintro ⟨rfl, htext⟩
      exact .inr ⟨front, rfl, htext⟩
  simp only [occurrences_append_singleton, hsuffix]

namespace Adds

theorem nil (pattern : List Char) : Adds pattern 0 [] := by
  intro text
  rw [List.append_nil, Nat.add_zero]

theorem append (hs : Adds pattern m s) (ht : Adds pattern n t) : Adds pattern (m + n) (s ++ t) := by
  intro text
  rw [← List.append_assoc, ht, hs, Nat.add_assoc]

/-- A text is a stretch that continues nothing. -/
theorem occurrences_eq (h : Adds (front ++ [mark]) n s) : occurrences (front ++ [mark]) s = n := by
  have hnil : occurrences (front ++ [mark]) [] = 0 := by simp [occurrences]
  have hwhole := h []
  rwa [List.nil_append, hnil, Nat.zero_add] at hwhole

/-- There is no occurrence without a mark. The induction goes through the stretch from its end. -/
theorem of_not_mem (h : mark ∉ s) : Adds (front ++ [mark]) 0 s := by
  induction s using List.reverseRecOn with
  | nil => exact nil _
  | append_singleton s c ih =>
      rw [List.mem_append, List.mem_singleton, not_or] at h
      intro text
      have hne : ¬(c = mark ∧ front <:+ text ++ s) := fun hc => h.2 hc.1.symm
      rw [← List.append_assoc, occurrences_append_mark, if_neg hne, ih h.1]

/-- Stretches in a row that each add an occurrence or none. -/
theorem flatMap {α : Type} {l : List α} {f : α → List Char} {P : α → Prop} [DecidablePred P]
    (h : ∀ a ∈ l, Adds pattern (if P a then 1 else 0) (f a)) :
    Adds pattern (l.countP P) (l.flatMap f) := by
  induction l with
  | nil => exact nil pattern
  | cons a rest ih =>
      have hrest := ih fun b hb => h b (List.mem_cons_of_mem a hb)
      have hwhole := (h a List.mem_cons_self).append hrest
      rw [List.countP_cons, Nat.add_comm]
      simpa using hwhole

theorem flatMap_zero {α : Type} {l : List α} {f : α → List Char}
    (h : ∀ a ∈ l, Adds pattern 0 (f a)) : Adds pattern 0 (l.flatMap f) := by
  have hnone : l.countP (fun _ => False) = 0 := by simp
  rw [← hnone]
  exact flatMap h

end Adds

end

/-! ### The last delimiter of a text -/

/-- Where a delimiter stands for the last time is determined by the whole. -/
theorem append_cons_inj_right {as bs cs ds : List Char} {c d : Char} (hc : d ∉ cs) (hd : c ∉ ds) :
    as ++ c :: cs = bs ++ d :: ds ↔ as = bs ∧ c = d ∧ cs = ds := by
  constructor
  · intro h
    -- unless the two fronts end together, one of the delimiters stands behind the other
    obtain ⟨_ | ⟨_, es⟩, rfl, hes⟩ | ⟨_ | ⟨_, es⟩, rfl, hes⟩ := List.append_eq_append_iff.1 h
    · exact ⟨(List.append_nil as).symm, List.cons.inj hes⟩
    · obtain ⟨rfl, rfl⟩ := List.cons.inj hes
      simp at hc
    · obtain ⟨rfl, rfl⟩ := List.cons.inj hes
      exact ⟨List.append_nil bs, rfl, rfl⟩
    · obtain ⟨rfl, rfl⟩ := List.cons.inj hes
      simp at hd
  · rintro ⟨rfl, rfl, rfl⟩
    rfl

theorem append_cons_suffix_iff {as bs cs ds : List Char} {c d : Char} (hc : d ∉ cs) (hd : c ∉ ds) :
    as ++ c :: cs <:+ bs ++ d :: ds ↔ as <:+ bs ∧ c = d ∧ cs = ds := by
  constructor
  · rintro ⟨front, h⟩
    rw [← List.append_assoc] at h
    obtain ⟨rfl, rfl, rfl⟩ := (append_cons_inj_right hc hd).1 h
    exact ⟨List.suffix_append _ _, rfl, rfl⟩
  · rintro ⟨⟨front, rfl⟩, rfl, rfl⟩
    exact ⟨front, by simp⟩

/-! ### Pieces -/

/-- What stands in front of a mark: a word, the delimiter in front of the word, and what is in front
of that. -/
structure Piece where
  front : String
  delimiter : Char
  word : String

namespace Piece

/-- The piece as it is written, with the mark at its end. -/
def text (mark : Char) (q : Piece) : List Char :=
  q.front.toList ++ q.delimiter :: (q.word.toList ++ [mark])

/-- The word goes back as far as to the delimiter. -/
structure Delimited (q : Piece) : Prop where
  delimiter : ¬continuesIdentifier q.delimiter
  word : IsWord q.word

/-- The piece has no mark before its end. -/
structure Cut (mark : Char) (q : Piece) : Prop extends q.Delimited where
  front : Lacks mark q.front
  delimiter_ne : q.delimiter ≠ mark

/-- The piece ends like the pattern. -/
def EndsIn (pattern q : Piece) : Prop :=
  q.delimiter = pattern.delimiter ∧ q.word = pattern.word ∧
    pattern.front.toList <:+ q.front.toList

instance (pattern q : Piece) : Decidable (EndsIn pattern q) :=
  inferInstanceAs (Decidable (_ ∧ _ ∧ _))

variable {pattern q : Piece} {mark : Char}

theorem cut_iff :
    q.Cut mark ↔ ¬continuesIdentifier q.delimiter ∧ IsWord q.word ∧ Lacks mark q.front ∧
      q.delimiter ≠ mark :=
  ⟨fun h => ⟨h.delimiter, h.word, h.front, h.delimiter_ne⟩,
    fun ⟨hdelimiter, hword, hfront, hne⟩ => ⟨⟨hdelimiter, hword⟩, hfront, hne⟩⟩

theorem text_eq_concat (mark : Char) (q : Piece) :
    q.text mark = (q.front.toList ++ q.delimiter :: q.word.toList) ++ [mark] := by
  simp [Piece.text]

/-- A stretch without a mark adds nothing. -/
theorem adds_zero {stretch : List Char} (h : mark ∉ stretch) :
    Adds (pattern.text mark) 0 stretch := by
  rw [text_eq_concat]
  exact Adds.of_not_mem h

theorem occurrences_eq {text : List Char} {n : Nat} (h : Adds (pattern.text mark) n text) :
    occurrences (pattern.text mark) text = n := by
  rw [text_eq_concat] at h ⊢
  exact h.occurrences_eq

/-- A piece adds an occurrence if it has the word of the pattern and the delimiter in front of it,
and if the pattern fits what comes before. -/
theorem occurrences_append_text (hmark : ¬continuesIdentifier mark) (hpattern : pattern.Delimited)
    (hq : q.Cut mark) (text : List Char) :
    occurrences (pattern.text mark) (text ++ q.text mark) =
      occurrences (pattern.text mark) text +
        if q.delimiter = pattern.delimiter ∧ q.word = pattern.word ∧
          pattern.front.toList <:+ text ++ q.front.toList then 1 else 0 := by
  have hinner : mark ∉ q.front.toList ++ q.delimiter :: q.word.toList := by
    have hword : mark ∉ q.word.toList := hq.word.lacks hmark
    have hfront : mark ∉ q.front.toList := hq.front
    simp [hword, hfront, Ne.symm hq.delimiter_ne]
  have hsuffix : pattern.front.toList ++ pattern.delimiter :: pattern.word.toList <:+
      text ++ (q.front.toList ++ q.delimiter :: q.word.toList) ↔
        q.delimiter = pattern.delimiter ∧ q.word = pattern.word ∧
          pattern.front.toList <:+ text ++ q.front.toList := by
    rw [← List.append_assoc, append_cons_suffix_iff (hpattern.word.lacks hq.delimiter)
      (hq.word.lacks hpattern.delimiter), String.toList_inj]
    constructor
    · rintro ⟨hfront, hdelimiter, hword⟩
      exact ⟨hdelimiter.symm, hword.symm, hfront⟩
    · rintro ⟨hdelimiter, hword, hfront⟩
      exact ⟨hfront, hdelimiter.symm, hword.symm⟩
  rw [text_eq_concat, text_eq_concat, ← List.append_assoc, occurrences_append_mark,
    Adds.of_not_mem hinner, Nat.add_zero]
  simp only [hsuffix, true_and]

end Piece

/-- A text cut at its marks into pieces, and a rest without a mark. -/
structure CutAt (mark : Char) (text : List Char) where
  pieces : List Piece
  rest : List Char
  eq_append : text = pieces.flatMap (Piece.text mark) ++ rest
  cut : ∀ q ∈ pieces, q.Cut mark
  not_mem_rest : mark ∉ rest

/-- A text adds as many occurrences as of its pieces end like the pattern, if this can be seen
without what is in front of a piece. -/
theorem CutAt.adds {mark : Char} {text : List Char} {pattern : Piece} (c : CutAt mark text)
    (hmark : ¬continuesIdentifier mark) (hpattern : pattern.Delimited)
    (hlocal : ∀ q ∈ c.pieces, q.delimiter = pattern.delimiter → q.word = pattern.word →
      ∀ start, pattern.front.toList <:+ start ++ q.front.toList →
        pattern.front.toList <:+ q.front.toList) :
    Adds (pattern.text mark) (c.pieces.countP (Piece.EndsIn pattern)) text := by
  obtain ⟨pieces, rest, rfl, hcut, hrest⟩ := c
  refine Adds.append (Adds.flatMap fun q hq start => ?_) (Piece.adds_zero hrest)
  rw [Piece.occurrences_append_text hmark hpattern (hcut q hq)]
  congr 2
  rw [eq_iff_iff]
  constructor
  · rintro ⟨hdelimiter, hword, hfront⟩
    exact ⟨hdelimiter, hword, hlocal q hq hdelimiter hword start hfront⟩
  · rintro ⟨hdelimiter, hword, hfront⟩
    exact ⟨hdelimiter, hword, hfront.trans (List.suffix_append _ _)⟩

/-- A text adds nothing if the pattern fits none of its pieces, whatever comes before. -/
theorem CutAt.adds_zero {mark : Char} {text : List Char} {pattern : Piece} (c : CutAt mark text)
    (hmark : ¬continuesIdentifier mark) (hpattern : pattern.Delimited)
    (h : ∀ q ∈ c.pieces, q.delimiter = pattern.delimiter → q.word = pattern.word →
      ∀ start, ¬pattern.front.toList <:+ start ++ q.front.toList) :
    Adds (pattern.text mark) 0 text := by
  have hnone : c.pieces.countP (Piece.EndsIn pattern) = 0 := by
    rw [List.countP_eq_zero]
    intro q hq hends
    obtain ⟨hdelimiter, hword, hfront⟩ := of_decide_eq_true hends
    exact h q hq hdelimiter hword [] hfront
  rw [← hnone]
  exact c.adds hmark hpattern fun q hq hdelimiter hword start hfront =>
    absurd hfront (h q hq hdelimiter hword start)

end CallTable.Text
