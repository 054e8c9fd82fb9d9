import CallTable.Proofs.Document.Agreement

/-!
The traces. A hook prints its arguments with a format that is put together from the name of the
entry and from a conversion for each type, while the arguments that it hands to the format are put
together from their positions. Both lists are as long as the list of types, so a format that is
read from the left finds an argument for each of its conversions.
-/

namespace CallTable

open Text (Lacks)

namespace TypeName

/-- The last character of the spelling that is no blank is an asterisk. -/
def EndsInAsterisk (type : String) : Prop :=
  ∃ front blanks, type.toList = front ++ '*' :: blanks ∧ ∀ c ∈ blanks, Text.isBlank c

theorem isPointer_iff {type : String} : isPointer type ↔ EndsInAsterisk type := by
  rw [isPointer, Text.trimEnd, beq_iff_eq, List.getLast?_reverse, List.head?_eq_some_iff]
  constructor
  · rintro ⟨front, hfront⟩
    -- the scan goes from the end, so the blanks that it skips are the last ones
    refine ⟨front.reverse, (type.toList.reverse.takeWhile Text.isBlank).reverse, ?_, ?_⟩
    · rw [← List.reverse_inj, List.reverse_append, List.reverse_cons, List.append_assoc,
        List.reverse_reverse, List.reverse_reverse, List.singleton_append, ← hfront,
        List.takeWhile_append_dropWhile]
    · intro c hc
      exact List.all_eq_true.1 List.all_takeWhile c (List.mem_reverse.1 hc)
  · rintro ⟨front, blanks, htype, hblanks⟩
    have hreverse : type.toList.reverse = blanks.reverse ++ '*' :: front.reverse := by simp [htype]
    have hskipped : ∀ c ∈ blanks.reverse, Text.isBlank c := fun c hc =>
      hblanks c (List.mem_reverse.1 hc)
    refine ⟨front.reverse, ?_⟩
    rw [hreverse, List.dropWhile_append_of_pos hskipped, List.dropWhile_cons_of_neg (by decide)]

/-- The first percent sign of a conversion, with what it says of the type. -/
theorem exists_conversion_eq (type : String) : ∃ front back,
    (conversion type).toList = front ++ '%' :: back ∧ '%' ∉ front ∧
      (EndsInAsterisk type ∧ ['p'] <+: back ∨
        ¬EndsInAsterisk type ∧ ['0', 'x'] <:+ front ∧ ['x'] <+: back) := by
  rw [conversion, ← isPointer_iff]
  split
  case isTrue h => exact ⟨[], ['p'], by decide, List.not_mem_nil, .inl ⟨h, by decide⟩⟩
  case isFalse h =>
    exact ⟨['0', 'x'], ['x'], by decide, by decide, .inr ⟨h, by decide, by decide⟩⟩

end TypeName

namespace Entry

/-- Around one of its members, a list has the members before, each with a separator behind it, and
the members after, each with a separator in front. -/
theorem listed_append_cons (before after : List String) (m : String) :
    listed (before ++ m :: after) =
      String.join (before.map (· ++ ", ")) ++ m ++ String.join (after.map (", " ++ ·)) := by
  induction before with
  | nil =>
      induction after generalizing m with
      | nil => simp [listed]
      | cons n rest ih =>
          have hrest := ih n
          simp only [listed, List.nil_append, List.map_nil, String.join_nil] at hrest ⊢
          rw [String.intercalate_cons_cons, hrest]
          simp [String.append_assoc]
  | cons n rest ih =>
      have hne : rest ++ m :: after ≠ [] := by simp
      rw [listed] at ih ⊢
      rw [List.cons_append, String.intercalate_cons_of_ne_nil hne, ih]
      simp [String.append_assoc]

/-- Texts that have a mark each have as many marks together as they are. -/
theorem count_join {mark : Char} {l : List String} (h : ∀ s ∈ l, s.toList.count mark = 1) :
    (String.join l).toList.count mark = l.length := by
  induction l with
  | nil => simp
  | cons s rest ih =>
      have hs := h s List.mem_cons_self
      have hrest := ih fun r hr => h r (List.mem_cons_of_mem s hr)
      rw [String.join_cons, String.toList_append, List.count_append, hs, hrest, List.length_cons,
        Nat.add_comm]

variable {e : Entry}

theorem count_conversion (type : String) : (TypeName.conversion type).toList.count '%' = 1 := by
  unfold TypeName.conversion
  split <;> decide

/-- With separators in front of them or behind them, conversions have a percent sign each. -/
theorem count_join_conversions (types : List String) :
    (String.join ((types.map TypeName.conversion).map (· ++ ", "))).toList.count '%' =
        types.length ∧
      (String.join ((types.map TypeName.conversion).map (", " ++ ·))).toList.count '%' =
        types.length := by
  have hbehind : ∀ s ∈ (types.map TypeName.conversion).map (· ++ ", "),
      s.toList.count '%' = 1 := by
    simp [count_conversion]
  have hfront : ∀ s ∈ (types.map TypeName.conversion).map (", " ++ ·),
      s.toList.count '%' = 1 := by
    simp [count_conversion]
  simpa using And.intro (count_join hbehind) (count_join hfront)

/-- The conversion of an argument stands behind as many percent signs as there are arguments before
it, and in front of as many as there are after it. -/
theorem exists_listed_conversions_eq {i : Nat} (hi : i < e.argTypes.length) :
    ∃ front back, (listed e.conversions).toList =
        front ++ (TypeName.conversion e.argTypes[i]).toList ++ back ∧
      front.count '%' = i ∧ back.count '%' = e.arity - (i + 1) := by
  have hsplit : e.conversions = (e.argTypes.take i).map TypeName.conversion ++
      TypeName.conversion e.argTypes[i] :: (e.argTypes.drop (i + 1)).map TypeName.conversion := by
    rw [conversions, ← List.map_cons, ← List.map_append, ← List.drop_eq_getElem_cons hi,
      List.take_append_drop]
  rw [hsplit, listed_append_cons, String.toList_append, String.toList_append]
  refine ⟨_, _, rfl, ?_, ?_⟩
  · rw [(count_join_conversions _).1, List.length_take_of_le (Nat.le_of_lt hi)]
  · rw [(count_join_conversions _).2, List.length_drop, arity]

theorem count_listed_conversions : (listed e.conversions).toList.count '%' = e.arity := by
  cases htypes : e.argTypes with
  | nil => simp [conversions, arity, htypes, listed]
  | cons type rest =>
      have hi : 0 < e.argTypes.length := by simp [htypes]
      obtain ⟨front, back, hlisted, hfront, hback⟩ := exists_listed_conversions_eq hi
      rw [hlisted, List.count_append, List.count_append, hfront, hback, count_conversion]
      exact Nat.add_sub_cancel' hi

end Entry

namespace ClassSource

/-- A trace line that hands its format as many arguments as the format converts. The format is the
name with a list of conversions in parentheses, written as a literal that nothing ends early or
continues. The conversion behind `i` others is for the type of the parameter `i`, and the argument
behind `i` others is the name of that parameter. -/
structure FormatCall (p : Profile) (e : Entry) (format arguments line : String) : Prop where
  line_eq : line = "    " ++ p.tracer ++ " _(L\"" ++ format ++ "\"" ++ arguments ++ ");"
  format_eq : ∃ conversions, format = e.name ++ "(" ++ conversions ++ ")"
  format_literal : Lacks '"' format ∧ Lacks '\\' format ∧ Lacks '\n' format
  count_format : format.toList.count '%' = e.arity
  conversion : ∀ i (hi : i < e.argTypes.length), ∃ front back,
    format.toList = front ++ '%' :: back ∧ front.count '%' = i ∧
      (TypeName.EndsInAsterisk e.argTypes[i] ∧ ['p'] <+: back ∨
        ¬TypeName.EndsInAsterisk e.argTypes[i] ∧ ['0', 'x'] <:+ front ∧ ['x'] <+: back)
  arguments_eq : arguments = String.join ((List.range e.arity).map fun i => ", a" ++ Nat.repr i)
  parameter : ∀ i (hi : i < e.argTypes.length),
    e.parameters[i]? = some (e.argTypes[i] ++ " a" ++ Nat.repr i)

variable {p : Profile} {e : Entry} {entries : List Entry}

theorem traceArguments_eq :
    traceArguments e = String.join ((List.range e.arity).map fun i => ", a" ++ Nat.repr i) := by
  have hnames : (fun i => ", a" ++ Nat.repr i) = (", " ++ ·) ∘ Entry.argumentName := by
    funext i
    simp [Entry.argumentName, ← String.toList_inj]
  rw [hnames, ← List.map_map, traceArguments, Entry.hasArguments]
  cases htypes : e.argTypes with
  | nil => simp [Entry.arity, htypes]
  | cons type rest =>
      -- behind its first member, a list has a separator in front of each, and here one more is
      -- written in front of the first
      have hcons : e.argumentNames = Entry.argumentName 0 ::
          (List.range rest.length).map (Entry.argumentName ∘ Nat.succ) := by
        simp [Entry.argumentNames, Entry.arity, htypes, List.range_succ_eq_map]
      have hlisted := Entry.listed_append_cons [] ((List.range rest.length).map
        (Entry.argumentName ∘ Nat.succ)) (Entry.argumentName 0)
      rw [List.nil_append, ← hcons] at hlisted
      show ", " ++ Entry.listed e.argumentNames = String.join (e.argumentNames.map (", " ++ ·))
      rw [hlisted, hcons]
      simp [String.append_assoc]

theorem formatCall_trace (hname : Text.IsWord e.name) :
    FormatCall p e (traceFormat e) (traceArguments e) (trace p e) where
  line_eq := rfl
  format_eq := ⟨_, rfl⟩
  format_literal := by
    have hlacks {c : Char} (hc : ¬Text.continuesIdentifier c) (hseparator : Lacks c ", ")
        (hpercent : c ≠ '%') (hparentheses : Lacks c ("(" ++ ")")) : Lacks c (traceFormat e) := by
      obtain ⟨hopening, hclosing⟩ := Text.lacks_append.1 hparentheses
      simp only [traceFormat, Text.lacks_append]
      exact ⟨⟨⟨hname.lacks hc, hopening⟩, e.lacks_listed_conversions hc hseparator hpercent⟩,
        hclosing⟩
    exact ⟨hlacks (by decide) (by decide) (by decide) (by decide),
      hlacks (by decide) (by decide) (by decide) (by decide),
      hlacks (by decide) (by decide) (by decide) (by decide)⟩
  count_format := by
    have hnone : e.name.toList.count '%' = 0 := List.count_eq_zero.2 (hname.lacks (by decide))
    simp [traceFormat, hnone, Entry.count_listed_conversions]
  conversion i hi := by
    have hnone : e.name.toList.count '%' = 0 := List.count_eq_zero.2 (hname.lacks (by decide))
    obtain ⟨front, back, hlisted, hfront, _⟩ := Entry.exists_listed_conversions_eq hi
    obtain ⟨cs, ds, hconversion, hcs, hkind⟩ := TypeName.exists_conversion_eq e.argTypes[i]
    refine ⟨e.name.toList ++ '(' :: (front ++ cs), ds ++ back ++ [')'], ?_, ?_, ?_⟩
    · rw [traceFormat, String.toList_append, String.toList_append, String.toList_append, hlisted,
        hconversion]
      simp
    · simp [hnone, hfront, List.count_eq_zero.2 hcs]
    · rcases hkind with ⟨hpointer, hp⟩ | ⟨hnumber, hzero, hx⟩
      · exact .inl ⟨hpointer, hp.trans ⟨back ++ [')'], by simp⟩⟩
      · exact .inr ⟨hnumber, hzero.trans ⟨e.name.toList ++ '(' :: front, by simp⟩,
          hx.trans ⟨back ++ [')'], by simp⟩⟩
  arguments_eq := traceArguments_eq
  parameter i hi := by
    simp [Entry.parameters_eq_mapIdx, hi, Entry.argumentName, ← String.toList_inj]

/-- What stands on the lines of a hook. -/
theorem getElem?_flatMap_hook (p : Profile) (entries : List Entry) (k : Nat) {i : Nat}
    (hi : i < 6) :
    (entries.flatMap (hook p))[6 * k + i]? = entries[k]?.bind fun e => (hook p e)[i]? := by
  induction entries generalizing k with
  | nil => simp
  | cons e rest ih =>
      cases k with
      | zero => simp [List.getElem?_append, hi]
      | succ k =>
          have hlarge : ¬6 * (k + 1) + i < 6 := by omega
          have hrest : 6 * (k + 1) + i - 6 = 6 * k + i := by omega
          simp only [List.flatMap_cons, List.getElem?_append, length_hook, hlarge, if_false,
            List.getElem?_cons_succ, hrest]
          exact ih k

end ClassSource

/-- Under the strict policy accepted entries get hooks whose traces hand their formats the arguments
that these convert. The hook of an entry is declared with its parameters, and the trace follows two
lines below. -/
theorem formatCall_of_accept_strict (p : Profile) (entries : List Entry)
    (hpolicy : p.policy = .strict) (h : (accept p.geometry entries).result = .ok ()) :
    ∃ s, (Sources.ofEntries p entries).result = .ok s ∧
      s.classSource = Text.unlines (ClassSource.lines p entries) ∧
      ∀ k e, entries[k]? = some e →
        (ClassSource.lines p entries)[6 * k + 2]? = some ("static " ++ e.returnType ++ " " ++
          p.convention ++ " " ++ e.name ++ "_wrapper(" ++ Entry.listed e.parameters ++ ")") ∧
        ∃ format arguments line, (ClassSource.lines p entries)[6 * k + 4]? = some line ∧
          ClassSource.FormatCall p e format arguments line := by
  obtain ⟨hg, hentries⟩ := accept_eq_ok_iff_admissible.1 h
  refine ⟨_, (ofEntries_eq_ok_iff_of_strict hpolicy).2 ⟨⟨hg, hentries⟩, rfl⟩, rfl, ?_⟩
  intro k e he
  have hname := Text.isWord_of_isIdentifier
    (hentries.sound e (List.mem_of_getElem? he)).isIdentifier_name
  have hline {i : Nat} (hi : i < 6) :
      (ClassSource.lines p entries)[6 * k + i + 1]? = (ClassSource.hook p e)[i]? := by
    have hlines : ClassSource.lines p entries = "" :: (entries.flatMap (ClassSource.hook p) ++
        (["", ""] ++ ClassSource.constructor p entries ++ [""] ++ ClassSource.getter p ++ [""] ++
          entries.flatMap (ClassSource.method p) ++ [""])) := by
      simp [ClassSource.lines]
    have hhook := ClassSource.getElem?_flatMap_hook p entries k hi
    rw [he, Option.bind_some] at hhook
    have hsome := hhook.trans (List.getElem?_eq_getElem (by simpa using hi))
    obtain ⟨hlength, _⟩ := List.getElem?_eq_some_iff.1 hsome
    rw [hlines, List.getElem?_cons_succ, List.getElem?_append_left hlength, hhook]
  refine ⟨?_, _, _, _, hline (i := 3) (by decide), ClassSource.formatCall_trace hname⟩
  rw [hline (i := 1) (by decide), ClassSource.hook_eq]
  rfl

/-- A pointer whose spelling ends in a blank, and a number. -/
theorem formatCall_of_accept_strict_mixed :
    ({ geometry := ⟨16, 4⟩ } : Profile).policy = .strict ∧
      (accept ⟨16, 4⟩ [⟨12, "void", "Draw", ["u8 * ", "u32"]⟩]).result = .ok () ∧
      ∃ format arguments line,
        (ClassSource.lines { geometry := ⟨16, 4⟩ } [⟨12, "void", "Draw", ["u8 * ", "u32"]⟩])[4]? =
          some line ∧
        ClassSource.FormatCall { geometry := ⟨16, 4⟩ } ⟨12, "void", "Draw", ["u8 * ", "u32"]⟩
          format arguments line ∧
        format = "Draw(%p, 0x%x)" ∧ arguments = ", a0, a1" ∧
        line = "    ScopedD3DEvent _(L\"Draw(%p, 0x%x)\", a0, a1);" := by
  obtain ⟨_, _, _, hhooks⟩ := formatCall_of_accept_strict { geometry := ⟨16, 4⟩ }
    [⟨12, "void", "Draw", ["u8 * ", "u32"]⟩] rfl rfl
  obtain ⟨format, arguments, line, hline, hcall⟩ := (hhooks 0 _ rfl).2
  refine ⟨rfl, rfl, format, arguments, line, hline, hcall, ?_⟩
  have harguments : arguments = ", a0, a1" := hcall.arguments_eq
  have hliteral : line = "    " ++ "ScopedD3DEvent" ++ " _(L\"" ++ "Draw(%p, 0x%x)" ++ "\"" ++
      ", a0, a1" ++ ");" := Option.some.inj hline.symm
  have hformat := hcall.line_eq.symm.trans hliteral
  rw [harguments, String.append_left_inj, String.append_left_inj, String.append_left_inj,
    String.append_right_inj] at hformat
  exact ⟨hformat, harguments, hliteral⟩

end CallTable
