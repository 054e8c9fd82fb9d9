import CallTable.Proofs.Document.Agreement
import CallTable.Proofs.Text.Occurrences

/-!
How often the documents speak of an entry. Hooks and methods are found at parentheses and the lines
that install hooks at semicolons, so that a document is cut there, and of each piece it is seen
whether it ends like the text that is looked for. Names count as words, and a name that only starts
or ends like another is a different word.
-/

namespace CallTable

open Text (Lacks Piece Adds CutAt)

/-- An entry that has the mark in none of its texts, so that it comes from the text around them
wherever it is found. -/
structure Entry.Markless (mark : Char) (e : Entry) : Prop where
  word : ¬Text.continuesIdentifier mark
  separator : Lacks mark ", "
  percent : mark ≠ '%'
  name : Text.IsWord e.name
  types : ∀ x ∈ e.types, Lacks mark x

namespace Entry.Markless

variable {mark : Char} {e : Entry}

theorem lacks_name (h : e.Markless mark) : Lacks mark e.name := h.name.lacks h.word

theorem lacks_returnType (h : e.Markless mark) : Lacks mark e.returnType :=
  h.types _ List.mem_cons_self

theorem lacks_parameters (h : e.Markless mark) : Lacks mark (listed e.parameters) :=
  lacks_listed_parameters h.word h.separator h.types

theorem lacks_argumentNames (h : e.Markless mark) : Lacks mark (listed e.argumentNames) :=
  e.lacks_listed_argumentNames h.word h.separator

theorem lacks_conversions (h : e.Markless mark) : Lacks mark (listed e.conversions) :=
  e.lacks_listed_conversions h.word h.separator h.percent

theorem lacks_traceArguments (h : e.Markless mark) : Lacks mark (ClassSource.traceArguments e) := by
  unfold ClassSource.traceArguments
  split
  · exact Text.lacks_append.2 ⟨h.separator, h.lacks_argumentNames⟩
  · simp [Lacks]

end Entry.Markless

theorem Text.toList_unlines_flatMap {α : Type} (f : α → List String) (l : List α) :
    (unlines (l.flatMap f)).toList = l.flatMap fun a => (unlines (f a)).toList := by
  induction l with
  | nil => simp
  | cons a rest ih => simp [ih]

namespace ClassSource

section

variable {p : Profile} {e : Entry}

/-! ### The parts of the source, cut -/

/-- A hook up to its parentheses. -/
def hookCalls (hp : p.texts = Profile.texts {}) (he : e.Markless '(') :
    CutAt '(' (Text.unlines (hook p e)).toList where
  pieces := [⟨"\nstatic " ++ e.returnType ++ " __cdecl", ' ', hookName e⟩,
    ⟨Entry.listed e.parameters ++ ")\n\x7b\n    ScopedD3DEvent", ' ', "_"⟩,
    ⟨"L", '"', e.name⟩,
    ⟨Entry.listed e.conversions ++ ")\"" ++ traceArguments e ++ ");\n    " ++
      (if e.returnsVoid then "" else "return ") ++ "FF7:", ':', "GetGfxFunctions"⟩,
    ⟨")->rendererInstance-", '>', e.name⟩]
  rest := (Entry.listed e.argumentNames ++ ");\n\x7d\n").toList
  eq_append := by
    simp only [Profile.texts, List.cons.injEq] at hp
    simp [hook, trace, traceFormat, handOn, parameterList, argumentList, hp, Piece.text]
  cut := by
    simp only [List.forall_mem_cons, Piece.cut_iff, hookName]
    split <;>
      simp +decide [he.lacks_returnType, he.lacks_parameters, he.lacks_conversions,
        he.lacks_traceArguments, he.name, Text.IsWord.append he.name]
  not_mem_rest := by simp [show '(' ∉ _ from he.lacks_argumentNames]

/-- A hook up to its semicolons. -/
def hookStatements (hp : p.texts = Profile.texts {}) (he : e.Markless ';') :
    CutAt ';' (Text.unlines (hook p e)).toList where
  pieces := [⟨"\nstatic " ++ e.returnType ++ " __cdecl " ++ hookName e ++ parameterList e ++
      "\n\x7b\n    ScopedD3DEvent _(L\"" ++ traceFormat e ++ "\"" ++ traceArguments e, ')', ""⟩,
    ⟨"\n    " ++ (if e.returnsVoid then "" else "return ") ++
      "FF7::GetGfxFunctions()->rendererInstance->" ++ e.name ++ "(" ++
        Entry.listed e.argumentNames, ')', ""⟩]
  rest := "\n\x7d\n".toList
  eq_append := by
    simp only [Profile.texts, List.cons.injEq] at hp
    simp [hook, trace, handOn, argumentList, hp, Piece.text]
  cut := by
    simp only [List.forall_mem_cons, Piece.cut_iff, hookName, parameterList, traceFormat]
    split <;>
      simp +decide [he.lacks_name, he.lacks_returnType, he.lacks_parameters, he.lacks_argumentNames,
        he.lacks_conversions, he.lacks_traceArguments]
  not_mem_rest := by simp

/-- A method up to its parentheses. -/
def methodCalls (hp : p.texts = Profile.texts {}) (he : e.Markless '(') :
    CutAt '(' (Text.unlines (method p e)).toList where
  pieces := [⟨"\n" ++ e.returnType ++ " GfxContextBase:", ':', e.name⟩,
    ⟨Entry.listed e.parameters ++ ")\n\x7b\n    " ++ (if e.returnsVoid then "" else "return ") ++
      "m_originalImpl-", '>', e.name⟩]
  rest := (Entry.listed e.argumentNames ++ ");\n\x7d\n").toList
  eq_append := by
    simp only [Profile.texts, List.cons.injEq] at hp
    simp [method, handOn, parameterList, argumentList, hp, Piece.text]
  cut := by
    simp only [List.forall_mem_cons, Piece.cut_iff]
    split <;> simp +decide [he.lacks_returnType, he.lacks_parameters, he.name]
  not_mem_rest := by simp [show '(' ∉ _ from he.lacks_argumentNames]

/-- A method up to its semicolon. -/
def methodStatements (hp : p.texts = Profile.texts {}) (he : e.Markless ';') :
    CutAt ';' (Text.unlines (method p e)).toList where
  pieces := [⟨"\n" ++ e.returnType ++ " GfxContextBase::" ++ e.name ++ parameterList e ++
    "\n\x7b\n    " ++ (if e.returnsVoid then "" else "return ") ++ "m_originalImpl->" ++ e.name ++
      "(" ++ Entry.listed e.argumentNames, ')', ""⟩]
  rest := "\n\x7d\n".toList
  eq_append := by
    simp only [Profile.texts, List.cons.injEq] at hp
    simp [method, handOn, argumentList, hp, Piece.text]
  cut := by
    simp only [List.forall_mem_cons, Piece.cut_iff, parameterList]
    split <;>
      simp +decide [he.lacks_name, he.lacks_returnType, he.lacks_parameters, he.lacks_argumentNames]
  not_mem_rest := by simp

/-- The constructor in front of the lines that install the hooks. -/
def constructorOpening (p : Profile) : List String :=
  [p.className ++ "::" ++ p.className ++ "(" ++ p.qualifiedStruct ++ "* impl):",
    "    m_originalImpl(impl), m_impl(*impl)",
    "\x7b",
    "    m_impl." ++ p.ownerField ++ " = this;"]

def openingCalls (hp : p.texts = Profile.texts {}) :
    CutAt '(' (Text.unlines (constructorOpening p)).toList where
  pieces := [⟨p.className ++ ":", ':', p.className⟩,
    ⟨p.qualifiedStruct ++ "* impl):\n   ", ' ', "m_originalImpl"⟩, ⟨"impl),", ' ', "m_impl"⟩]
  rest := ("*impl)\n\x7b\n    m_impl." ++ p.ownerField ++ " = this;\n").toList
  eq_append := by simp [constructorOpening, Piece.text]
  cut := by
    simp only [Profile.texts, List.cons.injEq] at hp
    simp +decide [Piece.cut_iff, Profile.qualifiedStruct, hp]
  not_mem_rest := by
    simp only [Profile.texts, List.cons.injEq] at hp
    simp [hp]

def openingStatements (hp : p.texts = Profile.texts {}) :
    CutAt ';' (Text.unlines (constructorOpening p)).toList where
  pieces := [⟨p.className ++ "::" ++ p.className ++ "(" ++ p.qualifiedStruct ++ "* impl):\n" ++
    "    m_originalImpl(impl), m_impl(*impl)\n\x7b\n    m_impl." ++ p.ownerField ++ " =", ' ',
    "this"⟩]
  rest := ['\n']
  eq_append := by simp [constructorOpening, Piece.text]
  cut := by
    have htexts : ∀ x ∈ p.texts, Lacks ';' x := by
      rw [hp]
      decide
    have hstruct := Profile.lacks_qualifiedStruct (by decide) htexts
    simp only [Profile.texts, List.forall_mem_cons] at htexts
    simp +decide [hstruct, htexts, Piece.cut_iff]
  not_mem_rest := by decide

def getterCalls (hp : p.texts = Profile.texts {}) :
    CutAt '(' (Text.unlines (getter p)).toList where
  pieces := [⟨p.qualifiedStruct ++ "* " ++ p.className ++ ":", ':', "GetFunctions"⟩]
  rest := ")\n\x7b\n    return &m_impl;\n\x7d\n".toList
  eq_append := by simp [getter, Piece.text]
  cut := by
    simp only [Profile.texts, List.cons.injEq] at hp
    simp +decide [Piece.cut_iff, Profile.qualifiedStruct, hp]
  not_mem_rest := by simp

def getterStatements (hp : p.texts = Profile.texts {}) :
    CutAt ';' (Text.unlines (getter p)).toList where
  pieces := [⟨p.qualifiedStruct ++ "* " ++ p.className ++ "::GetFunctions()\n\x7b\n    return ",
    '&', "m_impl"⟩]
  rest := "\n\x7d\n".toList
  eq_append := by simp [getter, Piece.text]
  cut := by
    simp only [Profile.texts, List.cons.injEq] at hp
    simp +decide [Piece.cut_iff, Profile.qualifiedStruct, hp]
  not_mem_rest := by simp

def installLines (e : Entry) : List String := ["    " ++ install e]

def installPiece (e : Entry) : Piece :=
  ⟨"    m_impl." ++ e.name ++ " =", ' ', e.name ++ "_wrapper"⟩

def installStatements (he : e.Markless ';') :
    CutAt ';' (Text.unlines (installLines e)).toList where
  pieces := [installPiece e]
  rest := ['\n']
  eq_append := by simp [installLines, install, installPiece, hookName, Piece.text]
  cut := by
    simp +decide [installPiece, Piece.cut_iff, he.lacks_name, Text.IsWord.append he.name]
  not_mem_rest := by decide

/-! ### What is looked for -/

/-- Where the hook of a name is declared. -/
def hookHead (name : String) : Piece := ⟨"", ' ', name ++ "_wrapper"⟩

/-- Where the hook of a name is installed. -/
def installing (name : String) : Piece := ⟨"m_impl." ++ name ++ " =", ' ', name ++ "_wrapper"⟩

/-- Where the method of a name is defined. -/
def methodHead (name : String) : Piece := ⟨"GfxContextBase:", ':', name⟩

variable {name : String}

theorem hookHead_text (name : String) :
    (hookHead name).text '(' = (" " ++ name ++ "_wrapper(").toList := by
  simp [hookHead, Piece.text]

theorem installing_text (name : String) :
    (installing name).text ';' = ("m_impl." ++ name ++ " = " ++ name ++ "_wrapper;").toList := by
  simp [installing, Piece.text]

theorem methodHead_text (name : String) :
    (methodHead name).text '(' = ("GfxContextBase::" ++ name ++ "(").toList := by
  simp [methodHead, Piece.text]

theorem delimited_hookHead (hname : Text.IsWord name) : (hookHead name).Delimited :=
  ⟨(by decide : ¬Text.continuesIdentifier ' '), hname.append (by decide)⟩

theorem delimited_installing (hname : Text.IsWord name) : (installing name).Delimited :=
  ⟨(by decide : ¬Text.continuesIdentifier ' '), hname.append (by decide)⟩

theorem delimited_methodHead (hname : Text.IsWord name) : (methodHead name).Delimited :=
  ⟨(by decide : ¬Text.continuesIdentifier ':'), hname⟩

theorem append_wrapper_inj {name name' : String} :
    name ++ "_wrapper" = name' ++ "_wrapper" ↔ name = name' := by
  simp [← String.toList_inj]

theorem ne_append_wrapper {word : String} (h : word.toList.getLast? ≠ some 'r') (name : String) :
    word ≠ name ++ "_wrapper" := by
  rintro rfl
  simp at h

/-- A hook is installed under the name that it is called by. -/
theorem installing_suffix (h : e.name = name) :
    (installing name).front.toList <:+ (installPiece e).front.toList :=
  ⟨"    ".toList, by simp [installing, installPiece, h]⟩

theorem endsIn_installing_iff :
    Piece.EndsIn (installing name) (installPiece e) ↔ e.name = name := by
  constructor
  · rintro ⟨_, hword, _⟩
    exact append_wrapper_inj.1 hword
  · intro h
    exact ⟨rfl, append_wrapper_inj.2 h, installing_suffix h⟩

/-- The scope of the accessor is not that of the methods. -/
theorem not_methodHead_suffix (front : List Char) :
    ¬(methodHead name).front.toList <:+ front ++ "FF7:".toList := by
  intro h
  have hends : "GfxContextBas".toList ++ 'e' :: [':'] <:+
      (front ++ "FF".toList) ++ '7' :: [':'] := by
    simpa [methodHead] using h
  have hsame := (Text.append_cons_suffix_iff (by decide) (by decide)).1 hends
  exact absurd hsame.2.1 (by decide)

/-! ### The whole source -/

/-- What the parts of the source add to the occurrences is all that the source has of them. -/
theorem adds_lines {mark : Char} {pattern : Piece} {entries : List Entry} {i j k : Nat}
    (hfeed : mark ≠ '\n') (hbrace : mark ≠ '\x7d') (hentries : entries ≠ [])
    (hhooks : Adds (pattern.text mark) i
      (entries.flatMap fun e => (Text.unlines (hook p e)).toList))
    (hopening : Adds (pattern.text mark) 0 (Text.unlines (constructorOpening p)).toList)
    (hinstalls : Adds (pattern.text mark) j
      (entries.flatMap fun e => (Text.unlines (installLines e)).toList))
    (hgetter : Adds (pattern.text mark) 0 (Text.unlines (getter p)).toList)
    (hmethods : Adds (pattern.text mark) k
      (entries.flatMap fun e => (Text.unlines (method p e)).toList)) :
    Adds (pattern.text mark) (i + j + k) (Text.unlines (lines p entries)).toList := by
  simp only [← Text.toList_unlines_flatMap] at hhooks hinstalls hmethods
  have hblank : Adds (pattern.text mark) 0 (Text.unlines [""]).toList :=
    Piece.adds_zero (by simpa using hfeed)
  have hclose : Adds (pattern.text mark) 0 (Text.unlines ["\x7d", ""]).toList :=
    Piece.adds_zero (by simp [hfeed, hbrace])
  have hblock : Text.block "    " (entries.map install) = entries.flatMap installLines := by
    rw [Text.block_map, if_neg hentries, List.map_eq_flatMap]
    rfl
  -- the whole in its parts, between which there are lines without marks
  have hlines : lines p entries = [""] ++ entries.flatMap (hook p) ++ [""] ++ [""] ++
      constructorOpening p ++ entries.flatMap installLines ++ ["\x7d", ""] ++ getter p ++ [""] ++
        entries.flatMap (method p) ++ [""] := by
    rw [lines, constructor, hblock]
    simp [constructorOpening]
  have hcount : i + j + k = 0 + i + 0 + 0 + 0 + j + 0 + 0 + 0 + k + 0 := by omega
  rw [hlines, hcount]
  simp only [Text.unlines_append, String.toList_append]
  exact ((((((((((hblank.append hhooks).append hblank).append hblank).append hopening).append
    hinstalls).append hclose).append hgetter).append hblank).append hmethods).append hblank)

section

variable {entries : List Entry}

/-- The hooks of a name are declared as often as there are entries of that name. -/
theorem occurrences_hookHead (hp : p.texts = Profile.texts {}) (hentries : entries ≠ [])
    (hmarkless : ∀ e ∈ entries, e.Markless '(') (hname : Text.IsWord name) :
    Text.occurrences (" " ++ name ++ "_wrapper(").toList (Text.unlines (lines p entries)).toList =
      entries.countP (·.name = name) := by
  have hdelimited := delimited_hookHead hname
  rw [← hookHead_text]
  refine Piece.occurrences_eq (adds_lines (j := 0) (k := 0) (by decide) (by decide) hentries
    (.flatMap ?hooks) ?opening (.flatMap_zero ?installs) ?getter (.flatMap_zero ?methods))
  case hooks =>
    intro e he
    have hcount : (hookCalls hp (hmarkless e he)).pieces.countP (Piece.EndsIn (hookHead name)) =
        if e.name = name then 1 else 0 := by
      have hscope : "_" ≠ name ++ "_wrapper" := ne_append_wrapper (by decide) name
      simp [hookCalls, hookHead, Piece.EndsIn, hookName, List.countP_cons, hscope]
    rw [← hcount]
    exact (hookCalls hp (hmarkless e he)).adds (by decide) hdelimited
      fun q _ _ _ _ _ => List.nil_suffix
  case opening =>
    have horiginal : "m_originalImpl" ≠ name ++ "_wrapper" := ne_append_wrapper (by decide) name
    have himpl : "m_impl" ≠ name ++ "_wrapper" := ne_append_wrapper (by decide) name
    refine (openingCalls hp).adds_zero (by decide) hdelimited ?_
    simp [openingCalls, hookHead, horiginal, himpl]
  case installs =>
    intro e he
    have hlacks : '(' ∉ e.name.toList := (hmarkless e he).lacks_name
    refine Piece.adds_zero ?_
    simpa [installLines, install, hookName] using hlacks
  case getter =>
    refine (getterCalls hp).adds_zero (by decide) hdelimited ?_
    simp [getterCalls, hookHead]
  case methods =>
    intro e he
    refine (methodCalls hp (hmarkless e he)).adds_zero (by decide) hdelimited ?_
    simp [methodCalls, hookHead]

/-- The hooks of a name are installed as often as there are entries of that name. -/
theorem occurrences_installing (hp : p.texts = Profile.texts {}) (hentries : entries ≠ [])
    (hmarkless : ∀ e ∈ entries, e.Markless ';') (hname : Text.IsWord name) :
    Text.occurrences ("m_impl." ++ name ++ " = " ++ name ++ "_wrapper;").toList
        (Text.unlines (lines p entries)).toList =
      entries.countP (·.name = name) := by
  have hdelimited := delimited_installing hname
  rw [← installing_text, ← Nat.zero_add (entries.countP _)]
  refine Piece.occurrences_eq (adds_lines (k := 0) (by decide) (by decide) hentries
    (.flatMap_zero ?hooks) ?opening (.flatMap ?installs) ?getter (.flatMap_zero ?methods))
  case hooks =>
    intro e he
    refine (hookStatements hp (hmarkless e he)).adds_zero (by decide) hdelimited ?_
    simp [hookStatements, installing]
  case opening =>
    have howner : "this" ≠ name ++ "_wrapper" := ne_append_wrapper (by decide) name
    refine (openingStatements hp).adds_zero (by decide) hdelimited ?_
    simp [openingStatements, installing, howner]
  case installs =>
    intro e he
    have hcount : (installStatements (hmarkless e he)).pieces.countP
        (Piece.EndsIn (installing name)) = if e.name = name then 1 else 0 := by
      simp [installStatements, endsIn_installing_iff]
    rw [← hcount]
    refine (installStatements (hmarkless e he)).adds (by decide) hdelimited ?_
    simp only [installStatements, List.forall_mem_singleton]
    exact fun _ hword _ _ => installing_suffix (append_wrapper_inj.1 hword)
  case getter =>
    refine (getterStatements hp).adds_zero (by decide) hdelimited ?_
    simp [getterStatements, installing]
  case methods =>
    intro e he
    refine (methodStatements hp (hmarkless e he)).adds_zero (by decide) hdelimited ?_
    simp [methodStatements, installing]

/-- The methods of a name are defined as often as there are entries of that name, but for the names
of the two members that every class has. -/
theorem occurrences_methodHead (hp : p.texts = Profile.texts {}) (hentries : entries ≠ [])
    (hmarkless : ∀ e ∈ entries, e.Markless '(') (hname : Text.IsWord name)
    (hgetter : name ≠ "GetFunctions") (hconstructor : name ≠ "GfxContextBase") :
    Text.occurrences ("GfxContextBase::" ++ name ++ "(").toList
        (Text.unlines (lines p entries)).toList =
      entries.countP (·.name = name) := by
  have hdelimited := delimited_methodHead hname
  rw [← methodHead_text, ← Nat.zero_add (entries.countP _)]
  refine Piece.occurrences_eq (adds_lines (j := 0) (by decide) (by decide) hentries
    (.flatMap_zero ?hooks) ?opening (.flatMap_zero ?installs) ?getter (.flatMap ?methods))
  case hooks =>
    intro e he
    refine (hookCalls hp (hmarkless e he)).adds_zero (by decide) hdelimited ?_
    simp only [hookCalls, List.forall_mem_cons]
    -- a hook has one word behind a colon, and this may well be the name that is looked for
    refine ⟨by simp [methodHead], by simp [methodHead], by simp [methodHead], fun _ _ start h => ?_,
      by simp [methodHead], by simp⟩
    rw [String.toList_append, ← List.append_assoc] at h
    exact not_methodHead_suffix _ h
  case opening =>
    refine (openingCalls hp).adds_zero (by decide) hdelimited ?_
    simp only [Profile.texts, List.cons.injEq] at hp
    simp [openingCalls, methodHead, hp, hconstructor.symm]
  case installs =>
    intro e he
    have hlacks : '(' ∉ e.name.toList := (hmarkless e he).lacks_name
    refine Piece.adds_zero ?_
    simpa [installLines, install, hookName] using hlacks
  case getter =>
    refine (getterCalls hp).adds_zero (by decide) hdelimited ?_
    simp [getterCalls, methodHead, hgetter.symm]
  case methods =>
    intro e he
    have hfits : "GfxContextBase:".toList <:+ ("\n" ++ e.returnType ++ " GfxContextBase:").toList :=
      ⟨("\n" ++ e.returnType ++ " ").toList, by simp⟩
    have hcount : (methodCalls hp (hmarkless e he)).pieces.countP
        (Piece.EndsIn (methodHead name)) = if e.name = name then 1 else 0 := by
      simp only [methodCalls, methodHead, Piece.EndsIn, List.countP_cons, hfits]
      simp
    rw [← hcount]
    refine (methodCalls hp (hmarkless e he)).adds (by decide) hdelimited ?_
    simp only [methodCalls, methodHead, List.forall_mem_cons]
    exact ⟨fun _ _ _ _ => hfits, by simp, by simp⟩

end

end

end ClassSource

namespace TableHeader

section

variable {p : Profile} {name : String}

/-- Where the field of a name is declared. -/
def fieldHead (name : String) : Piece := ⟨"(__cdecl *" ++ name, ')', ""⟩

theorem fieldHead_text (name : String) :
    (fieldHead name).text '(' = ("(__cdecl *" ++ name ++ ")(").toList := by
  simp [fieldHead, Piece.text]

theorem delimited_fieldHead (name : String) : (fieldHead name).Delimited where
  delimiter := (by decide : ¬Text.continuesIdentifier ')')
  word := by simp [fieldHead, Text.IsWord]

/-- The field of an entry up to its first parenthesis. -/
def typePiece (margin : String) (e : Entry) : Piece :=
  ⟨margin ++ "/* " ++ address e.offset ++ " */ " ++ e.returnType, ' ', ""⟩

/-- The field of an entry from its first parenthesis to the next that opens. -/
def declaredPiece (e : Entry) : Piece := ⟨"__cdecl *" ++ e.name, ')', ""⟩

/-- The pattern reaches from the one parenthesis to the other. -/
theorem fieldHead_suffix_iff {margin : String} {e : Entry} (he : Text.IsWord e.name)
    (hname : Text.IsWord name) (text : List Char) :
    (fieldHead name).front.toList <:+
      text ++ (typePiece margin e).text '(' ++ (declaredPiece e).front.toList ↔ e.name = name := by
  have hstar {s : String} (hs : Text.IsWord s) : '*' ∉ s.toList := hs.lacks (by decide)
  have hpattern : (fieldHead name).front.toList = "(__cdecl ".toList ++ '*' :: name.toList := by
    simp [fieldHead]
  have htext : text ++ (typePiece margin e).text '(' ++ (declaredPiece e).front.toList =
      (text ++ (typePiece margin e).front.toList ++ " (__cdecl ".toList) ++
        '*' :: e.name.toList := by
    simp [typePiece, declaredPiece, Piece.text]
  have hfront : "(__cdecl ".toList <:+
      text ++ (typePiece margin e).front.toList ++ " (__cdecl ".toList :=
    ⟨text ++ (typePiece margin e).front.toList ++ [' '], by simp⟩
  rw [hpattern, htext, Text.append_cons_suffix_iff (hstar hname) (hstar he), String.toList_inj]
  simp only [hfront, true_and, eq_comm]

theorem adds_entryField {margin : String} {e : Entry} (hmargin : Lacks '(' margin)
    (hp : p.texts = Profile.texts {}) (he : e.Markless '(') (hname : Text.IsWord name) :
    Adds ((fieldHead name).text '(') (if e.name = name then 1 else 0)
      (Text.unlines [margin ++ entryField p e]).toList := by
  have htype : (typePiece margin e).Cut '(' := by
    have haddress : Lacks '(' (address e.offset) := (Text.isWord_address e.offset).lacks (by decide)
    simp +decide [typePiece, Piece.cut_iff, hmargin, haddress, he.lacks_returnType, Text.IsWord]
  have hdeclared : (declaredPiece e).Cut '(' := by
    simp +decide [declaredPiece, Piece.cut_iff, he.lacks_name, Text.IsWord]
  have hrest : '(' ∉ (Entry.listed e.parameters ++ ");\n").toList := by
    simp [show '(' ∉ _ from he.lacks_parameters]
  have hfield : (Text.unlines [margin ++ entryField p e]).toList =
      (typePiece margin e).text '(' ++ ((declaredPiece e).text '(' ++
        (Entry.listed e.parameters ++ ");\n").toList) := by
    simp only [Profile.texts, List.cons.injEq] at hp
    simp [entryField, hp, typePiece, declaredPiece, Piece.text]
  intro text
  rw [hfield, ← List.append_assoc, ← List.append_assoc, Piece.adds_zero hrest, Nat.add_zero,
    Piece.occurrences_append_text (by decide) (delimited_fieldHead name) hdeclared,
    Piece.occurrences_append_text (by decide) (delimited_fieldHead name) htype]
  simp only [fieldHead_suffix_iff he.name hname]
  simp [fieldHead, typePiece, declaredPiece]

/-- A cell adds to the fields of a name if its entry has that name. -/
theorem adds_field {margin : String} {c : Cell} (hmargin : Lacks '(' margin)
    (hp : p.texts = Profile.texts {}) (hc : ∀ e ∈ c.entry?, e.Markless '(')
    (hname : Text.IsWord name) :
    Adds ((fieldHead name).text '(') (if c.entry?.any (·.name = name) then 1 else 0)
      (Text.unlines [margin ++ c.render .plain p]).toList := by
  have haddress (o : UInt32) : Lacks '(' (address o) := (Text.isWord_address o).lacks (by decide)
  cases c with
  | function o e =>
      rw [Cell.render_plain_function]
      simpa [Cell.entry?] using adds_entryField hmargin hp (hc e rfl) hname
  | padding o =>
      have hpadding : Lacks '(' (Cell.paddingName o) :=
        (Text.isWord_paddingName o).lacks (by decide)
      refine Piece.adds_zero (show Lacks '(' _ from ?_)
      simp only [Profile.texts, List.cons.injEq] at hp
      simp +decide [Cell.render, Cell.tag, Palette.plain, hmargin, haddress, hpadding, hp]
  | backReference o =>
      refine Piece.adds_zero (show Lacks '(' _ from ?_)
      simp only [Profile.texts, List.cons.injEq] at hp
      simp +decide [Cell.render, Cell.tag, Palette.plain, hmargin, haddress, hp]

/-- The fields of a name are declared as often as there are entries of that name. -/
theorem occurrences_fieldHead {t : Table} {entries : List Entry} (hp : p.texts = Profile.texts {})
    (hlayout : LaidOut p.geometry entries t.cells) (hcells : t.cells ≠ [])
    (hmarkless : ∀ e ∈ entries, e.Markless '(') (hname : Text.IsWord name) :
    Text.occurrences ("(__cdecl *" ++ name ++ ")(").toList (Text.unlines (lines p t)).toList =
      entries.countP (·.name = name) := by
  have hfields : t.fields p ≠ [] := by simpa [Table.fields] using hcells
  have hscope : p.scope.isEmpty = false := by
    simp only [Profile.texts, List.cons.injEq] at hp
    rw [hp.1]
    rfl
  have hlines : lines p t = (opening p ++
      ["namespace " ++ p.scope, "\x7b", "    struct " ++ p.structName, "    \x7b"]) ++
        (t.cells.flatMap fun c => ["        " ++ c.render .plain p]) ++ ["    \x7d;", "\x7d"] := by
    rw [lines, body, if_neg (by simp [hscope]), Text.block_of_ne_nil hfields, Table.fields,
      List.map_map, List.map_eq_flatMap]
    simp
  have hcount : t.cells.countP (fun c => c.entry?.any (·.name = name)) =
      entries.countP (·.name = name) := by
    rw [← hlayout.perm_entries.countP_eq, List.countP_filterMap]
    refine List.countP_congr fun c _ => ?_
    cases c.entry? <;> simp
  have hopening : Adds ((fieldHead name).text '(') 0 (Text.unlines (opening p ++
      ["namespace " ++ p.scope, "\x7b", "    struct " ++ p.structName, "    \x7b"])).toList := by
    refine Piece.adds_zero (show Lacks '(' _ from ?_)
    simp only [Profile.texts, List.cons.injEq] at hp
    simp +decide [opening, hp]
  have hclosing : Adds ((fieldHead name).text '(') 0
      (Text.unlines ["    \x7d;", "\x7d"]).toList :=
    Piece.adds_zero (by simp)
  have hcells : ∀ c ∈ t.cells, Adds ((fieldHead name).text '(')
      (if c.entry?.any (·.name = name) then 1 else 0)
      (Text.unlines ["        " ++ c.render .plain p]).toList := by
    intro c hc
    refine adds_field (by decide) hp (fun e he => hmarkless e ?_) hname
    exact hlayout.perm_entries.mem_iff.1 (List.mem_filterMap.2 ⟨c, hc, he⟩)
  have hsum := (hopening.append (Adds.flatMap hcells)).append hclosing
  rw [Nat.zero_add, Nat.add_zero, ← Text.toList_unlines_flatMap] at hsum
  rw [hlines, ← hcount, ← fieldHead_text, Text.unlines_append, Text.unlines_append,
    String.toList_append, String.toList_append]
  refine Piece.occurrences_eq ?_
  simpa using hsum

end

end TableHeader

/-- The documents wire a name once: the source declares one hook of that name, installs it once, and
defines one method, unless the name is that of a member which every class has, and the table header
declares one field. -/
structure Sources.WiredOnce (s : Sources) (name : String) : Prop where
  hook : Text.occurrences (" " ++ name ++ "_wrapper(").toList s.classSource.toList = 1
  installed : Text.occurrences ("m_impl." ++ name ++ " = " ++ name ++ "_wrapper;").toList
    s.classSource.toList = 1
  field : Text.occurrences ("(__cdecl *" ++ name ++ ")(").toList s.tableHeader.toList = 1
  method : name ≠ "GetFunctions" → name ≠ "GfxContextBase" →
    Text.occurrences ("GfxContextBase::" ++ name ++ "(").toList s.classSource.toList = 1

theorem Admissible.countP_name {g : Geometry} {entries : List Entry} {e : Entry}
    (h : Admissible g entries) (he : e ∈ entries) : entries.countP (·.name = e.name) = 1 := by
  have hcount := List.count_eq_one_of_mem h.nodup_names (List.mem_map_of_mem he)
  rw [List.count, List.countP_map] at hcount
  rw [← hcount]
  congr 1

/-- With the names that are used by default, sources generated under the strict policy wire each
entry once, if no type has a parenthesis or a semicolon. -/
theorem wiredOnce_of_ofEntries (p : Profile) (entries : List Entry) (s : Sources)
    (hpolicy : p.policy = .strict) (hnames : p.texts = Profile.texts {})
    (h : (Sources.ofEntries p entries).result = .ok s)
    (htypes : ∀ e ∈ entries, ∀ x ∈ e.types, Lacks '(' x ∧ Lacks ';' x) :
    ∀ e ∈ entries, s.WiredOnce e.name := by
  obtain ⟨⟨hg, hentries⟩, rfl⟩ := (ofEntries_eq_ok_iff_of_strict hpolicy).1 h
  have hcells : p.geometry.finalCells entries ≠ [] := by
    rw [← List.length_pos_iff, Geometry.length_finalCells]
    exact Nat.zero_lt_of_lt hg.backIndex_lt
  have hword : ∀ e ∈ entries, Text.IsWord e.name := fun e he =>
    Text.isWord_of_isIdentifier (hentries.sound e he).isIdentifier_name
  have hcalls : ∀ e ∈ entries, e.Markless '(' := fun e he =>
    ⟨by decide, by decide, by decide, hword e he, fun x hx => (htypes e he x hx).1⟩
  have hstatements : ∀ e ∈ entries, e.Markless ';' := fun e he =>
    ⟨by decide, by decide, by decide, hword e he, fun x hx => (htypes e he x hx).2⟩
  intro e he
  have hne : entries ≠ [] := List.ne_nil_of_mem he
  have honce := hentries.countP_name he
  constructor
  case hook =>
    exact (ClassSource.occurrences_hookHead hnames hne hcalls (hword e he)).trans honce
  case installed =>
    exact (ClassSource.occurrences_installing hnames hne hstatements (hword e he)).trans honce
  case field =>
    have hlayout := hentries.laidOut hg
    exact (TableHeader.occurrences_fieldHead (t := ⟨p.geometry, p.geometry.finalCells entries⟩)
      hnames hlayout hcells hcalls (hword e he)).trans honce
  case method =>
    intro hgetter hconstructor
    exact (ClassSource.occurrences_methodHead hnames hne hcalls (hword e he) hgetter
      hconstructor).trans honce

/-- An entry whose name is that of another entry's hook, in the middle of a table. -/
theorem wiredOnce_of_ofEntries_hooked :
    ({ geometry := ⟨16, 4⟩ } : Profile).policy = .strict ∧
      ({ geometry := ⟨16, 4⟩ } : Profile).texts = Profile.texts {} ∧
      (∀ e ∈ [(⟨12, "void", "Draw", ["u32"]⟩ : Entry), ⟨8, "u32*", "Draw_wrapper", ["int*", "u8"]⟩],
        ∀ x ∈ e.types, Lacks '(' x ∧ Lacks ';' x) ∧
      ∃ s, (Sources.ofEntries { geometry := ⟨16, 4⟩ }
          [⟨12, "void", "Draw", ["u32"]⟩, ⟨8, "u32*", "Draw_wrapper", ["int*", "u8"]⟩]).result =
            .ok s ∧
        ∀ e ∈ [(⟨12, "void", "Draw", ["u32"]⟩ : Entry),
            ⟨8, "u32*", "Draw_wrapper", ["int*", "u8"]⟩],
          s.WiredOnce e.name :=
  ⟨rfl, rfl, by decide, _, rfl,
    wiredOnce_of_ofEntries { geometry := ⟨16, 4⟩ } _ _ rfl rfl rfl (by decide)⟩

end CallTable
