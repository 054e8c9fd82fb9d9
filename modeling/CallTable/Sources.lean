import CallTable.Table

/-!
The generated sources: three documents made from a list of entries and the table that they are
arranged in.
-/

namespace CallTable

/-! ### The header that declares the table's struct

There is one field for each cell. -/

namespace TableHeader

def opening (p : Profile) : List String :=
  ["", "#pragma once", "", "class " ++ p.className ++ ";", ""]

/-- The struct in its scope, or at top level if the scope is empty. -/
def body (p : Profile) (fields : List String) : List String :=
  if p.scope.isEmpty then
    ["struct " ++ p.structName, "\x7b"] ++ Text.block "    " fields ++ ["\x7d;"]
  else
    ["namespace " ++ p.scope, "\x7b", "    struct " ++ p.structName, "    \x7b"]
      ++ Text.block "        " fields ++ ["    \x7d;", "\x7d"]

def lines (p : Profile) (t : Table) : List String := opening p ++ body p (t.fields p)

end TableHeader

/-! ### The header that declares the wrapper class

There is one virtual method for each entry, in the order of the entries. -/

namespace ClassHeader

def method (e : Entry) : String :=
  "virtual " ++ e.returnType ++ " " ++ e.name ++ "(" ++ Entry.listed e.parameters ++ ");"

def opening (p : Profile) : List String :=
  ["",
    "#pragma once",
    "",
    "class " ++ p.className,
    "\x7b",
    "public:",
    "    virtual ~" ++ p.className ++ "() = default;",
    "",
    "    " ++ p.className ++ "(" ++ p.qualifiedStruct ++ "* impl);",
    "    " ++ p.qualifiedStruct ++ "* GetFunctions();",
    ""]

def closing (p : Profile) : List String :=
  ["",
    "private:",
    "    " ++ p.qualifiedStruct ++ "* const m_originalImpl;",
    "    " ++ p.qualifiedStruct ++ " m_impl;",
    "\x7d;"]

def lines (p : Profile) (entries : List Entry) : List String :=
  opening p ++ Text.block "    " (entries.map method) ++ closing p

end ClassHeader

/-! ### The source of the wrapper class

Each entry has a hook, a free function that traces the call and passes it on to the object owning
the table. The constructor installs the hooks, and the methods of the class pass the call on to the
table as it was before. -/

namespace ClassSource

def hookName (e : Entry) : String := e.name ++ "_wrapper"

def parameterList (e : Entry) : String := "(" ++ Entry.listed e.parameters ++ ")"

def argumentList (e : Entry) : String := "(" ++ Entry.listed e.argumentNames ++ ")"

/-- A call hands on the value it returns, if there is one. -/
def handOn (e : Entry) (call : String) : String :=
  "    " ++ (if e.returnsVoid then "" else "return ") ++ call ++ ";"

/-- What the trace prints: the name, and a conversion for each argument. -/
def traceFormat (e : Entry) : String := e.name ++ "(" ++ Entry.listed e.conversions ++ ")"

/-- The arguments that the trace prints, behind a comma if there are any. -/
def traceArguments (e : Entry) : String :=
  if e.hasArguments then ", " ++ Entry.listed e.argumentNames else ""

def trace (p : Profile) (e : Entry) : String :=
  "    " ++ p.tracer ++ " _(L\"" ++ traceFormat e ++ "\"" ++ traceArguments e ++ ");"

def hook (p : Profile) (e : Entry) : List String :=
  ["",
    "static " ++ e.returnType ++ " " ++ p.convention ++ " " ++ hookName e ++ parameterList e,
    "\x7b",
    trace p e,
    handOn e (p.accessor ++ "->" ++ p.ownerField ++ "->" ++ e.name ++ argumentList e),
    "\x7d"]

def install (e : Entry) : String := "m_impl." ++ e.name ++ " = " ++ hookName e ++ ";"

def constructor (p : Profile) (entries : List Entry) : List String :=
  [p.className ++ "::" ++ p.className ++ "(" ++ p.qualifiedStruct ++ "* impl):",
    "    m_originalImpl(impl), m_impl(*impl)",
    "\x7b",
    "    m_impl." ++ p.ownerField ++ " = this;"]
  ++ Text.block "    " (entries.map install) ++ ["\x7d"]

def getter (p : Profile) : List String :=
  [p.qualifiedStruct ++ "* " ++ p.className ++ "::GetFunctions()",
    "\x7b",
    "    return &m_impl;",
    "\x7d"]

def method (p : Profile) (e : Entry) : List String :=
  ["",
    e.returnType ++ " " ++ p.className ++ "::" ++ e.name ++ parameterList e,
    "\x7b",
    handOn e ("m_originalImpl->" ++ e.name ++ argumentList e),
    "\x7d"]

def lines (p : Profile) (entries : List Entry) : List String :=
  [""] ++ entries.flatMap (hook p) ++ ["", ""] ++ constructor p entries ++ [""] ++ getter p
    ++ [""] ++ entries.flatMap (method p) ++ [""]

@[simp] theorem length_hook (p : Profile) (e : Entry) : (hook p e).length = 6 := rfl

end ClassSource

/-! ### All three documents -/

structure Sources where
  tableHeader : String
  classHeader : String
  classSource : String
deriving DecidableEq

namespace Sources

/-- The table need not come from these entries, nor from this profile. -/
def ofTable (p : Profile) (entries : List Entry) (t : Table) : Sources where
  tableHeader := Text.unlines (TableHeader.lines p t)
  classHeader := Text.unlines (ClassHeader.lines p entries)
  classSource := Text.unlines (ClassSource.lines p entries)

def ofEntries (p : Profile) (entries : List Entry) : Reported Rejection Sources := do
  let t ← Table.arrange p entries
  Reported.report [.emitting p.className entries.length]
  return ofTable p entries t

/-- The documents with the names of the files that receive them, in the order of writing. -/
def files (p : Profile) (s : Sources) : List (String × String) :=
  [(p.tableHeaderName, s.tableHeader), (p.classHeaderName, s.classHeader),
    (p.classSourceName, s.classSource)]

end Sources

end CallTable
