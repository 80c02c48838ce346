import ArrowLang.Diagnostic.Code
import ArrowLang.Diagnostic.Snippet
import ArrowLang.Json

/-!
# Diagnostics for programs

A report tells how a run over one file went. It holds the diagnostics with the places that their
spans stand for, and it is written as JSON, absent parts left out. There is none if a place is
missing.
-/

namespace ArrowLang

namespace Report

/-- A byte offset with its place in the text. -/
structure Place where
  line : Nat
  column : Nat
  offset : Nat
deriving DecidableEq

structure Location where
  place : Place
  sourceLine : String
deriving DecidableEq

structure Label where
  role : Role
  message : Option String
  start : Place
  stop : Place
deriving DecidableEq

structure Fix where
  span : Span
  replacement : String
  /-- The line on which the span starts, with the replacement in its place. -/
  resultLine : String
deriving DecidableEq

structure Entry where
  code : Option String
  category : Option String
  message : String
  location : Option Location
  labels : List Label
  notes : List String
  help : Option String
  fix : Option Fix
deriving DecidableEq

end Report

structure Report where
  version : Nat
  file : String
  success : Bool
  phase : String
  resultType : Option String
  diagnostics : List Report.Entry
  errorCount : Nat
deriving DecidableEq

namespace Report

def Place.ofOffset? (map : LineMap) (offset : Nat) : Option Place := do
  let position ← map.position? offset
  return ⟨position.line, position.column, offset⟩

def Location.ofSpan? (map : LineMap) (span : Span) : Option Location := do
  let place ← Place.ofOffset? map span.start
  return ⟨place, String.ofList (map.lineText place.line)⟩

def Label.ofLabel? (map : LineMap) (l : ArrowLang.Label) : Option Label := do
  let start ← Place.ofOffset? map l.span.start
  let stop ← Place.ofOffset? map l.span.stop
  return ⟨l.role, l.message, start, stop⟩

def Fix.ofSuggestion? (map : LineMap) (s : Suggestion) : Option Fix := do
  let (_, before, after) ← Snippet.replaced? map s
  return ⟨s.span, s.replacement, String.ofList (before ++ s.replacement.toList ++ after)⟩

def Entry.ofDiagnostic? (map : LineMap) (d : Diagnostic) : Option Entry := do
  let location ← d.primarySpan?.mapM (Location.ofSpan? map)
  let labels ← d.labels.mapM (Label.ofLabel? map)
  let fix ← (d.help.bind (·.suggestion)).mapM (Fix.ofSuggestion? map)
  return {
    code := d.code
    category := (d.code.bind ErrorCode.find?).map (·.category.name)
    message := d.message
    location := location
    labels := labels
    notes := d.notes
    help := d.help.map (·.message)
    fix := fix
  }

/-- The report of a run that got as far as `phase`. -/
def ofDiagnostics? (map : LineMap) (file phase : String) (ds : List Diagnostic)
    (resultType : Option String) : Option Report := do
  let entries ← ds.mapM (Entry.ofDiagnostic? map)
  return {
    version := 1
    file := file
    success := ds.isEmpty
    phase := phase
    resultType := resultType
    diagnostics := entries
    errorCount := ds.length
  }

def optional (key : String) (value : Option Json) : List (String × Json) :=
  (value.map fun v => (key, v)).toList

def Place.fields (p : Place) : List (String × Json) :=
  [("line", .nat p.line), ("column", .nat p.column), ("byte_offset", .nat p.offset)]

def Location.json (l : Location) : Json :=
  .obj (l.place.fields ++ [("source_line", .str l.sourceLine)])

def Label.json (l : Label) : Json :=
  .obj ([("role", .str (l.role.name))] ++ optional "message" (l.message.map .str)
    ++ [("start", .obj l.start.fields), ("end", .obj l.stop.fields)])

def Fix.json (f : Fix) : Json :=
  .obj [("span", .obj [("start", .nat f.span.start), ("end", .nat f.span.stop)]),
    ("replacement", .str f.replacement), ("result_line", .str f.resultLine)]

def Entry.json (e : Entry) : Json :=
  let notes := if e.notes.isEmpty then none else some (.arr (e.notes.map .str))
  .obj (optional "code" (e.code.map .str) ++ optional "category" (e.category.map .str)
    ++ [("message", .str e.message)] ++ optional "location" (e.location.map (·.json))
    ++ [("labels", .arr (e.labels.map (·.json)))] ++ optional "notes" notes
    ++ optional "help" (e.help.map .str) ++ optional "suggestion" (e.fix.map (·.json)))

def json (r : Report) : Json :=
  .obj ([("version", .nat r.version), ("file", .str r.file), ("success", .bool r.success),
      ("phase", .str r.phase)]
    ++ optional "result_type" (r.resultType.map .str)
    ++ [("diagnostics", .arr (r.diagnostics.map (·.json))), ("error_count", .nat r.errorCount)])

def render (r : Report) : Text := r.json.pretty 0

end Report

end ArrowLang
