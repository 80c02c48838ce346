import ArrowLang.Span

/-!
# Diagnostics

A diagnostic is a message about a program with everything needed to show it: labelled spans, notes
and advice.
-/

namespace ArrowLang

inductive Role where
  | primary
  | secondary
deriving DecidableEq

def Role.name : Role → String
  | .primary => "primary"
  | .secondary => "secondary"

structure Label where
  span : Span
  role : Role
  message : Option String
deriving DecidableEq

/-- A text to put in the place of a span. -/
structure Suggestion where
  span : Span
  replacement : String
deriving DecidableEq

structure Help where
  message : String
  suggestion : Option Suggestion
deriving DecidableEq

structure Diagnostic where
  code : Option String
  message : String
  labels : List Label
  notes : List String
  help : Option Help
deriving DecidableEq

namespace Diagnostic

def error (message : String) : Diagnostic := ⟨none, message, [], [], none⟩

def withCode (code : String) (d : Diagnostic) : Diagnostic := { d with code := some code }

def withLabel (label : Label) (d : Diagnostic) : Diagnostic :=
  { d with labels := d.labels ++ [label] }

def withPrimary (span : Span) (message : String) : Diagnostic → Diagnostic :=
  withLabel ⟨span, .primary, some message⟩

def withSecondary (span : Span) (message : String) : Diagnostic → Diagnostic :=
  withLabel ⟨span, .secondary, some message⟩

def withNote (note : String) (d : Diagnostic) : Diagnostic := { d with notes := d.notes ++ [note] }

/-- Replaces any help there is, with its suggestion. -/
def withHelp (message : String) (d : Diagnostic) : Diagnostic :=
  { d with help := some ⟨message, none⟩ }

/-- Adds a suggestion to the help, if there is any. -/
def withSuggestion (span : Span) (replacement : String) (d : Diagnostic) : Diagnostic :=
  { d with help := d.help.map ({ · with suggestion := some ⟨span, replacement⟩ }) }

/-- The span of the first primary label, or else of the first label. -/
def primarySpan? (d : Diagnostic) : Option Span :=
  ((d.labels.find? (·.role == .primary)).or d.labels.head?).map (·.span)

end Diagnostic

end ArrowLang
