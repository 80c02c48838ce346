import ArrowLang.Diagnostic.Report
import ArrowLang.Proofs.Json.Reader

/-!
# What the text of a report tells

`Report.StoredIn` says which JSON value holds a report: one key for each part, in a fixed order, and
none for a part that is absent. The text of a report is the text of such a value and of no other
one, and `Report.read?` finds the report again (`render_loses_nothing`).
-/

namespace ArrowLang

open Json (Value)

/-! ## Objects -/

namespace Json.Value

def nat (n : Nat) : Value := number (Nat.toDigits 10 n)

def field? : Value → String → Option Value
  | obj fields, key => fields.lookup key
  | _, _ => none

/-- An object whose keys are among these names, in this order and none of them twice. -/
def HasKeys (names : List String) (v : Value) : Prop :=
  ∃ fields, v = obj fields ∧ (fields.map (·.1)).Sublist names

end Json.Value

/-! ## Values of reports -/

namespace Report

/-- The fields of a place, which may be among other ones. -/
structure Place.FieldsIn (p : Place) (v : Value) : Prop where
  line : v.field? "line" = some (.nat p.line)
  column : v.field? "column" = some (.nat p.column)
  offset : v.field? "byte_offset" = some (.nat p.offset)

structure Place.StoredIn (p : Place) (v : Value) : Prop where
  keys : v.HasKeys ["line", "column", "byte_offset"]
  fields : p.FieldsIn v

structure Location.StoredIn (l : Location) (v : Value) : Prop where
  keys : v.HasKeys ["line", "column", "byte_offset", "source_line"]
  place : l.place.FieldsIn v
  sourceLine : v.field? "source_line" = some (.str l.sourceLine)

structure Label.StoredIn (l : Label) (v : Value) : Prop where
  keys : v.HasKeys ["role", "message", "start", "end"]
  role : v.field? "role" = some (.str (match l.role with
    | .primary => "primary"
    | .secondary => "secondary"))
  message : v.field? "message" = l.message.map .str
  start : Option.Rel Place.StoredIn (some l.start) (v.field? "start")
  stop : Option.Rel Place.StoredIn (some l.stop) (v.field? "end")

structure SpanStoredIn (s : Span) (v : Value) : Prop where
  keys : v.HasKeys ["start", "end"]
  start : v.field? "start" = some (.nat s.start)
  stop : v.field? "end" = some (.nat s.stop)

structure Fix.StoredIn (f : Fix) (v : Value) : Prop where
  keys : v.HasKeys ["span", "replacement", "result_line"]
  span : Option.Rel SpanStoredIn (some f.span) (v.field? "span")
  replacement : v.field? "replacement" = some (.str f.replacement)
  resultLine : v.field? "result_line" = some (.str f.resultLine)

/-- An array with one value for each member of the list. -/
def ListStoredIn {α : Type} (R : α → Value → Prop) (as : List α) (v : Value) : Prop :=
  ∃ vs, v = .arr vs ∧ List.Forall₂ R as vs

structure Entry.StoredIn (e : Entry) (v : Value) : Prop where
  keys : v.HasKeys
    ["code", "category", "message", "location", "labels", "notes", "help", "suggestion"]
  code : v.field? "code" = e.code.map .str
  category : v.field? "category" = e.category.map .str
  message : v.field? "message" = some (.str e.message)
  location : Option.Rel Location.StoredIn e.location (v.field? "location")
  labels : Option.Rel (ListStoredIn Label.StoredIn) (some e.labels) (v.field? "labels")
  notes : v.field? "notes" = if e.notes = [] then none else some (.arr (e.notes.map .str))
  help : v.field? "help" = e.help.map .str
  fix : Option.Rel Fix.StoredIn e.fix (v.field? "suggestion")

end Report

/-- The value holds the report. -/
structure Report.StoredIn (r : Report) (v : Value) : Prop where
  keys : v.HasKeys
    ["version", "file", "success", "phase", "result_type", "diagnostics", "error_count"]
  version : v.field? "version" = some (.nat r.version)
  file : v.field? "file" = some (.str r.file)
  success : v.field? "success" = some (.bool r.success)
  phase : v.field? "phase" = some (.str r.phase)
  resultType : v.field? "result_type" = r.resultType.map .str
  diagnostics : Option.Rel (Report.ListStoredIn Entry.StoredIn) (some r.diagnostics)
    (v.field? "diagnostics")
  errorCount : v.field? "error_count" = some (.nat r.errorCount)

/-! ## The value of a printed report -/

namespace Json

@[simp] theorem value_bool (b : Bool) : (bool b).value = .bool b := rfl

@[simp] theorem value_nat (n : Nat) : (nat n).value = .nat n := rfl

@[simp] theorem value_str (s : String) : (str s).value = .str s := rfl

@[simp] theorem value_comp_str : value ∘ str = .str := rfl

theorem values_eq_map (js : List Json) : values js = js.map value := by
  induction js with
  | nil => rfl
  | cons j js ih => rw [values, ih, List.map_cons]

@[simp] theorem value_arr (js : List Json) : (arr js).value = .arr (js.map value) := by
  rw [value, values_eq_map]

theorem fieldValues_eq_map (fields : List (String × Json)) :
    fieldValues fields = fields.map fun p => (p.1, p.2.value) := by
  induction fields with
  | nil => rfl
  | cons p fields ih => rw [fieldValues, ih, List.map_cons]

@[simp] theorem field?_obj (fields : List (String × Json)) (key : String) :
    (obj fields).value.field? key = (fields.lookup key).map value := by
  rw [value, Value.field?, fieldValues_eq_map]
  induction fields with
  | nil => rfl
  | cons p fields ih =>
    rw [List.map_cons, List.lookup_cons, List.lookup_cons, ih]
    cases key == p.1 <;> rfl

theorem hasKeys_obj {fields : List (String × Json)} {names : List String}
    (h : (fields.map (·.1)).Sublist names) : (obj fields).value.HasKeys names := by
  refine ⟨_, rfl, ?_⟩
  rw [fieldValues_eq_map, List.map_map]
  exact h

@[simp] theorem lookup_cons (name key : String) (j : Json) (fields : List (String × Json)) :
    ((name, j) :: fields).lookup key = if key = name then some j else fields.lookup key := by
  by_cases h : key = name
  · rw [h, List.lookup_cons_self, if_pos rfl]
  · rw [List.lookup_cons, if_neg h, beq_false_of_ne h]

end Json

namespace Report

@[simp] theorem lookup_optional (name key : String) (o : Option Json) :
    (optional name o).lookup key = if key = name then o else none := by
  cases o <;> simp [optional]

theorem map_fst_optional (key : String) (o : Option Json) :
    ((optional key o).map (·.1)).Sublist [key] := by
  cases o <;> simp [optional]

section Parts

variable {α : Type} {R : α → Value → Prop} {f : α → Json}

theorem storedIn_map (h : ∀ a, R a (f a).value) (o : Option α) :
    Option.Rel R o ((o.map f).map Json.value) := by
  cases o with
  | none => exact .none
  | some a => exact .some (h a)

theorem listStoredIn_map (h : ∀ a, R a (f a).value) (as : List α) :
    ListStoredIn R as (Json.arr (as.map f)).value := by
  refine ⟨_, Json.value_arr _, ?_⟩
  rw [List.map_map, List.forall₂_map_right_iff, List.forall₂_same]
  intro a _
  exact h a

end Parts

theorem Place.storedIn_fields (p : Place) : p.StoredIn (Json.obj p.fields).value where
  keys := Json.hasKeys_obj (.refl _)
  fields := by
    constructor <;> simp [Place.fields]

theorem Location.storedIn_json (l : Location) : l.StoredIn l.json.value where
  keys := Json.hasKeys_obj (.refl _)
  place := by
    constructor <;> simp [Location.json, Place.fields]
  sourceLine := by simp [Location.json, Place.fields]

theorem Label.storedIn_json (l : Label) : l.StoredIn l.json.value where
  keys := by
    apply Json.hasKeys_obj
    simp only [List.map_append]
    exact .append (.append (.refl _) (map_fst_optional ..)) (.refl _)
  role := by
    simp only [Label.json, Json.field?_obj]
    cases l.role <;> rfl
  message := by simp [Label.json, List.lookup_append]
  start := by simp [Label.json, List.lookup_append, Place.storedIn_fields]
  stop := by simp [Label.json, List.lookup_append, Place.storedIn_fields]

theorem Fix.storedIn_json (f : Fix) : f.StoredIn f.json.value where
  keys := Json.hasKeys_obj (.refl _)
  span := by
    refine .some ⟨Json.hasKeys_obj (.refl _), ?_, ?_⟩ <;> simp
  replacement := by simp [Fix.json]
  resultLine := by simp [Fix.json]

theorem Entry.storedIn_json (e : Entry) : e.StoredIn e.json.value where
  keys := by
    apply Json.hasKeys_obj
    simp only [List.map_append]
    exact .append (.append (.append (.append (.append (.append (.append (map_fst_optional ..)
      (map_fst_optional ..)) (.refl _)) (map_fst_optional ..)) (.refl _)) (map_fst_optional ..))
      (map_fst_optional ..)) (map_fst_optional ..)
  code := by simp [Entry.json, List.lookup_append]
  category := by simp [Entry.json, List.lookup_append]
  message := by simp [Entry.json, List.lookup_append]
  location := by
    simpa [Entry.json, List.lookup_append] using storedIn_map Location.storedIn_json e.location
  labels := by
    simpa [Entry.json, List.lookup_append] using listStoredIn_map Label.storedIn_json e.labels
  notes := by
    by_cases h : e.notes = [] <;> simp [Entry.json, List.lookup_append, h]
  help := by simp [Entry.json, List.lookup_append]
  fix := by
    simpa [Entry.json, List.lookup_append] using storedIn_map Fix.storedIn_json e.fix

theorem storedIn_json (r : Report) : r.StoredIn r.json.value where
  keys := by
    apply Json.hasKeys_obj
    simp only [List.map_append]
    exact .append (.append (.refl _) (map_fst_optional ..)) (.refl _)
  version := by simp [json]
  file := by simp [json]
  success := by simp [json]
  phase := by simp [json]
  resultType := by simp [json, List.lookup_append]
  diagnostics := by
    simpa [json, List.lookup_append] using listStoredIn_map Entry.storedIn_json r.diagnostics
  errorCount := by simp [json, List.lookup_append]

end Report

/-! ## The report of a value -/

namespace Json.Value

def bool? : Value → Option Bool
  | bool b => some b
  | _ => none

def nat? : Value → Option Nat
  | number ds => if ds.all Char.isDigit then some (Nat.ofDigitChars 10 ds 0) else none
  | _ => none

def str? : Value → Option String
  | str s => some s
  | _ => none

def list? {α : Type} (read : Value → Option α) : Value → Option (List α)
  | arr vs => vs.mapM read
  | _ => none

/-- A part that may be absent. -/
def part? {α : Type} (read : Value → Option α) : Option Value → Option (Option α)
  | none => some none
  | some v => (read v).map some

theorem nat?_nat (n : Nat) : (nat n).nat? = some n := by
  have hdigits : (Nat.toDigits 10 n).all Char.isDigit = true := by
    rw [List.all_eq_true]
    intro c hc
    exact Nat.isDigit_of_mem_toDigits (by decide) (by decide) hc
  rw [nat, nat?, if_pos hdigits, Nat.ofDigitChars_ten_toDigits]

/-- What a value holds is what is read from it. -/
def Recovers {α : Type} (read : Value → Option α) (R : α → Value → Prop) : Prop :=
  ∀ a v, R a v → read v = some a

section Recovers

variable {α : Type} {read : Value → Option α} {R : α → Value → Prop} {a : α} {o : Option α}
  {u : Option Value}

theorem Recovers.list (hread : Recovers read R) :
    Recovers (list? read) (Report.ListStoredIn R) := by
  rintro as v ⟨vs, rfl, h⟩
  rw [list?]
  induction h with
  | nil => rfl
  | cons ha _ ih => simp [hread _ _ ha, ih]

theorem Recovers.part? (hread : Recovers read R) (h : Option.Rel R o u) :
    part? read u = some o := by
  cases h with
  | none => rfl
  | some h => rw [Value.part?, hread _ _ h, Option.map_some]

theorem Recovers.bind (hread : Recovers read R) (h : Option.Rel R (some a) u) :
    u.bind read = some a := by
  cases h with
  | some h => rw [Option.bind_some, hread _ _ h]

end Recovers

theorem part?_str (o : Option String) : part? str? (o.map str) = some o := by
  cases o <;> rfl

end Json.Value

namespace Report

open Json.Value

def Place.ofValue? (v : Value) : Option Place := do
  let line ← (v.field? "line").bind nat?
  let column ← (v.field? "column").bind nat?
  let offset ← (v.field? "byte_offset").bind nat?
  return ⟨line, column, offset⟩

def Location.ofValue? (v : Value) : Option Location := do
  let place ← Place.ofValue? v
  let sourceLine ← (v.field? "source_line").bind str?
  return ⟨place, sourceLine⟩

def roleOfName? (name : String) : Option Role :=
  [Role.primary, .secondary].find? fun role => role.name == name

def Label.ofValue? (v : Value) : Option Label := do
  let name ← (v.field? "role").bind str?
  let role ← roleOfName? name
  let message ← part? str? (v.field? "message")
  let start ← (v.field? "start").bind Place.ofValue?
  let stop ← (v.field? "end").bind Place.ofValue?
  return ⟨role, message, start, stop⟩

def spanOfValue? (v : Value) : Option Span := do
  let start ← (v.field? "start").bind nat?
  let stop ← (v.field? "end").bind nat?
  return ⟨start, stop⟩

def Fix.ofValue? (v : Value) : Option Fix := do
  let span ← (v.field? "span").bind spanOfValue?
  let replacement ← (v.field? "replacement").bind str?
  let resultLine ← (v.field? "result_line").bind str?
  return ⟨span, replacement, resultLine⟩

def Entry.ofValue? (v : Value) : Option Entry := do
  let code ← part? str? (v.field? "code")
  let category ← part? str? (v.field? "category")
  let message ← (v.field? "message").bind str?
  let location ← part? Location.ofValue? (v.field? "location")
  let labels ← (v.field? "labels").bind (list? Label.ofValue?)
  let notes ← part? (list? str?) (v.field? "notes")
  let help ← part? str? (v.field? "help")
  let fix ← part? Fix.ofValue? (v.field? "suggestion")
  return ⟨code, category, message, location, labels, notes.getD [], help, fix⟩

def ofValue? (v : Value) : Option Report := do
  let version ← (v.field? "version").bind nat?
  let file ← (v.field? "file").bind str?
  let success ← (v.field? "success").bind bool?
  let phase ← (v.field? "phase").bind str?
  let resultType ← part? str? (v.field? "result_type")
  let diagnostics ← (v.field? "diagnostics").bind (list? Entry.ofValue?)
  let errorCount ← (v.field? "error_count").bind nat?
  return ⟨version, file, success, phase, resultType, diagnostics, errorCount⟩

def read? (t : Text) : Option Report := (Json.read? t).bind ofValue?

theorem Place.ofValue?_of_fieldsIn {p : Place} {v : Value} (h : p.FieldsIn v) :
    Place.ofValue? v = some p := by
  simp [Place.ofValue?, h.line, h.column, h.offset, nat?_nat]

theorem recovers_place : Recovers Place.ofValue? Place.StoredIn := by
  intro p v h
  exact Place.ofValue?_of_fieldsIn h.fields

theorem recovers_location : Recovers Location.ofValue? Location.StoredIn := by
  intro l v h
  simp [Location.ofValue?, Place.ofValue?_of_fieldsIn h.place, h.sourceLine, str?]

theorem recovers_label : Recovers Label.ofValue? Label.StoredIn := by
  intro l v h
  have hstart := recovers_place.bind h.start
  have hstop := recovers_place.bind h.stop
  have hrole : ((v.field? "role").bind str?).bind roleOfName? = some l.role := by
    rw [h.role]
    cases l.role <;> rfl
  obtain ⟨name, hname, hrole⟩ := Option.bind_eq_some_iff.1 hrole
  simp [Label.ofValue?, hname, hrole, h.message, part?_str, hstart, hstop]

theorem recovers_span : Recovers spanOfValue? SpanStoredIn := by
  intro s v h
  simp [spanOfValue?, h.start, h.stop, nat?_nat]

theorem recovers_fix : Recovers Fix.ofValue? Fix.StoredIn := by
  intro f v h
  simp [Fix.ofValue?, recovers_span.bind h.span, h.replacement, h.resultLine, str?]

/-- Notes are left out where there are none. -/
theorem part?_notes (notes : List String) :
    (part? (list? str?) (if notes = [] then none else some (.arr (notes.map .str)))).map (·.getD [])
      = some notes := by
  have hstr : Recovers str? fun s v => v = .str s := by
    rintro s v rfl
    rfl
  have hlist := hstr.list notes (.arr (notes.map .str))
    ⟨_, rfl, List.forall₂_map_right_iff.2 (List.forall₂_same.2 fun _ _ => rfl)⟩
  split
  · simp_all [part?]
  · simp [part?, hlist]

theorem recovers_entry : Recovers Entry.ofValue? Entry.StoredIn := by
  intro e v h
  have hlocation := recovers_location.part? h.location
  have hlabels := recovers_label.list.bind h.labels
  have hfix := recovers_fix.part? h.fix
  have hnotes := part?_notes e.notes
  rw [← h.notes] at hnotes
  obtain ⟨notes, hpart, hnotes⟩ := Option.map_eq_some_iff.1 hnotes
  simp [Entry.ofValue?, h.code, h.category, h.message, h.help, part?_str, str?, hlocation, hlabels,
    hfix, hpart, hnotes]

theorem recovers_report : Recovers ofValue? StoredIn := by
  intro r v h
  have hdiagnostics := recovers_entry.list.bind h.diagnostics
  simp [ofValue?, h.version, h.file, h.success, h.phase, h.resultType, h.errorCount, nat?_nat,
    part?_str, str?, bool?, hdiagnostics]

theorem StoredIn.unique {r r' : Report} {v : Value} (h : r.StoredIn v) (h' : r'.StoredIn v) :
    r = r' :=
  Option.some.inj ((recovers_report r v h).symm.trans (recovers_report r' v h'))

theorem item_render (r : Report) : Json.Item r.json.value r.render := by
  simpa [render] using Json.Item.mk Json.spaces_nil (Json.written_pretty 0 r.json) Json.spaces_nil

/-- The text of a report is well-formed JSON, of one value only. This value holds the report part by
part, and it holds no other one. So the report can be read from its text, and two reports with the
same text are equal. -/
theorem render_loses_nothing (r : Report) :
    (∃ v, Json.Item v r.render ∧ (∀ v', Json.Item v' r.render → v' = v) ∧
      ∀ r' : Report, r'.StoredIn v ↔ r' = r) ∧
      read? r.render = some r ∧ ∀ r' : Report, r'.render = r.render → r' = r := by
  have hread (r : Report) : read? r.render = some r := by
    rw [read?, (item_render r).read?_eq, Option.bind_some, recovers_report _ _ (storedIn_json r)]
  refine ⟨⟨r.json.value, item_render r, ?_, ?_⟩, hread r, ?_⟩
  · intro v' hv'
    exact hv'.unique (item_render r)
  · intro r'
    constructor
    · intro hr'
      exact hr'.unique (storedIn_json r)
    · rintro rfl
      exact storedIn_json r'
  · intro r' htext
    have hsame := hread r'
    rw [htext, hread r] at hsame
    exact (Option.some.inj hsame).symm

end Report

end ArrowLang
