import SqlRender.Render.Statement

/-!
# Log events

What is reported while a statement is rendered. An event is a value, so that a caller may show it,
drop it, or compare it.
-/
namespace SqlRender

/-- How important an event is. -/
inductive Level where
  | trace
  | debug
deriving DecidableEq

def Level.word : Level → String
  | trace => "TRACE"
  | debug => "DEBUG"

/-- The value of a field: a fixed name, a text, or a number. -/
inductive FieldValue where
  | name (s : String)
  | text (s : String)
  | count (n : Nat)
deriving DecidableEq

/-- The value as a line of the log shows it; only names stand between quotes. -/
def FieldValue.shown : FieldValue → String
  | name s => "\"" ++ s ++ "\""
  | text s => s
  | count n => n.repr

/-- One report. -/
structure Event where
  level : Level
  message : String
  fields : List (String × FieldValue)
deriving DecidableEq

def Event.line (e : Event) : String :=
  let fields := e.fields.map fun (key, value) => key ++ "=" ++ value.shown
  " ".intercalate (e.level.word :: e.message :: fields)

/-- The event that reports the outcome of rendering the query. -/
def Query.event (d : Dialect) (q : Query) : Event :=
  let subject :=
    [("dialect", .name d.name), ("statement", .text q.verb.keyword), ("table", .text q.table)]
  match q.render d with
  | .ok r => ⟨.trace, "serialized statement", subject ++ [("binds", .count r.binds.length)]⟩
  | .error e => ⟨.debug, "rejected statement", subject ++ [("error", .text e.message)]⟩

end SqlRender
