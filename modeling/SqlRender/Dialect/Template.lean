import SqlRender.Dialect

/-!
# Dialects from templates

A dialect described by data: its quote character or a pair of brackets, a template for placeholders,
and other spellings for some operators.
-/
namespace SqlRender.Dialect

/-- The data that describe a dialect. -/
structure Template where
  quote : Char := '\x60'
  brackets : Bool := false
  placeholder : String := "?"
  style : PlaceholderStyle := .positional
  operators : List (String × String) := []

namespace Template

/-- A placeholder from its template: the position is filled in first, and then the name. -/
def fill (template : String) (b : Bind) : String :=
  (template.replace "\x7bposition\x7d" b.position.repr).replace "\x7bname\x7d" b.name

def spelling (operators : List (String × String)) (c : Comparison) : String :=
  (operators.lookup c.keyword).getD c.keyword

def dialect (t : Template) : Dialect where
  name := "custom"
  quote := t.quote
  style := t.style
  escape := if t.brackets then fun name => "[" ++ name ++ "]" else Text.quoted t.quote
  placeholder := fill t.placeholder
  operator := spelling t.operators

end Template

end SqlRender.Dialect
