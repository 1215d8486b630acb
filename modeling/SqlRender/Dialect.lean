import SqlRender.Query.Comparison
import SqlRender.Text.Quoted

/-!
# Dialects

Databases disagree on how identifiers are quoted, how placeholders are written and how an operator
is spelled. A dialect answers these questions and no others; statements are assembled in one way for
all dialects.
-/
namespace SqlRender

/-- One slot of a statement for a value, numbered from 1 in the order of the text. -/
structure Bind where
  name : String
  position : Nat
deriving DecidableEq

/-- How placeholders refer to their slots. -/
inductive PlaceholderStyle where
  | positional
  | numbered
  | named
deriving DecidableEq

def PlaceholderStyle.word : PlaceholderStyle → String
  | positional => "positional"
  | numbered => "numbered"
  | named => "named"

/-- The spelling of identifiers, placeholders and operators. -/
structure Dialect where
  name : String
  quote : Char := '\x60'
  style : PlaceholderStyle := .positional
  escape : String → String := Text.quoted quote
  placeholder : Bind → String := fun _ => "?"
  operator : Comparison → String := Comparison.keyword

namespace Dialect

/-- Every hook at its default: names between backticks and the placeholder `?`. -/
def general : Dialect := { name := "general" }

/-- Names between double quotes and the placeholders `$1`, `$2` and so on. -/
def postgres : Dialect where
  name := "postgresql"
  quote := '"'
  style := .numbered
  placeholder b := "$" ++ b.position.repr

/-- Names between double quotes and the placeholders `?1`, `?2` and so on. -/
def sqlite : Dialect where
  name := "sqlite"
  quote := '"'
  style := .numbered
  placeholder b := "?" ++ b.position.repr

end Dialect

end SqlRender
