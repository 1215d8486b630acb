/-!
# Columns

A column reference names a column, qualified by its table where that is needed.
-/
namespace SqlRender

/-- A reference to a column; `table` is present when the reference is qualified. -/
structure Column where
  table : Option String := none
  name : String
deriving DecidableEq, Inhabited

namespace Column

def bare (name : String) : Column := { name }

def qualified (table name : String) : Column := { table := some table, name }

end Column

end SqlRender
