import SqlRender.Defect
import SqlRender.Dialect
import SqlRender.Query.Call

/-!
# Names, columns and calls

The text of an identifier, of a column reference and of a computed column. None of them has a slot
for a value, so they are plain functions of the dialect.
-/
namespace SqlRender

/-- The spelling of an identifier, which must have at least one character. -/
def Dialect.spell (d : Dialect) (kind : NameKind) (name : String) : Except Defect String :=
  if name.isEmpty then throw (.emptyName kind) else return d.escape name

/-- The column, after its table and a dot if it is qualified. An empty name is found before an empty
table. -/
def Column.render (d : Dialect) (c : Column) : Except Defect String := do
  let name ← d.spell .column c.name
  match c.table with
  | none => return name
  | some table => return (← d.spell .table table) ++ "." ++ name

mutual

def Call.renderBody (d : Dialect) : Call → Except Defect String
  | ⟨function, arguments, _⟩ => do
    if function.isEmpty then throw (.emptyName .function)
    return function ++ "(" ++ ", ".intercalate (← Argument.renderAll d arguments) ++ ")"

/-- One argument; a nested call is written without its label. -/
def Argument.render (d : Dialect) : Argument → Except Defect String
  | .column c => c.render d
  | .call c => Call.renderBody d c
  | .wildcard => return "*"

def Argument.renderAll (d : Dialect) : List Argument → Except Defect (List String)
  | [] => return []
  | a :: as => return (← Argument.render d a) :: (← Argument.renderAll d as)

end

def Call.render (d : Dialect) (c : Call) : Except Defect String := do
  let body ← c.renderBody d
  match c.label with
  | none => return body
  | some label => return body ++ " AS " ++ (← d.spell .label label)

end SqlRender
