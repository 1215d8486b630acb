import SqlRender.Render.Clause

/-!
# Statements

A statement is written from left to right. Each placeholder takes the next free slot, so a writer is
a function that may fail and that extends the binds given out so far. Predicates, junctions,
subqueries and statements share the one list of binds.
-/
namespace SqlRender

/-- A step of writing: it may add binds, and it may end with a defect. -/
abbrev Writer := StateT (Array Bind) (Except Defect)

/-- The placeholder of the next free slot, which gets the name. -/
def Dialect.slot (d : Dialect) (name : String) : Writer String :=
  modifyGet fun binds =>
    let bind := ⟨name, binds.size + 1⟩
    (d.placeholder bind, binds.push bind)

def Dialect.slots (d : Dialect) (name : String) : Nat → Writer (List String)
  | 0 => return []
  | n + 1 => return (← d.slot name) :: (← d.slots name n)

/-- The placeholders for one value: the bounds of a `BETWEEN`, or a single one. -/
def Dialect.valueSlots (d : Dialect) (name : String) : Comparison → Writer String
  | .between => return (← d.slot (name ++ ".min")) ++ " AND " ++ (← d.slot (name ++ ".max"))
  | _ => d.slot name

def Dialect.operandSlots (d : Dialect) (column : String) (comparison : Comparison)
    (count : UInt64) : Writer String := do
  if count = 0 then throw (.emptyPlaceholderList column)
  if maxPlaceholders < count then throw (.tooManyPlaceholders column count)
  if count = 1 then d.valueSlots column comparison
  else
    if comparison = .between then throw (.betweenArity column count)
    return "(" ++ ", ".intercalate (← d.slots column count.toNat) ++ ")"

/-- Members in parentheses, joined by the connective. Both are checked before a member is written.
-/
def Connective.enclose (connective : Connective) (members : List Condition)
    (texts : Writer (List String)) : Writer String := do
  if members.isEmpty then throw .emptyJunction
  if Text.isBlank connective.keyword then throw .blankConnective
  return "(" ++ (" " ++ connective.keyword ++ " ").intercalate (← texts) ++ ")"

namespace Query

/-- Each written column takes one slot. -/
def writtenColumns (d : Dialect) : List Column → Writer (List (String × String))
  | [] => return []
  | c :: cs => do
    let name ← d.spell .column c.name
    let value ← d.slot c.name
    return (name, value) :: (← writtenColumns d cs)

def opening (d : Dialect) (q : Query) : Writer (List String) := do
  let table ← d.spell .table q.table
  match q.verb with
  | .select =>
    let projection ← q.projection d table
    let words := if q.distinct then ["DISTINCT", projection] else [projection]
    return q.verb.keyword :: words ++ ["FROM " ++ table]
  | .insert =>
    let (names, values) := (← writtenColumns d q.columns).unzip
    return [q.verb.keyword, table, "(" ++ ", ".intercalate names ++ ")", "VALUES",
      "(" ++ ", ".intercalate values ++ ")"]
  | .update =>
    let written ← writtenColumns d q.columns
    let assignments := written.map fun (name, value) => name ++ " = " ++ value
    return [q.verb.keyword, table, "SET", ", ".intercalate assignments]
  | .delete => return [q.verb.keyword, table]

end Query

mutual

/-- The operand of a predicate on the column; an empty verbatim text counts as absent. -/
def Operand.write (d : Dialect) (column : String) (comparison : Comparison) :
    Operand → Writer (List String)
  | .placeholders count => return [← d.operandSlots column comparison count]
  | .column c => return [← c.render d]
  | .subquery q => do
    if q.verb ≠ .select then throw (.subqueryVerb q.verb)
    return ["(" ++ (← Query.write d q) ++ ")"]
  | .verbatim sql => return if sql.isEmpty then [] else [sql]
  | .absent => return []

/-- The column, the operator and the operand, each part left out if it is empty. -/
def Predicate.write (d : Dialect) : Predicate → Writer String
  | ⟨column, comparison, operand⟩ => do
    let name ← column.render d
    let operator := d.operator comparison
    let operands ←
      if comparison.isNullCheck then pure [] else Operand.write d column.name comparison operand
    return " ".intercalate (name :: (if operator.isEmpty then [] else [operator]) ++ operands)

def Junction.write (d : Dialect) : Junction → Writer String
  | ⟨connective, members⟩ => connective.enclose members (Condition.writeAll d members)

def Condition.write (d : Dialect) : Condition → Writer String
  | .predicate p => Predicate.write d p
  | .junction j => Junction.write d j

def Condition.writeAll (d : Dialect) : List Condition → Writer (List String)
  | [] => return []
  | c :: cs => return (← Condition.write d c) :: (← Condition.writeAll d cs)

/-- The statement; its conditions are the members of one conjunction. -/
def Query.write (d : Dialect) : Query → Writer String
  | q@⟨_, _, _, _, _, _, conditions, _, _, _, _⟩ => do
    q.checkParts
    let opening ← q.opening d
    let joins ← q.joins.mapM fun j => (j.render d : Writer String)
    let filter ←
      if conditions.isEmpty then pure []
      else pure ["WHERE", ← Connective.and.enclose conditions (Condition.writeAll d conditions)]
    let tail ← q.tail d
    return " ".intercalate (opening ++ joins ++ filter ++ tail)

end

/-- A statement with its binds in the order of their placeholders. -/
structure Rendered where
  sql : String
  binds : List Bind
deriving DecidableEq

def Writer.rendered (w : Writer String) : Except Defect Rendered :=
  (w.run #[]).map fun (sql, binds) => ⟨sql, binds.toList⟩

/-- The whole statement in the dialect. -/
def Query.render (d : Dialect) (q : Query) : Except Defect Rendered := (q.write d).rendered

end SqlRender
