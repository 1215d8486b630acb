import SqlRender.Render.Name
import SqlRender.Text.Blank
import SqlRender.Query.Basic

/-!
# Clauses

The text of the clauses that hold no conditions, and the check that a statement carries no clause
that its kind does not have.
-/
namespace SqlRender

/-- The join on the table of the foreign column, which must be qualified. -/
def Join.render (d : Dialect) (j : Join) : Except Defect String := do
  match j.foreign.table with
  | none => throw (.unqualifiedJoin j.foreign.name)
  | some table =>
    if let .verbatim sql := j.method then
      if Text.isBlank sql then throw (.blankVerbatim .joinMethod)
    let table ← d.spell .table table
    let own ← j.own.render d
    let foreign ← j.foreign.render d
    return j.method.keyword ++ " " ++ table ++ " ON " ++ own ++ " = " ++ foreign

def Grouping.render (d : Dialect) : Grouping → Except Defect String
  | .column c => c.render d
  | .verbatim sql => if Text.isBlank sql then throw (.blankVerbatim .groupBy) else return sql

/-- The column and the direction; an empty direction leaves the column alone. -/
def SortKey.render (d : Dialect) (k : SortKey) : Except Defect String := do
  let column ← k.column.render d
  let direction := k.direction.keyword
  return if direction.isEmpty then column else column ++ " " ++ direction

namespace Query

def uses (q : Query) : Part → Bool
  | .distinct => q.distinct
  | .computed => !q.calls.isEmpty
  | .join => !q.joins.isEmpty
  | .groupBy => !q.groupings.isEmpty
  | .orderBy => !q.sortKeys.isEmpty
  | .limit => q.limit.isSome
  | .offset => q.offset.isSome
  | .filter => !q.conditions.isEmpty
  | .columnList => !q.columns.isEmpty

end Query

def Part.selectOnly : List Part :=
  [.distinct, .computed, .join, .groupBy, .orderBy, .limit, .offset]

/-- The parts that a statement of the kind cannot carry, in the order in which they are looked for.
-/
def Verb.unsupported : Verb → List Part
  | .select => []
  | .insert => Part.selectOnly ++ [.filter]
  | .update => Part.selectOnly
  | .delete => Part.selectOnly ++ [.columnList]

def Verb.writesColumns : Verb → Bool
  | .insert | .update => true
  | .select | .delete => false

namespace Query

/-- Refuses a part that the statement cannot carry, and then a missing column list. -/
def checkParts (q : Query) : Except Defect Unit :=
  match q.verb.unsupported.find? q.uses with
  | some part => throw (.unsupported q.verb part)
  | none => if q.verb.writesColumns && q.columns.isEmpty then throw (.noColumns q.verb) else return

/-- The columns and the computed columns to read. Without any it is the wildcard, which joins narrow
to the table of the statement. -/
def projection (d : Dialect) (q : Query) (table : String) : Except Defect String := do
  let columns ← q.columns.mapM (Column.render d)
  let calls ← q.calls.mapM (Call.render d)
  return match columns ++ calls with
    | [] => if q.joins.isEmpty then "*" else table ++ ".*"
    | entries => ", ".intercalate entries

def tail (d : Dialect) (q : Query) : Except Defect (List String) := do
  let groupings ← q.groupings.mapM (Grouping.render d)
  let sortKeys ← q.sortKeys.mapM (SortKey.render d)
  return listed "GROUP BY " groupings ++ listed "ORDER BY " sortKeys ++
    counted "LIMIT " q.limit ++ counted "OFFSET " q.offset
where
  listed (words : String) : List String → List String
    | [] => []
    | entries => [words ++ ", ".intercalate entries]
  counted (words : String) : Option UInt64 → List String
    | none => []
    | some n => [words ++ n.toNat.repr]

end Query

end SqlRender
