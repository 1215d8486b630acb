import SqlRender.Query.Call
import SqlRender.Query.Clause
import SqlRender.Query.Comparison

/-!
# Queries

A query is one statement on one table. Its conditions form a tree: a junction holds further
conditions, and the operand of a predicate may be a whole query again.
-/
namespace SqlRender

mutual

/-- The right-hand side of a predicate. -/
inductive Operand where
  | placeholders (count : UInt64)
  | column (column : Column)
  | subquery (query : Query)
  | verbatim (sql : String)
  | absent

/-- One comparison of a column with an operand. -/
structure Predicate where
  column : Column
  comparison : Comparison
  operand : Operand

/-- Conditions joined by one connective. -/
structure Junction where
  connective : Connective
  members : List Condition

/-- A node of a tree of conditions. -/
inductive Condition where
  | predicate (predicate : Predicate)
  | junction (junction : Junction)

/-- A statement with all its clauses; a clause that is not used is empty. -/
structure Query where
  verb : Verb
  table : String
  distinct : Bool
  columns : List Column
  calls : List Call
  joins : List Join
  conditions : List Condition
  groupings : List Grouping
  sortKeys : List SortKey
  limit : Option UInt64
  offset : Option UInt64

end

end SqlRender
