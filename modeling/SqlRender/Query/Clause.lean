import SqlRender.Query.Column

/-!
# Statement kinds and clauses

The kinds of statement, and the clauses of a statement that hold no predicates: joins, groupings and
sort keys. A clause with a `verbatim` alternative carries SQL text of the caller as it is.
-/
namespace SqlRender

/-- What a statement does. -/
inductive Verb where
  | select
  | insert
  | update
  | delete
deriving DecidableEq, Inhabited

def Verb.keyword : Verb → String
  | .select => "SELECT"
  | .insert => "INSERT INTO"
  | .update => "UPDATE"
  | .delete => "DELETE FROM"

/-- How a join treats rows without a partner. -/
inductive JoinMethod where
  | inner
  | left
  | right
  | outer
  | verbatim (sql : String)
deriving DecidableEq, Inhabited

def JoinMethod.keyword : JoinMethod → String
  | .inner => "JOIN"
  | .left => "LEFT JOIN"
  | .right => "RIGHT JOIN"
  | .outer => "FULL OUTER JOIN"
  | .verbatim sql => sql ++ " JOIN"

/-- A join of the table of `foreign` on the equality of two columns. -/
structure Join where
  method : JoinMethod := .inner
  own : Column
  foreign : Column
deriving DecidableEq, Inhabited

/-- One entry of a `GROUP BY` clause. -/
inductive Grouping where
  | column (column : Column)
  | verbatim (sql : String)
deriving DecidableEq, Inhabited

/-- The direction of a sort. -/
inductive Direction where
  | ascending
  | descending
  | verbatim (sql : String)
deriving DecidableEq, Inhabited

def Direction.keyword : Direction → String
  | .ascending => "ASC"
  | .descending => "DESC"
  | .verbatim sql => sql

/-- One entry of an `ORDER BY` clause. -/
structure SortKey where
  column : Column
  direction : Direction := .ascending
deriving DecidableEq, Inhabited

end SqlRender
