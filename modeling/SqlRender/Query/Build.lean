import SqlRender.Query.Basic

/-!
# Building queries

Constructors for the usual predicates, junctions and statements. Each chaining function of a query
sets one clause or puts one entry at the end of a clause, and leaves the others alone.
-/
namespace SqlRender

def Operand.placeholder : Operand := .placeholders 1

namespace Predicate

def placeholder (column : Column) (comparison : Comparison) : Predicate :=
  ⟨column, comparison, .placeholder⟩

def inList (column : Column) (count : UInt64) : Predicate := ⟨column, .isIn, .placeholders count⟩

def between (column : Column) : Predicate := placeholder column .between

def isNull (column : Column) : Predicate := ⟨column, .isNull, .absent⟩

def isNotNull (column : Column) : Predicate := ⟨column, .isNotNull, .absent⟩

end Predicate

namespace Condition

def all (members : List Condition) : Condition := .junction ⟨.and, members⟩

def any (members : List Condition) : Condition := .junction ⟨.or, members⟩

end Condition

namespace Query

/-- The statement of kind `verb` on `table` with no clauses. -/
def on (verb : Verb) (table : String) : Query :=
  ⟨verb, table, false, [], [], [], [], [], [], none, none⟩

def select (table : String) : Query := on .select table
def insert (table : String) : Query := on .insert table
def update (table : String) : Query := on .update table
def delete (table : String) : Query := on .delete table

def withDistinct (q : Query) : Query := { q with distinct := true }

def column (q : Query) (c : Column) : Query := { q with columns := q.columns ++ [c] }

def computed (q : Query) (c : Call) : Query := { q with calls := q.calls ++ [c] }

def join (q : Query) (j : Join) : Query := { q with joins := q.joins ++ [j] }

/-- One more condition that the rows must meet. -/
def filter (q : Query) (c : Condition) : Query := { q with conditions := q.conditions ++ [c] }

def groupBy (q : Query) (g : Grouping) : Query := { q with groupings := q.groupings ++ [g] }

def orderBy (q : Query) (k : SortKey) : Query := { q with sortKeys := q.sortKeys ++ [k] }

def withLimit (q : Query) (n : UInt64) : Query := { q with limit := some n }

def withOffset (q : Query) (n : UInt64) : Query := { q with offset := some n }

end Query

end SqlRender
