/-!
# Comparisons and connectives

The operators between the two sides of a predicate, and the words between the members of a junction.
-/
namespace SqlRender

/-- The operator of a predicate; `bare` writes none. -/
inductive Comparison where
  | equal
  | notEqual
  | less
  | greater
  | lessOrEqual
  | greaterOrEqual
  | isIn
  | notIn
  | between
  | like
  | notLike
  | isNull
  | isNotNull
  | bare
  | verbatim (sql : String)
deriving DecidableEq, Inhabited

namespace Comparison

def keyword : Comparison → String
  | equal => "="
  | notEqual => "!="
  | less => "<"
  | greater => ">"
  | lessOrEqual => "<="
  | greaterOrEqual => ">="
  | isIn => "IN"
  | notIn => "NOT IN"
  | between => "BETWEEN"
  | like => "LIKE"
  | notLike => "NOT LIKE"
  | isNull => "IS NULL"
  | isNotNull => "IS NOT NULL"
  | bare => ""
  | verbatim sql => sql

/-- A null check takes no operand; one that is given is neither written nor looked at. -/
def isNullCheck : Comparison → Bool
  | isNull | isNotNull => true
  | _ => false

end Comparison

/-- What joins the members of a junction. -/
inductive Connective where
  | and
  | or
  | verbatim (sql : String)
deriving DecidableEq, Inhabited

def Connective.keyword : Connective → String
  | .and => "AND"
  | .or => "OR"
  | .verbatim sql => sql

end SqlRender
