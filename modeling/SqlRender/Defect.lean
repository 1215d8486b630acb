import SqlRender.Query.Clause

/-!
# Defects

What can be wrong with a query. A defect names the offending part; `Defect.message` says it in
words.
-/
namespace SqlRender

/-- What an identifier stands for. -/
inductive NameKind where
  | table
  | column
  | label
  | function
deriving DecidableEq

def NameKind.word : NameKind → String
  | table => "table"
  | column => "column"
  | label => "alias"
  | function => "function"

/-- The parts of a statement that not every kind of statement can carry. -/
inductive Part where
  | distinct
  | computed
  | join
  | groupBy
  | orderBy
  | limit
  | offset
  | filter
  | columnList
deriving DecidableEq

def Part.words : Part → String
  | distinct => "DISTINCT"
  | computed => "computed columns"
  | join => "JOIN"
  | groupBy => "GROUP BY"
  | orderBy => "ORDER BY"
  | limit => "LIMIT"
  | offset => "OFFSET"
  | filter => "WHERE"
  | columnList => "a column list"

/-- The clauses whose verbatim text must not be blank. -/
inductive VerbatimClause where
  | joinMethod
  | groupBy
deriving DecidableEq

def VerbatimClause.words : VerbatimClause → String
  | joinMethod => "JOIN method"
  | groupBy => "GROUP BY"

/-- Why a query cannot be rendered. -/
inductive Defect where
  | emptyName (kind : NameKind)
  | emptyPlaceholderList (column : String)
  | emptyJunction
  | blankConnective
  | betweenArity (column : String) (count : UInt64)
  | unqualifiedJoin (column : String)
  | noColumns (verb : Verb)
  | blankVerbatim (clause : VerbatimClause)
  | tooManyPlaceholders (column : String) (count : UInt64)
  | subqueryVerb (verb : Verb)
  | unsupported (verb : Verb) (part : Part)
deriving DecidableEq

/-- The largest number of placeholders that one predicate may ask for. -/
def maxPlaceholders : UInt64 := 32766

def Defect.message : Defect → String
  | emptyName kind => s!"empty {kind.word} name"
  | emptyPlaceholderList column => s!"predicate on '{column}' has an empty placeholder list"
  | emptyJunction => "predicate group has no members"
  | blankConnective => "custom predicate group relation is empty"
  | betweenArity column count =>
    s!"BETWEEN on '{column}' takes exactly one placeholder pair, got {count.toNat}"
  | unqualifiedJoin column => s!"join on '{column}' has no foreign table"
  | noColumns verb => s!"{verb.keyword} requires at least one column"
  | blankVerbatim clause => s!"custom {clause.words} is empty"
  | tooManyPlaceholders column count =>
    s!"predicate on '{column}' asks for {count.toNat} placeholders, " ++
      s!"at most {maxPlaceholders.toNat} allowed"
  | subqueryVerb verb => s!"subquery must be a SELECT, got {verb.keyword}"
  | unsupported verb part => s!"{verb.keyword} does not support {part.words}"

end SqlRender
