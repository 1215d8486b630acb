import SqlRender.Render.Statement

/-!
# Parts that are never written

Some parts of a query do not reach its text: the operand of a null check, the label of a call that
is an argument, the table of a written column, and the connective of a single member. An empty
verbatim operand writes no more than an absent one. Erasing these parts gives all queries that
differ in nothing else one form.
-/
namespace SqlRender

mutual

def Call.unlabelled : Call → Call
  | ⟨function, arguments, _⟩ => ⟨function, Argument.eraseAll arguments, none⟩

def Argument.erase : Argument → Argument
  | .column c => .column c
  | .call c => .call (Call.unlabelled c)
  | .wildcard => .wildcard

def Argument.eraseAll : List Argument → List Argument
  | [] => []
  | a :: as => Argument.erase a :: Argument.eraseAll as

end

/-- The outermost label stays. -/
def Call.erase (c : Call) : Call := { c.unlabelled with label := c.label }

/-- The connective of so many members; a blank one is reported and stays. -/
def Connective.erase (k : Connective) (members : List Condition) : Connective :=
  if members.length = 1 ∧ !Text.isBlank k.keyword then .and else k

def Verb.eraseColumns (v : Verb) (columns : List Column) : List Column :=
  if v.writesColumns then columns.map fun c => .bare c.name else columns

mutual

def Operand.erase : Operand → Operand
  | .subquery q => .subquery (Query.erase q)
  | .verbatim sql => if sql.isEmpty then .absent else .verbatim sql
  | .placeholders count => .placeholders count
  | .column c => .column c
  | .absent => .absent

def Predicate.erase : Predicate → Predicate
  | ⟨column, comparison, operand⟩ =>
    ⟨column, comparison, if comparison.isNullCheck then .absent else Operand.erase operand⟩

def Junction.erase : Junction → Junction
  | ⟨connective, members⟩ => ⟨connective.erase members, Condition.eraseAll members⟩

def Condition.erase : Condition → Condition
  | .predicate p => .predicate (Predicate.erase p)
  | .junction j => .junction (Junction.erase j)

def Condition.eraseAll : List Condition → List Condition
  | [] => []
  | c :: cs => Condition.erase c :: Condition.eraseAll cs

/-- The query without the parts that are never written, at every depth. -/
def Query.erase : Query → Query
  | ⟨verb, table, distinct, columns, calls, joins, conditions, groupings, sortKeys, limit,
      offset⟩ =>
    ⟨verb, table, distinct, verb.eraseColumns columns, calls.map Call.erase, joins,
      Condition.eraseAll conditions, groupings, sortKeys, limit, offset⟩

end

theorem Argument.eraseAll_eq_map (as : List Argument) :
    Argument.eraseAll as = as.map Argument.erase := by
  induction as with
  | nil => rfl
  | cons a as ih => rw [Argument.eraseAll, ih, List.map_cons]

theorem Condition.eraseAll_eq_map (cs : List Condition) :
    Condition.eraseAll cs = cs.map Condition.erase := by
  induction cs with
  | nil => rfl
  | cons c cs ih => rw [Condition.eraseAll, ih, List.map_cons]

end SqlRender
