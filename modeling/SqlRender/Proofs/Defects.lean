import SqlRender.Render.Statement

/-!
# The defects of a query

All that is wrong with a query and with each of its parts, in the order in which a writer comes upon
it. Rendering ends with the first defect of the list.
-/
namespace SqlRender

def Defect.when (condition : Prop) [Decidable condition] (defect : Defect) : List Defect :=
  if condition then [defect] else []

def NameKind.defects (kind : NameKind) (name : String) : List Defect :=
  Defect.when name.isEmpty (.emptyName kind)

/-- The name is looked at before the table. -/
def Column.defects (c : Column) : List Defect :=
  NameKind.column.defects c.name ++ c.table.toList.flatMap NameKind.table.defects

mutual

def Call.defectsBody : Call → List Defect
  | ⟨function, arguments, _⟩ => NameKind.function.defects function ++ Argument.defectsAll arguments

def Argument.defects : Argument → List Defect
  | .column c => c.defects
  | .call c => Call.defectsBody c
  | .wildcard => []

def Argument.defectsAll : List Argument → List Defect
  | [] => []
  | a :: as => Argument.defects a ++ Argument.defectsAll as

end

/-- Only the outermost label of a call is looked at. -/
def Call.defects (c : Call) : List Defect :=
  c.defectsBody ++ c.label.toList.flatMap NameKind.label.defects

def VerbatimClause.defects (clause : VerbatimClause) (sql : String) : List Defect :=
  Defect.when (Text.isBlank sql) (.blankVerbatim clause)

def JoinMethod.defects : JoinMethod → List Defect
  | .verbatim sql => VerbatimClause.joinMethod.defects sql
  | _ => []

def Join.defects (j : Join) : List Defect :=
  match j.foreign.table with
  | none => [.unqualifiedJoin j.foreign.name]
  | some table =>
    j.method.defects ++ NameKind.table.defects table ++ j.own.defects ++ j.foreign.defects

def Grouping.defects : Grouping → List Defect
  | .column c => c.defects
  | .verbatim sql => VerbatimClause.groupBy.defects sql

def SortKey.defects (k : SortKey) : List Defect := k.column.defects

namespace Query

/-- The parts that the statement cannot carry, and then a missing column list. -/
def partDefects (q : Query) : List Defect :=
  (q.verb.unsupported.filter q.uses).map (.unsupported q.verb) ++
    Defect.when (q.verb.writesColumns && q.columns.isEmpty) (.noColumns q.verb)

theorem not_uses_of_partDefects {q : Query} (h : q.partDefects = []) {part : Part}
    (hp : part ∈ q.verb.unsupported) : q.uses part = false := by
  have hf : q.verb.unsupported.filter q.uses = [] := by
    simpa using (List.append_eq_nil_iff.1 h).1
  simpa using List.filter_eq_nil_iff.1 hf part hp

/-- A statement of another kind has none of the clauses that belong to a `SELECT`. -/
theorem selectOnly_of_partDefects {q : Query} (h : q.partDefects = []) (hv : q.verb ≠ .select) :
    q.distinct = false ∧ q.calls = [] ∧ q.joins = [] ∧ q.groupings = [] ∧ q.sortKeys = [] ∧
      q.limit = none ∧ q.offset = none := by
  have hu : ∀ part ∈ Part.selectOnly, q.uses part = false := by
    intro part hp
    apply not_uses_of_partDefects h
    cases hq : q.verb with
    | select => exact absurd hq hv
    | insert => exact List.mem_append_left _ hp
    | update => exact hp
    | delete => exact List.mem_append_left _ hp
  simpa [Part.selectOnly, uses] using hu

theorem conditions_of_partDefects {q : Query} (h : q.partDefects = []) (hv : q.verb = .insert) :
    q.conditions = [] := by
  have hu := not_uses_of_partDefects h (show Part.filter ∈ _ by rw [hv]; decide)
  simpa [uses] using hu

theorem columns_of_partDefects {q : Query} (h : q.partDefects = []) (hv : q.verb = .delete) :
    q.columns = [] := by
  have hu := not_uses_of_partDefects h (show Part.columnList ∈ _ by rw [hv]; decide)
  simpa [uses] using hu

def columnDefects (q : Query) : List Defect :=
  match q.verb with
  | .select => q.columns.flatMap Column.defects ++ q.calls.flatMap Call.defects
  | .insert | .update => q.columns.flatMap fun c => NameKind.column.defects c.name
  | .delete => []

def tailDefects (q : Query) : List Defect :=
  q.groupings.flatMap Grouping.defects ++ q.sortKeys.flatMap SortKey.defects

end Query

/-- The members of a junction are looked at after the junction itself. -/
def Connective.defects (k : Connective) (members : List Condition) : List Defect :=
  Defect.when members.isEmpty .emptyJunction ++
    Defect.when (Text.isBlank k.keyword) .blankConnective

mutual

def Operand.defects (column : String) (comparison : Comparison) : Operand → List Defect
  | .placeholders count =>
    Defect.when (count = 0) (.emptyPlaceholderList column) ++
      Defect.when (maxPlaceholders < count) (.tooManyPlaceholders column count) ++
      Defect.when (count ≠ 1 ∧ comparison = .between) (.betweenArity column count)
  | .column c => c.defects
  | .subquery q => Defect.when (q.verb ≠ .select) (.subqueryVerb q.verb) ++ Query.defects q
  | .verbatim _ | .absent => []

/-- The operand of a null check is not looked at. -/
def Predicate.defects : Predicate → List Defect
  | ⟨column, comparison, operand⟩ =>
    column.defects ++
      if comparison.isNullCheck then [] else Operand.defects column.name comparison operand

def Junction.defects : Junction → List Defect
  | ⟨connective, members⟩ => connective.defects members ++ Condition.defectsAll members

def Condition.defects : Condition → List Defect
  | .predicate p => Predicate.defects p
  | .junction j => Junction.defects j

def Condition.defectsAll : List Condition → List Defect
  | [] => []
  | c :: cs => Condition.defects c ++ Condition.defectsAll cs

def Query.defects : Query → List Defect
  | q@⟨_, table, _, _, _, joins, conditions, _, _, _, _⟩ =>
    q.partDefects ++ NameKind.table.defects table ++ q.columnDefects ++
      joins.flatMap Join.defects ++ Condition.defectsAll conditions ++ q.tailDefects

end

theorem Query.partDefects_of_defects {q : Query} (h : q.defects = []) : q.partDefects = [] := by
  cases q
  simp only [Query.defects, List.append_eq_nil_iff] at h
  exact h.1.1.1.1.1

theorem Query.joins_of_defects {q : Query} (h : q.defects = []) :
    ∀ j ∈ q.joins, j.defects = [] := by
  cases q
  simp only [Query.defects, List.append_eq_nil_iff, List.flatMap_eq_nil_iff] at h
  exact h.1.1.2

theorem Query.conditions_of_defects {q : Query} (h : q.defects = []) :
    Condition.defectsAll q.conditions = [] := by
  cases q
  simp only [Query.defects, List.append_eq_nil_iff] at h
  exact h.1.2

end SqlRender
