import SqlRender.Proofs.Piece

/-!
# The outline of a query

The row of pieces of a query and of each of its parts. An outline looks at the query alone: no
dialect takes part in it, and it is laid out whether or not the query has a defect.
-/
namespace SqlRender

open Piece (slots separated)

def Column.outline (c : Column) : List (Piece String) :=
  match c.table with
  | none => [.name c.name]
  | some table => [.name table, .text ".", .name c.name]

mutual

def Call.outlineBody : Call → List (Piece String)
  | ⟨function, arguments, _⟩ =>
    .text function :: .text "(" :: separated ", " (Argument.outlineAll arguments) ++ [.text ")"]

/-- One argument; the label of a nested call has no piece. -/
def Argument.outline : Argument → List (Piece String)
  | .column c => c.outline
  | .call c => Call.outlineBody c
  | .wildcard => [.text "*"]

def Argument.outlineAll : List Argument → List (List (Piece String))
  | [] => []
  | a :: as => Argument.outline a :: Argument.outlineAll as

end

@[simp] theorem Column.slots_outline (c : Column) : slots c.outline = [] := by
  obtain ⟨_ | table, name⟩ := c <;> rfl

mutual

@[simp] theorem Call.slots_outlineBody : ∀ c : Call, slots c.outlineBody = []
  | ⟨_, arguments, _⟩ => by
    simpa [Call.outlineBody] using Argument.slots_outlineAll arguments

@[simp] theorem Argument.slots_outline : ∀ a : Argument, slots a.outline = []
  | .column c => c.slots_outline
  | .call c => Call.slots_outlineBody c
  | .wildcard => rfl

theorem Argument.slots_outlineAll : ∀ as : List Argument,
    ∀ ps ∈ Argument.outlineAll as, slots ps = []
  | [] => by simp [Argument.outlineAll]
  | a :: as => by
    simpa [Argument.outlineAll, Argument.slots_outline a] using Argument.slots_outlineAll as

end

def Call.outline (c : Call) : List (Piece String) :=
  c.outlineBody ++
    match c.label with
    | none => []
    | some label => [.text " AS ", .name label]

@[simp] theorem Call.slots_outline (c : Call) : slots c.outline = [] := by
  obtain ⟨function, arguments, _ | label⟩ := c <;> simp [Call.outline]

def Join.outline (j : Join) : List (Piece String) :=
  .text j.method.keyword :: .text " " :: j.foreign.table.toList.map .name ++
    .text " ON " :: j.own.outline ++ .text " = " :: j.foreign.outline

@[simp] theorem Join.slots_outline (j : Join) : slots j.outline = [] := by
  unfold Join.outline
  cases j.foreign.table <;> simp

def Grouping.outline : Grouping → List (Piece String)
  | .column c => c.outline
  | .verbatim sql => [.text sql]

@[simp] theorem Grouping.slots_outline (g : Grouping) : slots g.outline = [] := by
  cases g <;> simp [Grouping.outline]

def SortKey.outline (k : SortKey) : List (Piece String) :=
  k.column.outline ++
    if k.direction.keyword.isEmpty then [] else [.text " ", .text k.direction.keyword]

@[simp] theorem SortKey.slots_outline (k : SortKey) : slots k.outline = [] := by
  unfold SortKey.outline
  split <;> simp

def Connective.outline (k : Connective) (members : List (List (Piece String))) :
    List (Piece String) :=
  .text "(" :: separated (" " ++ k.keyword ++ " ") members ++ [.text ")"]

namespace Query

def projectionOutline (q : Query) : List (Piece String) :=
  match q.columns.map Column.outline ++ q.calls.map Call.outline with
  | [] => if q.joins.isEmpty then [.text "*"] else [.name q.table, .text ".*"]
  | entries => separated ", " entries

@[simp] theorem slots_projectionOutline (q : Query) : slots q.projectionOutline = [] := by
  have hs : ∀ ps ∈ q.columns.map Column.outline ++ q.calls.map Call.outline, slots ps = [] := by
    simp only [List.mem_append, List.mem_map]
    rintro _ (⟨c, -, rfl⟩ | ⟨c, -, rfl⟩)
    · exact c.slots_outline
    · exact c.slots_outline
  unfold projectionOutline
  split
  · split <;> rfl
  · rw [Piece.slots_separated]
    exact List.flatMap_eq_nil_iff.2 hs

def openingParts (q : Query) : List (List (Piece String)) :=
  match q.verb with
  | .select =>
    [.text q.verb.keyword] :: (if q.distinct then [[.text "DISTINCT"]] else []) ++
      [q.projectionOutline, [.text "FROM ", .name q.table]]
  | .insert =>
    [[.text q.verb.keyword], [.name q.table],
      .text "(" :: separated ", " (q.columns.map fun c => [.name c.name]) ++ [.text ")"],
      [.text "VALUES"],
      .text "(" :: separated ", " (q.columns.map fun c => [.slot c.name]) ++ [.text ")"]]
  | .update =>
    [[.text q.verb.keyword], [.name q.table], [.text "SET"],
      separated ", " (q.columns.map fun c => [.name c.name, .text " = ", .slot c.name])]
  | .delete => [[.text q.verb.keyword], [.name q.table]]

def filterParts : List (List (Piece String)) → List (List (Piece String))
  | [] => []
  | members => [[.text "WHERE"], Connective.and.outline members]

/-- A clause that lists its entries; without entries it has no part. -/
def listPart (words : String) : List (List (Piece String)) → List (List (Piece String))
  | [] => []
  | entries => [.text words :: separated ", " entries]

def countPart (words : String) : Option UInt64 → List (List (Piece String))
  | none => []
  | some n => [[.text words, .text n.toNat.repr]]

def tailParts (q : Query) : List (List (Piece String)) :=
  listPart "GROUP BY " (q.groupings.map Grouping.outline) ++
    listPart "ORDER BY " (q.sortKeys.map SortKey.outline) ++
    countPart "LIMIT " q.limit ++ countPart "OFFSET " q.offset

theorem slots_listPart (words : String) {pss : List (List (Piece String))}
    (h : ∀ ps ∈ pss, slots ps = []) : (listPart words pss).flatMap slots = [] := by
  cases pss with
  | nil => rfl
  | cons ps pss => simp_all [listPart]

theorem slots_countPart (words : String) (count : Option UInt64) :
    (countPart words count).flatMap slots = [] := by cases count <;> rfl

theorem slots_tailParts (q : Query) : q.tailParts.flatMap slots = [] := by
  simp [tailParts, slots_listPart, slots_countPart]

end Query

mutual

/-- The operand of a predicate on the column, if it leaves anything. -/
def Operand.outline (column : String) (comparison : Comparison) :
    Operand → Option (List (Piece String))
  | .placeholders count =>
    some <|
      if count = 1 then
        if comparison = .between then
          [.slot (column ++ ".min"), .text " AND ", .slot (column ++ ".max")]
        else [.slot column]
      else .text "(" :: separated ", " (List.replicate count.toNat [.slot column]) ++ [.text ")"]
  | .column c => some c.outline
  | .subquery q => some (.text "(" :: Query.outline q ++ [.text ")"])
  | .verbatim sql => if sql.isEmpty then none else some [.text sql]
  | .absent => none

/-- The column, the comparison, and the operand unless the comparison is a null check. -/
def Predicate.outline : Predicate → List (Piece String)
  | ⟨column, comparison, operand⟩ =>
    column.outline ++ .comparison comparison ::
      if comparison.isNullCheck then []
      else (Operand.outline column.name comparison operand).elim [] (.text " " :: ·)

def Junction.outline : Junction → List (Piece String)
  | ⟨connective, members⟩ => connective.outline (Condition.outlineAll members)

def Condition.outline : Condition → List (Piece String)
  | .predicate p => Predicate.outline p
  | .junction j => Junction.outline j

def Condition.outlineAll : List Condition → List (List (Piece String))
  | [] => []
  | c :: cs => Condition.outline c :: Condition.outlineAll cs

/-- The parts of the statement with a blank between neighbours. -/
def Query.outline : Query → List (Piece String)
  | q@⟨_, _, _, _, _, _, conditions, _, _, _, _⟩ =>
    separated " " (q.openingParts ++ q.joins.map Join.outline ++
      Query.filterParts (Condition.outlineAll conditions) ++ q.tailParts)

end

theorem Condition.outlineAll_eq_map (cs : List Condition) : outlineAll cs = cs.map outline := by
  induction cs with
  | nil => rfl
  | cons c cs ih => rw [outlineAll, ih, List.map_cons]

/-- The pieces of the statement, with its binds at the slots. -/
def Query.pieces (q : Query) : List (Piece Bind) := Piece.number 0 q.outline

end SqlRender
