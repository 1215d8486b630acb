import SqlRender.Proofs.Conditions
import Mathlib.Logic.Relation

/-!
# Discarded parts

Some parts of a query are neither written nor looked at: the operand of a null check, the label of a
call that is an argument, the table of a written column, the connective of a single member, and an
empty verbatim operand. A query in which any of them is different, at any depth, has the same
outline and the same defects, and so every dialect gives the same answer to it.
-/
namespace SqlRender

/-- One label differs, that of the argument or of a call inside it. -/
inductive Argument.Change : Argument → Argument → Prop
  | label (function : String) (arguments : List Argument) (label label' : Option String) :
      Argument.Change (.call ⟨function, arguments, label⟩) (.call ⟨function, arguments, label'⟩)
  | nested {function : String} {label : Option String} (before after : List Argument)
      {a a' : Argument} (h : Argument.Change a a') :
      Argument.Change (.call ⟨function, before ++ a :: after, label⟩)
        (.call ⟨function, before ++ a' :: after, label⟩)

/-- One label inside the call differs; its own label is written. -/
inductive Call.Change : Call → Call → Prop
  | argument {function : String} {label : Option String} (before after : List Argument)
      {a a' : Argument} (h : a.Change a') :
      Call.Change ⟨function, before ++ a :: after, label⟩ ⟨function, before ++ a' :: after, label⟩

mutual

/-- One discarded part of the operand differs. -/
inductive Operand.Change : Operand → Operand → Prop
  | empty : Operand.Change (.verbatim "") .absent
  | subquery {q q' : Query} (h : Query.Change q q') :
      Operand.Change (.subquery q) (.subquery q')

/-- One discarded part of the condition differs. A null check discards its whole operand, and a
single member the connective, as long as that is not blank. -/
inductive Condition.Change : Condition → Condition → Prop
  | nullCheck {comparison : Comparison} (h : comparison.isNullCheck) (column : Column)
      (o o' : Operand) : Condition.Change (.predicate ⟨column, comparison, o⟩)
        (.predicate ⟨column, comparison, o'⟩)
  | operand {column : Column} {comparison : Comparison} {o o' : Operand}
      (h : Operand.Change o o') : Condition.Change (.predicate ⟨column, comparison, o⟩)
        (.predicate ⟨column, comparison, o'⟩)
  | connective {k k' : Connective} (h : Text.isBlank k.keyword = false)
      (h' : Text.isBlank k'.keyword = false) (member : Condition) :
      Condition.Change (.junction ⟨k, [member]⟩) (.junction ⟨k', [member]⟩)
  | member {k : Connective} (before after : List Condition) {c c' : Condition}
      (h : Condition.Change c c') : Condition.Change (.junction ⟨k, before ++ c :: after⟩)
        (.junction ⟨k, before ++ c' :: after⟩)

/-- One discarded part of the statement differs. -/
inductive Query.Change : Query → Query → Prop
  | table {q : Query} (writes : q.verb.writesColumns) (before after : List Column)
      (table table' : Option String) (name : String) :
      Query.Change { q with columns := before ++ ⟨table, name⟩ :: after }
        { q with columns := before ++ ⟨table', name⟩ :: after }
  | call {q : Query} (before after : List Call) {c c' : Call} (h : c.Change c') :
      Query.Change { q with calls := before ++ c :: after }
        { q with calls := before ++ c' :: after }
  | condition {q : Query} (before after : List Condition) {c c' : Condition}
      (h : Condition.Change c c') : Query.Change { q with conditions := before ++ c :: after }
        { q with conditions := before ++ c' :: after }

end

theorem Argument.defectsAll_eq_flatMap (as : List Argument) :
    Argument.defectsAll as = as.flatMap Argument.defects := by
  induction as with
  | nil => rfl
  | cons a as ih => rw [Argument.defectsAll, ih, List.flatMap_cons]

theorem Condition.defectsAll_eq_flatMap (cs : List Condition) :
    Condition.defectsAll cs = cs.flatMap Condition.defects := by
  induction cs with
  | nil => rfl
  | cons c cs ih => rw [Condition.defectsAll, ih, List.flatMap_cons]

theorem Call.body_eq (function : String) (arguments : List Argument) (label : Option String) :
    Call.outlineBody ⟨function, arguments, label⟩ = .text function :: .text "(" ::
        Piece.separated ", " (arguments.map Argument.outline) ++ [.text ")"] ∧
      Call.defectsBody ⟨function, arguments, label⟩ =
        NameKind.function.defects function ++ arguments.flatMap Argument.defects := by
  rw [Call.outlineBody, Call.defectsBody, Argument.outlineAll_eq_map,
    Argument.defectsAll_eq_flatMap]
  exact ⟨rfl, rfl⟩

theorem Argument.Change.unseen {a a' : Argument} (h : a.Change a') :
    a.outline = a'.outline ∧ a.defects = a'.defects := by
  induction h with
  | label function arguments label label' =>
    simp only [Argument.outline, Argument.defects, Call.body_eq, and_self]
  | nested before after h ih =>
    simp only [Argument.outline, Argument.defects, Call.body_eq, List.map_append, List.map_cons,
      List.flatMap_append, List.flatMap_cons, ih, and_self]

theorem Call.Change.unseen {c c' : Call} (h : c.Change c') :
    c.outline = c'.outline ∧ c.defects = c'.defects := by
  obtain ⟨_, _, h⟩ := h
  simp only [Call.outline, Call.defects, Call.body_eq, List.map_append, List.map_cons,
    List.flatMap_append, List.flatMap_cons, h.unseen, and_self]

/-- A single member stands without a connective. -/
theorem Connective.outline_singleton (k k' : Connective) (ps : List (Piece String)) :
    k.outline [ps] = k'.outline [ps] := by simp [Connective.outline]

theorem Query.defects_eq (q : Query) : q.defects =
    q.partDefects ++ NameKind.table.defects q.table ++
    q.columnDefects ++ q.joins.flatMap Join.defects ++ q.conditions.flatMap Condition.defects ++
      q.tailDefects := by
  cases q
  rw [Query.defects, Condition.defectsAll_eq_flatMap]

section

variable {q : Query}

/-- Of a written column only the name is looked at. -/
theorem Query.columns_unseen (h : q.verb.writesColumns) {cs cs' : List Column}
    (hn : cs.map Column.name = cs'.map Column.name) :
    ({ q with columns := cs } : Query).outline = ({ q with columns := cs' } : Query).outline ∧
      ({ q with columns := cs } : Query).defects = ({ q with columns := cs' } : Query).defects := by
  have hm : ∀ {α : Type} (f : String → α), cs.map (fun c => f c.name) =
      cs'.map fun c => f c.name := by
    intro α f
    simpa [Function.comp_def] using congrArg (List.map f) hn
  have he : cs.isEmpty = cs'.isEmpty := by
    rw [← List.isEmpty_map (f := Column.name), hn, List.isEmpty_map]
  have hd : cs.flatMap (fun c => NameKind.column.defects c.name) =
      cs'.flatMap fun c => NameKind.column.defects c.name := by
    rw [List.flatMap_def, List.flatMap_def, hm]
  have hu : ({ q with columns := cs } : Query).uses = ({ q with columns := cs' } : Query).uses := by
    funext part
    cases part <;> simp [Query.uses, he]
  have hp : ({ q with columns := cs } : Query).partDefects =
      ({ q with columns := cs' } : Query).partDefects := by simp [Query.partDefects, hu, he]
  have hc : ({ q with columns := cs } : Query).columnDefects =
      ({ q with columns := cs' } : Query).columnDefects := by
    cases hv : q.verb with
    | insert | update => simp only [Query.columnDefects, hd]
    | select | delete => simp [hv, Verb.writesColumns] at h
  have ho : ({ q with columns := cs } : Query).openingParts =
      ({ q with columns := cs' } : Query).openingParts := by
    have hnames := hm fun name => ([.name name] : List (Piece String))
    have hslots := hm fun name => [Piece.slot name]
    have hassignments := hm fun name => [Piece.name name, .text " = ", .slot name]
    cases hv : q.verb with
    | insert => simp only [Query.openingParts, hnames, hslots]
    | update => simp only [Query.openingParts, hassignments]
    | select | delete => simp [hv, Verb.writesColumns] at h
  constructor
  · rw [Query.outline_eq, Query.outline_eq, ho]
    rfl
  · rw [Query.defects_eq, Query.defects_eq, hp, hc]
    rfl

theorem Query.calls_unseen {cs cs' : List Call} (ho : cs.map Call.outline = cs'.map Call.outline)
    (hd : cs.flatMap Call.defects = cs'.flatMap Call.defects) :
    ({ q with calls := cs } : Query).outline = ({ q with calls := cs' } : Query).outline ∧
      ({ q with calls := cs } : Query).defects = ({ q with calls := cs' } : Query).defects := by
  have he : cs.isEmpty = cs'.isEmpty := by
    rw [← List.isEmpty_map (f := Call.outline), ho, List.isEmpty_map]
  have hu : ({ q with calls := cs } : Query).uses = ({ q with calls := cs' } : Query).uses := by
    funext part
    cases part <;> simp [Query.uses, he]
  constructor
  · simp only [Query.outline_eq, Query.openingParts, Query.projectionOutline, ho]
    rfl
  · simp only [Query.defects_eq, Query.partDefects, Query.columnDefects, hu, hd]
    rfl

theorem Query.conditions_unseen {cs cs' : List Condition}
    (ho : cs.map Condition.outline = cs'.map Condition.outline)
    (hd : cs.flatMap Condition.defects = cs'.flatMap Condition.defects) :
    ({ q with conditions := cs } : Query).outline = ({ q with conditions := cs' } : Query).outline ∧
      ({ q with conditions := cs } : Query).defects =
        ({ q with conditions := cs' } : Query).defects := by
  have he : cs.isEmpty = cs'.isEmpty := by
    rw [← List.isEmpty_map (f := Condition.outline), ho, List.isEmpty_map]
  have hu : ({ q with conditions := cs } : Query).uses =
      ({ q with conditions := cs' } : Query).uses := by
    funext part
    cases part <;> simp [Query.uses, he]
  constructor
  · simp only [Query.outline_eq, Condition.outlineAll_eq_map, ho]
    rfl
  · simp only [Query.defects_eq, Query.partDefects, hu, hd]
    rfl

end

mutual

theorem Operand.Change.unseen (column : String) (comparison : Comparison) :
    ∀ {o o' : Operand}, Operand.Change o o' →
      o.outline column comparison = o'.outline column comparison ∧
        o.defects column comparison = o'.defects column comparison
  | _, _, .empty => by
    simp [Operand.outline, Operand.defects]
  | _, _, .subquery h => by
    obtain ⟨hv, ho, hd⟩ := Query.Change.unseen h
    simp only [Operand.outline, Operand.defects, hv, ho, hd, and_self]

theorem Condition.Change.unseen : ∀ {c c' : Condition}, Condition.Change c c' →
    c.outline = c'.outline ∧ c.defects = c'.defects
  | _, _, .nullCheck h column o o' => by
    simp only [Condition.outline, Predicate.outline, Condition.defects, Predicate.defects, h,
      if_true, and_self]
  | _, _, @Condition.Change.operand column comparison o o' h => by
    obtain ⟨ho, hd⟩ := Operand.Change.unseen column.name comparison h
    simp only [Condition.outline, Predicate.outline, Condition.defects, Predicate.defects, ho, hd,
      and_self]
  | _, _, @Condition.Change.connective k k' h h' member => by
    simp only [Condition.outline, Junction.outline, Condition.outlineAll, Condition.defects,
      Junction.defects, Connective.defects, h, h', k.outline_singleton k', and_self]
  | _, _, .member _ _ h => by
    obtain ⟨ho, hd⟩ := Condition.Change.unseen h
    simp only [Condition.outline, Junction.outline, Condition.outlineAll_eq_map, Condition.defects,
      Junction.defects, Connective.defects, Condition.defectsAll_eq_flatMap, List.map_append,
      List.map_cons, List.flatMap_append, List.flatMap_cons, ho, hd, List.isEmpty_iff,
      List.append_eq_nil_iff, reduceCtorEq, and_false, and_self]

theorem Query.Change.unseen : ∀ {q q' : Query}, Query.Change q q' →
    q.verb = q'.verb ∧ q.outline = q'.outline ∧ q.defects = q'.defects
  | _, _, .table writes before after table table' name =>
    ⟨rfl, Query.columns_unseen writes (by simp)⟩
  | _, _, .call _ _ h => by
    obtain ⟨ho, hd⟩ := h.unseen
    exact ⟨rfl, Query.calls_unseen (by simp [ho]) (by simp [hd])⟩
  | _, _, .condition _ _ h => by
    rcases Condition.Change.unseen h with ⟨ho, hd⟩
    exact ⟨rfl, Query.conditions_unseen (by simp [ho]) (by simp [hd])⟩

end

/-- Any number of changes of discarded parts, at any depth, leave the answer of every dialect as it
is: the text and the binds, or the defect. -/
theorem Query.render_eq_of_changes {q q' : Query} (h : Relation.EqvGen Query.Change q q')
    (d : Dialect) : q.render d = q'.render d := by
  induction h with
  | rel q q' change =>
    obtain ⟨-, ho, hd⟩ := change.unseen
    rw [Query.render_eq, Query.render_eq, Query.pieces, Query.pieces, ho, hd]
  | refl q => rfl
  | symm q q' _ ih => exact ih.symm
  | trans q q' q'' _ _ first second => exact first.trans second

def Query.careless (label : Option String) (o : Operand) : Query :=
  ((Query.select "u").computed ⟨"MAX", [.call ⟨"F", [], label⟩], none⟩).filter
    (.predicate ⟨.bare "d", .bare, o⟩)

/-- An update with discarded parts in its written column, in a junction of one null check, and in a
subquery. -/
def Query.carelessUpdate (table : Option String) (k : Connective) (o : Operand) (q : Query) :
    Query :=
  (((Query.update "t").column ⟨table, "a"⟩).filter
    (.junction ⟨k, [.predicate ⟨.bare "b", .isNull, o⟩]⟩)).filter
    (.predicate ⟨.bare "c", .isIn, .subquery q⟩)

theorem Query.render_eq_of_changes_careless : ∃ r,
    (carelessUpdate (some "") .or (.placeholders 0) (careless (some "") (.verbatim ""))).render
      .postgres = .ok r ∧
    (carelessUpdate none .and (.subquery (.delete "")) (careless none .absent)).render .postgres =
      .ok r := by
  have label : Query.Change (careless (some "") (.verbatim "")) (careless none (.verbatim "")) :=
    .call (q := careless none (.verbatim "")) [] [] (.argument [] [] (.label ..))
  have empty : Query.Change (careless none (.verbatim "")) (careless none .absent) :=
    .condition (q := careless none .absent) [] [] (.operand .empty)
  have table : ∀ k o q, Query.Change (carelessUpdate (some "") k o q) (carelessUpdate none k o q) :=
    fun k o q => .table (q := carelessUpdate none k o q) rfl [] [] _ _ _
  have connective : ∀ t o q, Query.Change (carelessUpdate t .or o q) (carelessUpdate t .and o q) :=
    fun t o q => .condition (q := carelessUpdate t .or o q) [] [_] (.connective rfl rfl _)
  have nullCheck : ∀ t k o o' q, Query.Change (carelessUpdate t k o q) (carelessUpdate t k o' q) :=
    fun t k o o' q =>
      .condition (q := carelessUpdate t k o q) [] [_] (.member [] [] (.nullCheck rfl _ _ _))
  have subquery : ∀ t k o q q', Query.Change q q' →
      Query.Change (carelessUpdate t k o q) (carelessUpdate t k o q') :=
    fun t k o q q' h => .condition (q := carelessUpdate t k o q) [_] [] (.operand (.subquery h))
  have changes : Relation.EqvGen Query.Change
      (carelessUpdate (some "") .or (.placeholders 0) (careless (some "") (.verbatim "")))
      (carelessUpdate none .and (.subquery (.delete "")) (careless none .absent)) :=
    .trans _ _ _ (.rel _ _ (table ..)) <| .trans _ _ _ (.rel _ _ (connective ..)) <|
      .trans _ _ _ (.rel _ _ (nullCheck ..)) <|
        .trans _ _ _ (.rel _ _ (subquery _ _ _ _ _ label)) (.rel _ _ (subquery _ _ _ _ _ empty))
  have h : (carelessUpdate none .and (.subquery (.delete "")) (careless none .absent)).render
    .postgres = .ok _ := rfl
  exact ⟨_, (Query.render_eq_of_changes changes .postgres).trans h, h⟩

end SqlRender
