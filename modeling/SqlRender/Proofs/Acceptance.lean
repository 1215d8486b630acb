import SqlRender.Proofs.Writing
import Mathlib.Tactic.MkIffOfInductiveProp
import Mathlib.Tactic.Tauto

/-!
# What is accepted

A query is sound when every part of it is, at every depth; the rules say nothing about an order or a
dialect. Rendering accepts the sound queries and no others, and what it reports of any other query
is the first of its defects.
-/
namespace SqlRender

/-- No name is empty. -/
@[mk_iff] structure Column.IsSound (c : Column) : Prop where
  name : c.name ≠ ""
  table : ∀ table ∈ c.table, table ≠ ""

mutual

/-- Every function has a name, at every depth. -/
inductive Call.IsSound : Call → Prop
  | intro {function : String} {arguments : List Argument} (label : Option String)
      (function_ne : function ≠ "") (arguments_sound : ∀ a ∈ arguments, Argument.IsSound a) :
      Call.IsSound ⟨function, arguments, label⟩

inductive Argument.IsSound : Argument → Prop
  | column {c : Column} (h : c.IsSound) : Argument.IsSound (.column c)
  | call {c : Call} (h : Call.IsSound c) : Argument.IsSound (.call c)
  | wildcard : Argument.IsSound .wildcard

end

/-- A verbatim method is visible, and the foreign column names the joined table. -/
@[mk_iff] structure Join.IsSound (j : Join) : Prop where
  method : ∀ sql, j.method = .verbatim sql → Text.isBlank sql = false
  qualified : j.foreign.table ≠ none
  own : j.own.IsSound
  foreign : j.foreign.IsSound

def Grouping.IsSound : Grouping → Prop
  | .column c => c.IsSound
  | .verbatim sql => Text.isBlank sql = false

mutual

/-- So many placeholders as the comparison takes, sound names, and `SELECT` as a subquery. -/
inductive Operand.IsSound : Comparison → Operand → Prop
  | placeholders {comparison : Comparison} {count : UInt64} (some : count ≠ 0)
      (few : count ≤ maxPlaceholders) (pair : comparison = .between → count = 1) :
      Operand.IsSound comparison (.placeholders count)
  | column {comparison : Comparison} {c : Column} (h : c.IsSound) :
      Operand.IsSound comparison (.column c)
  | subquery {comparison : Comparison} {q : Query} (select : q.verb = .select)
      (h : Query.IsSound q) : Operand.IsSound comparison (.subquery q)
  | verbatim (comparison : Comparison) (sql : String) : Operand.IsSound comparison (.verbatim sql)
  | absent (comparison : Comparison) : Operand.IsSound comparison .absent

/-- The operand of a null check may be anything. -/
inductive Condition.IsSound : Condition → Prop
  | predicate {column : Column} {comparison : Comparison} {operand : Operand}
      (column_sound : column.IsSound)
      (operand_sound : comparison.isNullCheck = false → Operand.IsSound comparison operand) :
      Condition.IsSound (.predicate ⟨column, comparison, operand⟩)
  | junction {connective : Connective} {members : List Condition} (members_ne : members ≠ [])
      (visible : Text.isBlank connective.keyword = false)
      (members_sound : ∀ c ∈ members, Condition.IsSound c) :
      Condition.IsSound (.junction ⟨connective, members⟩)

/-- The statement has no part that its kind cannot carry, writes a column if its kind writes, and
all its parts are sound. Of a written column only the name counts. -/
inductive Query.IsSound : Query → Prop
  | intro {q : Query} (parts : ∀ part ∈ q.verb.unsupported, q.uses part = false)
      (writes : q.verb.writesColumns → q.columns ≠ []) (table : q.table ≠ "")
      (read : q.verb = .select → ∀ c ∈ q.columns, c.IsSound)
      (written : q.verb.writesColumns → ∀ c ∈ q.columns, c.name ≠ "")
      (calls : q.verb = .select → ∀ c ∈ q.calls, c.IsSound ∧ ∀ label ∈ c.label, label ≠ "")
      (joins : ∀ j ∈ q.joins, j.IsSound) (conditions : ∀ c ∈ q.conditions, Condition.IsSound c)
      (groupings : ∀ g ∈ q.groupings, g.IsSound) (sortKeys : ∀ k ∈ q.sortKeys, k.column.IsSound) :
      Query.IsSound q

end

@[simp] theorem Defect.when_eq_nil {p : Prop} [Decidable p] {e : Defect} :
    Defect.when p e = [] ↔ ¬p := by
  unfold Defect.when
  split <;> simp [*]

@[simp] theorem NameKind.defects_eq_nil {kind : NameKind} {name : String} :
    kind.defects name = [] ↔ name ≠ "" := by simp [NameKind.defects]

@[simp] theorem Column.defects_eq_nil {c : Column} : c.defects = [] ↔ c.IsSound := by
  rcases c with ⟨_ | table, name⟩ <;> simp [Column.defects, Column.isSound_iff]

mutual

theorem Call.defectsBody_eq_nil : ∀ c : Call, c.defectsBody = [] ↔ c.IsSound
  | ⟨function, arguments, label⟩ => by
    rw [Call.defectsBody, List.append_eq_nil_iff, NameKind.defects_eq_nil,
      Argument.defectsAll_eq_nil arguments]
    exact ⟨fun ⟨hf, ha⟩ => .intro label hf ha, fun (.intro _ hf ha) => ⟨hf, ha⟩⟩

theorem Argument.defects_eq_nil : ∀ a : Argument, a.defects = [] ↔ a.IsSound
  | .column c => by
    rw [Argument.defects, Column.defects_eq_nil]
    exact ⟨.column, fun (.column h) => h⟩
  | .call c => by
    rw [Argument.defects, Call.defectsBody_eq_nil c]
    exact ⟨.call, fun (.call h) => h⟩
  | .wildcard => by simpa [Argument.defects] using Argument.IsSound.wildcard

theorem Argument.defectsAll_eq_nil : ∀ as : List Argument,
    Argument.defectsAll as = [] ↔ ∀ a ∈ as, a.IsSound
  | [] => by simp [Argument.defectsAll]
  | a :: as => by
    simp [Argument.defectsAll, Argument.defects_eq_nil a, Argument.defectsAll_eq_nil as]

end

theorem Call.defects_eq_nil {c : Call} :
    c.defects = [] ↔ c.IsSound ∧ ∀ label ∈ c.label, label ≠ "" := by
  simp [Call.defects, Call.defectsBody_eq_nil]

theorem Join.defects_eq_nil {j : Join} : j.defects = [] ↔ j.IsSound := by
  rcases j with ⟨method, own, ⟨_ | table, name⟩⟩
  · simp [Join.defects, Join.isSound_iff]
  · cases method <;>
      simp [Join.defects, Join.isSound_iff, JoinMethod.defects, VerbatimClause.defects,
        Column.isSound_iff]

theorem Grouping.defects_eq_nil {g : Grouping} : g.defects = [] ↔ g.IsSound := by
  cases g <;> simp [Grouping.defects, Grouping.IsSound, VerbatimClause.defects]

theorem Connective.defects_eq_nil {k : Connective} {members : List Condition} :
    k.defects members = [] ↔ members ≠ [] ∧ Text.isBlank k.keyword = false := by
  simp [Connective.defects]

theorem Query.partDefects_eq_nil {q : Query} : q.partDefects = [] ↔
    (∀ part ∈ q.verb.unsupported, q.uses part = false) ∧
      (q.verb.writesColumns → q.columns ≠ []) := by
  simp [Query.partDefects]

theorem Query.columnDefects_eq_nil {q : Query} : q.columnDefects = [] ↔
    (q.verb = .select → ∀ c ∈ q.columns, c.IsSound) ∧
      (q.verb.writesColumns → ∀ c ∈ q.columns, c.name ≠ "") ∧
      (q.verb = .select → ∀ c ∈ q.calls, c.IsSound ∧ ∀ label ∈ c.label, label ≠ "") := by
  unfold Query.columnDefects
  cases q.verb <;> simp [Verb.writesColumns, Call.defects_eq_nil]

theorem Query.tailDefects_eq_nil {q : Query} : q.tailDefects = [] ↔
    (∀ g ∈ q.groupings, g.IsSound) ∧ ∀ k ∈ q.sortKeys, k.column.IsSound := by
  simp [Query.tailDefects, Grouping.defects_eq_nil, SortKey.defects]

mutual

theorem Operand.defects_eq_nil (column : String) (comparison : Comparison) :
    ∀ o : Operand, o.defects column comparison = [] ↔ o.IsSound comparison
  | .placeholders count => by
    have hp : (¬(count ≠ 1 ∧ comparison = .between)) ↔ (comparison = .between → count = 1) := by
      tauto
    simp only [Operand.defects, List.append_eq_nil_iff, Defect.when_eq_nil, hp,
      UInt64.not_lt, and_assoc]
    exact ⟨fun ⟨hs, hf, hp⟩ => .placeholders hs hf hp, fun (.placeholders hs hf hp) => ⟨hs, hf, hp⟩⟩
  | .column c => by
    rw [Operand.defects, Column.defects_eq_nil]
    exact ⟨.column, fun (.column h) => h⟩
  | .subquery q => by
    rw [Operand.defects, List.append_eq_nil_iff, Defect.when_eq_nil, Query.defects_eq_nil q,
      not_not]
    exact ⟨fun ⟨hs, h⟩ => .subquery hs h, fun (.subquery hs h) => ⟨hs, h⟩⟩
  | .verbatim sql => by simpa [Operand.defects] using Operand.IsSound.verbatim comparison sql
  | .absent => by simpa [Operand.defects] using Operand.IsSound.absent comparison

theorem Condition.defects_eq_nil : ∀ c : Condition, c.defects = [] ↔ c.IsSound
  | .predicate ⟨column, comparison, operand⟩ => by
    have ho := Operand.defects_eq_nil column.name comparison operand
    rw [Condition.defects, Predicate.defects, List.append_eq_nil_iff, Column.defects_eq_nil]
    constructor
    · rintro ⟨hc, hn⟩
      exact .predicate hc fun h => ho.1 (by simpa [h] using hn)
    · rintro (⟨hc, hn⟩ | _)
      refine ⟨hc, ?_⟩
      cases h : comparison.isNullCheck with
      | true => rfl
      | false => exact ho.2 (hn h)
  | .junction ⟨connective, members⟩ => by
    rw [Condition.defects, Junction.defects, List.append_eq_nil_iff, Connective.defects_eq_nil,
      Condition.defectsAll_eq_nil members, and_assoc]
    exact ⟨fun ⟨hm, hv, h⟩ => .junction hm hv h, fun (.junction hm hv h) => ⟨hm, hv, h⟩⟩

theorem Condition.defectsAll_eq_nil : ∀ cs : List Condition,
    Condition.defectsAll cs = [] ↔ ∀ c ∈ cs, c.IsSound
  | [] => by simp [Condition.defectsAll]
  | c :: cs => by
    simp [Condition.defectsAll, Condition.defects_eq_nil c, Condition.defectsAll_eq_nil cs]

theorem Query.defects_eq_nil : ∀ q : Query, q.defects = [] ↔ q.IsSound
  | ⟨verb, table, distinct, columns, calls, joins, conditions, groupings, sortKeys, limit,
      offset⟩ => by
    rw [Query.defects]
    simp only [List.append_eq_nil_iff, Query.partDefects_eq_nil, NameKind.defects_eq_nil,
      Query.columnDefects_eq_nil, List.flatMap_eq_nil_iff, Join.defects_eq_nil,
      Condition.defectsAll_eq_nil conditions, Query.tailDefects_eq_nil]
    constructor
    · rintro ⟨⟨⟨⟨⟨⟨hp, hw⟩, ht⟩, hr, hn, hf⟩, hj⟩, hc⟩, hg, hk⟩
      exact .intro hp hw ht hr hn hf hj hc hg hk
    · rintro ⟨hp, hw, ht, hr, hn, hf, hj, hc, hg, hk⟩
      exact ⟨⟨⟨⟨⟨⟨hp, hw⟩, ht⟩, hr, hn, hf⟩, hj⟩, hc⟩, hg, hk⟩

end

/-- Every dialect accepts the sound queries and no others, and reports the first defect of any other
query. -/
theorem Query.render_first_defect (q : Query) :
    (∀ d : Dialect, (∃ r, q.render d = .ok r) ↔ q.IsSound) ∧
    (∀ (d : Dialect) (e : Defect), q.render d = .error e ↔ q.defects.head? = some e) ∧
    ∀ d₁ d₂ : Dialect, ((∃ r, q.render d₁ = .ok r) ↔ ∃ r, q.render d₂ = .ok r) ∧
      ∀ e, q.render d₁ = .error e ↔ q.render d₂ = .error e := by
  have accepts : ∀ d : Dialect, (∃ r, q.render d = .ok r) ↔ q.IsSound := by
    intro d
    simp [Query.render_eq_ok, Query.defects_eq_nil]
  have reports : ∀ (d : Dialect) (e : Defect),
      q.render d = .error e ↔ q.defects.head? = some e := by
    intro d e
    rw [Query.render_eq]
    cases q.defects <;> simp [Defect.barring]
  refine ⟨accepts, reports, fun d₁ d₂ => ⟨?_, fun e => ?_⟩⟩
  · rw [accepts, accepts]
  · rw [reports, reports]

/-- The bounds come with a count that is both too large and no pair; the former is found first. -/
example (d : Dialect) : ((Query.select "t").filter
    (.predicate ⟨.bare "x", .between, .placeholders 40000⟩)).render d =
      .error (.tooManyPlaceholders "x" 40000) := rfl

end SqlRender
