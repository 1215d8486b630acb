import SqlRender.Proofs.Verbatim

/-!
# What a statement is made of

A statement is made of names, slots, operators, fixed texts and verbatim texts, side by side and
between brackets. No fixed text holds a bracket, so that the fixed brackets come in pairs. What
holds of ordinary characters and of the verbatim texts therefore holds of all that stands between
the names and the slots, and what is kept by rows side by side and by rows in brackets holds of
every statement.
-/
namespace SqlRender

/-- Words and signs of a statement, without brackets. -/
def Text.isFixed (s : String) : Bool :=
  s.toList.all fun c => Text.isOrdinary c && c != '(' && c != ')'

namespace Piece

/-- Rows made of names, slots, operators, fixed texts and verbatim texts with `V`. A verbatim text
may have fixed text before and after it in one piece. -/
inductive Composed (V : Verbatim → Prop) : List (Piece String) → Prop
  | nil : Composed V []
  | name (s : String) : Composed V [.name s]
  | slot (mark : String) : Composed V [.slot mark]
  | comparison {c : Comparison} (h : ∀ v ∈ c.verbatims, V v) : Composed V [.comparison c]
  | fixed {s : String} (h : Text.isFixed s) : Composed V [.text s]
  | verbatim {v : Verbatim} (h : V v) (before after : String) (hb : Text.isFixed before)
      (ha : Text.isFixed after) : Composed V [.text (before ++ v.text ++ after)]
  | append {ps qs : List (Piece String)} (hp : Composed V ps) (hq : Composed V qs) :
      Composed V (ps ++ qs)
  | enclosed {ps : List (Piece String)} (h : Composed V ps) :
      Composed V (.text "(" :: ps ++ [.text ")"])

namespace Composed

variable {V : Verbatim → Prop} {ps : List (Piece String)} {pss : List (List (Piece String))}

theorem verbatim_alone {v : Verbatim} (h : V v) : Composed V [.text v.text] := by
  simpa using verbatim h "" "" rfl rfl

theorem cons_name (s : String) (h : Composed V ps) : Composed V (.name s :: ps) := (name s).append h

theorem cons_fixed {s : String} (hs : Text.isFixed s) (h : Composed V ps) :
    Composed V (.text s :: ps) := (fixed hs).append h

theorem cons_comparison {c : Comparison} (hc : ∀ v ∈ c.verbatims, V v) (h : Composed V ps) :
    Composed V (.comparison c :: ps) := (comparison hc).append h

theorem separated {separator : String} (hs : Composed V [.text separator])
    (h : ∀ ps ∈ pss, Composed V ps) : Composed V (separated separator pss) := by
  induction pss with
  | nil => exact .nil
  | cons ps pss ih =>
    simp only [List.forall_mem_cons] at h
    cases pss with
    | nil => simpa using h.1
    | cons qs pss =>
      rw [separated_cons_cons]
      exact h.1.append (hs.append (ih h.2))

theorem listed (h : ∀ ps ∈ pss, Composed V ps) : Composed V (Piece.separated ", " pss) :=
  separated (fixed (by decide)) h

theorem flatMap {α : Type} {f : α → List (Piece String)} {as : List α}
    (h : ∀ a ∈ as, Composed V (f a)) : Composed V (as.flatMap f) := by
  induction as with
  | nil => exact nil
  | cons a as ih =>
    simp only [List.forall_mem_cons] at h
    exact h.1.append (ih h.2)

end Composed

end Piece

open Piece (Composed)

variable {V : Verbatim → Prop}

theorem Column.outline_composed (c : Column) : Composed V c.outline := by
  obtain ⟨_ | table, name⟩ := c
  · exact .name name
  · exact (Composed.fixed (by decide) |>.append (.name name)).cons_name table

mutual

theorem Call.outlineBody_composed : ∀ c : Call, (∀ v ∈ c.verbatims, V v) → Composed V c.outlineBody
  | ⟨function, arguments, _⟩, h => by
    simp only [Call.verbatims, List.forall_mem_cons] at h
    have ha := (Composed.listed (Argument.outlineAll_composed arguments h.2)).enclosed
    exact (Composed.verbatim_alone h.1).append ha

theorem Argument.outline_composed : ∀ a : Argument, (∀ v ∈ a.verbatims, V v) → Composed V a.outline
  | .column c, _ => c.outline_composed
  | .call c, h => Call.outlineBody_composed c h
  | .wildcard, _ => .fixed (by decide)

theorem Argument.outlineAll_composed : ∀ as : List Argument,
    (∀ v ∈ Argument.verbatimsAll as, V v) → ∀ ps ∈ Argument.outlineAll as, Composed V ps
  | [], _ => by simp [Argument.outlineAll]
  | a :: as, h => by
    simp only [Argument.verbatimsAll, List.forall_mem_append] at h
    simp only [Argument.outlineAll, List.forall_mem_cons]
    exact ⟨Argument.outline_composed a h.1, Argument.outlineAll_composed as h.2⟩

end

theorem Call.outline_composed (c : Call) (h : ∀ v ∈ c.verbatims, V v) : Composed V c.outline := by
  have hb := c.outlineBody_composed h
  unfold Call.outline
  cases c.label with
  | none => simpa using hb
  | some label => exact hb.append (.cons_fixed (by decide) (.name label))

theorem JoinMethod.keyword_composed (m : JoinMethod) (h : ∀ v ∈ m.verbatims, V v) :
    Composed V [.text m.keyword] := by
  cases m with
  | verbatim sql =>
    have hv : V ⟨.joinMethod, sql⟩ := by simpa [JoinMethod.verbatims] using h
    simpa [JoinMethod.keyword] using Composed.verbatim hv "" " JOIN" rfl (by decide)
  | _ => exact .fixed (by decide)

theorem Join.outline_composed (j : Join) (h : ∀ v ∈ j.method.verbatims, V v) :
    Composed V j.outline := by
  have ht : Composed V (j.foreign.table.toList.map .name) := by
    cases j.foreign.table with
    | none => exact .nil
    | some table => exact .name table
  have hm : Composed V (.text j.method.keyword :: .text " " :: j.foreign.table.toList.map .name) :=
    (j.method.keyword_composed h).append (.cons_fixed (by decide) ht)
  have ho : Composed V (.text " ON " :: j.own.outline) :=
    .cons_fixed (by decide) j.own.outline_composed
  have hf : Composed V (.text " = " :: j.foreign.outline) :=
    .cons_fixed (by decide) j.foreign.outline_composed
  exact (hm.append ho).append hf

theorem Grouping.outline_composed (g : Grouping) (h : ∀ v ∈ g.verbatims, V v) :
    Composed V g.outline := by
  cases g with
  | column c => exact c.outline_composed
  | verbatim sql => exact .verbatim_alone (by simpa [Grouping.verbatims] using h)

theorem SortKey.outline_composed (k : SortKey) (h : ∀ v ∈ k.direction.verbatims, V v) :
    Composed V k.outline := by
  have hd : Composed V [.text k.direction.keyword] := by
    cases hk : k.direction with
    | verbatim sql =>
      have hv : V ⟨.direction, sql⟩ := by simpa [hk, Direction.verbatims] using h
      exact .verbatim_alone hv
    | _ => exact .fixed (by decide)
  unfold SortKey.outline
  split
  · simpa using k.column.outline_composed
  · exact k.column.outline_composed.append (.cons_fixed (by decide) hd)

theorem Connective.keyword_composed (k : Connective) (h : ∀ v ∈ k.verbatims, V v) :
    Composed V [.text (" " ++ k.keyword ++ " ")] := by
  cases k with
  | verbatim sql =>
    have hv : V ⟨.connective, sql⟩ := by simpa [Connective.verbatims] using h
    exact .verbatim hv " " " " (by decide) (by decide)
  | _ => exact .fixed (by decide)

theorem Connective.outline_composed (k : Connective) {pss : List (List (Piece String))}
    (hk : ∀ v ∈ k.verbatims, V v) (h : ∀ ps ∈ pss, Composed V ps) : Composed V (k.outline pss) :=
  (Composed.separated (k.keyword_composed hk) h).enclosed

namespace Query

theorem projectionOutline_composed (q : Query) (h : ∀ c ∈ q.calls, ∀ v ∈ c.verbatims, V v) :
    Composed V q.projectionOutline := by
  unfold projectionOutline
  split
  · split
    · exact .fixed (by decide)
    · exact .cons_name q.table (.fixed (by decide))
  · apply Composed.listed
    simp only [List.mem_append, List.mem_map]
    rintro _ (⟨c, -, rfl⟩ | ⟨c, hc, rfl⟩)
    · exact c.outline_composed
    · exact c.outline_composed (h c hc)

theorem openingParts_composed (q : Query) (h : ∀ c ∈ q.calls, ∀ v ∈ c.verbatims, V v) :
    ∀ ps ∈ q.openingParts, Composed V ps := by
  have hv : ∀ v : Verb, Composed V [.text v.keyword] := by
    intro v
    cases v <;> exact .fixed (by decide)
  have hw : ∀ s ∈ ["DISTINCT", "VALUES", "SET"], Composed V [.text s] := by
    intro s hs
    have hf : ∀ s ∈ ["DISTINCT", "VALUES", "SET"], Text.isFixed s := by decide
    exact .fixed (hf s hs)
  have hf : Composed V [.text "FROM ", .name q.table] := .cons_fixed (by decide) (.name q.table)
  simp only [List.forall_mem_cons] at hw
  unfold openingParts
  cases q.verb with
  | select => cases q.distinct <;> simp [hv, hw, hf, q.projectionOutline_composed h]
  | insert =>
    have hn : ∀ ps ∈ q.columns.map fun c => [.name c.name], Composed V ps :=
      List.forall_mem_map.2 fun c _ => .name c.name
    have hs : ∀ ps ∈ q.columns.map fun c => [.slot c.name], Composed V ps :=
      List.forall_mem_map.2 fun c _ => .slot c.name
    simp only [List.forall_mem_cons, List.not_mem_nil, false_implies, implies_true, and_true]
    exact ⟨hv _, .name _, (Composed.listed hn).enclosed, hw.2.1, (Composed.listed hs).enclosed⟩
  | update =>
    have ha : ∀ ps ∈ q.columns.map fun c => [.name c.name, .text " = ", .slot c.name],
        Composed V ps :=
      List.forall_mem_map.2 fun c _ => .cons_name c.name (.cons_fixed (by decide) (.slot c.name))
    simpa [hv, hw, Composed.name] using Composed.listed ha
  | delete => simp [hv, Composed.name]

theorem filterParts_composed {pss : List (List (Piece String))} (h : ∀ ps ∈ pss, Composed V ps) :
    ∀ ps ∈ filterParts pss, Composed V ps := by
  cases pss with
  | nil => simp [filterParts]
  | cons ps pss =>
    have ha := Connective.and.outline_composed (by simp [Connective.verbatims]) h
    have hw : Composed V [.text "WHERE"] := .fixed (by decide)
    simpa [filterParts, hw] using ha

theorem listPart_composed {words : String} (hw : Text.isFixed words)
    {pss : List (List (Piece String))} (h : ∀ ps ∈ pss, Composed V ps) :
    ∀ ps ∈ listPart words pss, Composed V ps := by
  cases pss with
  | nil => simp [listPart]
  | cons ps pss => simpa [listPart] using (Composed.listed h).cons_fixed hw

theorem countPart_composed {words : String} (hw : Text.isFixed words) (count : Option UInt64) :
    ∀ ps ∈ countPart words count, Composed V ps := by
  cases count with
  | none => simp [countPart]
  | some n =>
    have hn : Text.isFixed n.toNat.repr := by
      rw [Text.isFixed, List.all_eq_true]
      intro c hc
      have hd := Text.isDigit_of_mem_repr hc
      have hb : c ≠ '(' ∧ c ≠ ')' := by
        constructor <;>
        · rintro rfl
          cases hd
      simp [Text.isOrdinary, Char.isAlphanum, hd, hb]
    simpa [countPart] using Composed.cons_fixed hw (.fixed hn)

theorem tailParts_composed (q : Query) (hg : ∀ g ∈ q.groupings, ∀ v ∈ g.verbatims, V v)
    (hs : ∀ k ∈ q.sortKeys, ∀ v ∈ k.direction.verbatims, V v) :
    ∀ ps ∈ q.tailParts, Composed V ps := by
  have hgs : ∀ ps ∈ q.groupings.map Grouping.outline, Composed V ps := by
    simpa using fun g hm => g.outline_composed (hg g hm)
  have hks : ∀ ps ∈ q.sortKeys.map SortKey.outline, Composed V ps := by
    simpa using fun k hm => k.outline_composed (hs k hm)
  simp only [tailParts, List.forall_mem_append]
  exact ⟨⟨⟨listPart_composed (by decide) hgs, listPart_composed (by decide) hks⟩,
    countPart_composed (by decide) _⟩, countPart_composed (by decide) _⟩

end Query

mutual

theorem Operand.outline_composed (column : String) (comparison : Comparison) : ∀ o : Operand,
    (∀ v ∈ o.verbatims, V v) → ∀ ps ∈ o.outline column comparison, Composed V ps
  | .placeholders count, _ => by
    simp only [Operand.outline, Option.mem_some_iff, forall_eq']
    split
    · split
      · exact (Composed.slot _).append (.cons_fixed (by decide) (.slot _))
      · exact .slot _
    · refine (Composed.listed ?_).enclosed
      simpa [List.mem_replicate] using fun _ => Composed.slot column
  | .column c, _ => by simpa [Operand.outline] using c.outline_composed
  | .subquery q, h => by
    have hq := Query.outline_composed q (by simpa only [Operand.verbatims] using h)
    simpa [Operand.outline] using hq.enclosed
  | .verbatim sql, h => by
    have hv : V ⟨.operand, sql⟩ := by simpa [Operand.verbatims] using h
    by_cases he : sql.isEmpty
    · simp [Operand.outline, he]
    · simpa [Operand.outline, he] using Composed.verbatim_alone hv
  | .absent, _ => by simp [Operand.outline]

theorem Predicate.outline_composed : ∀ p : Predicate, (∀ v ∈ p.verbatims, V v) →
    Composed V p.outline
  | ⟨column, comparison, operand⟩, h => by
    simp only [Predicate.verbatims, List.forall_mem_append] at h
    have ho := Operand.outline_composed column.name comparison operand h.2
    rw [Predicate.outline]
    refine column.outline_composed.append (.cons_comparison h.1 ?_)
    split
    · exact .nil
    · cases hq : operand.outline column.name comparison with
      | none => exact .nil
      | some ps => exact .cons_fixed (by decide) (ho ps hq)

theorem Junction.outline_composed : ∀ j : Junction, (∀ v ∈ j.verbatims, V v) →
    Composed V j.outline
  | ⟨connective, members⟩, h => by
    simp only [Junction.verbatims, List.forall_mem_append] at h
    exact connective.outline_composed h.1 (Condition.outlineAll_composed members h.2)

theorem Condition.outline_composed : ∀ c : Condition, (∀ v ∈ c.verbatims, V v) →
    Composed V c.outline
  | .predicate p, h => Predicate.outline_composed p h
  | .junction j, h => Junction.outline_composed j h

theorem Condition.outlineAll_composed : ∀ cs : List Condition,
    (∀ v ∈ Condition.verbatimsAll cs, V v) → ∀ ps ∈ Condition.outlineAll cs, Composed V ps
  | [], _ => by simp [Condition.outlineAll]
  | c :: cs, h => by
    simp only [Condition.verbatimsAll, List.forall_mem_append] at h
    simp only [Condition.outlineAll, List.forall_mem_cons]
    exact ⟨Condition.outline_composed c h.1, Condition.outlineAll_composed cs h.2⟩

/-- A statement is made of fixed texts and its verbatim texts. -/
theorem Query.outline_composed : ∀ q : Query, (∀ v ∈ q.verbatims, V v) → Composed V q.outline
  | ⟨_, _, _, _, calls, joins, conditions, groupings, sortKeys, _, _⟩, h => by
    obtain ⟨hc, hj, hw, hg, hs⟩ := Query.forall_verbatims.1 h
    have hjs : ∀ ps ∈ joins.map Join.outline, Composed V ps := by
      simpa using fun j hm => j.outline_composed (hj j hm)
    have hf := Query.filterParts_composed (Condition.outlineAll_composed conditions hw)
    rw [Query.outline]
    apply Composed.separated (.fixed (by decide))
    simp only [List.forall_mem_append]
    exact ⟨⟨⟨Query.openingParts_composed _ hc, hjs⟩, hf⟩, Query.tailParts_composed _ hg hs⟩

end

section

variable {P : Char → Prop} (hP : ∀ c, Text.isOrdinary c → P c)

include hP

theorem Text.over_of_isFixed {s : String} (h : Text.isFixed s) : ∀ x ∈ s.toList, P x := by
  intro x hx
  have hf := List.all_eq_true.1 h x hx
  simp only [Bool.and_eq_true] at hf
  exact hP x hf.1.1

/-- What holds of ordinary characters and of the verbatim texts holds outside of names and slots. -/
theorem Piece.Composed.over {ps : List (Piece String)} (h : Composed (·.Over P) ps) :
    ∀ p ∈ ps, p.Over P := by
  induction h with
  | nil => simp
  | name s => simp
  | slot mark => simp
  | @comparison c h =>
    rw [List.forall_mem_singleton]
    cases c with
    | verbatim sql =>
      simpa [Comparison.verbatims, Comparison.keyword, Verbatim.Over, Piece.Over] using h
    | _ => exact Text.over_word hP (by decide)
  | fixed h =>
    rw [List.forall_mem_singleton]
    exact Text.over_of_isFixed hP h
  | verbatim h before after hb ha =>
    rw [List.forall_mem_singleton, Piece.over_text]
    simp only [String.toList_append, List.forall_mem_append]
    exact ⟨⟨Text.over_of_isFixed hP hb, h⟩, Text.over_of_isFixed hP ha⟩
  | append _ _ ihp ihq => exact List.forall_mem_append.2 ⟨ihp, ihq⟩
  | enclosed _ ih =>
    have ho : (Piece.text "(" : Piece String).Over P := Text.over_word hP (by decide)
    have hc : (Piece.text ")" : Piece String).Over P := Text.over_word hP (by decide)
    simpa [ho, hc, or_imp, forall_and] using ih

theorem Query.outline_over (q : Query) (h : ∀ v ∈ q.verbatims, v.Over P) :
    ∀ p ∈ q.outline, p.Over P := (q.outline_composed h).over hP

end

end SqlRender
