import SqlRender.Proofs.Blanks
import SqlRender.Proofs.Renumbering

/-!
# Absent parts leave no trace

A statement is built from tidy rows in the ways that keep them tidy, and an absent part is no row at
all. So a blank stands between two parts and nowhere else, whichever clauses, operators, operands
and directions are absent, as long as the verbatim texts are tidy themselves.
-/
namespace SqlRender

open Piece (Tidy separated tidy_word tidy_text tidy_name tidy_slot)
open Text (chars)

variable {s : Shipped} {strict : Bool}

theorem Column.outline_tidy (c : Column) : Tidy s strict c.outline := by
  rcases c with ⟨_ | table, name⟩
  · exact tidy_name name
  · intro n
    have ht : Tidy s strict [.name table] := tidy_name table
    have hn : Tidy s strict [.name name] := tidy_name name
    simpa [Column.outline, chars] using (ht n).dotted (hn n)

mutual

theorem Call.outlineBody_tidy : ∀ c : Call, c.IsSound → (∀ v ∈ c.verbatims, v.IsTidy strict) →
    Tidy s strict c.outlineBody
  | ⟨function, arguments, label⟩, h, hv => by
    rcases h with ⟨_, hne, ha⟩
    simp only [Call.verbatims, List.forall_mem_cons] at hv
    have hf : Text.Tidy strict (chars function) := hv.1 hne
    have hs := Argument.outlineAll_tidy arguments ha hv.2
    rw [Call.outlineBody]
    cases arguments with
    | nil => exact Tidy.applied_nil hf
    | cons a as =>
      rw [List.cons_append]
      exact Tidy.applied hf (Tidy.listed (by simp [Argument.outlineAll]) hs)

theorem Argument.outline_tidy : ∀ a : Argument, a.IsSound →
    (∀ v ∈ a.verbatims, v.IsTidy strict) → Tidy s strict a.outline
  | .column c, _, _ => c.outline_tidy
  | .call c, h, hv => by
    cases h with
    | call h => exact Call.outlineBody_tidy c h hv
  | .wildcard, _, _ => tidy_word (by decide)

theorem Argument.outlineAll_tidy : ∀ as : List Argument, (∀ a ∈ as, a.IsSound) →
    (∀ v ∈ Argument.verbatimsAll as, v.IsTidy strict) →
    ∀ ps ∈ Argument.outlineAll as, Tidy s strict ps
  | [], _, _ => by simp [Argument.outlineAll]
  | a :: as, h, hv => by
    simp only [Argument.verbatimsAll, List.forall_mem_append] at hv
    rw [List.forall_mem_cons] at h
    simp only [Argument.outlineAll, List.forall_mem_cons]
    exact ⟨Argument.outline_tidy a h.1 hv.1, Argument.outlineAll_tidy as h.2 hv.2⟩

end

theorem Call.outline_tidy {c : Call} (h : c.IsSound) (hv : ∀ v ∈ c.verbatims, v.IsTidy strict) :
    Tidy s strict c.outline := by
  have hb := c.outlineBody_tidy h hv (s := s)
  unfold Call.outline
  cases c.label with
  | none => simpa using hb
  | some label =>
    exact Tidy.worded (w := "AS") (Text.tidy_of_isTidy (by decide)) hb (tidy_name label)

/-- A text that is not blank is not empty. -/
theorem Verbatim.IsTidy.of_visible {v : Verbatim} (h : v.IsTidy strict)
    (hb : Text.isBlank v.text = false) : Text.Tidy strict (chars v.text) := by
  apply h
  intro he
  rw [he] at hb
  cases hb

theorem JoinMethod.keyword_tidy {m : JoinMethod}
    (h : ∀ sql, m = .verbatim sql → Text.isBlank sql = false)
    (hv : ∀ v ∈ m.verbatims, v.IsTidy strict) : Text.Tidy strict (chars m.keyword) := by
  cases m with
  | verbatim sql =>
    have ht : Verbatim.IsTidy strict ⟨.joinMethod, sql⟩ := by
      simpa [JoinMethod.verbatims] using hv
    have hj : Text.Tidy strict (chars "JOIN") := Text.tidy_of_isTidy (by decide)
    have hs := (ht.of_visible (h sql rfl)).spaced hj
    have hc : chars (sql ++ " JOIN") = chars sql ++ .char ' ' :: chars "JOIN" := by simp [chars]
    rw [JoinMethod.keyword, hc]
    exact hs
  | _ => exact Text.tidy_of_isTidy (by decide)

theorem Join.outline_tidy {j : Join} (h : j.IsSound)
    (hv : ∀ v ∈ j.method.verbatims, v.IsTidy strict) : Tidy s strict j.outline := by
  rcases Option.ne_none_iff_exists'.1 h.qualified with ⟨table, ht⟩
  have hm : Tidy s strict [.text j.method.keyword] :=
    tidy_text (JoinMethod.keyword_tidy h.method hv)
  have hon := Tidy.worded (w := "ON") (Text.tidy_of_isTidy (by decide))
    (hm.spaced (tidy_name table)) j.own.outline_tidy
  have heq := Tidy.worded (w := "=") (Text.tidy_of_isTidy (by decide)) hon j.foreign.outline_tidy
  rw [Join.outline, ht]
  simpa using heq

theorem Grouping.outline_tidy {g : Grouping} (h : g.IsSound)
    (hv : ∀ v ∈ g.verbatims, v.IsTidy strict) : Tidy s strict g.outline := by
  cases g with
  | column c => exact c.outline_tidy
  | verbatim sql =>
    have ht : Verbatim.IsTidy strict ⟨.grouping, sql⟩ := by simpa [Grouping.verbatims] using hv
    exact tidy_text (ht.of_visible h)

theorem SortKey.outline_tidy {k : SortKey} (hv : ∀ v ∈ k.direction.verbatims, v.IsTidy strict) :
    Tidy s strict k.outline := by
  have hd : k.direction.keyword.isEmpty = false →
      Text.Tidy strict (chars k.direction.keyword) := by
    intro he
    cases hk : k.direction with
    | verbatim sql =>
      have ht : Verbatim.IsTidy strict ⟨.direction, sql⟩ := by
        simpa [hk, Direction.verbatims] using hv
      apply ht
      rintro rfl
      simp [hk, Direction.keyword] at he
    | _ => exact Text.tidy_of_isTidy (by decide)
  unfold SortKey.outline
  split
  · simpa using k.column.outline_tidy
  · next he => exact k.column.outline_tidy.spaced (tidy_text (hd (by simpa using he)))

theorem Connective.outline_tidy {k : Connective} {pss : List (List (Piece String))}
    (hb : Text.isBlank k.keyword = false) (hv : ∀ v ∈ k.verbatims, v.IsTidy strict)
    (hne : pss ≠ []) (h : ∀ ps ∈ pss, Tidy s strict ps) : Tidy s strict (k.outline pss) := by
  have hk : Text.Tidy strict (chars k.keyword) := by
    cases k with
    | verbatim sql =>
      have ht : Verbatim.IsTidy strict ⟨.connective, sql⟩ := by
        simpa [Connective.verbatims] using hv
      exact ht.of_visible hb
    | _ => exact Text.tidy_of_isTidy (by decide)
  exact (Tidy.separated (fun _ _ => Tidy.worded hk) hne h).enclosed

namespace Query

variable {q : Query}

theorem projectionOutline_tidy (h : ∀ c ∈ q.calls, c.IsSound)
    (hv : ∀ c ∈ q.calls, ∀ v ∈ c.verbatims, v.IsTidy strict) :
    Tidy s strict q.projectionOutline := by
  unfold projectionOutline
  split
  · split
    · exact tidy_word (by decide)
    · intro n
      have ht : Tidy s strict [.name q.table] := tidy_name q.table
      have hw : Tidy s strict [.text "*"] := tidy_word (by decide)
      simpa [chars] using (ht n).dotted (hw n)
  · next hne =>
    apply Tidy.listed hne
    simp only [List.mem_append, List.mem_map]
    rintro _ (⟨c, -, rfl⟩ | ⟨c, hc, rfl⟩)
    · exact c.outline_tidy
    · exact Call.outline_tidy (h c hc) (hv c hc)

theorem openingParts_tidy (h : q.IsSound)
    (hv : ∀ c ∈ q.calls, ∀ v ∈ c.verbatims, v.IsTidy strict) :
    ∀ ps ∈ q.openingParts, Tidy s strict ps := by
  rcases h with ⟨-, hwrites, -, -, -, hcalls⟩
  have hverb : ∀ v : Verb, Tidy s strict [.text v.keyword] := by
    intro v
    cases v <;> exact tidy_word (by decide)
  have ht : Tidy s strict [.name q.table] := tidy_name q.table
  unfold openingParts
  cases hq : q.verb with
  | select =>
    have hd : Tidy s strict [.text "DISTINCT"] := tidy_word (by decide)
    have hf : Tidy s strict [.text "FROM ", .name q.table] :=
      Tidy.headed (w := "FROM") (by decide) ht
    have hp : Tidy s strict q.projectionOutline :=
      projectionOutline_tidy (fun c hc => (hcalls hq c hc).1) hv
    cases q.distinct <;> simp [hverb, hd, hf, hp]
  | insert =>
    have hne : q.columns ≠ [] := hwrites (by simp [hq, Verb.writesColumns])
    have hn : ∀ ps ∈ q.columns.map fun c => [.name c.name], Tidy s strict ps :=
      List.forall_mem_map.2 fun c _ => tidy_name c.name
    have hs : ∀ ps ∈ q.columns.map fun c => [.slot c.name], Tidy s strict ps :=
      List.forall_mem_map.2 fun c _ => tidy_slot c.name
    have hw : Tidy s strict [.text "VALUES"] := tidy_word (by decide)
    simp only [List.forall_mem_cons, List.not_mem_nil, false_implies, implies_true, and_true]
    exact ⟨hverb _, ht, (Tidy.listed (by simpa using hne) hn).enclosed, hw,
      (Tidy.listed (by simpa using hne) hs).enclosed⟩
  | update =>
    have hne : q.columns ≠ [] := hwrites (by simp [hq, Verb.writesColumns])
    have ha : ∀ ps ∈ q.columns.map fun c => [.name c.name, .text " = ", .slot c.name],
        Tidy s strict ps :=
      List.forall_mem_map.2 fun c _ => Tidy.worded (w := "=") (Text.tidy_of_isTidy (by decide))
        (tidy_name c.name) (tidy_slot c.name)
    have hw : Tidy s strict [.text "SET"] := tidy_word (by decide)
    simp only [List.forall_mem_cons, List.not_mem_nil, false_implies, implies_true, and_true]
    exact ⟨hverb _, ht, hw, Tidy.listed (by simpa using hne) ha⟩
  | delete => simp [hverb, ht]

theorem filterParts_tidy {pss : List (List (Piece String))} (h : ∀ ps ∈ pss, Tidy s strict ps) :
    ∀ ps ∈ filterParts pss, Tidy s strict ps := by
  cases pss with
  | nil => simp [filterParts]
  | cons ps pss =>
    have ha : Tidy s strict (Connective.and.outline (ps :: pss)) :=
      Connective.outline_tidy (by decide) (by simp [Connective.verbatims]) (by simp) h
    have hw : Tidy s strict [.text "WHERE"] := tidy_word (by decide)
    simpa [filterParts, hw] using ha

theorem listPart_tidy {w : String} (hw : Text.isTidy w) {pss : List (List (Piece String))}
    (h : ∀ ps ∈ pss, Tidy s strict ps) : ∀ ps ∈ listPart (w ++ " ") pss, Tidy s strict ps := by
  cases pss with
  | nil => simp [listPart]
  | cons ps pss => simpa [listPart] using Tidy.headed hw (Tidy.listed (by simp) h)

theorem countPart_tidy {w : String} (hw : Text.isTidy w) (count : Option UInt64) :
    ∀ ps ∈ countPart (w ++ " ") count, Tidy s strict ps := by
  cases count with
  | none => simp [countPart]
  | some n =>
    have hn : Text.Tidy strict (chars n.toNat.repr) := by
      apply Text.tidy_of_forall
      · simp [chars]
      · rw [chars, List.forall_mem_map]
        exact fun c hc => Text.isSolid_of_isDigit (Text.isDigit_of_mem_repr hc)
    simpa [countPart] using Tidy.headed hw (tidy_text hn)

theorem tailParts_tidy (hg : ∀ g ∈ q.groupings, g.IsSound)
    (hv : ∀ g ∈ q.groupings, ∀ v ∈ g.verbatims, v.IsTidy strict)
    (hk : ∀ k ∈ q.sortKeys, ∀ v ∈ k.direction.verbatims, v.IsTidy strict) :
    ∀ ps ∈ q.tailParts, Tidy s strict ps := by
  have hgs : ∀ ps ∈ q.groupings.map Grouping.outline, Tidy s strict ps := by
    simpa using fun g hm => Grouping.outline_tidy (hg g hm) (hv g hm)
  have hks : ∀ ps ∈ q.sortKeys.map SortKey.outline, Tidy s strict ps := by
    simpa using fun k hm => SortKey.outline_tidy (hk k hm)
  simp only [tailParts, List.forall_mem_append]
  exact ⟨⟨⟨listPart_tidy (w := "GROUP BY") (by decide) hgs,
    listPart_tidy (w := "ORDER BY") (by decide) hks⟩,
    countPart_tidy (w := "LIMIT") (by decide) _⟩,
    countPart_tidy (w := "OFFSET") (by decide) _⟩

end Query

mutual

theorem Operand.outline_tidy {comparison : Comparison} (column : String) : ∀ o : Operand,
    o.IsSound comparison → (∀ v ∈ o.verbatims, v.IsTidy strict) →
    ∀ ps ∈ o.outline column comparison, Tidy s strict ps
  | .placeholders count, h, _ => by
    rcases h with ⟨hc, -, -⟩
    have hs : ∀ mark, Tidy s strict [.slot mark] := tidy_slot
    simp only [Operand.outline, Option.mem_some_iff, forall_eq']
    split
    · split
      · exact Tidy.worded (w := "AND") (Text.tidy_of_isTidy (by decide)) (hs _) (hs _)
      · exact hs column
    · apply Tidy.enclosed
      apply Tidy.listed
      · have hn : count.toNat ≠ 0 := fun hz => hc (UInt64.toNat_inj.1 hz)
        simpa using hn
      · simpa [List.mem_replicate] using fun _ => hs column
  | .column c, _, _ => by simpa [Operand.outline] using c.outline_tidy
  | .subquery q, h, hv => by
    cases h with
    | subquery _ h =>
      have hq := Query.outline_tidy q h (by simpa only [Operand.verbatims] using hv)
      simpa [Operand.outline] using hq.enclosed
  | .verbatim sql, _, hv => by
    have ht : Verbatim.IsTidy strict ⟨.operand, sql⟩ := by simpa [Operand.verbatims] using hv
    by_cases he : sql = ""
    · simp [Operand.outline, he]
    · simpa [Operand.outline, he] using tidy_text (ht he)
  | .absent, _, _ => by simp [Operand.outline]

theorem Condition.outline_tidy : ∀ c : Condition, c.IsSound →
    (∀ v ∈ c.verbatims, v.IsTidy strict) → Tidy s strict c.outline
  | .predicate ⟨column, comparison, operand⟩, h, hv => by
    simp only [Condition.verbatims, Predicate.verbatims, List.forall_mem_append] at hv
    rcases h with ⟨-, ho⟩ | _
    have hc : Tidy s strict (column.outline ++ [.comparison comparison]) :=
      Tidy.comparison hv.1 column.outline_tidy
    rw [Condition.outline, Predicate.outline]
    cases hn : comparison.isNullCheck with
    | true => simpa using hc
    | false =>
      have hs := Operand.outline_tidy column.name operand (ho hn) hv.2
      cases hq : operand.outline column.name comparison with
      | none => simpa using hc
      | some ps => simpa using hc.spaced (hs ps hq)
  | .junction ⟨k, members⟩, h, hv => by
    simp only [Condition.verbatims, Junction.verbatims, List.forall_mem_append] at hv
    rcases h with _ | ⟨hne, hb, hm⟩
    have hs := Condition.outlineAll_tidy members hm hv.2
    have hne : Condition.outlineAll members ≠ [] := by
      simpa [Condition.outlineAll_eq_map] using hne
    exact Connective.outline_tidy hb hv.1 hne hs

theorem Condition.outlineAll_tidy : ∀ cs : List Condition, (∀ c ∈ cs, c.IsSound) →
    (∀ v ∈ Condition.verbatimsAll cs, v.IsTidy strict) →
    ∀ ps ∈ Condition.outlineAll cs, Tidy s strict ps
  | [], _, _ => by simp [Condition.outlineAll]
  | c :: cs, h, hv => by
    simp only [Condition.verbatimsAll, List.forall_mem_append] at hv
    rw [List.forall_mem_cons] at h
    simp only [Condition.outlineAll, List.forall_mem_cons]
    exact ⟨Condition.outline_tidy c h.1 hv.1, Condition.outlineAll_tidy cs h.2 hv.2⟩

/-- Every part of a sound statement is tidy, and a part that is absent is no part. -/
theorem Query.outline_tidy : ∀ q : Query, q.IsSound → (∀ v ∈ q.verbatims, v.IsTidy strict) →
    Tidy s strict q.outline
  | ⟨verb, table, distinct, columns, calls, joins, conditions, groupings, sortKeys, limit,
      offset⟩, h, hv => by
    obtain ⟨hvc, hvj, hvw, hvg, hvs⟩ := Query.forall_verbatims.1 hv
    have ho := Query.openingParts_tidy (s := s) h hvc
    rcases h with ⟨-, -, -, -, -, -, hj, hw, hg, -⟩
    have hjs : ∀ ps ∈ joins.map Join.outline, Tidy s strict ps := by
      simpa using fun j hm => Join.outline_tidy (hj j hm) (hvj j hm)
    have hcs : ∀ ps ∈ Condition.outlineAll conditions, Tidy s strict ps :=
      Condition.outlineAll_tidy conditions hw hvw
    have hf := Query.filterParts_tidy hcs
    rw [Query.outline]
    apply Tidy.separated fun _ _ => Tidy.spaced
    · cases verb <;> simp [Query.openingParts]
    · simp only [List.forall_mem_append]
      exact ⟨⟨⟨ho, hjs⟩, hf⟩, Query.tailParts_tidy hg hvg hvs⟩

end

/-- Nothing that is absent leaves a trace in the text. If the verbatim texts have no blanks at their
ends and none side by side, empty ones included, then outside of its names the statement has no
blank at its ends and none side by side; and if they have no brackets and no commas either, then the
statement has no blank after an opening bracket, and none before a closing bracket or a comma. -/
theorem Query.render_tidy {s : Shipped} {q : Query} {r : Rendered}
    (h : q.render s.dialect = .ok r) (hq : ∀ v ∈ q.verbatims, v.Over (· ≠ s.dialect.quote))
    (ht : ∀ v ∈ q.verbatims, Text.IsTrim v.text) :
    ∃ as, Text.atoms s.dialect.quote r.sql.toList = some as ∧
      as.head? ≠ some (.char ' ') ∧ as.getLast? ≠ some (.char ' ') ∧
      (as.IsChain fun a b => ¬(a = .char ' ' ∧ b = .char ' ')) ∧
      ((∀ v ∈ q.verbatims, v.Over fun c => c ≠ '(' ∧ c ≠ ')' ∧ c ≠ ',') →
        as.IsChain fun a b => ¬(a = .char '(' ∧ b = .char ' ') ∧
          ¬(a = .char ' ' ∧ (b = .char ')' ∨ b = .char ','))) := by
  have hs := Query.isSound_of_render h
  have hplain : Tidy s false q.outline := Query.outline_tidy q hs fun v hv =>
    Verbatim.isTidy_of_isTrim (ht v hv) (by simp)
  rcases (hplain 0).ends with ⟨hhead, hlast, hchain⟩
  refine ⟨_, Query.atoms_render h hq, hhead, hlast, hchain.imp ?_, fun hv => ?_⟩
  · exact fun a b hab hb => hab (.inl hb)
  · have hstrict : Tidy s true q.outline := Query.outline_tidy q hs fun v hm =>
      Verbatim.isTidy_of_isTrim (ht v hm) fun _ => hv v hm
    apply (hstrict 0).ends.2.2.imp
    exact fun a b hab => ⟨fun hb => hab (.inr ⟨rfl, .inl hb⟩), fun hb => hab (.inr ⟨rfl, .inr hb⟩)⟩

def Query.sparse : Query :=
  ((((Query.select "a b").computed ⟨"F", [], none⟩).filter
    (.predicate ⟨.bare "c ", .verbatim "", .verbatim ""⟩)).filter
      (.predicate ⟨.bare "d", .verbatim "~", .absent⟩)).orderBy ⟨.bare "(", .verbatim ""⟩

theorem Query.render_tidy_sparse : ∃ r as, Query.sparse.render Shipped.sqlite.dialect = .ok r ∧
    Text.atoms '"' r.sql.toList = some as ∧
    as.IsChain fun a b => ¬(a = .char ' ' ∧ b = .char ' ') := by
  have hq : ∀ v ∈ Query.sparse.verbatims, v.Over (· ≠ '"') := by
    have he : Query.sparse.verbatims =
        [⟨.function, "F"⟩, ⟨.operator, ""⟩, ⟨.operand, ""⟩, ⟨.operator, "~"⟩,
          ⟨.direction, ""⟩] := rfl
    simp [he, Verbatim.Over]
  have ht : ∀ v ∈ Query.sparse.verbatims, Text.IsTrim v.text := by decide
  rcases Query.render_tidy (s := .sqlite) (q := Query.sparse) rfl hq ht with ⟨as, ha, -, -, hc, -⟩
  exact ⟨_, as, rfl, ha, hc⟩

end SqlRender
