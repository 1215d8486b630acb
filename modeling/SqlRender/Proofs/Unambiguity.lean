import SqlRender.Proofs.Conditions

/-!
# Unambiguous statements

Two queries with the same text are the same query, up to the parts that are never written. The
queries have no verbatim text but words as names of functions, and no defect. What follows a
statement is the end or a closing parenthesis.
-/
namespace SqlRender

open Text (Atom chars Ends Reads Undotted)
open Piece (trail)

namespace Query

theorem trail_filterParts (cs : List Condition) :
    trail (filterParts (Condition.outlineAll cs)) = if cs.isEmpty then [] else
      chars " WHERE " ++ Piece.row (Connective.and.outline (Condition.outlineAll cs)) := by
  cases cs with
  | nil => rfl
  | cons c cs => simp [filterParts, trail, Condition.outlineAll, chars]

theorem where_eq (cs : List Condition) : ∃ t, chars " WHERE " ++
    Piece.row (Connective.and.outline (Condition.outlineAll cs)) = chars " WHERE (" ++ t := by
  rw [Connective.row_outline]
  exact ⟨_, by simp [chars]; rfl⟩

theorem ends_filter (cs : List Condition) {r : List Atom} (hr : Ends closing r) :
    Ends (" WHERE (" :: closing) (trail (filterParts (Condition.outlineAll cs)) ++ r) := by
  rw [trail_filterParts]
  cases cs with
  | nil => exact hr.mono (by simp)
  | cons c cs =>
    rcases where_eq (c :: cs) with ⟨t, ht⟩
    rw [if_neg (by simp), ht, List.append_assoc]
    exact Ends.word (by simp) _

theorem reads_filter {cs ds : List Condition}
    (h : ∀ c ∈ cs, c.IsRead) (hc : ∀ c ∈ cs, c.IsPlain) (hd : ∀ d ∈ ds, d.IsPlain) {r s : List Atom}
    (hr : Ends closing r) (hs : Ends closing s)
    (he : trail (filterParts (Condition.outlineAll cs)) ++ r =
      trail (filterParts (Condition.outlineAll ds)) ++ s) :
    cs.map Condition.erase = ds.map Condition.erase ∧ r = s := by
  have hne : ∀ {r}, Ends closing r → ∀ (cs : List Condition) s, r ≠ chars " WHERE " ++
      Piece.row (Connective.and.outline (Condition.outlineAll cs)) ++ s := by
    intro r hr cs s
    obtain ⟨t, ht⟩ := where_eq cs
    rw [ht, List.append_assoc]
    exact hr.ne_append (by decide) (by decide) _
  have hand : ∀ v ∈ Connective.and.verbatims, v.IsWord := by simp [Connective.verbatims]
  rw [trail_filterParts, trail_filterParts] at he
  by_cases hcs : cs = []
  · by_cases hds : ds = []
    · subst hcs hds
      exact ⟨rfl, he⟩
    · simp only [hcs, List.isEmpty_nil, if_true, List.nil_append, List.isEmpty_iff, hds,
        if_false] at he
      exact absurd he (hne hr ds s)
  · by_cases hds : ds = []
    · simp only [hds, List.isEmpty_nil, if_true, List.nil_append, List.isEmpty_iff, hcs,
        if_false] at he
      exact absurd he.symm (hne hs cs r)
    · simp only [List.isEmpty_iff, hcs, hds, if_false, List.append_assoc] at he
      obtain ⟨hm, -, hrs⟩ := Connective.reads_members hand hand h hc hd hcs hds
        (List.append_cancel_left he)
      exact ⟨hm, hrs⟩

variable {q : Query}

theorem IsPlain.partDefects (h : q.IsPlain) : q.partDefects = [] := partDefects_of_defects h.2

theorem IsPlain.calls (h : q.IsPlain) : ∀ c ∈ q.calls, ∀ v ∈ c.verbatims, v.IsWord :=
  (forall_verbatims.1 h.1).1

theorem IsPlain.joins (h : q.IsPlain) : ∀ j ∈ q.joins, j.IsPlain := by
  intro j hj
  exact ⟨(forall_verbatims.1 h.1).2.1 j hj, joins_of_defects h.2 j hj⟩

theorem IsPlain.conditions (h : q.IsPlain) : ∀ c ∈ q.conditions, c.IsPlain :=
  Condition.forall_isPlain (forall_verbatims.1 h.1).2.2.1 (conditions_of_defects h.2)

theorem IsPlain.groupings (h : q.IsPlain) : ∀ g ∈ q.groupings, ∀ v ∈ g.verbatims, v.IsWord :=
  (forall_verbatims.1 h.1).2.2.2.1

theorem IsPlain.sortKeys (h : q.IsPlain) :
    ∀ k ∈ q.sortKeys, ∀ v ∈ k.direction.verbatims, v.IsWord :=
  (forall_verbatims.1 h.1).2.2.2.2

/-- The statement is read part by part, from the verb to the offset. -/
theorem reads_of (hc : ∀ c ∈ q.conditions, c.IsRead) (h : q.IsPlain) : q.IsRead := by
  intro q' r s h' hr hs he
  have ht := ends_tail q hr
  have ht' := ends_tail q' hs
  have hf := ends_filter q.conditions ht
  have hf' := ends_filter q'.conditions ht'
  simp only [row_outline, List.append_assoc] at he
  obtain ⟨hv, htable, hdistinct, hcolumns, hcalls, he⟩ := reads_opening h.partDefects
    h'.partDefects h.calls h'.calls (ends_joins h.joins hf) (ends_joins h'.joins hf') he
  rcases reads_joins h.joins h'.joins hf hf' he with ⟨hjoins, he⟩
  rcases reads_filter hc h.conditions h'.conditions ht ht' he with ⟨hconditions, he⟩
  obtain ⟨hgroupings, hsort, hlimit, hoffset, hrs⟩ := reads_tail h.groupings h'.groupings
    h.sortKeys h'.sortKeys hr hs he
  refine ⟨?_, hrs⟩
  cases q
  cases q'
  simp_all [erase, Condition.eraseAll_eq_map]

end Query

mutual

theorem Operand.reads (column : String) (comparison : Comparison) :
    ∀ o : Operand, o.IsPlain column comparison → o.IsRead column comparison
  | .absent, _ => Operand.reads_absent
  | .column _, h => Operand.reads_column h
  | .placeholders _, h => Operand.reads_placeholders h
  | .verbatim sql, h => absurd h (Operand.not_isPlain_verbatim sql)
  | .subquery q, h => Operand.reads_subquery (Query.reads q h.query) h

theorem Condition.reads : ∀ c : Condition, c.IsPlain → c.IsRead
  | .predicate ⟨column, comparison, operand⟩, h => by
    apply Condition.reads_predicate
    apply Predicate.reads
    · intro hn
      exact Operand.reads column.name comparison operand (Predicate.IsPlain.operand h hn)
    · exact h
  | .junction ⟨_, members⟩, h => by
    apply Condition.reads_junction _ h
    exact Condition.readsAll members h.junction.2.2

theorem Condition.readsAll : ∀ cs : List Condition, (∀ c ∈ cs, c.IsPlain) → ∀ c ∈ cs, c.IsRead
  | [], _ => by simp
  | c :: cs, h => by
    simp only [List.forall_mem_cons] at h ⊢
    exact ⟨Condition.reads c h.1, Condition.readsAll cs h.2⟩

theorem Query.reads : ∀ q : Query, q.IsPlain → q.IsRead
  | ⟨_, _, _, _, _, _, conditions, _, _, _, _⟩, h => by
    apply Query.reads_of _ h
    exact Condition.readsAll conditions h.conditions

end

theorem Query.atoms_general {q : Query} {r : Rendered} (h : q.render .general = .ok r)
    (hw : ∀ v ∈ q.verbatims, v.IsWord) :
    Text.atoms '\x60' r.sql.toList = some (Piece.row q.outline) := by
  have hv : ∀ v ∈ q.verbatims, v.Over (· ≠ Shipped.general.dialect.quote) := by
    rintro v hm c hc rfl
    have hq := (hw v hm).2.2 _ hc
    revert hq
    decide
  have ha := Query.atoms_render (s := .general) h hv
  rwa [Query.pieces, Piece.row_number] at ha

/-- Queries of one text are equal up to the parts that are never written, if both are accepted and
their only verbatim texts are words as names of functions. -/
theorem Query.erase_eq_of_sql_eq {q₁ q₂ : Query} {r₁ r₂ : Rendered}
    (h₁ : q₁.render .general = .ok r₁) (h₂ : q₂.render .general = .ok r₂)
    (w₁ : ∀ v ∈ q₁.verbatims, v.IsWord) (w₂ : ∀ v ∈ q₂.verbatims, v.IsWord)
    (h : r₁.sql = r₂.sql) : q₁.erase = q₂.erase := by
  have hd₁ : q₁.defects = [] := (Query.render_eq_ok.1 h₁).1
  have hd₂ : q₂.defects = [] := (Query.render_eq_ok.1 h₂).1
  have ha := Query.atoms_general h₁ w₁
  rw [h, Query.atoms_general h₂ w₂] at ha
  have hrow : Piece.row q₁.outline ++ [] = Piece.row q₂.outline ++ [] := by simpa using ha.symm
  exact (Query.reads q₁ ⟨w₁, hd₁⟩ q₂ [] [] ⟨w₂, hd₂⟩ Ends.nil Ends.nil hrow).1

def Query.missing (k : Connective) (o : Operand) : Query :=
  ((Query.select "t").computed Call.countAll).filter
    (.junction ⟨k, [.predicate ⟨.bare "x", .isNull, o⟩]⟩)

theorem Query.erase_eq_of_sql_eq_missing : ∃ r₁ r₂,
    (Query.missing .or (.placeholders 0)).render .general = .ok r₁ ∧
    (Query.missing .and .absent).render .general = .ok r₂ ∧ r₁.sql = r₂.sql ∧
    (Query.missing .or (.placeholders 0)).erase = (Query.missing .and .absent).erase := by
  have hw : ∀ v ∈ [(⟨.function, "COUNT"⟩ : Verbatim)], v.IsWord := by
    simp only [List.forall_mem_singleton]
    have hc : "COUNT".toList.all Text.isWordChar := by decide
    exact ⟨rfl, by decide, List.all_eq_true.1 hc⟩
  have h₁ : (Query.missing .or (.placeholders 0)).render .general = .ok _ := rfl
  have h₂ : (Query.missing .and .absent).render .general = .ok _ := rfl
  exact ⟨_, _, h₁, h₂, rfl, Query.erase_eq_of_sql_eq h₁ h₂ hw hw rfl⟩

end SqlRender
