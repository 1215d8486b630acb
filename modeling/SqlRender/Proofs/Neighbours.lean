import SqlRender.Proofs.Outline
import Mathlib.Data.List.Chain

/-!
# Neighbouring pieces

Names, operators and slots never stand side by side in a statement. After each of them comes an
operator with its blank, a fixed text that begins with a sign, or the end. So no name runs into
another quote character, and no number of a slot into further digits.
-/
namespace SqlRender

namespace Piece

variable {σ : Type}

def isText : Piece σ → Bool
  | .text _ => true
  | _ => false

/-- The characters with which a text after a name, an operator or a slot begins. -/
def signs : List Char := [' ', ')', ',', '.']

/-- The piece is an operator or a text that begins with one of the signs. -/
def isDetached : Piece σ → Bool
  | .text s => s.toList.head?.any signs.contains
  | .comparison _ => true
  | .name _ | .slot _ => false

/-- Only texts are followed by anything else than a detached piece. -/
def Apart (ps : List (Piece σ)) : Prop := ps.IsChain fun p q => p.isText ∨ q.isDetached

@[simp] theorem apart_nil : Apart ([] : List (Piece σ)) := .nil

@[simp] theorem apart_singleton (p : Piece σ) : Apart [p] := .singleton p

@[simp] theorem apart_text {s : String} {ps : List (Piece σ)} :
    Apart (.text s :: ps) ↔ Apart ps := by
  simp [Apart, List.isChain_cons, isText]

theorem apart_cons {p : Piece σ} {ps : List (Piece σ)} (h : ∀ q ∈ ps.head?, q.isDetached) :
    Apart (p :: ps) ↔ Apart ps := by
  simp only [Apart, List.isChain_cons, and_iff_right_iff_imp]
  exact fun _ q hq => .inr (h q hq)

theorem apart_cons_text {p : Piece σ} {s : String} {ps : List (Piece σ)}
    (h : (text s : Piece σ).isDetached) : Apart (p :: .text s :: ps) ↔ Apart ps := by
  rw [apart_cons (by simpa using h), apart_text]

theorem apart_append {ps qs : List (Piece σ)} (h : ∀ q ∈ qs.head?, q.isDetached) :
    Apart (ps ++ qs) ↔ Apart ps ∧ Apart qs := by
  simp only [Apart, List.isChain_append, and_congr_right_iff, and_iff_left_iff_imp]
  exact fun _ _ _ _ q hq => .inr (h q hq)

theorem apart_separated {separator : String}
    (hs : (text separator : Piece σ).isDetached) {pss : List (List (Piece σ))}
    (h : ∀ ps ∈ pss, Apart ps) : Apart (separated separator pss) := by
  induction pss with
  | nil => simp
  | cons ps pss ih =>
    have hp := h ps (by simp)
    have hps := ih fun qs hq => h qs (by simp [hq])
    cases pss with
    | nil => simpa using hp
    | cons qs pss =>
      rw [separated_cons_cons, apart_append (by simpa using hs), apart_text]
      exact ⟨hp, hps⟩

theorem apart_listed {pss : List (List (Piece σ))} (h : ∀ ps ∈ pss, Apart ps) :
    Apart (separated ", " pss) :=
  apart_separated rfl h

/-- A row in parentheses. -/
theorem apart_enclosed {ps : List (Piece σ)} (h : Apart ps) :
    Apart (.text "(" :: ps ++ [.text ")"]) := by
  rw [List.cons_append, apart_text, apart_append (by simp [isDetached, signs])]
  exact ⟨h, apart_singleton _⟩

end Piece

open Piece (Apart apart_append apart_text apart_cons_text apart_listed apart_enclosed isDetached
  signs)

theorem Column.outline_apart (c : Column) : Apart c.outline := by
  rcases c with ⟨_ | table, name⟩
  · exact Piece.apart_singleton _
  · rw [Column.outline, apart_cons_text rfl]
    exact Piece.apart_singleton _

mutual

theorem Call.outlineBody_apart : ∀ c : Call, Apart c.outlineBody
  | ⟨function, arguments, _⟩ => by
    rw [Call.outlineBody, List.cons_append, apart_text]
    exact apart_enclosed (apart_listed (Argument.outlineAll_apart arguments))

theorem Argument.outline_apart : ∀ a : Argument, Apart a.outline
  | .column c => c.outline_apart
  | .call c => Call.outlineBody_apart c
  | .wildcard => Piece.apart_singleton _

theorem Argument.outlineAll_apart : ∀ as : List Argument,
    ∀ ps ∈ Argument.outlineAll as, Apart ps
  | [] => by simp [Argument.outlineAll]
  | a :: as => by
    simp only [Argument.outlineAll, List.forall_mem_cons]
    exact ⟨Argument.outline_apart a, Argument.outlineAll_apart as⟩

end

theorem Call.outline_apart (c : Call) : Apart c.outline := by
  have hb := c.outlineBody_apart
  unfold Call.outline
  cases c.label with
  | none => simpa using hb
  | some label =>
    rw [apart_append (by simp [isDetached, signs]), apart_text]
    exact ⟨hb, Piece.apart_singleton _⟩

theorem Join.outline_apart (j : Join) : Apart j.outline := by
  have ht : Apart (j.foreign.table.toList.map .name : List (Piece String)) := by
    cases j.foreign.table <;> simp
  have hf : Apart (.text " = " :: j.foreign.outline) := apart_text.2 j.foreign.outline_apart
  have ho : Apart (.text " ON " :: j.own.outline) := apart_text.2 j.own.outline_apart
  simp only [Join.outline, List.cons_append, apart_text]
  rw [apart_append (by simp [isDetached, signs]), apart_append (by simp [isDetached, signs])]
  exact ⟨⟨ht, ho⟩, hf⟩

theorem Grouping.outline_apart (g : Grouping) : Apart g.outline := by
  cases g with
  | column c => exact c.outline_apart
  | verbatim sql => exact Piece.apart_singleton _

theorem SortKey.outline_apart (k : SortKey) : Apart k.outline := by
  unfold SortKey.outline
  split
  · simpa using k.column.outline_apart
  · rw [apart_append (by simp [isDetached, signs])]
    exact ⟨k.column.outline_apart, by simp⟩

theorem Connective.outline_apart (k : Connective) {pss : List (List (Piece String))}
    (h : ∀ ps ∈ pss, Apart ps) : Apart (k.outline pss) :=
  apart_enclosed (Piece.apart_separated (by simp [isDetached, signs]) h)

namespace Query

theorem projectionOutline_apart (q : Query) : Apart q.projectionOutline := by
  unfold projectionOutline
  split
  · split
    · exact Piece.apart_singleton _
    · rw [apart_cons_text rfl]
      exact Piece.apart_nil
  · apply apart_listed
    simp only [List.mem_append, List.mem_map]
    rintro _ (⟨c, -, rfl⟩ | ⟨c, -, rfl⟩)
    · exact c.outline_apart
    · exact c.outline_apart

theorem openingParts_apart (q : Query) : ∀ ps ∈ q.openingParts, Apart ps := by
  unfold openingParts
  cases q.verb with
  | select => cases q.distinct <;> simp [projectionOutline_apart]
  | insert =>
    have hn : Apart (.text "(" :: Piece.separated ", " (q.columns.map fun c => [.name c.name]) ++
        [.text ")"] : List (Piece String)) := apart_enclosed (apart_listed (by simp))
    have hs : Apart (.text "(" :: Piece.separated ", " (q.columns.map fun c => [.slot c.name]) ++
        [.text ")"]) := apart_enclosed (apart_listed (by simp))
    simpa only [List.forall_mem_cons, List.not_mem_nil, false_implies, implies_true,
      Piece.apart_singleton, true_and, and_true] using ⟨hn, hs⟩
  | update =>
    have ha : Apart (Piece.separated ", "
        (q.columns.map fun c => [.name c.name, .text " = ", .slot c.name])) := by
      apply apart_listed
      simp only [List.forall_mem_map]
      exact fun c _ => (apart_cons_text rfl).2 (Piece.apart_singleton _)
    simpa using ha
  | delete => simp

theorem filterParts_apart {pss : List (List (Piece String))} (h : ∀ ps ∈ pss, Apart ps) :
    ∀ ps ∈ filterParts pss, Apart ps := by
  cases pss with
  | nil => simp [filterParts]
  | cons ps pss => simpa [filterParts] using Connective.and.outline_apart h

theorem listPart_apart (words : String) {pss : List (List (Piece String))}
    (h : ∀ ps ∈ pss, Apart ps) : ∀ ps ∈ listPart words pss, Apart ps := by
  cases pss with
  | nil => simp [listPart]
  | cons ps pss => simpa [listPart] using apart_listed h

theorem tailParts_apart (q : Query) : ∀ ps ∈ q.tailParts, Apart ps := by
  have hg : ∀ ps ∈ q.groupings.map Grouping.outline, Apart ps := by simp [Grouping.outline_apart]
  have hs : ∀ ps ∈ q.sortKeys.map SortKey.outline, Apart ps := by simp [SortKey.outline_apart]
  have hc : ∀ words count, ∀ ps ∈ countPart words count, Apart ps := by
    rintro words (_ | n) <;> simp [countPart]
  simp only [tailParts, List.forall_mem_append]
  exact ⟨⟨⟨listPart_apart _ hg, listPart_apart _ hs⟩, hc _ _⟩, hc _ _⟩

end Query

mutual

theorem Operand.outline_apart (column : String) (comparison : Comparison) :
    ∀ o : Operand, ∀ ps ∈ o.outline column comparison, Apart ps
  | .placeholders count => by
    simp only [Operand.outline, Option.mem_some_iff, forall_eq']
    by_cases hc : count = 1
    · rw [if_pos hc]
      split
      · exact (apart_cons_text rfl).2 (Piece.apart_singleton _)
      · exact Piece.apart_singleton _
    · rw [if_neg hc]
      exact apart_enclosed (apart_listed (by simp [List.mem_replicate]))
  | .column c => by simpa [Operand.outline] using c.outline_apart
  | .subquery q => by
    simp only [Operand.outline, Option.mem_some_iff, forall_eq']
    exact apart_enclosed (Query.outline_apart q)
  | .verbatim sql => by
    by_cases he : sql.isEmpty <;> simp [Operand.outline, he]
  | .absent => by simp [Operand.outline]

theorem Predicate.outline_apart : ∀ p : Predicate, Apart p.outline
  | ⟨column, comparison, operand⟩ => by
    have ho := Operand.outline_apart column.name comparison operand
    rw [Predicate.outline, apart_append (by simp [isDetached])]
    refine ⟨column.outline_apart, ?_⟩
    split
    · exact Piece.apart_singleton _
    · cases hq : operand.outline column.name comparison with
      | none => exact Piece.apart_singleton _
      | some ps => exact (apart_cons_text rfl).2 (ho ps hq)

theorem Condition.outline_apart : ∀ c : Condition, Apart c.outline
  | .predicate p => Predicate.outline_apart p
  | .junction ⟨k, members⟩ => k.outline_apart (Condition.outlineAll_apart members)

theorem Condition.outlineAll_apart : ∀ cs : List Condition,
    ∀ ps ∈ Condition.outlineAll cs, Apart ps
  | [] => by simp [Condition.outlineAll]
  | c :: cs => by
    simp only [Condition.outlineAll, List.forall_mem_cons]
    exact ⟨Condition.outline_apart c, Condition.outlineAll_apart cs⟩

/-- In a statement only texts are followed by anything else than a detached piece. -/
theorem Query.outline_apart : ∀ q : Query, Apart q.outline
  | ⟨_, _, _, _, _, joins, conditions, _, _, _, _⟩ => by
    rw [Query.outline]
    apply Piece.apart_separated (by simp [isDetached, signs])
    simp only [List.forall_mem_append]
    refine ⟨⟨⟨Query.openingParts_apart _, ?_⟩, ?_⟩, Query.tailParts_apart _⟩
    · simp [Join.outline_apart]
    · exact Query.filterParts_apart (Condition.outlineAll_apart conditions)

end

end SqlRender
