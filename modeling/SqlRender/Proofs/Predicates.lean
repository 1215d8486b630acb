import SqlRender.Proofs.Renumbering

/-!
# The predicates of a statement

The predicates that a statement writes, in the order in which they begin, those of its subqueries
included. Each of them is sound if the statement is, and stands in the statement as it does alone.
-/
namespace SqlRender

open Piece (written)

mutual

def Operand.predicates : Operand → List Predicate
  | .subquery q => Query.predicates q
  | .placeholders _ | .column _ | .verbatim _ | .absent => []

/-- The predicate and those inside it; a null check writes nothing of its operand. -/
def Predicate.predicates : Predicate → List Predicate
  | ⟨column, comparison, operand⟩ => ⟨column, comparison, operand⟩ ::
      if comparison.isNullCheck then [] else Operand.predicates operand

def Condition.predicates : Condition → List Predicate
  | .predicate p => Predicate.predicates p
  | .junction ⟨_, members⟩ => Condition.predicatesAll members

def Condition.predicatesAll : List Condition → List Predicate
  | [] => []
  | c :: cs => Condition.predicates c ++ Condition.predicatesAll cs

def Query.predicates : Query → List Predicate
  | ⟨_, _, _, _, _, _, conditions, _, _, _, _⟩ => Condition.predicatesAll conditions

end

/-- The predicate is written as a part of the condition, at any depth. -/
inductive Condition.Writes (p : Predicate) : Condition → Prop
  | here : Condition.Writes p (.predicate p)
  | inside {column : Column} {comparison : Comparison} {q : Query} {c : Condition}
      (h : comparison.isNullCheck = false) (hc : c ∈ q.conditions) (hp : Condition.Writes p c) :
      Condition.Writes p (.predicate ⟨column, comparison, .subquery q⟩)
  | member {connective : Connective} {members : List Condition} {c : Condition} (hc : c ∈ members)
      (hp : Condition.Writes p c) : Condition.Writes p (.junction ⟨connective, members⟩)

mutual

theorem Operand.writes_of_mem {p : Predicate} : ∀ o : Operand, p ∈ o.predicates →
    ∃ q, o = .subquery q ∧ ∃ c ∈ q.conditions, c.Writes p
  | .subquery q, h => ⟨q, rfl, Query.writes_of_mem q (by simpa only [Operand.predicates] using h)⟩
  | .placeholders _, h | .column _, h | .verbatim _, h | .absent, h => by
    simp [Operand.predicates] at h

theorem Condition.writes_of_mem {p : Predicate} : ∀ c : Condition, p ∈ c.predicates → c.Writes p
  | .predicate ⟨column, comparison, operand⟩, h => by
    rw [Condition.predicates, Predicate.predicates, List.mem_cons] at h
    obtain rfl | h := h
    · exact .here
    · cases hn : comparison.isNullCheck with
      | true => simp [hn] at h
      | false =>
        obtain ⟨q, rfl, c, hc, hp⟩ := Operand.writes_of_mem operand (by simpa [hn] using h)
        exact .inside hn hc hp
  | .junction ⟨k, members⟩, h => by
    rw [Condition.predicates] at h
    obtain ⟨c, hc, hp⟩ := Condition.writes_of_memAll members h
    exact .member hc hp

theorem Condition.writes_of_memAll {p : Predicate} : ∀ cs : List Condition,
    p ∈ Condition.predicatesAll cs → ∃ c ∈ cs, c.Writes p
  | [], h => by simp [Condition.predicatesAll] at h
  | c :: cs, h => by
    rw [Condition.predicatesAll, List.mem_append] at h
    obtain h | h := h
    · exact ⟨c, List.mem_cons_self, Condition.writes_of_mem c h⟩
    · obtain ⟨c', hc, hp⟩ := Condition.writes_of_memAll cs h
      exact ⟨c', List.mem_cons_of_mem _ hc, hp⟩

theorem Query.writes_of_mem {p : Predicate} : ∀ q : Query, p ∈ q.predicates →
    ∃ c ∈ q.conditions, c.Writes p
  | ⟨_, _, _, _, _, _, conditions, _, _, _, _⟩, h =>
    Condition.writes_of_memAll conditions (by simpa only [Query.predicates] using h)

end

theorem Query.IsSound.conditions {q : Query} (h : q.IsSound) : ∀ c ∈ q.conditions, c.IsSound := by
  cases h with
  | intro _ _ _ _ _ _ _ conditions => exact conditions

namespace Condition.Writes

variable {p : Predicate} {c : Condition}

theorem isSound (h : c.Writes p) (hs : c.IsSound) : (Condition.predicate p).IsSound := by
  induction h with
  | here => exact hs
  | inside h hc _ ih =>
    obtain ⟨-, ho⟩ | _ := hs
    obtain _ | _ | ⟨-, hq⟩ := ho h
    exact ih (hq.conditions _ hc)
  | member hc _ ih =>
    obtain _ | ⟨-, -, hm⟩ := hs
    exact ih (hm _ hc)

theorem infix_outline (h : c.Writes p) : p.outline <:+: c.outline := by
  induction h with
  | here => simp only [Condition.outline, List.infix_rfl]
  | @inside column comparison q c h hc _ ih =>
    have ho : q.outline <:+: q.enclosed := ⟨[.text "("], [.text ")"], rfl⟩
    rw [Condition.outline]
    exact ((ih.trans (Query.infix_outline hc)).trans ho).trans (Predicate.enclosed_infix h)
  | member hc _ ih =>
    rw [Condition.outline, Junction.outline]
    exact ih.trans (Connective.infix_outline hc)

end Condition.Writes

namespace Query

variable {p : Predicate} {q : Query} {d : Dialect} {r : Rendered}

theorem isSound_of_mem_predicates (hs : q.IsSound) (h : p ∈ q.predicates) :
    (Condition.predicate p).IsSound := by
  obtain ⟨c, hc, hp⟩ := q.writes_of_mem h
  exact hp.isSound (hs.conditions c hc)

/-- Every predicate stands in the statement as it does alone, after the slots before it. -/
theorem render_predicate (h : p ∈ q.predicates) (hr : q.render d = .ok r) :
    ∃ before after earlier later,
      r.sql = before ++ (Node.predicate p).text d earlier.length ++ after ∧
      r.binds = earlier ++ (Piece.slots (Node.predicate p).pieces).map
        (Bind.shift earlier.length) ++ later := by
  obtain ⟨c, hc, hp⟩ := q.writes_of_mem h
  obtain ⟨before, after, earlier, later, hsql, hb⟩ :=
    render_infix (hp.infix_outline.trans (infix_outline hc)) hr
  have hn := Bind.numbered_shift 0 earlier.length (Piece.slots p.outline)
  refine ⟨before, after, earlier, later, ?_, ?_⟩
  · rw [hsql, Node.text_eq]
    rfl
  · rw [hb, Node.pieces, Piece.slots_number, Node.outline, ← hn, Nat.zero_add]

end Query

end SqlRender
