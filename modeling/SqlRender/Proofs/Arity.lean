import SqlRender.Proofs.Predicates
import SqlRender.Proofs.Reading

/-!
# The operands of a predicate

Every operator takes so many operands: a null check none, `BETWEEN` two with `AND` between them, and
any other operator one. A predicate is written with the operands that it has, whether they are as
many or not: an absent operand leaves the operator alone, and a column or a subquery after `BETWEEN`
is not joined by a second one. All other predicates are written whole.
-/
namespace SqlRender

open Piece (written writtenAll)

def Comparison.arity : Comparison → Nat
  | isNull | isNotNull => 0
  | between => 2
  | _ => 1

/-- The texts that can be an operand by themselves. -/
inductive Dialect.IsOperand (d : Dialect) : String → Prop
  | placeholder (b : Bind) : d.IsOperand (d.placeholder b)
  | list (bs : List Bind) (h : 2 ≤ bs.length) :
      d.IsOperand ("(" ++ ", ".intercalate (bs.map d.placeholder) ++ ")")
  | column {c : Column} {text : String} (h : c.render d = .ok text) : d.IsOperand text
  | subquery {q : Query} {r : Rendered} (select : q.verb = .select) (h : q.render d = .ok r)
      (n : Nat) : d.IsOperand ("(" ++ (Node.query q).text d n ++ ")")

def Text.conjoined : List String → String
  | [] => ""
  | operands => " " ++ " AND ".intercalate operands

/-- The text is the column, the operator and so many operands. -/
def Dialect.Compares (d : Dialect) (c : Column) (comparison : Comparison) (n : Nat)
    (text : String) : Prop :=
  ∃ column operands, c.render d = .ok column ∧
    text = column ++ " " ++ comparison.keyword ++ Text.conjoined operands ∧
    (∀ o ∈ operands, d.IsOperand o) ∧ operands.length = n

def Predicate.operands : Predicate → Nat
  | ⟨_, comparison, operand⟩ =>
    if comparison.isNullCheck then 0
    else match comparison, operand with
      | _, .absent => 0
      | .between, .placeholders _ => 2
      | _, _ => 1

/-- The operand is as the operator needs it. -/
def Predicate.IsWhole (p : Predicate) : Prop :=
  p.comparison.isNullCheck ∨
    p.operand ≠ .absent ∧ (p.comparison = .between → ∃ n, p.operand = .placeholders n)

theorem Predicate.operands_eq_arity_iff (p : Predicate) :
    p.operands = p.comparison.arity ↔ p.IsWhole := by
  obtain ⟨column, comparison, operand⟩ := p
  cases comparison <;> cases operand <;>
    simp [operands, Comparison.arity, IsWhole, Comparison.isNullCheck]

theorem Piece.writtenAll_replicate (d : Dialect) (n m : Nat) (mark : String) :
    writtenAll d n (List.replicate m [.slot mark]) =
      (Bind.numbered n (List.replicate m mark)).map d.placeholder := by
  simpa [Column.bare] using Query.writtenAll_values d n (List.replicate m (.bare mark))

theorem Column.IsSound.render {c : Column} (h : c.IsSound) (d : Dialect) (n : Nat) :
    c.render d = .ok (written d n c.outline) := by
  rw [c.render_eq d n, Column.defects_eq_nil.2 h]
  rfl

namespace Operand

variable {d : Dialect} {comparison : Comparison}

def after (d : Dialect) (n : Nat) (column : String) (comparison : Comparison) (o : Operand) :
    String :=
  (o.outline column comparison).elim "" fun ps => " " ++ written d n ps

/-- What stands alone after the operator is one operand. -/
theorem conjoined_singleton {o : Operand} {column text : String} {n : Nat} (ho : d.IsOperand text)
    (h : o.after d n column comparison = " " ++ text) :
    ∃ operands, o.after d n column comparison = Text.conjoined operands ∧
      (∀ o ∈ operands, d.IsOperand o) ∧ operands.length = 1 :=
  ⟨[text], by simpa [Text.conjoined] using h, by simpa using ho, rfl⟩

/-- The operand of a sound predicate is written as so many operands. -/
theorem after_eq_conjoined {o : Operand} (h : o.IsSound comparison)
    (hv : ∀ sql, o ≠ .verbatim sql) (c : Column) (hn : comparison.isNullCheck = false)
    (column : String) (n : Nat) :
    ∃ operands, o.after d n column comparison = Text.conjoined operands ∧
      (∀ o ∈ operands, d.IsOperand o) ∧
      operands.length = (⟨c, comparison, o⟩ : Predicate).operands := by
  have one : comparison ≠ .between ∨ (∀ n, o ≠ .placeholders n) → o ≠ .absent →
      (⟨c, comparison, o⟩ : Predicate).operands = 1 := by
    intro hb ho
    cases comparison <;> cases o <;>
      simp_all [Predicate.operands, Comparison.isNullCheck]
  cases h with
  | @placeholders _ count some few pair =>
    by_cases hb : comparison = .between
    · obtain rfl := pair hb
      let bounds : List Bind := [⟨column ++ ".min", n + 1⟩, ⟨column ++ ".max", n + 1 + 1⟩]
      refine ⟨bounds.map d.placeholder, ?_, ?_, ?_⟩
      · simp [after, outline, hb, Text.conjoined, bounds, String.intercalate_cons_cons,
          String.append_assoc]
      · simp [Dialect.IsOperand.placeholder, bounds]
      · simp [bounds, hb, Predicate.operands, Comparison.isNullCheck]
    · rw [one (.inl hb) (by simp)]
      by_cases hc : count = 1
      · exact conjoined_singleton (.placeholder ⟨column, n + 1⟩) (by simp [after, outline, hc, hb])
      · have hlen : 2 ≤ count.toNat := by
          have h0 : count.toNat ≠ 0 := fun h => some (UInt64.toNat_inj.1 h)
          have h1 : count.toNat ≠ 1 := fun h => hc (UInt64.toNat_inj.1 h)
          omega
        have hl : d.IsOperand _ :=
          .list (Bind.numbered n (List.replicate count.toNat column)) (by simpa using hlen)
        refine conjoined_singleton hl ?_
        rw [← Piece.writtenAll_replicate, Piece.intercalate_writtenAll]
        simp [after, outline, hc, Piece.written_append, String.append_assoc]
  | @column _ c' hs =>
    rw [one (.inr (by simp)) (by simp)]
    exact conjoined_singleton (.column (hs.render d n)) rfl
  | @subquery _ q select hs =>
    rw [one (.inr (by simp)) (by simp)]
    refine conjoined_singleton (.subquery select (hs.render d) n) ?_
    rw [Node.text_eq]
    simp [after, outline, Node.outline, Piece.written_append, String.append_assoc]
  | verbatim sql => exact absurd rfl (hv _)
  | absent => exact ⟨[], rfl, by simp, by simp [Predicate.operands, hn]⟩

end Operand

namespace Predicate

/-- Nothing of the predicate itself is verbatim text. -/
def IsBuilt (p : Predicate) : Prop :=
  p.comparison ≠ .bare ∧ (∀ sql, p.comparison ≠ .verbatim sql) ∧ ∀ sql, p.operand ≠ .verbatim sql

/-- A sound predicate is written with the operands that it has. -/
theorem compares (s : Shipped) {p : Predicate} (h : (Condition.predicate p).IsSound)
    (hb : p.IsBuilt) (n : Nat) :
    s.dialect.Compares p.column p.comparison p.operands ((Node.predicate p).text s.dialect n) := by
  obtain ⟨c, comparison, operand⟩ := p
  obtain ⟨hbare, hverb, hv⟩ := hb
  obtain ⟨hc, ho⟩ | _ := h
  have hk : comparison.keyword.isEmpty = false := by
    cases comparison with
    | bare => exact absurd rfl hbare
    | verbatim sql => exact absurd rfl (hverb sql)
    | _ => rfl
  rw [Node.text_eq]
  cases hn : comparison.isNullCheck with
  | true =>
    refine ⟨_, [], hc.render s.dialect n, ?_, by simp, by simp [operands, hn]⟩
    simp [Node.outline, outline, Piece.written_append, Shipped.operator_eq, hk, hn, Text.conjoined,
      String.append_assoc]
  | false =>
    obtain ⟨operands, ha, hos, hlen⟩ := Operand.after_eq_conjoined (d := s.dialect) (ho hn) hv c hn
      c.name (n + (Piece.slots c.outline).length)
    refine ⟨_, operands, hc.render s.dialect n, ?_, hos, hlen⟩
    rw [← ha]
    simp only [Node.outline, outline, hn, Operand.after]
    cases operand.outline c.name comparison <;>
      simp [Piece.written_append, Shipped.operator_eq, hk, String.append_assoc]

end Predicate

namespace Query

/-- Every predicate of a statement, in whatever groups and subqueries, is written as its column, its
operator and the operands that it has. These are as many as the operator takes unless an operand is
missing, or a column or a subquery stands alone after `BETWEEN`. -/
theorem render_operands {s : Shipped} {q : Query} {r : Rendered} (h : q.render s.dialect = .ok r) :
    ∀ p ∈ q.predicates, p.IsBuilt → ∃ before text after earlier later,
      r.sql = before ++ text ++ after ∧
      text = (Node.predicate p).text s.dialect earlier.length ∧
      r.binds = earlier ++
        (Piece.slots (Node.predicate p).pieces).map (Bind.shift earlier.length) ++ later ∧
      s.dialect.Compares p.column p.comparison p.operands text ∧
      (p.operands = p.comparison.arity ↔ p.IsWhole) := by
  intro p hp hb
  obtain ⟨before, after, earlier, later, hsql, hbinds⟩ := render_predicate hp h
  have hs := isSound_of_mem_predicates (isSound_of_render h) hp
  exact ⟨before, _, after, earlier, later, hsql, rfl, hbinds, p.compares s hs hb _,
    p.operands_eq_arity_iff⟩

def halfBounded : Query :=
  ((select "t").filter (.predicate ⟨.bare "a", .between, .column (.bare "b")⟩)).filter
    (.predicate (.placeholder (.bare "c") .equal))

theorem render_halfBounded : halfBounded.render .general =
    .ok ⟨"SELECT * FROM `t` WHERE (`a` BETWEEN `b` AND `c` = ?)", [⟨"c", 1⟩]⟩ := by
  rw [Query.render_eq_ok]
  exact ⟨rfl, by decide⟩

/-- The second condition is whole. -/
theorem render_operands_halfBounded : ∃ before after,
    "SELECT * FROM `t` WHERE (`a` BETWEEN `b` AND `c` = ?)" = before ++ "`c` = ?" ++ after ∧
    (⟨.bare "c", .equal, .placeholder⟩ : Predicate).IsBuilt ∧
    Dialect.general.Compares (.bare "c") .equal 1 "`c` = ?" := by
  have hb : (⟨.bare "c", .equal, .placeholder⟩ : Predicate).IsBuilt := by
    simp [Predicate.IsBuilt, Operand.placeholder]
  obtain ⟨before, _, after, _, _, hsql, rfl, -, hc, -⟩ :=
    render_operands (s := .general) render_halfBounded _ (.tail _ (.head _)) hb
  exact ⟨before, after, hsql, hb, hc⟩

/-- The bounds in the first condition are not two: there are too few characters for two operands. -/
theorem not_render_operands_arity : ¬∀ (s : Shipped) (q : Query) (r : Rendered),
    q.render s.dialect = .ok r → q.verbatims = [] → (∀ p ∈ q.predicates, p.IsBuilt) →
    ∀ p ∈ q.predicates, ∃ n, s.dialect.Compares p.column p.comparison p.comparison.arity
      ((Node.predicate p).text s.dialect n) := by
  intro h
  have hb : ∀ p ∈ halfBounded.predicates, p.IsBuilt := by
    intro p hp
    obtain _ | ⟨_, _ | ⟨_, hp⟩⟩ := hp
    · simp [Predicate.IsBuilt]
    · simp [Predicate.IsBuilt, Operand.placeholder]
    · cases hp
  obtain ⟨n, column, operands, hc, ht, -, hn⟩ :=
    h .general halfBounded _ render_halfBounded rfl hb _ (.head _)
  match operands, hn with
  | [lower, upper], _ =>
    have hcolumn : column = "`a`" := (Except.ok.inj hc).symm
    have htext : (Node.predicate ⟨.bare "a", .between, .column (.bare "b")⟩).text
      Shipped.general.dialect n = "`a` BETWEEN `b`" := rfl
    have hl := congrArg (fun s => s.toList.length) ht
    simp [htext, hcolumn, Text.conjoined, Comparison.keyword, String.intercalate_cons_cons] at hl
    omega

end Query

end SqlRender
