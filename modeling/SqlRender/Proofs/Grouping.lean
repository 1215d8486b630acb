import SqlRender.Proofs.Precedence
import SqlRender.Proofs.Renumbering

/-!
# Groups of conditions

The conditions of a statement are the members of a conjunction, and each junction among them stands
between brackets. So a reader who knows nothing but the precedence of the connectives finds the
predicates in their order, and takes them together as the tree of conditions does.
-/
namespace SqlRender

open Piece (slots writtenAll)
open Text (Lexeme Tree Nests Steady factor)

mutual

/-- The tree of a condition. The conditions of a subquery belong to its predicate. -/
def Condition.formula : Condition → Formula Predicate
  | .predicate p => .predicate p
  | .junction ⟨k, members⟩ => k.formula (Condition.formulaAll members)

def Condition.formulaAll : List Condition → List (Formula Predicate)
  | [] => []
  | c :: cs => Condition.formula c :: Condition.formulaAll cs

end

def Query.formula (q : Query) : Formula Predicate := .all (q.conditions.map Condition.formula)

theorem Condition.formulaAll_eq_map (cs : List Condition) : formulaAll cs = cs.map formula := by
  induction cs with
  | nil => rfl
  | cons c cs ih => rw [formulaAll, ih, List.map_cons]

/-- The text is the name of a function, with balanced brackets and without quote characters. -/
def Verbatim.IsInert (q : Char) (v : Verbatim) : Prop :=
  v.place = .function ∧ v.Over (· ≠ q) ∧ v.IsBalanced

/-- `BETWEEN` has its two bounds. -/
def Predicate.IsPaired (p : Predicate) : Prop :=
  p.comparison = .between → p.operand = .placeholders 1

theorem Comparison.mem_plain_of_isInert {q : Char} {c : Comparison}
    (h : ∀ v ∈ c.verbatims, v.IsInert q) : c ∈ plain := by
  cases c with
  | verbatim sql =>
    have hp := (h _ (List.mem_singleton_self _)).1
    cases hp
  | _ => decide

theorem Connective.mem_plain_of_isInert {q : Char} {k : Connective}
    (h : ∀ v ∈ k.verbatims, v.IsInert q) : k ∈ plain := by
  cases k with
  | verbatim sql =>
    have hp := (h _ (List.mem_singleton_self _)).1
    cases hp
  | _ => decide

theorem Comparison.lexemes_neutral : ∀ c ∈ Comparison.plain, c ≠ .between → ∀ l ∈ c.lexemes,
    l.bracket? = none ∧ (Tree.lexeme l).IsNeutral := by
  decide

theorem Column.lexemes_neutral (c : Column) : ∀ l ∈ c.lexemes,
    l.bracket? = none ∧ (Tree.lexeme l).IsNeutral := by
  rcases c with ⟨_ | table, name⟩ <;>
    simp [Column.lexemes, Lexeme.bracket?, Tree.IsNeutral, Tree.isKeyword]

/-- A placeholder is no keyword. -/
theorem Shipped.neutral_slot (s : Shipped) (b : Bind) :
    (Tree.lexeme (.word (s.sign :: s.digits b))).IsNeutral := by
  cases s <;> simp [Tree.IsNeutral, Tree.isKeyword, Shipped.sign]

/-- Lexemes that stand for themselves. -/
theorem Text.nests_neutral {ls : List Lexeme}
    (h : ∀ l ∈ ls, l.bracket? = none ∧ (Tree.lexeme l).IsNeutral) :
    Nests ls (ls.map .lexeme) ∧ ∀ t ∈ ls.map Tree.lexeme, t.IsNeutral :=
  ⟨.lexemes fun l hl => (h l hl).1, List.forall_mem_map.2 fun l hl => (h l hl).2⟩

theorem Text.Tree.neutral_enclosed (ts : List Tree) : (Tree.enclosed ts).IsNeutral :=
  ⟨rfl, rfl, rfl⟩

/-- The operand is a row of trees. Those of a subquery, or of a list, are one tree together. -/
theorem Operand.nests (s : Shipped) (n : Nat) (column : String) {comparison : Comparison}
    (hb : comparison ≠ .between) {o : Operand} (hv : ∀ v ∈ o.verbatims, v.IsInert s.dialect.quote) :
    ∀ ps ∈ o.outline column comparison,
      ∃ ts, Nests (Piece.lexemes s n ps) ts ∧ ∀ t ∈ ts, t.IsNeutral := by
  intro ps hps
  cases o with
  | placeholders count =>
    simp only [outline, hb, if_false, Option.mem_some_iff] at hps
    subst hps
    split
    · rw [Piece.lexemes_slot]
      exact ⟨_, .lexeme rfl, by simpa using s.neutral_slot _⟩
    · have hl : Piece.Composed Verbatim.IsBalanced
          (Piece.separated ", " (List.replicate count.toNat [.slot column])) := by
        apply Piece.Composed.listed
        simpa [List.mem_replicate] using fun _ => Piece.Composed.slot column
      rcases hl.nests_enclosed s n with ⟨ts, ht⟩
      exact ⟨_, ht, by simpa using Tree.neutral_enclosed ts⟩
  | column c =>
    simp only [outline, Option.mem_some_iff] at hps
    subst hps
    have hc := c.lexemes_append s n []
    rw [List.append_nil, Piece.lexemes_nil, List.append_nil] at hc
    rw [hc]
    exact ⟨_, Text.nests_neutral c.lexemes_neutral⟩
  | subquery q =>
    simp only [outline, Option.mem_some_iff] at hps
    subst hps
    have hq := q.outline_composed (V := Verbatim.IsBalanced) fun v hm =>
      (hv v (by simpa only [verbatims] using hm)).2.2
    rcases hq.nests_enclosed s n with ⟨ts, ht⟩
    exact ⟨_, ht, by simpa using Tree.neutral_enclosed ts⟩
  | verbatim sql =>
    have hp := (hv _ (List.mem_singleton_self _)).1
    cases hp
  | absent => cases hps

/-- The bounds are two placeholders with `AND` between them. -/
theorem Operand.lexemes_bounds (s : Shipped) (n : Nat) (lower upper : String) :
    Piece.lexemes s n [.slot lower, .text " AND ", .slot upper] =
      [.word (s.sign :: s.digits ⟨lower, n + 1⟩), .word Connective.and.keyword.toList,
        .word (s.sign :: s.digits ⟨upper, n + 2⟩)] := by
  have hd : Piece.Apart (.name "" :: [.text " AND ", .slot upper]) :=
    (Piece.apart_cons_text rfl).2 (Piece.apart_singleton _)
  have ha := Piece.lexemes_append s n [.slot lower] hd
  have hk := Piece.lexemes_connective s (k := .and) (by decide) (n + 1) [.slot upper]
  rw [List.singleton_append] at ha
  rw [ha, Piece.lexemes_slot]
  exact congrArg (_ :: ·) (hk.trans (by rw [Piece.lexemes_slot]))

namespace Predicate

def rest (p : Predicate) : List (Piece String) :=
  if p.comparison.isNullCheck then []
  else (p.operand.outline p.column.name p.comparison).elim [] (.text " " :: ·)

theorem outline_eq (p : Predicate) :
    p.outline = p.column.outline ++ .comparison p.comparison :: p.rest := by
  rcases p with ⟨column, comparison, operand⟩
  rw [outline]
  rfl

theorem rest_apart (p : Predicate) : Piece.Apart (.name "" :: p.rest) := by
  unfold rest
  split
  · exact Piece.apart_singleton _
  · cases ho : p.operand.outline p.column.name p.comparison with
    | none => exact Piece.apart_singleton _
    | some ps => exact (Piece.apart_cons_text rfl).2 (Operand.outline_apart _ _ _ ps ho)

variable (s : Shipped) (n : Nat) {p : Predicate}

theorem lexemes_outline (p : Predicate) : Piece.lexemes s n p.outline =
    p.column.lexemes ++ (p.comparison.lexemes ++ Piece.lexemes s n p.rest) := by
  rw [p.outline_eq, p.column.lexemes_append, p.comparison.lexemes_cons s n p.rest_apart]

/-- A row that begins with a column is no pair of brackets. -/
theorem factor_column (c : Column) (ts : List Tree) :
    factor (Tree.parts (c.lexemes.map .lexeme ++ ts)) =
      .predicate (c.lexemes.map .lexeme ++ ts) := by
  rcases c with ⟨_ | table, name⟩
  · cases ts with
    | nil => rfl
    | cons t ts => simp [Column.lexemes, Tree.parts_eq_map, factor, Function.comp_def]
  · simp [Column.lexemes, Tree.parts_eq_map, factor, Function.comp_def]

theorem nests_rest (hv : ∀ v ∈ p.verbatims, v.IsInert s.dialect.quote)
    (hb : p.comparison ≠ .between) :
    ∃ ts, Nests (Piece.lexemes s n p.rest) ts ∧ ∀ t ∈ ts, t.IsNeutral := by
  rcases p with ⟨column, comparison, operand⟩
  simp only [verbatims, List.forall_mem_append] at hv
  unfold rest
  split
  · exact ⟨[], .nil, by simp⟩
  · cases ho : operand.outline column.name comparison with
    | none => exact ⟨[], .nil, by simp⟩
    | some ps =>
      rw [Option.elim_some, Piece.lexemes_blank]
      exact Operand.nests s n column.name hb hv.2 ps ho

/-- A predicate is a row of trees that no connective divides, and it is no pair of brackets. -/
theorem nests (hv : ∀ v ∈ p.verbatims, v.IsInert s.dialect.quote) (hp : p.IsPaired) :
    ∃ ts, Nests (Piece.lexemes s n p.outline) ts ∧ Steady ts ∧
      factor (Tree.parts ts) = .predicate ts := by
  rw [p.lexemes_outline]
  rcases Text.nests_neutral p.column.lexemes_neutral with ⟨hcn, hct⟩
  by_cases hb : p.comparison = .between
  · have hrow : p.comparison.lexemes ++ Piece.lexemes s n p.rest =
        [.word Comparison.between.keyword.toList,
          .word (s.sign :: s.digits ⟨p.column.name ++ ".min", n + 1⟩),
          .word Connective.and.keyword.toList,
          .word (s.sign :: s.digits ⟨p.column.name ++ ".max", n + 2⟩)] := by
      rw [rest, hb, hp hb]
      exact congrArg (Comparison.between.lexemes ++ ·)
        ((Piece.lexemes_blank s n _).trans (Operand.lexemes_bounds s n _ _))
    rw [hrow]
    refine ⟨_, hcn.append (.lexemes (by simp [Lexeme.bracket?])), ?_, factor_column _ _⟩
    exact Text.steady_between hct rfl (s.neutral_slot _) rfl rfl (s.neutral_slot _)
  · have hplain : p.comparison ∈ Comparison.plain := by
      apply Comparison.mem_plain_of_isInert
      intro v hm
      exact hv v (by cases p; exact List.mem_append_left _ hm)
    rcases Text.nests_neutral (Comparison.lexemes_neutral _ hplain hb) with ⟨hkn, hkt⟩
    rcases nests_rest s n hv hb with ⟨ts, hn, ht⟩
    refine ⟨_, hcn.append (hkn.append hn), Text.steady_neutral ?_, factor_column _ _⟩
    simp only [List.forall_mem_append]
    exact ⟨hct, hkt, ht⟩

end Predicate

/-- The row of pieces is read as the formula: its trees are one factor, with the predicates of the
formula in their order, and it holds when the formula does. -/
structure Formula.IsReadAs (s : Shipped) (n : Nat) (ps : List (Piece String))
    (f : Formula Predicate) (ts : List Tree) : Prop where
  nests : Nests (Piece.lexemes s n ps) ts
  steady : Steady ts
  agrees : (factor (Tree.parts ts)).Agrees f
  leaves : (factor (Tree.parts ts)).leaves.map some =
    (writtenAll s.dialect n (f.leaves.map Predicate.outline)).map (Text.trees s.dialect.quote)
  slots : (f.leaves.map Predicate.outline).flatMap slots = slots ps

theorem Condition.over_quote (s : Shipped) (c : Condition)
    (hv : ∀ v ∈ c.verbatims, v.IsInert s.dialect.quote) :
    ∀ p ∈ c.outline, p.Over (· ≠ s.dialect.quote) := by
  have hc := c.outline_composed (V := (·.Over (· ≠ s.dialect.quote))) fun v hm => (hv v hm).2.1
  exact hc.over fun c hc => Text.ne_quote_of_isOrdinary s hc

theorem Predicate.isReadAs (s : Shipped) (n : Nat) {p : Predicate}
    (hv : ∀ v ∈ p.verbatims, v.IsInert s.dialect.quote) (hp : p.IsPaired) :
    ∃ ts, Formula.IsReadAs s n p.outline (.predicate p) ts := by
  rcases p.nests s n hv hp with ⟨ts, hn, hs, hf⟩
  have ho := Condition.over_quote s (.predicate p) hv
  refine ⟨ts, hn, hs, ?_, ?_, ?_⟩
  · rw [hf]
    exact Formula.agrees_predicate ts p
  · have ht := Piece.trees_written s p.outline_apart ho hn
    simp [hf, Formula.leaves, writtenAll, ht]
  · simp [Formula.leaves]

section

variable {s : Shipped} {k : Connective} (hk : k ∈ Connective.plain) {cs : List Condition}
  (h : ∀ c ∈ cs, ∀ n, ∃ ts, Formula.IsReadAs s n c.outline c.formula ts)

include hk h

/-- The members of a junction, one after the other. -/
theorem Connective.members_isReadAs (n : Nat) : ∃ tss : List (List Tree),
    Nests (Piece.lexemes s n (Piece.separated (" " ++ k.keyword ++ " ") (cs.map Condition.outline)))
      ([Text.word k].intercalate tss) ∧
    (∀ ts ∈ tss, Steady ts) ∧
    List.Forall₂ Formula.Agrees (tss.map fun ts => factor (Tree.parts ts))
      (cs.map Condition.formula) ∧
    (Formula.leavesAll (tss.map fun ts => factor (Tree.parts ts))).map some =
      (writtenAll s.dialect n ((Formula.leavesAll (cs.map Condition.formula)).map
        Predicate.outline)).map (Text.trees s.dialect.quote) ∧
    ((Formula.leavesAll (cs.map Condition.formula)).map Predicate.outline).flatMap slots =
      (cs.map Condition.outline).flatMap slots := by
  induction cs generalizing n with
  | nil => exact ⟨[], .nil, by simp, .nil, rfl, rfl⟩
  | cons c cs ih =>
    simp only [List.forall_mem_cons] at h
    rcases h.1 n with ⟨ts, hn, hst, ha, hl, hsl⟩
    rcases ih h.2 (n + (slots c.outline).length) with ⟨tss, hns, hsts, has, hls, hsls⟩
    refine ⟨ts :: tss, ?_, List.forall_mem_cons.2 ⟨hst, hsts⟩, .cons ha has, ?_, ?_⟩
    · cases cs with
      | nil =>
        cases tss with
        | nil => simpa using hn
        | cons us tss => cases has
      | cons d cs =>
        cases tss with
        | nil => cases has
        | cons us tss =>
          have hapart : Piece.Apart (.name "" :: .text (" " ++ k.keyword ++ " ") ::
              Piece.separated (" " ++ k.keyword ++ " ") ((d :: cs).map Condition.outline)) := by
            rw [Piece.apart_cons_text (by simp [Piece.isDetached, Piece.signs])]
            apply Piece.apart_separated (by simp [Piece.isDetached, Piece.signs])
            exact List.forall_mem_map.2 fun c _ => c.outline_apart
          rw [List.map_cons, List.map_cons, Piece.separated_cons_cons, ← List.map_cons,
            Piece.lexemes_append s n _ hapart, Piece.lexemes_connective s hk,
            List.intercalate_cons_cons, List.append_assoc]
          exact hn.append ((Nests.lexeme rfl).append hns)
    · simp only [List.map_cons, Formula.leavesAll, List.map_append]
      rw [hl, hls, Piece.writtenAll_append, hsl, List.map_append]
    · simp only [List.map_cons, Formula.leavesAll, List.map_append, List.flatMap_append,
        List.flatMap_cons]
      rw [hsl, hsls]

theorem Connective.isReadAs (hne : cs ≠ []) (n : Nat) : ∃ ts, Formula.IsReadAs s n
    (k.outline (Condition.outlineAll cs)) (k.formula (Condition.formulaAll cs)) ts := by
  rcases k.members_isReadAs hk h n with ⟨tss, hn, hst, ha, hl, hsl⟩
  have hne' : tss ≠ [] := by
    rintro rfl
    exact hne (List.length_eq_zero_iff.1 (by simpa using ha.length_eq.symm))
  have hf : factor (Tree.parts [.enclosed ([Text.word k].intercalate tss)]) =
      Text.joined k (tss.map fun ts => factor (Tree.parts ts)) :=
    Text.disjunction_intercalate hk hne' hst
  rw [Condition.outlineAll_eq_map, Condition.formulaAll_eq_map]
  refine ⟨[.enclosed ([Text.word k].intercalate tss)], ?_, ?_, ?_, ?_, ?_⟩
  · rw [Connective.outline, Piece.lexemes_enclosed]
    exact hn.enclosed
  · exact Text.steady_neutral (by simpa using Tree.neutral_enclosed _)
  · rw [hf]
    exact Text.agrees_joined k ha
  · rw [hf, Text.leaves_joined, k.leaves_formula, hl]
  · rw [k.leaves_formula, hsl]
    simp [Connective.outline]

end

mutual

/-- By induction on the tree of conditions, which does not enter subqueries. -/
theorem Condition.isReadAs (s : Shipped) : ∀ c : Condition, c.IsSound →
    (∀ v ∈ c.verbatims, v.IsInert s.dialect.quote) → (∀ p ∈ c.formula.leaves, p.IsPaired) →
    ∀ n, ∃ ts, Formula.IsReadAs s n c.outline c.formula ts
  | .predicate p, _, hv, hp => fun n => by
    rw [Condition.outline, Condition.formula]
    exact p.isReadAs s n hv (hp p (by simp [Condition.formula, Formula.leaves]))
  | .junction ⟨k, members⟩, .junction hne _ hs, hv, hp => fun n => by
    simp only [Condition.verbatims, Junction.verbatims, List.forall_mem_append] at hv
    rw [Condition.formula, k.leaves_formula] at hp
    rw [Condition.outline, Junction.outline, Condition.formula]
    exact Connective.isReadAs (Connective.mem_plain_of_isInert hv.1)
      (Condition.isReadAs_all s members hs hv.2 hp) hne n

theorem Condition.isReadAs_all (s : Shipped) : ∀ cs : List Condition, (∀ c ∈ cs, c.IsSound) →
    (∀ v ∈ Condition.verbatimsAll cs, v.IsInert s.dialect.quote) →
    (∀ p ∈ Formula.leavesAll (Condition.formulaAll cs), p.IsPaired) →
    ∀ c ∈ cs, ∀ n, ∃ ts, Formula.IsReadAs s n c.outline c.formula ts
  | [], _, _, _ => by simp
  | c :: cs, hs, hv, hp => by
    simp only [List.forall_mem_cons] at hs
    simp only [Condition.verbatimsAll, List.forall_mem_append] at hv
    simp only [Condition.formulaAll, Formula.leavesAll, List.forall_mem_append] at hp
    exact List.forall_mem_cons.2 ⟨Condition.isReadAs s c hs.1 hv.1 hp.1,
      Condition.isReadAs_all s cs hs.2 hv.2 hp.2⟩

end

/-- The conditions of a statement are read from its text as the conjunction that they are. The
reader finds the predicates of the tree in their order, each with the text that it has alone after
the slots before it, and for every truth of these the reading and the tree have the same value. -/
theorem Query.render_grouping {s : Shipped} {q : Query} {r : Rendered}
    (h : q.render s.dialect = .ok r) (hc : q.conditions ≠ [])
    (hv : ∀ v ∈ Condition.verbatimsAll q.conditions, v.IsInert s.dialect.quote)
    (hp : ∀ p ∈ q.formula.leaves, p.IsPaired) :
    ∃ t before after text f, q.unfiltered.render s.dialect = .ok t ∧ t.sql = before ++ after ∧
      r.sql = before ++ " WHERE " ++ text ++ after ∧
      Text.formula s.dialect.quote text = some f ∧
      f.leaves.map some = (writtenAll s.dialect t.binds.length
        (q.formula.leaves.map Predicate.outline)).map (Text.trees s.dialect.quote) ∧
      ∀ truth, f.holds truth 0 = q.formula.holds truth 0 := by
  let c := Condition.all q.conditions
  rcases q.render_filtered hc h with ⟨-, t, before, after, -, ht, hsql, hr, -, -⟩
  have hf : c.formula = q.formula := by
    simp [c, Condition.all, Condition.formula, Connective.formula, Query.formula,
      Condition.formulaAll_eq_map]
  have hcv : ∀ v ∈ c.verbatims, v.IsInert s.dialect.quote := by
    simpa [c, Condition.all, Condition.verbatims, Junction.verbatims, Connective.verbatims] using hv
  have hs : c.IsSound := (isSound_of_render h).conjunction hc
  rcases c.isReadAs s hs hcv (by rwa [hf]) t.binds.length with ⟨ts, hread⟩
  have htrees := Piece.trees_written s c.outline_apart (c.over_quote s hcv) hread.nests
  have hd : Text.disjunction (Tree.parts ts) = Text.joined .and [factor (Tree.parts ts)] := by
    have hi := Text.disjunction_intercalate (k := .and) (by decide) (List.cons_ne_nil ts [])
      (by simpa using hread.steady)
    simpa using hi
  have ha := Text.agrees_joined .and (.cons hread.agrees .nil)
  refine ⟨t, before, after, _, Text.disjunction (Tree.parts ts), ht, hsql, hr, ?_, ?_, ?_⟩
  · rw [Node.text_eq]
    exact congrArg (Option.map _) htrees
  · rw [hd, Text.leaves_joined]
    simpa [Formula.leavesAll, hf] using hread.leaves
  · intro truth
    rw [hd, ← hf]
    exact (ha.trans (Formula.agrees_all_singleton c.formula)).2 truth 0

def Query.mixed : Query :=
  ((Query.select "t").filter (.any [.predicate (.between (.bare "a")),
    .all [.predicate (.placeholder (.bare "b") .equal),
      .any [.predicate (.isNull (.bare "c"))]]])).filter (.predicate (.inList (.bare "d") 2))

theorem Query.render_grouping_mixed : ∃ r before after text f,
    Query.mixed.render Shipped.sqlite.dialect = .ok r ∧
    r.sql = before ++ " WHERE " ++ text ++ after ∧ Text.formula '"' text = some f ∧
    f.leaves.length = 4 ∧
    ∀ truth, f.holds truth 0 = ((truth 0 || truth 1 && truth 2) && truth 3) := by
  have h : Query.mixed.render Shipped.sqlite.dialect = .ok _ := rfl
  have hv : ∀ v ∈ Condition.verbatimsAll Query.mixed.conditions, v.IsInert '"' := by
    have he : Condition.verbatimsAll Query.mixed.conditions = [] := rfl
    simp [he]
  have he : Query.mixed.formula = .all [.any [.predicate (.between (.bare "a")),
    .all [.predicate (.placeholder (.bare "b") .equal), .any [.predicate (.isNull (.bare "c"))]]],
    .predicate (.inList (.bare "d") 2)] := rfl
  have hleaves : Query.mixed.formula.leaves = [.between (.bare "a"),
      .placeholder (.bare "b") .equal, .isNull (.bare "c"), .inList (.bare "d") 2] := rfl
  have hp : ∀ p ∈ Query.mixed.formula.leaves, p.IsPaired := by
    simp [hleaves, Predicate.IsPaired, Predicate.between, Predicate.placeholder,
      Operand.placeholder, Predicate.isNull, Predicate.inList]
  rcases Query.render_grouping (s := .sqlite) h (List.cons_ne_nil _ _) hv hp with
    ⟨_, before, after, text, f, -, -, hsql, hf, hl, ht⟩
  refine ⟨_, before, after, text, f, h, hsql, hf, ?_, ?_⟩
  · have hlen := congrArg List.length hl
    simpa [hleaves] using hlen
  · intro truth
    rw [ht, he]
    simp [Formula.holds, Formula.holdsAll, Formula.holdsAny, Formula.leaves, Formula.leavesAll]

end SqlRender
