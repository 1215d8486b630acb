import SqlRender.Proofs.Blanks
import SqlRender.Proofs.Blocks
import SqlRender.Proofs.Filters
import SqlRender.Proofs.Trees

/-!
# Pairs of brackets

A text is read character by character outside of its names, and each closing bracket belongs to the
last one that is open. The pairs of a statement are its blocks: every bracket that a construct opens
is closed by the same construct, and the clauses after the conditions stand inside the brackets of
their own statement and outside of all others.
-/
namespace SqlRender

namespace Text

theorem Balanced.of_append {bs cs : List Bracket} (h : Balanced (bs ++ cs)) (hc : Balanced cs) :
    Balanced bs := by
  rw [Balanced, depth_append, Option.bind_eq_some_iff] at h
  rcases h with ⟨n, hn, h⟩
  rw [hc.depth_eq n] at h
  rw [Balanced, hn, h]

def Atom.lexeme : Atom → Lexeme
  | .name s => .name s
  | .char c =>
    match Text.bracket? c with
    | some b => .bracket b
    | none => .word [c]

theorem Atom.bracket?_lexeme (a : Atom) : a.lexeme.bracket? = a.bracket? := by
  cases a with
  | name s => rfl
  | char c =>
    rw [lexeme, bracket?]
    cases Text.bracket? c <;> rfl

theorem brackets_map_lexeme (as : List Atom) :
    (as.map Atom.lexeme).filterMap Lexeme.bracket? = as.filterMap Atom.bracket? := by
  rw [List.filterMap_map]
  congr 1
  funext a
  exact a.bracket?_lexeme

/-- The text as trees of its characters and names, unless a name is left open or the brackets do not
match. -/
def pairs (q : Char) (sql : String) : Option (List Tree) :=
  (atoms q sql.toList).bind fun as => nest (as.map Atom.lexeme) [] []

/-- Every name of the text is closed, and outside of the names no bracket is closed that was not
opened and none is left open. -/
def Closed (q : Char) (sql : String) : Prop :=
  ∃ as, atoms q sql.toList = some as ∧ Balanced (as.filterMap Atom.bracket?)

end Text

open Text (Atom Balanced Closed Nests Tree)
open Piece (Apart Composed slots spelled written)

namespace Piece

variable (s : Shipped) (n : Nat) {ps : List (Piece String)}

theorem brackets_spelled (ps : List (Piece String)) :
    (spelled s n ps).filterMap Atom.bracket? = ps.flatMap brackets := by
  rw [← brackets_lexemes s n ps, lexemes, Text.brackets_lexemes]
  rfl

theorem closed_written (ha : Apart ps) (ho : ∀ p ∈ ps, p.Over (· ≠ s.dialect.quote))
    (hb : Balanced (ps.flatMap brackets)) : Closed s.dialect.quote (written s.dialect n ps) := by
  rw [← brackets_spelled s n] at hb
  exact ⟨_, atoms_written s n ha ho, hb⟩

theorem Composed.nests_spelled (h : Composed Verbatim.IsBalanced ps) :
    ∃ ts, Nests ((spelled s n ps).map Atom.lexeme) ts := by
  apply Text.exists_nests
  rw [Text.brackets_map_lexeme, brackets_spelled]
  exact h.balanced

end Piece

namespace Block

variable (s : Shipped)

mutual

/-- The trees of a block whose slots are numbered from `n + 1` on: a block between brackets is one
tree, whatever it holds. -/
def trees (n : Nat) : Block → Option (List Tree)
  | .row ps => Text.nest ((spelled s n ps).map Atom.lexeme) [] []
  | .enclosed blocks => (treesAll n blocks).map fun ts => [.enclosed ts]

def treesAll (n : Nat) : List Block → Option (List Tree)
  | [] => some []
  | b :: bs => (trees n b).bind fun ts =>
    (treesAll (n + (slots b.pieces).length) bs).map (ts ++ ·)

end

variable {s}

theorem nests_treesAll {bs : List Block}
    (h : ∀ b ∈ bs, ∀ n, ∃ ts, b.trees s n = some ts ∧
      Nests ((spelled s n b.pieces).map Atom.lexeme) ts) (n : Nat) :
    ∃ ts, treesAll s n bs = some ts ∧
      Nests ((spelled s n (piecesAll bs)).map Atom.lexeme) ts := by
  induction bs generalizing n with
  | nil => exact ⟨[], rfl, .nil⟩
  | cons b bs ih =>
    rw [List.forall_mem_cons] at h
    rcases h.1 n with ⟨ts, hb, ht⟩
    rcases ih h.2 (n + (slots b.pieces).length) with ⟨us, hbs, hu⟩
    refine ⟨ts ++ us, by simp [treesAll, hb, hbs], ?_⟩
    rw [piecesAll, Piece.spelled_append, List.map_append]
    exact ht.append hu

/-- A block has its trees, and its text is read as them. -/
theorem Made.nests_trees {b : Block} (h : b.Made Verbatim.IsBalanced) (n : Nat) :
    ∃ ts, b.trees s n = some ts ∧ Nests ((spelled s n b.pieces).map Atom.lexeme) ts := by
  induction h generalizing n with
  | row h =>
    rcases h.nests_spelled s n with ⟨ts, ht⟩
    exact ⟨ts, ht.nest_eq, ht⟩
  | @enclosed bs _ ih =>
    rcases nests_treesAll ih n with ⟨ts, hb, ht⟩
    refine ⟨[.enclosed ts], by rw [trees, hb, Option.map_some], ?_⟩
    simpa [pieces, Text.chars, Atom.lexeme, Text.bracket?] using ht.enclosed

end Block

namespace Condition

theorem mem_verbatimsAll {c : Condition} {cs : List Condition} (h : c ∈ cs) {v : Verbatim}
    (hv : v ∈ c.verbatims) : v ∈ verbatimsAll cs := by
  induction cs with
  | nil => cases h
  | cons c' cs ih =>
    rw [verbatimsAll, List.mem_append]
    rcases List.mem_cons.1 h with rfl | h
    · exact .inl hv
    · exact .inr (ih h)

end Condition

theorem Query.mem_verbatims {q : Query} {c : Condition} (hc : c ∈ q.conditions) {v : Verbatim}
    (hv : v ∈ c.verbatims) : v ∈ q.verbatims := by
  have hq := Query.forall_verbatims (P := (· ∈ q.verbatims)).1 fun _ h => h
  exact hq.2.2.1 v (Condition.mem_verbatimsAll hc hv)

/-- The verbatim texts of a subquery are among those of the condition. -/
theorem Condition.Asks.mem_verbatims {q : Query} {c : Condition} (h : c.Asks q) {v : Verbatim}
    (hv : v ∈ q.verbatims) : v ∈ c.verbatims := by
  induction h with
  | here h =>
    rw [Condition.verbatims, Predicate.verbatims, Operand.verbatims]
    exact List.mem_append_right _ hv
  | inside h hc _ ih =>
    rw [Condition.verbatims, Predicate.verbatims, Operand.verbatims]
    exact List.mem_append_right _ (Query.mem_verbatims hc ih)
  | member hc _ ih =>
    rw [Condition.verbatims, Junction.verbatims]
    exact List.mem_append_right _ (Condition.mem_verbatimsAll hc ih)

namespace Query

theorem IsSubquery.mem_verbatims {q outer : Query} (h : q.IsSubquery outer) {v : Verbatim}
    (hv : v ∈ q.verbatims) : v ∈ outer.verbatims := by
  rcases h with ⟨c, hc, hq⟩
  exact Query.mem_verbatims hc (hq.mem_verbatims hv)

theorem tailOutline_composed {V : Verbatim → Prop} {q : Query} (h : ∀ v ∈ q.verbatims, V v) :
    Composed V q.tailOutline := by
  rcases forall_verbatims.1 h with ⟨-, -, -, hg, hs⟩
  exact Composed.flatMap fun ps hm => .cons_fixed (by decide) (q.tailParts_composed hg hs ps hm)

section

variable {s : Shipped} {q : Query} (hq : ∀ v ∈ q.verbatims, v.Over (· ≠ s.dialect.quote))
  (hb : ∀ v ∈ q.verbatims, v.IsBalanced)

include hq hb

/-- The statement is read as the trees of its blocks. -/
theorem pairs_outline : ∃ ts, Text.pairs s.dialect.quote (written s.dialect 0 q.outline) = some ts ∧
    Block.treesAll s 0 q.blocks = some ts := by
  have ho := q.outline_over (fun c hc => Text.ne_quote_of_isOrdinary s hc) hq
  have hfits := q.blocks_fits hb
  have htrees := Block.nests_treesAll fun b hm => (hfits.made b hm).nests_trees (s := s)
  rcases htrees 0 with ⟨ts, ht, hn⟩
  rw [hfits.pieces] at hn
  refine ⟨ts, ?_, ht⟩
  rw [Text.pairs, Piece.atoms_written s 0 q.outline_apart ho, Option.bind_some, hn.nest_eq]

/-- The clauses after the conditions stand outside of all brackets of the statement. -/
theorem closed_clauses (hs : q.IsSound) (n : Nat) : ∃ body clauses, q.tail s.dialect = .ok clauses ∧
    written s.dialect n q.outline = body ++ trailing clauses ∧
    Closed s.dialect.quote body ∧ Closed s.dialect.quote (trailing clauses) := by
  have ha : Apart q.outline := q.outline_apart
  have ho := q.outline_over (fun c hc => Text.ne_quote_of_isOrdinary s hc) hq
  have hall := balanced hb
  have htail := (tailOutline_composed hb).balanced
  rw [outline_split] at ha
  rw [outline_split, List.forall_mem_append] at ho
  rw [outline_split, List.flatMap_append] at hall
  refine ⟨_, _, hs.tail s.dialect, ?_, Piece.closed_written s n ha.left_of_append ho.1
    (hall.of_append htail), ?_⟩
  · rw [trailing_tail, outline_split, Piece.written_append,
      Piece.written_eq_of_slots s.dialect (slots_tailOutline q) _ 0]
  · rw [trailing_tail]
    exact Piece.closed_written s 0 ha.right_of_append ho.2 htail

/-- A subquery with its clauses stands between brackets of its own, and these are outside of all
names. -/
theorem IsSubquery.closed_clauses {sub : Query} (h : sub.IsSubquery q) (hs : q.IsSound) :
    ∃ n before body clauses after, sub.tail s.dialect = .ok clauses ∧
      (Node.query sub).text s.dialect n = body ++ trailing clauses ∧
      written s.dialect 0 q.outline = before ++ "(" ++ (body ++ trailing clauses) ++ ")" ++ after ∧
      (∃ as, Text.atoms s.dialect.quote before.toList = some as) ∧
      Closed s.dialect.quote body ∧ Closed s.dialect.quote (trailing clauses) := by
  have ha : Apart q.outline := q.outline_apart
  have ho := q.outline_over (fun c hc => Text.ne_quote_of_isOrdinary s hc) hq
  rcases h.infix_outline with ⟨ps, qs, he⟩
  let n := (Piece.slots ps).length
  rcases Query.closed_clauses (s := s) (fun v hv => hq v (h.mem_verbatims hv))
    (fun v hv => hb v (h.mem_verbatims hv)) (h.isSound hs) n with
    ⟨body, clauses, htail, hw, hbody, hclauses⟩
  have hbefore : Apart ps := ha.infix ⟨[], sub.enclosed ++ qs, by simp [← he]⟩
  have hover : ∀ p ∈ ps, p.Over (· ≠ s.dialect.quote) := fun p hp => ho p (by simp [← he, hp])
  refine ⟨n, written s.dialect 0 ps, body, clauses,
    written s.dialect (Piece.slots (ps ++ sub.enclosed)).length qs, htail, ?_, ?_,
    ⟨_, Piece.atoms_written s 0 hbefore hover⟩, hbody, hclauses⟩
  · rw [Node.text_eq]
    exact hw
  · rw [← he, ← hw]
    simp [enclosed, Piece.written_append, String.append_assoc, n]

end

/-- Outside of its names the brackets of a statement are balanced if those of its verbatim texts
are, whatever brackets the names hold. The pairs of brackets are the blocks: each group, list of
placeholders, call, list of an `INSERT` and subquery has one pair to itself, and closes it. So the
clauses after the conditions of a statement come when all brackets before them are closed, and those
of a subquery come before the bracket that closes the subquery. -/
theorem render_pairs {s : Shipped} {q : Query} {r : Rendered} (h : q.render s.dialect = .ok r)
    (hq : ∀ v ∈ q.verbatims, v.Over (· ≠ s.dialect.quote))
    (hb : ∀ v ∈ q.verbatims, v.IsBalanced) :
    Closed s.dialect.quote r.sql ∧
    r.sql = written s.dialect 0 (Block.piecesAll q.blocks) ∧
    (∃ ts, Text.pairs s.dialect.quote r.sql = some ts ∧ Block.treesAll s 0 q.blocks = some ts) ∧
    (∃ body clauses, q.tail s.dialect = .ok clauses ∧ r.sql = body ++ trailing clauses ∧
      Closed s.dialect.quote body ∧ Closed s.dialect.quote (trailing clauses)) ∧
    ∀ sub : Query, sub.IsSubquery q → ∃ n before body clauses after,
      sub.tail s.dialect = .ok clauses ∧
      (Node.query sub).text s.dialect n = body ++ trailing clauses ∧
      r.sql = before ++ "(" ++ (body ++ trailing clauses) ++ ")" ++ after ∧
      (∃ as, Text.atoms s.dialect.quote before.toList = some as) ∧
      Closed s.dialect.quote body ∧ Closed s.dialect.quote (trailing clauses) := by
  have hs := isSound_of_render h
  have ho := q.outline_over (fun c hc => Text.ne_quote_of_isOrdinary s hc) hq
  obtain rfl := Except.ok.inj ((hs.render s.dialect).symm.trans h)
  have hclosed := Piece.closed_written s 0 q.outline_apart ho (balanced hb)
  have hblocks : written s.dialect 0 q.outline = written s.dialect 0 (Block.piecesAll q.blocks) :=
    congrArg (written s.dialect 0) (q.blocks_fits hb).pieces.symm
  exact ⟨hclosed, hblocks, pairs_outline hq hb, closed_clauses hq hb hs 0,
    fun sub hsub => hsub.closed_clauses hq hb hs⟩

def counted : Query :=
  ((select "u)").filter (.predicate (.inList (.bare "b") 2))).groupBy (.verbatim "f(c)")

def layered : Query :=
  (((select "(t").computed ⟨"COUNT", [.call ⟨"F", [.column (.bare "\"(")], none⟩], none⟩).filter
    (.predicate ⟨.bare "a", .isIn, .subquery counted⟩)).withLimit 2

theorem counted_isSubquery : counted.IsSubquery layered := ⟨_, List.mem_cons_self, .here rfl⟩

theorem render_pairs_layered : ∃ r body clauses before inner after,
    layered.render Shipped.postgres.dialect = .ok r ∧ Closed '"' r.sql ∧
    r.sql = body ++ trailing clauses ∧ Closed '"' body ∧
    r.sql = before ++ "(" ++ (inner ++ " GROUP BY f(c)") ++ ")" ++ after ∧ Closed '"' inner := by
  have hq : ∀ v ∈ layered.verbatims, v.Over (· ≠ '"') := by
    have he : layered.verbatims =
        [⟨.function, "COUNT"⟩, ⟨.function, "F"⟩, ⟨.grouping, "f(c)"⟩] := rfl
    simp [he, Verbatim.Over]
  have hb : ∀ v ∈ layered.verbatims, Balanced (Text.brackets v.text) := by decide
  have h : layered.render Shipped.postgres.dialect = .ok _ := rfl
  rcases render_pairs h hq hb with ⟨hr, -, -, ⟨body, clauses, -, hsql, hbody, -⟩, hsub⟩
  rcases hsub counted counted_isSubquery with ⟨_, before, inner, _, after, hc, -, hs, -, hinner, -⟩
  cases hc
  exact ⟨_, body, clauses, before, inner, after, h, hr, hsql, hbody, hs, hinner⟩

end Query

end SqlRender
