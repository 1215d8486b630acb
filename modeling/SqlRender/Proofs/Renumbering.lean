import SqlRender.Proofs.Acceptance
import SqlRender.Proofs.Slots

/-!
# Rendering composes under numbering

A node may be written alone, with a list of binds of its own, or as a part of a statement that has
given out slots before. The only difference is that the positions of its binds are shifted. So a
subquery and the conditions of a statement read as they do alone.
-/
namespace SqlRender

open Piece (separated written)

def Bind.shift (n : Nat) (b : Bind) : Bind := { b with position := b.position + n }

theorem Bind.numbered_shift (n m : Nat) (names : List String) :
    numbered (n + m) names = (numbered n names).map (Bind.shift m) := by
  induction names generalizing n with
  | nil => rfl
  | cons name names ih =>
    rw [numbered_cons, numbered_cons, List.map_cons, ← ih, shift, Nat.add_right_comm n m]

namespace Piece

def shift (n : Nat) : Piece Bind → Piece Bind
  | .slot b => .slot (b.shift n)
  | .text s => .text s
  | .name s => .name s
  | .comparison c => .comparison c

theorem number_shift (n m : Nat) (ps : List (Piece String)) :
    number (n + m) ps = (number n ps).map (shift m) := by
  induction ps generalizing n with
  | nil => rfl
  | cons p ps ih =>
    cases p with
    | slot mark =>
      rw [number, number, List.map_cons, ← ih, shift, Bind.shift, Nat.add_right_comm n m]
    | _ => rw [number, number, List.map_cons, ← ih, shift]

/-- The numbering does not matter to a row without slots. -/
theorem written_eq_of_slots (d : Dialect) {ps : List (Piece String)} (h : slots ps = [])
    (n m : Nat) : written d n ps = written d m ps := by
  induction ps with
  | nil => rfl
  | cons p ps ih =>
    cases p with
    | slot mark => simp at h
    | _ => simp_all

/-- The numbering does not matter to a dialect whose placeholders do not show their position. -/
theorem written_eq_of_placeholder {d : Dialect}
    (h : ∀ name i j, d.placeholder ⟨name, i⟩ = d.placeholder ⟨name, j⟩) (n m : Nat)
    (ps : List (Piece String)) : written d n ps = written d m ps := by
  induction ps generalizing n m with
  | nil => rfl
  | cons p ps ih =>
    cases p with
    | slot mark => rw [written_slot, written_slot, h mark (n + 1) (m + 1), ih (n + 1) (m + 1)]
    | _ => simp [ih n m]

theorem infix_separated (separator : String) {ps : List (Piece String)}
    {pss : List (List (Piece String))} (h : ps ∈ pss) : ps <:+: separated separator pss := by
  obtain ⟨before, after, rfl⟩ := List.append_of_mem h
  cases before with
  | nil =>
    rw [List.nil_append, separated_cons]
    exact (List.prefix_append _ _).isInfix
  | cons qs before =>
    rw [separated_append separator (by simp), List.flatMap_cons]
    exact ⟨separated separator (qs :: before) ++ [.text separator],
      after.flatMap fun qs => .text separator :: qs, by simp⟩

end Piece

/-- What can be written alone. -/
inductive Node where
  | query (query : Query)
  | junction (junction : Junction)
  | condition (condition : Condition)
  | predicate (predicate : Predicate)

namespace Node

def write (d : Dialect) : Node → Writer String
  | query q => q.write d
  | junction j => j.write d
  | condition c => c.write d
  | predicate p => p.write d

def outline : Node → List (Piece String)
  | query q => q.outline
  | junction j => j.outline
  | condition c => c.outline
  | predicate p => p.outline

def defects : Node → List Defect
  | query q => q.defects
  | junction j => j.defects
  | condition c => c.defects
  | predicate p => p.defects

def pieces (x : Node) : List (Piece Bind) := Piece.number 0 x.outline

/-- The pieces of the node after `n` further slots, spelled by the dialect. -/
def text (d : Dialect) (n : Nat) (x : Node) : String :=
  String.join ((x.pieces.map (Piece.shift n)).map (Piece.spell d))

def render (d : Dialect) (x : Node) : Except Defect Rendered := (x.write d).rendered

variable {d : Dialect} {x : Node}

theorem text_eq (d : Dialect) (n : Nat) (x : Node) : x.text d n = written d n x.outline := by
  rw [text, pieces, ← Piece.number_shift, Nat.zero_add, written]

theorem write_lays (d : Dialect) (x : Node) : Writer.Lays d (x.write d) x.defects x.outline := by
  cases x with
  | query q => exact q.write_lays d
  | junction j => exact j.write_lays d
  | condition c => exact c.write_lays d
  | predicate p => exact p.write_lays d

theorem render_eq (d : Dialect) (x : Node) :
    x.render d = Defect.barring x.defects ⟨x.text d 0, Piece.slots x.pieces⟩ := by
  rw [render, Writer.rendered, x.write_lays d #[], text_eq, pieces, Piece.slots_number]
  cases x.defects with
  | nil => simp [Defect.barring, Except.map]
  | cons e ds => rfl

theorem render_eq_ok {r : Rendered} :
    x.render d = .ok r ↔ x.defects = [] ∧ r = ⟨x.text d 0, Piece.slots x.pieces⟩ := by
  rw [render_eq, Defect.barring_eq_ok, eq_comm (a := r)]

/-- A writer continues any list of binds as it begins an empty one. -/
theorem run_write (d : Dialect) (x : Node) (binds : Array Bind) : (x.write d).run binds =
    (x.render d).map fun r =>
      (x.text d binds.size, binds ++ (r.binds.map (Bind.shift binds.size)).toArray) := by
  have hn := Bind.numbered_shift 0 binds.size (Piece.slots x.outline)
  rw [Nat.zero_add] at hn
  rw [x.write_lays d binds, render_eq, text_eq, pieces, Piece.slots_number]
  cases x.defects with
  | nil => simp [Defect.barring, Except.map, hn]
  | cons e ds => rfl

end Node

/-- The query is written as a subquery of the condition, at any depth. -/
inductive Condition.Asks (q : Query) : Condition → Prop
  | here {column : Column} {comparison : Comparison} (h : comparison.isNullCheck = false) :
      Condition.Asks q (.predicate ⟨column, comparison, .subquery q⟩)
  | inside {column : Column} {comparison : Comparison} {outer : Query} {c : Condition}
      (h : comparison.isNullCheck = false) (hc : c ∈ outer.conditions) (hq : Condition.Asks q c) :
      Condition.Asks q (.predicate ⟨column, comparison, .subquery outer⟩)
  | member {connective : Connective} {members : List Condition} {c : Condition} (hc : c ∈ members)
      (hq : Condition.Asks q c) : Condition.Asks q (.junction ⟨connective, members⟩)

/-- The query is a subquery among the conditions of the other one, at any depth. -/
def Query.IsSubquery (q outer : Query) : Prop := ∃ c ∈ outer.conditions, c.Asks q

def Query.enclosed (q : Query) : List (Piece String) := .text "(" :: q.outline ++ [.text ")"]

theorem Predicate.enclosed_infix {column : Column} {comparison : Comparison} {q : Query}
    (h : comparison.isNullCheck = false) :
    q.enclosed <:+: (⟨column, comparison, .subquery q⟩ : Predicate).outline := by
  rw [Predicate.outline, Operand.outline, h]
  exact ⟨column.outline ++ [.comparison comparison, .text " "], [], by simp [Query.enclosed]⟩

theorem Condition.mem_outlineAll {c : Condition} {cs : List Condition} (h : c ∈ cs) :
    c.outline ∈ Condition.outlineAll cs := by
  induction cs with
  | nil => simp at h
  | cons c' cs ih =>
    rw [Condition.outlineAll]
    rcases List.mem_cons.1 h with rfl | h
    · exact List.mem_cons_self
    · exact List.mem_cons_of_mem _ (ih h)

theorem Connective.infix_outline {k : Connective} {c : Condition} {cs : List Condition}
    (h : c ∈ cs) : c.outline <:+: k.outline (Condition.outlineAll cs) := by
  have hs := Piece.infix_separated (" " ++ k.keyword ++ " ") (Condition.mem_outlineAll h)
  exact hs.trans ⟨[.text "("], [.text ")"], by simp [Connective.outline]⟩

namespace Query

def headOutline (q : Query) : List (Piece String) :=
  separated " " (q.openingParts ++ q.joins.map Join.outline)

def tailOutline (q : Query) : List (Piece String) :=
  q.tailParts.flatMap fun ps => .text " " :: ps

theorem outline_split (q : Query) : q.outline = q.headOutline ++
    (filterParts (Condition.outlineAll q.conditions)).flatMap (fun ps => .text " " :: ps) ++
      q.tailOutline := by
  have hne : q.openingParts ++ q.joins.map Join.outline ≠ [] := by
    cases hv : q.verb <;> simp [openingParts, hv]
  rw [outline_eq, List.append_assoc, Piece.separated_append " " hne, List.flatMap_append,
    ← List.append_assoc, headOutline, tailOutline]

theorem outline_filter {q : Query} (h : q.conditions ≠ []) : q.outline = q.headOutline ++
    .text " " :: .text "WHERE" :: .text " " ::
      Connective.and.outline (Condition.outlineAll q.conditions) ++ q.tailOutline := by
  obtain ⟨c, cs, hc⟩ := List.exists_cons_of_ne_nil h
  simp [outline_split, hc, Condition.outlineAll, filterParts]

theorem infix_outline {q : Query} {c : Condition} (h : c ∈ q.conditions) :
    c.outline <:+: q.outline := by
  rw [outline_filter (List.ne_nil_of_mem h)]
  refine (Connective.infix_outline (k := .and) h).trans ?_
  exact ⟨q.headOutline ++ [.text " ", .text "WHERE", .text " "], q.tailOutline, by simp⟩

end Query

theorem Condition.Asks.infix_outline {q : Query} {c : Condition} (h : c.Asks q) :
    q.enclosed <:+: c.outline := by
  induction h with
  | here h =>
    rw [Condition.outline]
    exact Predicate.enclosed_infix h
  | @inside column comparison outer c h hc _ ih =>
    have ho : outer.outline <:+: outer.enclosed := ⟨[.text "("], [.text ")"], rfl⟩
    rw [Condition.outline]
    exact ((ih.trans (Query.infix_outline hc)).trans ho).trans (Predicate.enclosed_infix h)
  | member hc _ ih =>
    rw [Condition.outline, Junction.outline]
    exact ih.trans (Connective.infix_outline hc)

theorem Condition.Asks.isSound {q : Query} {c : Condition} (h : c.Asks q) (hs : c.IsSound) :
    q.IsSound := by
  induction h with
  | here h =>
    rcases hs with ⟨-, ho⟩ | _
    rcases ho h with _ | _ | ⟨-, hq⟩
    exact hq
  | inside h hc _ ih =>
    rcases hs with ⟨-, ho⟩ | _
    rcases ho h with _ | _ | ⟨-, hq⟩
    cases hq with
    | intro _ _ _ _ _ _ _ conditions => exact ih (conditions _ hc)
  | member hc _ ih =>
    rcases hs with _ | ⟨-, -, hm⟩
    exact ih (hm _ hc)

namespace Query.IsSubquery

variable {q outer : Query}

theorem isSound (h : q.IsSubquery outer) (hs : outer.IsSound) : q.IsSound := by
  rcases h with ⟨c, hc, hq⟩
  cases hs with
  | intro _ _ _ _ _ _ _ conditions => exact hq.isSound (conditions c hc)

theorem infix_outline (h : q.IsSubquery outer) : q.enclosed <:+: outer.outline := by
  rcases h with ⟨c, hc, hq⟩
  exact hq.infix_outline.trans (Query.infix_outline hc)

end Query.IsSubquery

def Query.unfiltered (q : Query) : Query := { q with conditions := [] }

theorem Query.unfiltered_outline (q : Query) :
    q.unfiltered.outline = q.headOutline ++ q.tailOutline := by
  rw [outline_split]
  exact congrArg (· ++ q.tailOutline) (List.append_nil q.headOutline)

theorem Query.IsSound.unfiltered {q : Query} (h : q.IsSound) : q.unfiltered.IsSound := by
  cases h with
  | intro parts writes table read written calls joins _ groupings sortKeys =>
    refine .intro ?_ writes table read written calls joins (by simp [Query.unfiltered]) groupings
      sortKeys
    intro part hp
    cases part with
    | filter => rfl
    | _ => exact parts _ hp

theorem Query.IsSound.conjunction {q : Query} (h : q.IsSound) (hc : q.conditions ≠ []) :
    (Condition.all q.conditions).IsSound := by
  cases h with
  | intro _ _ _ _ _ _ _ conditions => exact .junction hc (by decide) conditions

theorem Query.slots_headOutline (q : Query) : Piece.slots q.headOutline =
    if q.verb.writesColumns then q.columns.map Column.name else [] := by
  have hj : (q.joins.map Join.outline).flatMap Piece.slots = [] := by simp
  rw [headOutline, Piece.slots_separated, List.flatMap_append, slots_openingParts, hj,
    List.append_nil]

theorem Query.slots_tailOutline (q : Query) : Piece.slots q.tailOutline = [] := by
  simpa [tailOutline, Piece.slots_flatMap] using slots_tailParts q

/-- A sound statement is spelled from its outline. -/
theorem Query.IsSound.render {q : Query} (h : q.IsSound) (d : Dialect) : q.render d =
    .ok ⟨written d 0 q.outline, Bind.numbered 0 (Piece.slots q.outline)⟩ := by
  rw [Query.render_eq_ok, Query.pieces, Piece.slots_number]
  exact ⟨(Query.defects_eq_nil q).2 h, rfl⟩

theorem Query.isSound_of_render {q : Query} {d : Dialect} {r : Rendered} (h : q.render d = .ok r) :
    q.IsSound := (Query.defects_eq_nil q).1 (Query.render_eq_ok.1 h).1

/-- A row inside the outline of a statement is written after the slots before it. -/
theorem Query.render_infix {q : Query} {d : Dialect} {r : Rendered} {ps : List (Piece String)}
    (h : ps <:+: q.outline) (hr : q.render d = .ok r) : ∃ before after earlier later,
      r.sql = before ++ written d earlier.length ps ++ after ∧
      r.binds = earlier ++ Bind.numbered earlier.length (Piece.slots ps) ++ later := by
  obtain ⟨qs, qs', ho⟩ := h
  obtain rfl : ⟨written d 0 q.outline, Bind.numbered 0 (Piece.slots q.outline)⟩ = r :=
    Except.ok.inj (((Query.isSound_of_render hr).render d).symm.trans hr)
  let n := (Piece.slots qs).length
  let m := n + (Piece.slots ps).length
  refine ⟨written d 0 qs, written d m qs', Bind.numbered 0 (Piece.slots qs),
    Bind.numbered m (Piece.slots qs'), ?_, ?_⟩
  · rw [← ho, Bind.length_numbered]
    simp [Piece.written_append, String.append_assoc, n, m]
  · rw [← ho, Bind.length_numbered]
    simp [Bind.numbered_append, n, m]

/-- A subquery is written as the statement that it is, after the slots before it. -/
theorem Query.IsSubquery.render_eq {q outer : Query} {d : Dialect} {r : Rendered}
    (h : q.IsSubquery outer) (hr : outer.render d = .ok r) :
    ∃ s before after earlier later, q.render d = .ok s ∧
      r.sql = before ++ "(" ++ (Node.query q).text d earlier.length ++ ")" ++ after ∧
      r.binds = earlier ++ s.binds.map (Bind.shift earlier.length) ++ later := by
  have hs := h.isSound (Query.isSound_of_render hr)
  obtain ⟨before, after, earlier, later, hsql, hb⟩ := Query.render_infix h.infix_outline hr
  have hn := Bind.numbered_shift 0 earlier.length (Piece.slots q.outline)
  refine ⟨_, before, after, earlier, later, hs.render d, ?_, ?_⟩
  · rw [hsql, Node.text_eq]
    simp [Query.enclosed, Piece.written_append, Node.outline, String.append_assoc]
  · rw [hb, ← hn]
    simp [Query.enclosed]

/-- The conditions of a statement are written as one conjunction after the slots of the written
columns, and everything around them as it is without conditions. -/
theorem Query.render_filtered {q : Query} {d : Dialect} {r : Rendered} (hc : q.conditions ≠ [])
    (hr : q.render d = .ok r) :
    ∃ s t before after, (Node.junction ⟨.and, q.conditions⟩).render d = .ok s ∧
      q.unfiltered.render d = .ok t ∧ t.sql = before ++ after ∧
      r.sql = before ++ " WHERE " ++
        (Node.junction ⟨.and, q.conditions⟩).text d t.binds.length ++ after ∧
      r.binds = t.binds ++ s.binds.map (Bind.shift t.binds.length) ∧
      t.binds.length = if q.verb.writesColumns then q.columns.length else 0 := by
  have hs := Query.isSound_of_render hr
  obtain rfl : ⟨written d 0 q.outline, Bind.numbered 0 (Piece.slots q.outline)⟩ = r :=
    Except.ok.inj ((hs.render d).symm.trans hr)
  have hd : (Node.junction ⟨.and, q.conditions⟩).defects = [] :=
    (Condition.defects_eq_nil _).2 (hs.conjunction hc)
  refine ⟨_, _, written d 0 q.headOutline, written d 0 q.tailOutline,
    Node.render_eq_ok.2 ⟨hd, rfl⟩, hs.unfiltered.render d, ?_, ?_, ?_, ?_⟩
  all_goals simp only [Bind.length_numbered, Query.unfiltered_outline, Piece.slots_append,
    Query.slots_tailOutline, List.append_nil]
  · rw [Piece.written_append, Piece.written_eq_of_slots d q.slots_tailOutline _ 0]
  · have ht := Piece.written_eq_of_slots d q.slots_tailOutline
    rw [Query.outline_filter hc, Node.text_eq]
    apply String.toList_inj.1
    simp [Piece.written_append, Node.outline, Junction.outline, ht _ 0]
  · have hn := Bind.numbered_shift 0 (Piece.slots q.headOutline).length
      (Piece.slots (Connective.and.outline (Condition.outlineAll q.conditions)))
    rw [Query.outline_filter hc, Node.pieces, Piece.slots_number, Node.outline, Junction.outline,
      ← hn]
    simp [Bind.numbered_append, Query.slots_tailOutline]
  · rw [Query.slots_headOutline]
    split <;> simp

/-- A node is written after any binds as it is written alone, up to the positions of its slots. In
particular a subquery at any depth is written as the statement that it is, and the conditions of a
statement as one conjunction, which is shifted by the number of written columns. -/
theorem Node.write_composes :
    (∀ (x : Node) (d : Dialect) (binds : Array Bind), (x.write d).run binds =
      (x.render d).map fun r =>
        (x.text d binds.size, binds ++ (r.binds.map (Bind.shift binds.size)).toArray)) ∧
    (∀ (x : Node) (d : Dialect) (r : Rendered), x.render d = .ok r →
      r.sql = x.text d 0 ∧ r.binds = Piece.slots x.pieces) ∧
    (∀ (x : Node) (d : Dialect) (n : Nat),
      (∀ name i j, d.placeholder ⟨name, i⟩ = d.placeholder ⟨name, j⟩) → x.text d n = x.text d 0) ∧
    (∀ (q outer : Query) (d : Dialect) (r : Rendered), q.IsSubquery outer → outer.render d = .ok r →
      ∃ s before after earlier later, q.render d = .ok s ∧
        r.sql = before ++ "(" ++ (Node.query q).text d earlier.length ++ ")" ++ after ∧
        r.binds = earlier ++ s.binds.map (Bind.shift earlier.length) ++ later) ∧
    ∀ (q : Query) (d : Dialect) (r : Rendered), q.conditions ≠ [] → q.render d = .ok r →
      ∃ s t before after, (Node.junction ⟨.and, q.conditions⟩).render d = .ok s ∧
        q.unfiltered.render d = .ok t ∧ t.sql = before ++ after ∧
        r.binds = t.binds ++ s.binds.map (Bind.shift t.binds.length) ∧
        (q.verb = .select ∨ q.verb = .delete → r.sql = before ++ " WHERE " ++ s.sql ++ after) ∧
        (q.verb = .update → r.sql = before ++ " WHERE " ++
          (Node.junction ⟨.and, q.conditions⟩).text d q.columns.length ++ after) := by
  refine ⟨fun x d binds => x.run_write d binds, ?_, ?_, fun q outer d r h hr => h.render_eq hr, ?_⟩
  · intro x d r hr
    obtain ⟨-, rfl⟩ := Node.render_eq_ok.1 hr
    exact ⟨rfl, rfl⟩
  · intro x d n h
    rw [Node.text_eq, Node.text_eq, Piece.written_eq_of_placeholder h n 0]
  · intro q d r hc hr
    obtain ⟨s, t, before, after, hj, hu, ht, hsql, hb, hl⟩ := Query.render_filtered hc hr
    refine ⟨s, t, before, after, hj, hu, ht, hb, fun hv => ?_, fun hv => ?_⟩
    · obtain ⟨-, rfl⟩ := Node.render_eq_ok.1 hj
      have hn : t.binds.length = 0 := by
        rw [hl]
        rcases hv with hv | hv <;> simp [hv, Verb.writesColumns]
      rw [hsql, hn]
    · have hn : t.binds.length = q.columns.length := by simp [hl, hv, Verb.writesColumns]
      rw [hsql, hn]

def Query.bounded : Query := (Query.select "u").filter (.predicate (.between (.bare "n")))

theorem Query.bounded_isSubquery : Query.bounded.IsSubquery Query.nestedUpdate :=
  ⟨_, List.mem_cons_self, .here rfl⟩

/-- An update with one written column, whose subquery therefore begins at the second slot. -/
theorem Node.write_composes_nested : ∃ r, Query.nestedUpdate.render .postgres = .ok r ∧
    (∃ s before after earlier later, Query.bounded.render .postgres = .ok s ∧
      r.sql = before ++ "(" ++ (Node.query .bounded).text .postgres earlier.length ++ ")" ++ after ∧
      r.binds = earlier ++ s.binds.map (Bind.shift earlier.length) ++ later) ∧
    (∃ before after, r.sql = before ++ " WHERE " ++
      (Node.junction ⟨.and, Query.nestedUpdate.conditions⟩).text .postgres 1 ++ after) ∧
    (Node.query .bounded).text .general 1 = (Node.query .bounded).text .general 0 := by
  obtain ⟨-, -, unnumbered, subquery, filtered⟩ := Node.write_composes
  have hr : Query.nestedUpdate.render .postgres = .ok _ := rfl
  refine ⟨_, hr, subquery _ _ _ _ Query.bounded_isSubquery hr, ?_, ?_⟩
  · obtain ⟨s, t, before, after, -, -, -, -, -, hu⟩ := filtered _ _ _ (by decide) hr
    exact ⟨before, after, hu rfl⟩
  · exact unnumbered _ _ 1 fun _ _ _ => rfl

end SqlRender
