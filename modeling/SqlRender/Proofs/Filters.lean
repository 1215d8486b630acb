import SqlRender.Proofs.Renumbering

/-!
# Adding a condition

A builder may add conditions one by one to a statement that is rendered already. The new condition
is written after the slots of the statement, right before the end of its conditions; all other text
and all earlier slots stay as they are. No check of the statement fails on account of the new
condition, so only the condition itself can be refused.
-/
namespace SqlRender

open Defect (barring)
open Piece (separated written writtenAll)

theorem Defect.barring_eq_error {α : Type} {ds : List Defect} {a : α} {e : Defect} :
    barring ds a = .error e ↔ ds.head? = some e := by
  cases ds <;> simp [barring]

namespace Condition

theorem defectsAll_append (cs ds : List Condition) :
    defectsAll (cs ++ ds) = defectsAll cs ++ defectsAll ds := by
  induction cs with
  | nil => rfl
  | cons c cs ih => rw [List.cons_append, defectsAll, defectsAll, ih, List.append_assoc]

theorem outlineAll_append (cs ds : List Condition) :
    outlineAll (cs ++ ds) = outlineAll cs ++ outlineAll ds := by
  simp only [outlineAll_eq_map, List.map_append]

/-- The condition after slots with the given names. -/
theorem run_write (d : Dialect) {c : Condition} (h : c.defects = []) (names : List String) :
    (c.write d).run (Bind.numbered 0 names).toArray = .ok (written d names.length c.outline,
      (Bind.numbered 0 (names ++ Piece.slots c.outline)).toArray) := by
  rw [write_lays d c, h, Bind.numbered_append]
  simp [barring]

theorem run_writeAll (d : Dialect) {cs : List Condition} (h : defectsAll cs = [])
    (names : List String) : (writeAll d cs).run (Bind.numbered 0 names).toArray =
      .ok (writtenAll d names.length (outlineAll cs),
        (Bind.numbered 0 (names ++ (outlineAll cs).flatMap Piece.slots)).toArray) := by
  rw [writeAll_laysAll d cs, h, Bind.numbered_append]
  simp [barring]

end Condition

def Query.trailing (clauses : List String) : String := String.join (clauses.map (" " ++ ·))

namespace Query

theorem trailing_writtenAll (d : Dialect) (n : Nat) (pss : List (List (Piece String))) :
    trailing (writtenAll d n pss) = written d n (pss.flatMap fun ps => .text " " :: ps) := by
  induction pss generalizing n with
  | nil => rfl
  | cons ps pss ih =>
    have h := ih (n + (Piece.slots ps).length)
    rw [trailing] at h
    simp [trailing, writtenAll, String.join_cons, h, Piece.written_append, String.append_assoc]

theorem trailing_tail (d : Dialect) (q : Query) :
    trailing (writtenAll d 0 q.tailParts) = written d 0 q.tailOutline :=
  trailing_writtenAll d 0 q.tailParts

def stem (q : Query) : Query :=
  { q with conditions := [], groupings := [], sortKeys := [], limit := none, offset := none }

theorem outline_stem (q : Query) : q.stem.outline = q.headOutline := by
  rw [outline_split]
  exact (List.append_nil _).trans (List.append_nil _)

theorem IsSound.stem {q : Query} (h : q.IsSound) : q.stem.IsSound := by
  cases h with
  | intro parts writes table read written calls joins =>
    refine .intro ?_ writes table read written calls joins (by simp [Query.stem])
      (by simp [Query.stem]) (by simp [Query.stem])
    intro part hp
    cases part with
    | distinct | computed | join | columnList => exact parts _ hp
    | _ => rfl

theorem IsSound.tail {q : Query} (h : q.IsSound) (d : Dialect) :
    q.tail d = .ok (writtenAll d 0 q.tailParts) := by
  cases h with
  | intro _ _ _ _ _ _ _ _ groupings sortKeys =>
    rw [tail_eq d q 0, tailDefects_eq_nil.2 ⟨groupings, sortKeys⟩]
    rfl

/-- The places of the conditions in the text of a statement. -/
theorem written_outline (d : Dialect) {q : Query} (h : q.conditions ≠ []) :
    written d 0 q.outline = written d 0 q.headOutline ++ " WHERE (" ++ " AND ".intercalate
      (writtenAll d (Piece.slots q.headOutline).length (Condition.outlineAll q.conditions)) ++
        ")" ++ written d 0 q.tailOutline := by
  have ht : ∀ n, written d n q.tailOutline = written d 0 q.tailOutline := fun n =>
    Piece.written_eq_of_slots d (slots_tailOutline q) n 0
  have hk : " " ++ Connective.and.keyword ++ " " = " AND " := by decide
  rw [outline_filter h, Piece.intercalate_writtenAll, Connective.outline, hk]
  apply String.toList_inj.1
  simp [Piece.written_append, ht]

theorem written_unfiltered (d : Dialect) {q : Query} (h : q.conditions = []) :
    written d 0 q.outline = written d 0 q.headOutline ++ written d 0 q.tailOutline := by
  have ht := Piece.written_eq_of_slots d (slots_tailOutline q)
  rw [outline_split, h, Piece.written_append, ht _ 0]
  exact congrArg (written d 0 · ++ _) (List.append_nil _)

theorem slots_outline_split (q : Query) : Piece.slots q.outline =
    Piece.slots q.headOutline ++ (Condition.outlineAll q.conditions).flatMap Piece.slots := by
  rw [outline_split, Piece.slots_append, Piece.slots_append, slots_tailOutline, List.append_nil,
    ← slots_filterParts]
  simp [Piece.slots_flatMap]

theorem slots_filter (q : Query) (c : Condition) : Piece.slots (q.filter c).outline =
    Piece.slots q.outline ++ Piece.slots c.outline := by
  have ho : Condition.outlineAll (q.filter c).conditions =
      Condition.outlineAll q.conditions ++ [c.outline] := Condition.outlineAll_append _ [c]
  have hh : (q.filter c).headOutline = q.headOutline := rfl
  rw [slots_outline_split, slots_outline_split, ho, hh]
  simp

/-- The new condition is the last one, and is written after all the slots of the statement. -/
theorem written_filter (d : Dialect) (q : Query) (c : Condition) :
    written d 0 (q.filter c).outline = written d 0 q.headOutline ++ " WHERE (" ++
      " AND ".intercalate
        (writtenAll d (Piece.slots q.headOutline).length (Condition.outlineAll q.conditions) ++
          [written d (Piece.slots q.outline).length c.outline]) ++
      ")" ++ written d 0 q.tailOutline := by
  have ho : Condition.outlineAll (q.filter c).conditions =
      Condition.outlineAll q.conditions ++ [c.outline] := Condition.outlineAll_append _ [c]
  have hne : (q.filter c).conditions ≠ [] := by simp [filter]
  rw [written_outline d hne, ho, Piece.writtenAll_append, slots_outline_split, List.length_append]
  rfl

theorem written_filter_of_eq_nil (d : Dialect) {q : Query} (h : q.conditions = [])
    (c : Condition) : written d 0 (q.filter c).outline = written d 0 q.headOutline ++ " WHERE (" ++
      written d (Piece.slots q.outline).length c.outline ++ ")" ++ written d 0 q.tailOutline := by
  rw [written_filter, h, Condition.outlineAll, writtenAll, List.nil_append,
    String.intercalate_singleton]

theorem written_filter_of_ne_nil (d : Dialect) {q : Query} (h : q.conditions ≠ [])
    (c : Condition) : written d 0 (q.filter c).outline = written d 0 q.headOutline ++ " WHERE (" ++
      " AND ".intercalate
        (writtenAll d (Piece.slots q.headOutline).length (Condition.outlineAll q.conditions)) ++
      " AND " ++ written d (Piece.slots q.outline).length c.outline ++ ")" ++
        written d 0 q.tailOutline := by
  have hne : writtenAll d (Piece.slots q.headOutline).length
      (Condition.outlineAll q.conditions) ≠ [] := by
    apply List.ne_nil_of_length_pos
    rw [Piece.length_writtenAll, Condition.outlineAll_eq_map, List.length_map]
    exact List.length_pos_iff.2 h
  rw [written_filter, String.intercalate_append_of_ne_nil hne (by simp),
    String.intercalate_singleton]
  simp only [String.append_assoc]

section Filter

variable {q : Query} (hv : q.verb ≠ .insert) (c : Condition)

include hv

/-- Every statement but an `INSERT` can have conditions. -/
theorem partDefects_filter : (q.filter c).partDefects = q.partDefects := by
  have hf : .filter ∉ q.verb.unsupported := by
    cases hq : q.verb with
    | insert => exact absurd hq hv
    | _ => decide
  have hu : ∀ part ∈ q.verb.unsupported, (q.filter c).uses part = q.uses part := by
    intro part hp
    cases part with
    | filter => exact absurd hp hf
    | _ => rfl
  unfold partDefects
  rw [← List.filter_congr hu]
  rfl

/-- Only the new condition can have a defect. -/
theorem defects_filter (h : q.defects = []) : (q.filter c).defects = c.defects := by
  have hp := partDefects_filter hv c
  rcases q with ⟨verb, table, distinct, columns, calls, joins, conditions, groupings, sortKeys,
    limit, offset⟩
  rw [defects] at h
  simp only [List.append_eq_nil_iff] at h
  rcases h with ⟨⟨⟨⟨⟨hparts, htable⟩, hcolumns⟩, hjoins⟩, hconditions⟩, htail⟩
  rw [filter] at hp ⊢
  rw [defects, hp, hparts, htable, hjoins, Condition.defectsAll_append, hconditions]
  unfold columnDefects tailDefects at *
  simp_all [Condition.defectsAll]

/-- Only the new condition can refuse the statement. -/
theorem render_filter_eq (h : q.IsSound) (d : Dialect) : (q.filter c).render d = barring c.defects
    ⟨written d 0 (q.filter c).outline,
      Bind.numbered 0 (Piece.slots q.outline ++ Piece.slots c.outline)⟩ := by
  rw [render_eq, defects_filter hv c ((defects_eq_nil q).2 h), pieces, Piece.slots_number,
    slots_filter, written]

/-- Adding a condition to a statement only adds to its text. The statement is refused just as the
condition is refused alone. Otherwise the binds of the condition follow those of the statement, and
its text, numbered after them, stands right after the conditions that were there, or in a `WHERE` of
its own right after the table, the joins or the assignments. -/
theorem render_filter {d : Dialect} {r : Rendered} (h : q.render d = .ok r) :
    ((∃ r', (q.filter c).render d = .ok r') ↔ ∃ s, (Node.condition c).render d = .ok s) ∧
    (∀ e, (q.filter c).render d = .error e ↔ (Node.condition c).render d = .error e) ∧
    ∃ stem clauses, q.stem.render d = .ok stem ∧ q.tail d = .ok clauses ∧
      ∀ s, (Node.condition c).render d = .ok s → ∃ r' text, (q.filter c).render d = .ok r' ∧
        r'.binds = r.binds ++ s.binds.map (Bind.shift r.binds.length) ∧
        (c.write d).run r.binds.toArray = .ok (text, r'.binds.toArray) ∧
        (q.conditions = [] →
          r.sql = stem.sql ++ trailing clauses ∧
          r'.sql = stem.sql ++ " WHERE (" ++ text ++ ")" ++ trailing clauses) ∧
        (q.conditions ≠ [] → ∃ texts,
          (Condition.writeAll d q.conditions).run stem.binds.toArray =
            .ok (texts, r.binds.toArray) ∧
          r.sql = stem.sql ++ " WHERE (" ++ " AND ".intercalate texts ++ ")" ++
            trailing clauses ∧
          r'.sql = stem.sql ++ " WHERE (" ++ " AND ".intercalate texts ++ " AND " ++ text ++ ")" ++
            trailing clauses) := by
  have hs := isSound_of_render h
  have hq := render_filter_eq hv c hs d
  have haccepted : (∃ r', (q.filter c).render d = .ok r') ↔
      ∃ s, (Node.condition c).render d = .ok s := by
    rw [hq, Node.render_eq]
    simp [Defect.barring_eq_ok, Node.defects]
  have hrefused : ∀ e, (q.filter c).render d = .error e ↔
      (Node.condition c).render d = .error e := by
    intro e
    rw [hq, Node.render_eq, Defect.barring_eq_error, Defect.barring_eq_error]
    rfl
  have hstem := hs.stem.render d
  rw [outline_stem] at hstem
  obtain rfl := Except.ok.inj ((hs.render d).symm.trans h)
  refine ⟨haccepted, hrefused, _, _, hstem, hs.tail d, ?_⟩
  intro s hrendered
  rcases Node.render_eq_ok.1 hrendered with ⟨hnode, rfl⟩
  have hc : c.defects = [] := hnode
  rw [hc] at hq
  refine ⟨_, written d (Piece.slots q.outline).length c.outline, hq, ?_,
    Condition.run_write d hc _, ?_, ?_⟩
  · rw [Bind.numbered_append, Bind.numbered_shift, Bind.length_numbered, Node.pieces,
      Piece.slots_number]
    rfl
  · intro hn
    rw [trailing_tail]
    exact ⟨written_unfiltered d hn, written_filter_of_eq_nil d hn c⟩
  · intro hn
    have hd := conditions_of_defects ((defects_eq_nil q).2 hs)
    have hall := Condition.run_writeAll d hd (Piece.slots q.headOutline)
    rw [← slots_outline_split] at hall
    rw [trailing_tail]
    exact ⟨_, hall, written_outline d hn, written_filter_of_ne_nil d hn c⟩

end Filter

/-- Bounds after five slots, in an update that has conditions already. -/
theorem render_filter_update :
    ∃ r, (nestedUpdate.filter (.predicate (.between (.bare "z")))).render .postgres = .ok r ∧
      r.binds = [⟨"a", 1⟩, ⟨"n.min", 2⟩, ⟨"n.max", 3⟩, ⟨"x", 4⟩, ⟨"x", 5⟩, ⟨"z.min", 6⟩,
        ⟨"z.max", 7⟩] := by
  have h := render_filter (q := nestedUpdate) (d := .postgres) (by decide)
    (.predicate (.between (.bare "z"))) rfl
  rcases h with ⟨-, -, _, _, -, -, hfilter⟩
  rcases hfilter _ rfl with ⟨r, _, hr, hb, -⟩
  exact ⟨r, hr, hb⟩

end Query

end SqlRender
