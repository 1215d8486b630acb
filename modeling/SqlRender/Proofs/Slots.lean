import SqlRender.Proofs.Writing

/-!
# The slots of a query

Callers bind their values blindly, in the order of the binds. The slots of a query are found by a
walk over the query alone: first the written columns, and then the tree of conditions from left to
right and depth first. The binds of every rendering are these slots, numbered from 1 without a gap.
-/
namespace SqlRender

mutual

/-- A null check, a column, verbatim text and an absent operand have no slot. -/
def Operand.slots (column : String) (comparison : Comparison) : Operand → List String
  | .placeholders count =>
    if comparison = .between ∧ count = 1 then [column ++ ".min", column ++ ".max"]
    else List.replicate count.toNat column
  | .subquery q => Query.slots q
  | .column _ | .verbatim _ | .absent => []

def Predicate.slots : Predicate → List String
  | ⟨column, comparison, operand⟩ =>
    if comparison.isNullCheck then [] else Operand.slots column.name comparison operand

def Condition.slots : Condition → List String
  | .predicate p => Predicate.slots p
  | .junction ⟨_, members⟩ => Condition.slotsAll members

def Condition.slotsAll : List Condition → List String
  | [] => []
  | c :: cs => Condition.slots c ++ Condition.slotsAll cs

/-- The written columns and then the conditions; no other clause has a slot. -/
def Query.slots : Query → List String
  | ⟨verb, _, _, columns, _, _, conditions, _, _, _, _⟩ =>
    (if verb.writesColumns then columns.map Column.name else []) ++ Condition.slotsAll conditions

end

theorem Query.slots_openingParts (q : Query) : q.openingParts.flatMap Piece.slots =
    if q.verb.writesColumns then q.columns.map Column.name else [] := by
  have hz : q.columns.flatMap (fun _ => ([] : List String)) = [] := by simp
  unfold Query.openingParts
  cases q.verb with
  | select => cases q.distinct <;> simp [Verb.writesColumns]
  | insert =>
    simp [Verb.writesColumns, List.flatMap_map, ← List.map_eq_flatMap, hz]
  | update => simp [Verb.writesColumns, List.flatMap_map, ← List.map_eq_flatMap]
  | delete => simp [Verb.writesColumns]

theorem Query.slots_filterParts (pss : List (List (Piece String))) :
    (Query.filterParts pss).flatMap Piece.slots = pss.flatMap Piece.slots := by
  cases pss <;> simp [Query.filterParts, Connective.outline]

mutual

theorem Operand.slots_outline (column : String) (comparison : Comparison) :
    ∀ v : Operand, (v.outline column comparison).elim [] Piece.slots = v.slots column comparison
  | .placeholders count => by
    rw [Operand.outline, Operand.slots]
    by_cases hc : count = 1
    · subst hc
      by_cases hb : comparison = .between <;> simp [hb]
    · simp [hc, List.flatMap_replicate]
  | .column c => c.slots_outline
  | .subquery q => by
    rw [Operand.outline, Operand.slots, ← Query.slots_outline q]
    simp
  | .verbatim sql => by
    rw [Operand.outline, Operand.slots]
    split <;> rfl
  | .absent => rfl

theorem Predicate.slots_outline : ∀ p : Predicate, Piece.slots p.outline = p.slots
  | ⟨column, comparison, operand⟩ => by
    rw [Predicate.outline, Predicate.slots, ← Operand.slots_outline]
    cases comparison.isNullCheck with
    | true => simp
    | false => cases operand.outline column.name comparison <;> simp

theorem Condition.slots_outline : ∀ c : Condition, Piece.slots c.outline = c.slots
  | .predicate p => by
    rw [Condition.outline, Condition.slots, Predicate.slots_outline]
  | .junction ⟨k, members⟩ => by
    rw [Condition.outline, Junction.outline, Condition.slots, ← Condition.slots_outlineAll members]
    simp [Connective.outline]

theorem Condition.slots_outlineAll : ∀ cs : List Condition,
    (Condition.outlineAll cs).flatMap Piece.slots = Condition.slotsAll cs
  | [] => rfl
  | c :: cs => by
    rw [Condition.outlineAll, List.flatMap_cons, Condition.slots_outline c,
      Condition.slots_outlineAll cs, Condition.slotsAll]

theorem Query.slots_outline : ∀ q : Query, Piece.slots q.outline = q.slots
  | ⟨verb, table, distinct, columns, calls, joins, conditions, groupings, sortKeys, limit,
      offset⟩ => by
    have hj : (joins.map Join.outline).flatMap Piece.slots = [] := by simp
    rw [Query.outline, Query.slots, Piece.slots_separated, ← Condition.slots_outlineAll conditions]
    simp only [List.flatMap_append, Query.slots_openingParts, hj, Query.slots_filterParts,
      Query.slots_tailParts, List.append_nil]

end

/-- The values of a list of written columns. -/
theorem Query.writtenAll_values (d : Dialect) (n : Nat) (cs : List Column) :
    Piece.writtenAll d n (cs.map fun c => [.slot c.name]) =
      (Bind.numbered n (cs.map Column.name)).map d.placeholder := by
  induction cs generalizing n with
  | nil => rfl
  | cons c cs ih => simp [Piece.writtenAll, ih]

theorem Query.writtenAll_assignments (d : Dialect) (n : Nat) (cs : List Column) :
    Piece.writtenAll d n (cs.map fun c => [.name c.name, .text " = ", .slot c.name]) =
      List.zipWith (fun c b => d.escape c.name ++ " = " ++ d.placeholder b) cs
        (Bind.numbered n (cs.map Column.name)) := by
  induction cs generalizing n with
  | nil => rfl
  | cons c cs ih => simp [Piece.writtenAll, ih, String.append_assoc]

/-- Binds after those of the columns belong to no column. -/
theorem Query.zipWith_numbered_append {α : Type} (f : Column → Bind → α) (n : Nat)
    (cs : List Column) (more : List String) :
    List.zipWith f cs (Bind.numbered n (cs.map Column.name ++ more)) =
      List.zipWith f cs (Bind.numbered n (cs.map Column.name)) := by
  induction cs generalizing n with
  | nil => simp
  | cons c cs ih => simp [ih]

theorem Query.slots_pieces (q : Query) : Piece.slots q.pieces = Bind.numbered 0 q.slots := by
  rw [Query.pieces, Piece.slots_number, Query.slots_outline]

theorem Query.slots_eq (q : Query) : q.slots =
    (if q.verb.writesColumns then q.columns.map Column.name else []) ++
      Condition.slotsAll q.conditions := by cases q; rfl

theorem Query.outline_eq (q : Query) : q.outline = Piece.separated " " (q.openingParts ++
    q.joins.map Join.outline ++ Query.filterParts (Condition.outlineAll q.conditions) ++
      q.tailParts) := by cases q; rfl

theorem Query.outline_insert {q : Query} (h : q.defects = []) (hv : q.verb = .insert) :
    q.outline = Piece.separated " " q.openingParts := by
  have hp := Query.partDefects_of_defects h
  rcases Query.selectOnly_of_partDefects hp (by simp [hv]) with ⟨-, -, hj, hg, hs, hl, ho⟩
  have hc := Query.conditions_of_partDefects hp hv
  simp [Query.outline_eq, hj, hg, hs, hl, ho, hc, Query.tailParts, Query.listPart, Query.countPart,
    Query.filterParts, Condition.outlineAll]

theorem Query.outline_update {q : Query} (hv : q.verb = .update) :
    ∃ rest, q.outline = Piece.separated " " q.openingParts ++ rest := by
  have hne : q.openingParts ≠ [] := by simp [Query.openingParts, hv]
  rw [Query.outline_eq, List.append_assoc, List.append_assoc]
  exact ⟨_, Piece.separated_append " " hne _⟩

theorem Query.written_insert (d : Dialect) {q : Query} (hv : q.verb = .insert) :
    Piece.written d 0 (Piece.separated " " q.openingParts) = "INSERT INTO " ++ d.escape q.table ++
      " (" ++ ", ".intercalate (q.columns.map fun c => d.escape c.name) ++ ") VALUES (" ++
      ", ".intercalate ((Bind.numbered 0 (q.columns.map Column.name)).map d.placeholder) ++
      ")" := by
  have hz : q.columns.flatMap (fun _ => ([] : List String)) = [] := by simp
  rw [← Query.writtenAll_values, Piece.intercalate_writtenAll, Query.names_eq d 0,
    ← Piece.intercalate_writtenAll, Query.openingParts, hv]
  apply String.toList_inj.1
  simp [Piece.writtenAll, Piece.written_append, Verb.keyword, String.intercalate_cons_cons,
    List.flatMap_map, hz]

theorem Query.written_update (d : Dialect) {q : Query} (hv : q.verb = .update) :
    Piece.written d 0 (Piece.separated " " q.openingParts) = "UPDATE " ++ d.escape q.table ++
      " SET " ++ ", ".intercalate (List.zipWith
        (fun c b => d.escape c.name ++ " = " ++ d.placeholder b) q.columns
        (Bind.numbered 0 (q.columns.map Column.name))) := by
  rw [← Query.writtenAll_assignments, Piece.intercalate_writtenAll,
    ← Piece.intercalate_writtenAll, Query.openingParts, hv]
  apply String.toList_inj.1
  simp [Piece.writtenAll, Verb.keyword, String.intercalate_cons_cons]

/-- The binds of a rendering are the slots of the query, numbered from 1. In an `INSERT` the `k`-th
column, the `k`-th value and the `k`-th bind belong together, and so they do in the assignments of
an `UPDATE`. -/
theorem Query.render_binds {q : Query} {d : Dialect} {r : Rendered} (h : q.render d = .ok r) :
    r.binds = q.slots.mapIdx (fun i name => ⟨name, i + 1⟩) ∧
    (q.verb = .insert → r.sql = "INSERT INTO " ++ d.escape q.table ++
      " (" ++ ", ".intercalate (q.columns.map fun c => d.escape c.name) ++
      ") VALUES (" ++ ", ".intercalate (r.binds.map d.placeholder) ++ ")") ∧
    (q.verb = .update → ∃ rest, r.sql = "UPDATE " ++ d.escape q.table ++ " SET " ++
      ", ".intercalate (List.zipWith (fun c b => d.escape c.name ++ " = " ++ d.placeholder b)
        q.columns r.binds) ++ rest) := by
  obtain ⟨hd, rfl⟩ := Query.render_eq_ok.1 h
  rw [Query.slots_pieces]
  change _ ∧ (_ → Piece.written d 0 q.outline = _) ∧ (_ → ∃ rest, Piece.written d 0 q.outline = _)
  refine ⟨by simp [Bind.numbered], fun hv => ?_, fun hv => ?_⟩
  · have hc := Query.conditions_of_partDefects (Query.partDefects_of_defects hd) hv
    have hs : q.slots = q.columns.map Column.name := by
      simp [Query.slots_eq, hv, hc, Verb.writesColumns, Condition.slotsAll]
    rw [Query.outline_insert hd hv, hs]
    exact Query.written_insert d hv
  · rcases Query.outline_update hv with ⟨rest, hr⟩
    have hs : q.slots = q.columns.map Column.name ++ Condition.slotsAll q.conditions := by
      simp [Query.slots_eq, hv, Verb.writesColumns]
    rw [hr, Piece.written_append, Query.written_update d hv, hs, Query.zipWith_numbered_append]
    exact ⟨_, rfl⟩

/-- A written column, and conditions with a list and with bounds in a subquery. -/
theorem Query.render_binds_update : ∃ r, Query.nestedUpdate.render .sqlite = .ok r ∧
    r.binds = [⟨"a", 1⟩, ⟨"n.min", 2⟩, ⟨"n.max", 3⟩, ⟨"x", 4⟩, ⟨"x", 5⟩] ∧
    ∃ rest, r.sql = "UPDATE \"t\" SET \"a\" = ?1" ++ rest := by
  refine ⟨_, rfl, ?_⟩
  rcases Query.render_binds (q := Query.nestedUpdate) (d := .sqlite) rfl with ⟨hb, -, hu⟩
  exact ⟨hb, hu rfl⟩

end SqlRender
