import SqlRender.Proofs.Defects
import SqlRender.Proofs.Outline
import SqlRender.Query.Build

/-!
# Writing follows the outline

A writer has one of two results: the first defect, or the outline spelled from the next free slot
on. This is shown for the smallest writers first and carried up to whole statements.
-/
namespace SqlRender

open Piece (slots separated written writtenAll)

variable {α β : Type}

namespace Defect

/-- The value, unless there is a defect; then the first one. -/
def barring (ds : List Defect) (a : α) : Except Defect α :=
  match ds with
  | [] => .ok a
  | e :: _ => .error e

theorem barring_bind {ds es : List Defect} {a : α} {b : β} {f : α → Except Defect β}
    (h : f a = barring es b) : (barring ds a >>= f) = barring (ds ++ es) b := by
  cases ds with
  | nil => exact h
  | cons e ds => rfl

theorem barring_map (ds : List Defect) (a : α) (f : α → β) :
    f <$> barring ds a = barring ds (f a) := by cases ds <;> rfl

theorem barring_eq_ok {ds : List Defect} {a b : α} :
    barring ds a = .ok b ↔ ds = [] ∧ a = b := by
  cases ds <;> simp [barring]

theorem guard_barring {p : Prop} [Decidable p] {defect : Defect} {ds : List Defect} {a : α}
    {x : Except Defect α} {f : PUnit → Except Defect α} (h : x = barring ds a) :
    (if p then throw defect >>= f else x) = barring (Defect.when p defect ++ ds) a := by
  by_cases hp : p
  · simp [Defect.when, hp, barring]
    rfl
  · simpa [Defect.when, hp] using h

/-- A list is rendered in order, and the first defect of the first bad entry ends it. -/
theorem mapM_barring {f : α → Except Defect β} {ds : α → List Defect} {g : α → β}
    (h : ∀ a, f a = barring (ds a) (g a)) (as : List α) :
    as.mapM f = barring (as.flatMap ds) (as.map g) := by
  induction as with
  | nil => rfl
  | cons a as ih =>
    rw [List.mapM_cons, h, ih]
    apply barring_bind
    rw [bind_pure_comp, barring_map]
    rfl

end Defect

open Defect (barring)

namespace Writer

/-- The writer reports the first of the defects, or else takes slots with the names and returns the
value, which depends only on how many slots were taken before. -/
def Yields (w : Writer α) (ds : List Defect) (names : List String) (value : Nat → α) : Prop :=
  ∀ binds : Array Bind, w.run binds =
    barring ds (value binds.size, binds ++ (Bind.numbered binds.size names).toArray)

theorem yields_pure (a : α) : Yields (pure a) [] [] fun _ => a := by
  intro binds
  rw [StateT.run_pure, Bind.numbered_nil, Array.append_empty]
  rfl

theorem yields_lift {x : Except Defect α} {ds : List Defect} {value : Nat → α}
    (h : ∀ n, x = barring ds (value n)) : Yields (liftM x) ds [] value := by
  intro binds
  rw [h binds.size]
  cases ds with
  | nil => simp [barring, liftM, monadLift, MonadLift.monadLift, StateT.lift, StateT.run]
  | cons e ds => rfl

theorem yields_slot (d : Dialect) (mark : String) :
    Yields (d.slot mark) [] [mark] fun n => d.placeholder ⟨mark, n + 1⟩ := by
  intro binds
  rw [Bind.numbered_cons, Bind.numbered_nil, ← Array.push_eq_append]
  rfl

theorem Yields.bind {w : Writer α} {k : α → Writer β} {ds es : List Defect}
    {names more : List String} {f : Nat → α} {g : α → Nat → β} (hw : Yields w ds names f)
    (hk : ∀ a, Yields (k a) es more (g a)) :
    Yields (w >>= k) (ds ++ es) (names ++ more) fun n => g (f n) (n + names.length) := by
  intro binds
  rw [StateT.run_bind, hw binds]
  apply Defect.barring_bind
  rw [hk]
  simp [Bind.numbered_append]

theorem Yields.map {w : Writer α} {ds : List Defect} {names : List String} {f : Nat → α}
    (hw : Yields w ds names f) (g : α → β) :
    Yields (w >>= fun a => pure (g a)) ds names fun n => g (f n) := by
  simpa using hw.bind fun a => yields_pure (g a)

/-- A text without slots before the writer. -/
theorem Yields.after {x : Except Defect α} {a : α} {k : α → Writer β} {ds es : List Defect}
    {names : List String} {value : Nat → β} (hk : Yields (k a) es names value)
    (hx : x = barring ds a) : Yields (liftM x >>= k) (ds ++ es) names value := by
  intro binds
  rw [hx]
  cases ds with
  | nil => exact hk binds
  | cons e ds => rfl

/-- A check before the writer. -/
theorem Yields.guard {w : Writer α} {ds : List Defect} {names : List String} {value : Nat → α}
    (hw : Yields w ds names value) (p : Prop) [Decidable p] (e : Defect) (k : PUnit → Writer α) :
    Yields (if p then throw e >>= k else w) (Defect.when p e ++ ds) names value := by
  by_cases hp : p
  · rw [if_pos hp, Defect.when, if_pos hp]
    exact fun _ => rfl
  · rwa [if_neg hp, Defect.when, if_neg hp]

def Lays (d : Dialect) (w : Writer String) (ds : List Defect) (ps : List (Piece String)) : Prop :=
  Yields w ds (slots ps) fun n => written d n ps

def LaysAll (d : Dialect) (w : Writer (List String)) (ds : List Defect)
    (pss : List (List (Piece String))) : Prop :=
  Yields w ds (pss.flatMap slots) fun n => writtenAll d n pss

theorem mapM_laysAll {d : Dialect} {f : α → Writer String} {ds : α → List Defect}
    {outline : α → List (Piece String)} (h : ∀ a, Lays d (f a) (ds a) (outline a)) (as : List α) :
    LaysAll d (as.mapM f) (as.flatMap ds) (as.map outline) := by
  induction as with
  | nil => exact yields_pure []
  | cons a as ih =>
    rw [List.mapM_cons]
    exact (h a).bind fun text => ih.map (text :: ·)

end Writer

open Writer

namespace Dialect

theorem spell_eq (d : Dialect) (kind : NameKind) (name : String) :
    d.spell kind name = barring (kind.defects name) (d.escape name) := by
  unfold spell NameKind.defects Defect.when
  cases name.isEmpty <;> rfl

theorem slots_laysAll (d : Dialect) (mark : String) (n : Nat) :
    LaysAll d (d.slots mark n) [] (List.replicate n [.slot mark]) := by
  induction n with
  | zero => exact yields_pure []
  | succ n ih =>
    unfold Dialect.slots
    have h := (yields_slot d mark).bind fun text => ih.map (text :: ·)
    simpa [LaysAll, writtenAll, List.replicate_succ] using h

theorem valueSlots_lays (d : Dialect) (column : String) (comparison : Comparison) :
    Lays d (d.valueSlots column comparison) [] (
      if comparison = .between then
        [.slot (column ++ ".min"), .text " AND ", .slot (column ++ ".max")]
      else [.slot column]) := by
  by_cases h : comparison = .between
  · subst h
    have h := (yields_slot d (column ++ ".min")).bind fun low =>
      (yields_slot d (column ++ ".max")).map (low ++ " AND " ++ ·)
    simpa [Lays, valueSlots, String.append_assoc] using h
  · have hv : d.valueSlots column comparison = d.slot column := by
      cases comparison <;> first | rfl | exact absurd rfl h
    rw [if_neg h, hv]
    simpa [Lays] using yields_slot d column

end Dialect

theorem Column.render_eq (d : Dialect) (c : Column) (n : Nat) :
    c.render d = barring c.defects (written d n c.outline) := by
  rcases c with ⟨table, name⟩
  rw [Column.render, Dialect.spell_eq]
  apply Defect.barring_bind
  cases table with
  | none => simp [Column.outline, barring, pure, Except.pure]
  | some table =>
    simp [Column.outline, Dialect.spell_eq, Defect.barring_map, String.append_assoc]

mutual

theorem Call.renderBody_eq (d : Dialect) (n : Nat) : ∀ c : Call,
    c.renderBody d = barring c.defectsBody (written d n c.outlineBody)
  | ⟨function, arguments, _⟩ => by
    rw [Call.renderBody]
    apply Defect.guard_barring
    rw [Argument.renderAll_eq d n arguments, bind_pure_comp, Defect.barring_map]
    simp [Call.outlineBody, Piece.intercalate_writtenAll, Piece.written_append, String.append_assoc]

theorem Argument.render_eq (d : Dialect) (n : Nat) : ∀ a : Argument,
    a.render d = barring a.defects (written d n a.outline)
  | .column c => c.render_eq d n
  | .call c => Call.renderBody_eq d n c
  | .wildcard => by simp [Argument.render, Argument.defects, Argument.outline, barring]; rfl

theorem Argument.renderAll_eq (d : Dialect) (n : Nat) : ∀ as : List Argument,
    Argument.renderAll d as =
      barring (Argument.defectsAll as) (writtenAll d n (Argument.outlineAll as))
  | [] => rfl
  | a :: as => by
    rw [Argument.renderAll, Argument.render_eq d n a]
    apply Defect.barring_bind
    rw [Argument.renderAll_eq d n as, bind_pure_comp, Defect.barring_map]
    simp [Argument.outlineAll, writtenAll]

end

theorem Call.render_eq (d : Dialect) (c : Call) (n : Nat) :
    c.render d = barring c.defects (written d n c.outline) := by
  rw [Call.render, c.renderBody_eq d n]
  apply Defect.barring_bind
  rcases c with ⟨function, arguments, label⟩
  cases label with
  | none => simp [Call.outline, barring, pure, Except.pure]
  | some label =>
    simp [Call.outline, Dialect.spell_eq, Defect.barring_map, Piece.written_append,
      String.append_assoc]

theorem Join.render_eq (d : Dialect) (j : Join) (n : Nat) :
    j.render d = barring j.defects (written d n j.outline) := by
  obtain ⟨method, own, ⟨table, name⟩⟩ := j
  cases table with
  | none => rfl
  | some table =>
    have rest : (do
        let spelt ← d.spell .table table
        let left ← own.render d
        let right ← Column.render d ⟨some table, name⟩
        return method.keyword ++ " " ++ spelt ++ " ON " ++ left ++ " = " ++ right) =
      barring (NameKind.table.defects table ++ (own.defects ++ Column.defects ⟨some table, name⟩))
        (written d n (Join.outline ⟨method, own, ⟨some table, name⟩⟩)) := by
      rw [d.spell_eq]
      apply Defect.barring_bind
      rw [own.render_eq d n]
      apply Defect.barring_bind
      rw [Column.render_eq d _ n]
      simp [Join.outline, Defect.barring_map, Piece.written_append, String.append_assoc]
    simp only [Join.defects, List.append_assoc]
    cases method with
    | verbatim sql => exact Defect.guard_barring rest
    | _ => exact rest

theorem Join.render_lays (d : Dialect) (j : Join) :
    Lays d (liftM (j.render d)) j.defects j.outline := by
  simpa [Lays] using yields_lift (j.render_eq d)

theorem Grouping.render_eq (d : Dialect) (g : Grouping) (n : Nat) :
    g.render d = barring g.defects (written d n g.outline) := by
  cases g with
  | column c => exact c.render_eq d n
  | verbatim sql =>
    simp only [Grouping.render, Grouping.defects, Grouping.outline, VerbatimClause.defects,
      Defect.when]
    cases Text.isBlank sql <;> simp [barring] <;> rfl

theorem SortKey.render_eq (d : Dialect) (k : SortKey) (n : Nat) :
    k.render d = barring k.defects (written d n k.outline) := by
  rw [SortKey.render, k.column.render_eq d n]
  simp only [bind_pure_comp, Defect.barring_map, SortKey.defects, SortKey.outline]
  split <;> simp [Piece.written_append, String.append_assoc]

namespace Dialect

theorem operandSlots_lays (d : Dialect) (column : String) (comparison : Comparison)
    (count : UInt64) : Lays d (d.operandSlots column comparison count)
      (Operand.defects column comparison (.placeholders count)) (
        if count = 1 then
          if comparison = .between then
            [.slot (column ++ ".min"), .text " AND ", .slot (column ++ ".max")]
          else [.slot column]
        else .text "(" :: separated ", " (List.replicate count.toNat [.slot column]) ++
          [.text ")"]) := by
  unfold operandSlots
  simp only [Operand.defects, List.append_assoc]
  refine Yields.guard (Yields.guard ?_ _ _ _) _ _ _
  by_cases h : count = 1
  · simpa [h, Defect.when, Lays] using d.valueSlots_lays column comparison
  · have hs := (d.slots_laysAll column count.toNat).map fun texts =>
      "(" ++ ", ".intercalate texts ++ ")"
    have hl := hs.guard (comparison = .between) (.betweenArity column count)
    simpa [h, Lays, Piece.intercalate_writtenAll, Piece.written_append,
      String.append_assoc] using hl _

theorem enclose_lays (d : Dialect) (k : Connective) (members : List Condition)
    {w : Writer (List String)} {ds : List Defect} {pss : List (List (Piece String))}
    (h : LaysAll d w ds pss) :
    Lays d (k.enclose members w) (k.defects members ++ ds) (k.outline pss) := by
  unfold Connective.enclose
  simp only [Connective.defects, List.append_assoc]
  refine Yields.guard (Yields.guard ?_ _ _ _) _ _ _
  have h := h.map fun texts => "(" ++ (" " ++ k.keyword ++ " ").intercalate texts ++ ")"
  simpa [Lays, Connective.outline, Piece.intercalate_writtenAll, Piece.written_append,
    String.append_assoc] using h

end Dialect

namespace Query

theorem checkParts_eq (q : Query) : q.checkParts = barring q.partDefects () := by
  unfold checkParts partDefects Defect.when
  cases h : q.verb.unsupported.find? q.uses with
  | none =>
    have hf : q.verb.unsupported.filter q.uses = [] := by simpa using h
    rw [hf]
    simp only [List.map_nil, List.nil_append]
    split <;> rfl
  | some part =>
    obtain ⟨tail, hf⟩ : ∃ tail, q.verb.unsupported.filter q.uses = part :: tail := by
      rw [← List.head?_filter] at h
      exact List.head?_eq_some_iff.1 h
    rw [hf]
    rfl

theorem projection_eq (d : Dialect) (q : Query) (n : Nat) :
    q.projection d (d.escape q.table) =
      barring (q.columns.flatMap Column.defects ++ q.calls.flatMap Call.defects)
        (written d n q.projectionOutline) := by
  unfold projection
  rw [Defect.mapM_barring fun c => Column.render_eq d c n]
  apply Defect.barring_bind
  rw [Defect.mapM_barring fun c => Call.render_eq d c n]
  rw [bind_pure_comp, Defect.barring_map]
  congr 1
  have hs : ∀ ps ∈ q.columns.map Column.outline ++ q.calls.map Call.outline, slots ps = [] := by
    simp only [List.mem_append, List.mem_map]
    rintro _ (⟨c, -, rfl⟩ | ⟨c, -, rfl⟩)
    · exact c.slots_outline
    · exact c.slots_outline
  have hw : (q.columns.map fun c => written d n c.outline) ++
      (q.calls.map fun c => written d n c.outline) =
        writtenAll d n (q.columns.map Column.outline ++ q.calls.map Call.outline) := by
    rw [Piece.writtenAll_eq_map d n hs, List.map_append, List.map_map, List.map_map]
    rfl
  unfold projectionOutline
  rw [hw]
  cases q.columns.map Column.outline ++ q.calls.map Call.outline with
  | nil => cases q.joins <;> simp [writtenAll]
  | cons ps pss => exact Piece.intercalate_writtenAll d n ", " (ps :: pss)

theorem listed_eq (d : Dialect) (n : Nat) (words : String) {pss : List (List (Piece String))}
    (h : ∀ ps ∈ pss, slots ps = []) :
    tail.listed words (pss.map (written d n)) = writtenAll d n (listPart words pss) := by
  cases pss with
  | nil => rfl
  | cons ps pss =>
    have hw := Piece.intercalate_writtenAll d n ", " (ps :: pss)
    rw [Piece.writtenAll_eq_map d n h] at hw
    simp only [tail.listed, List.map_cons, listPart, writtenAll, Piece.written_text] at hw ⊢
    rw [hw]

theorem tail_eq (d : Dialect) (q : Query) (n : Nat) :
    q.tail d = barring q.tailDefects (writtenAll d n q.tailParts) := by
  unfold tail tailDefects
  rw [Defect.mapM_barring fun g => Grouping.render_eq d g n]
  apply Defect.barring_bind
  rw [Defect.mapM_barring fun k => SortKey.render_eq d k n]
  rw [bind_pure_comp, Defect.barring_map]
  congr 1
  have hg : ∀ ps ∈ q.groupings.map Grouping.outline, slots ps = [] := by simp
  have hk : ∀ ps ∈ q.sortKeys.map SortKey.outline, slots ps = [] := by simp
  have counted : ∀ (words : String) (count : Option UInt64) (n : Nat),
      tail.counted words count = writtenAll d n (countPart words count) := by
    intro words count n
    cases count <;> simp [tail.counted, countPart, writtenAll]
  simp only [tailParts, Piece.writtenAll_append, List.flatMap_append, slots_listPart _ hg,
    slots_listPart _ hk, slots_countPart, List.append_nil, List.length_nil, Nat.add_zero]
  rw [← listed_eq d n _ hg, ← listed_eq d n _ hk, ← counted, ← counted, List.map_map, List.map_map]
  rfl

theorem writtenColumns_yields (d : Dialect) (cs : List Column) :
    Yields (writtenColumns d cs) (cs.flatMap fun c => NameKind.column.defects c.name)
      (cs.map Column.name) fun n =>
        (cs.map fun c => d.escape c.name).zip
          (writtenAll d n (cs.map fun c => [.slot c.name])) := by
  induction cs with
  | nil => exact yields_pure []
  | cons c cs ih =>
    unfold writtenColumns
    have hn : ∀ n : Nat, d.spell .column c.name = barring _ (d.escape c.name) := fun _ =>
      d.spell_eq .column c.name
    have h := (yields_lift hn).bind fun name =>
      (yields_slot d c.name).bind fun value => ih.map ((name, value) :: ·)
    simpa [writtenAll] using h

/-- The names of written columns in a list of their own. -/
theorem names_eq (d : Dialect) (n : Nat) (cs : List Column) :
    ", ".intercalate (cs.map fun c => d.escape c.name) =
      written d n (separated ", " (cs.map fun c => [.name c.name])) := by
  rw [← Piece.intercalate_writtenAll, Piece.writtenAll_eq_map d n (by simp)]
  simp [Function.comp_def]

/-- Each written column next to its value. -/
theorem assignments_eq (d : Dialect) (n : Nat) (cs : List Column) :
    ((cs.map fun c => d.escape c.name).zip (writtenAll d n (cs.map fun c => [.slot c.name]))).map
        (fun (name, value) => name ++ " = " ++ value) =
      writtenAll d n (cs.map fun c => [.name c.name, .text " = ", .slot c.name]) := by
  induction cs generalizing n with
  | nil => rfl
  | cons c cs ih =>
    rw [List.map_cons, List.map_cons, writtenAll, List.zip_cons_cons, List.map_cons, ih]
    simp [writtenAll, String.append_assoc]

theorem opening_laysAll (d : Dialect) (q : Query) :
    LaysAll d (q.opening d) (NameKind.table.defects q.table ++ q.columnDefects) q.openingParts := by
  unfold opening
  apply Yields.after _ (d.spell_eq .table q.table)
  have hc := writtenColumns_yields d q.columns
  unfold columnDefects openingParts
  cases hv : q.verb with
  | select =>
    have h := (yields_lift (q.projection_eq d)).map fun projection =>
      Verb.select.keyword :: (if q.distinct then ["DISTINCT", projection] else [projection]) ++
        ["FROM " ++ d.escape q.table]
    cases hd : q.distinct <;> simpa [LaysAll, writtenAll, hd] using h
  | insert =>
    have h := hc.map fun pairs => [Verb.insert.keyword, d.escape q.table,
      "(" ++ ", ".intercalate pairs.unzip.1 ++ ")", "VALUES",
      "(" ++ ", ".intercalate pairs.unzip.2 ++ ")"]
    simp only [List.unzip_zip, List.length_map, Piece.length_writtenAll] at h
    simp only [Piece.intercalate_writtenAll] at h
    have hz : q.columns.flatMap (fun _ => ([] : List String)) = [] := by simp
    simpa [LaysAll, writtenAll, ← names_eq, Piece.written_append, List.flatMap_map, hz,
      ← List.map_eq_flatMap, String.append_assoc] using h
  | update =>
    have h := hc.map fun pairs => [Verb.update.keyword, d.escape q.table, "SET",
      ", ".intercalate (pairs.map fun (name, value) => name ++ " = " ++ value)]
    simp only [assignments_eq, Piece.intercalate_writtenAll] at h
    simpa [LaysAll, writtenAll, List.flatMap_map, ← List.map_eq_flatMap] using h
  | delete => simpa [LaysAll, writtenAll] using yields_pure [Verb.delete.keyword, d.escape q.table]

end Query

mutual

theorem Operand.write_yields (d : Dialect) (column : String) (comparison : Comparison) :
    ∀ v : Operand, LaysAll d (v.write d column comparison) (v.defects column comparison)
      (v.outline column comparison).toList
  | .placeholders count => by
    have h := (d.operandSlots_lays column comparison count).map fun text => [text]
    rw [Operand.write]
    simpa [LaysAll, Operand.outline, writtenAll] using h
  | .column c => by
    have h := (yields_lift (c.render_eq d)).map fun text => [text]
    rw [Operand.write]
    simpa [LaysAll, Operand.outline, Operand.defects, writtenAll] using h
  | .subquery q => by
    rw [Operand.write, Operand.defects]
    apply Yields.guard
    have h := (Query.write_lays d q).map fun text => ["(" ++ text ++ ")"]
    simpa [LaysAll, Operand.outline, Piece.written_append, writtenAll, String.append_assoc] using h
  | .verbatim sql => by
    rw [Operand.write, Operand.outline, Operand.defects]
    by_cases hs : sql.isEmpty
    · simpa [LaysAll, writtenAll, hs] using yields_pure ([] : List String)
    · simpa [LaysAll, writtenAll, hs] using yields_pure [sql]
  | .absent => yields_pure []

theorem Predicate.write_lays (d : Dialect) : ∀ p : Predicate,
    Lays d (p.write d) p.defects p.outline
  | ⟨column, comparison, operand⟩ => by
    rw [Predicate.write, Predicate.defects, Predicate.outline]
    have ho := Operand.write_yields d column.name comparison operand
    have hc := yields_lift (column.render_eq d)
    cases hn : comparison.isNullCheck with
    | true =>
      have h := hc.map fun name => " ".intercalate (name ::
        if (d.operator comparison).isEmpty then [] else [d.operator comparison])
      cases he : (d.operator comparison).isEmpty <;>
        simpa [Lays, he, Piece.written_append, String.append_assoc] using h
    | false =>
      have h := hc.bind fun name => ho.map fun operands => " ".intercalate (name ::
        (if (d.operator comparison).isEmpty then [] else [d.operator comparison]) ++ operands)
      cases hv : operand.outline column.name comparison <;>
        cases he : (d.operator comparison).isEmpty <;>
          simpa [Lays, he, hv, Piece.written_append, String.append_assoc, writtenAll] using h

theorem Junction.write_lays (d : Dialect) : ∀ j : Junction,
    Lays d (j.write d) j.defects j.outline
  | ⟨connective, members⟩ => by
    rw [Junction.write, Junction.defects, Junction.outline]
    exact d.enclose_lays connective members (Condition.writeAll_laysAll d members)

theorem Condition.write_lays (d : Dialect) : ∀ c : Condition,
    Lays d (c.write d) c.defects c.outline
  | .predicate p => by
    rw [Condition.write, Condition.defects, Condition.outline]
    exact Predicate.write_lays d p
  | .junction j => by
    rw [Condition.write, Condition.defects, Condition.outline]
    exact Junction.write_lays d j

theorem Condition.writeAll_laysAll (d : Dialect) : ∀ cs : List Condition,
    LaysAll d (Condition.writeAll d cs) (Condition.defectsAll cs) (Condition.outlineAll cs)
  | [] => yields_pure []
  | c :: cs => by
    rw [Condition.writeAll, Condition.defectsAll, Condition.outlineAll]
    exact (Condition.write_lays d c).bind fun text =>
      (Condition.writeAll_laysAll d cs).map (text :: ·)

theorem Query.write_lays (d : Dialect) : ∀ q : Query,
    Lays d (q.write d) q.defects q.outline
  | ⟨verb, table, distinct, columns, calls, joins, conditions, groupings, sortKeys, limit,
      offset⟩ => by
    rw [Query.write, Query.defects, Query.outline]
    generalize hq : (⟨verb, table, distinct, columns, calls, joins, conditions, groupings, sortKeys,
      limit, offset⟩ : Query) = q
    have ht : q.table = table := by rw [← hq]
    have hj : q.joins = joins := by rw [← hq]
    rw [← ht, ← hj]
    simp only [List.append_assoc]
    apply Yields.after _ q.checkParts_eq
    have hf := Condition.filter_laysAll d conditions
    have h := (q.opening_laysAll d).bind fun opening =>
      (mapM_laysAll (Join.render_lays d) q.joins).bind fun joins =>
        hf.bind fun filter => (yields_lift (q.tail_eq d)).map fun tail =>
          " ".intercalate (opening ++ joins ++ filter ++ tail)
    cases hc : conditions.isEmpty <;>
      simpa [Lays, hc, Query.slots_tailParts, ← Piece.intercalate_writtenAll,
        Piece.writtenAll_append, Nat.add_assoc] using h

/-- The conditions of a statement. -/
theorem Condition.filter_laysAll (d : Dialect) : ∀ cs : List Condition,
    LaysAll d (if cs.isEmpty then pure [] else do
        return ["WHERE", ← Connective.and.enclose cs (Condition.writeAll d cs)])
      (Condition.defectsAll cs) (Query.filterParts (Condition.outlineAll cs))
  | [] => yields_pure []
  | c :: cs => by
    have h := (d.enclose_lays .and (c :: cs) (Condition.writeAll_laysAll d (c :: cs))).map
      fun text => ["WHERE", text]
    have hk : Text.isBlank Connective.and.keyword = false := by decide
    have hd : Connective.and.defects (c :: cs) = [] := by simp [Connective.defects, Defect.when, hk]
    simpa [LaysAll, Condition.outlineAll, Query.filterParts, hd, writtenAll] using h

end

/-- Rendering ends with the first defect. A query without defects is spelled from its pieces, and
its binds are those at the slots. -/
theorem Query.render_eq (d : Dialect) (q : Query) : q.render d =
    barring q.defects ⟨String.join (q.pieces.map (Piece.spell d)), slots q.pieces⟩ := by
  have h := Query.write_lays d q #[]
  unfold Query.render Writer.rendered
  rw [h, Query.pieces, Piece.slots_number]
  cases q.defects with
  | nil => simp [barring, Except.map, written]
  | cons e ds => rfl

theorem Query.render_eq_ok {d : Dialect} {q : Query} {r : Rendered} : q.render d = .ok r ↔
    q.defects = [] ∧ r = ⟨String.join (q.pieces.map (Piece.spell d)), slots q.pieces⟩ := by
  rw [Query.render_eq, Defect.barring_eq_ok, eq_comm (a := r)]

def Query.nestedUpdate : Query :=
  let inner := (Query.select "u").filter (.predicate (.between (.bare "n")))
  let member := Condition.predicate ⟨.qualified "t" "id", .isIn, .subquery inner⟩
  let listed := Condition.any [.predicate ⟨.bare "x", .bare, .placeholders 2⟩]
  (((Query.update "t").column (.bare "a")).filter member).filter listed

example : Query.nestedUpdate.render .postgres =
    .ok ⟨"UPDATE \"t\" SET \"a\" = $1 WHERE (\"t\".\"id\" IN (SELECT * FROM \"u\" WHERE " ++
        "(\"n\" BETWEEN $2 AND $3)) AND (\"x\" ($4, $5)))",
      [⟨"a", 1⟩, ⟨"n.min", 2⟩, ⟨"n.max", 3⟩, ⟨"x", 4⟩, ⟨"x", 5⟩]⟩ := rfl

end SqlRender
