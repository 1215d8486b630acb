import SqlRender.Proofs.Composition
import Mathlib.Data.List.Forall2

/-!
# Blocks

A statement as nested blocks: each call, column list, value list, list of placeholders, group of
conditions and subquery is one block between a pair of brackets, and what stands between these
blocks are rows without brackets of their own. The pieces of the blocks are the outline of the
statement.
-/
namespace SqlRender

open Piece (separated Composed)

/-- A row of pieces, or blocks between a pair of brackets. -/
inductive Block where
  | row (ps : List (Piece String))
  | enclosed (blocks : List Block)

namespace Block

mutual

def pieces : Block → List (Piece String)
  | .row ps => ps
  | .enclosed blocks => .text "(" :: piecesAll blocks ++ [.text ")"]

def piecesAll : List Block → List (Piece String)
  | [] => []
  | b :: bs => pieces b ++ piecesAll bs

end

def joined (separator : String) (bss : List (List Block)) : List Block :=
  [.row [.text separator]].intercalate bss

/-- The rows of the block are made of verbatim texts with `V`, at every depth. -/
inductive Made (V : Verbatim → Prop) : Block → Prop
  | row {ps : List (Piece String)} (h : Composed V ps) : Made V (.row ps)
  | enclosed {bs : List Block} (h : ∀ b ∈ bs, Made V b) : Made V (.enclosed bs)

/-- The pieces of the blocks are the row. -/
structure Fits (V : Verbatim → Prop) (bs : List Block) (ps : List (Piece String)) : Prop where
  pieces : piecesAll bs = ps
  made : ∀ b ∈ bs, b.Made V

theorem piecesAll_append (bs cs : List Block) :
    piecesAll (bs ++ cs) = piecesAll bs ++ piecesAll cs := by
  induction bs with
  | nil => rfl
  | cons b bs ih => rw [List.cons_append, piecesAll, piecesAll, ih, List.append_assoc]

variable {V : Verbatim → Prop}

theorem fits_row {ps : List (Piece String)} (h : Composed V ps) : Fits V [.row ps] ps where
  pieces := List.append_nil ps
  made := by simpa using Made.row h

namespace Fits

variable {bs cs : List Block} {ps qs : List (Piece String)}

theorem nil : Fits V [] [] := ⟨rfl, by simp⟩

theorem append (hp : Fits V bs ps) (hq : Fits V cs qs) : Fits V (bs ++ cs) (ps ++ qs) where
  pieces := by rw [piecesAll_append, hp.pieces, hq.pieces]
  made := List.forall_mem_append.2 ⟨hp.made, hq.made⟩

theorem enclosed (h : Fits V bs ps) : Fits V [.enclosed bs] (.text "(" :: ps ++ [.text ")"]) where
  pieces := by simp [piecesAll, Block.pieces, h.pieces]
  made := by simpa using Made.enclosed h.made

theorem joined {separator : String} (hs : Composed V [.text separator]) {bss : List (List Block)}
    {pss : List (List (Piece String))} (h : List.Forall₂ (Fits V) bss pss) :
    Fits V (joined separator bss) (separated separator pss) := by
  induction h with
  | nil => exact nil
  | @cons b p bss pss hb h ih =>
    cases h with
    | nil => simpa [Block.joined] using hb
    | @cons b' p' bss pss hb' h =>
      have hbs : Block.joined separator (b :: b' :: bss) =
          b ++ ([.row [.text separator]] ++ Block.joined separator (b' :: bss)) := by
        simp [Block.joined, List.intercalate_cons_cons]
      rw [hbs, Piece.separated_cons_cons]
      exact hb.append ((fits_row hs).append ih)

theorem listed {bss : List (List Block)} {pss : List (List (Piece String))}
    (h : List.Forall₂ (Fits V) bss pss) :
    Fits V (Block.joined ", " bss) (separated ", " pss) := joined (.fixed (by decide)) h

/-- What may be absent, after a blank. -/
theorem spaced {o : Option (List Block)} {p : Option (List (Piece String))}
    (h : Option.Rel (Fits V) o p) :
    Fits V (o.elim [] (.row [.text " "] :: ·)) (p.elim [] (.text " " :: ·)) := by
  cases h with
  | none => exact nil
  | some h => exact (fits_row (.fixed (by decide))).append h

/-- Entries one by one. -/
theorem map {α : Type} {f : α → List Block} {g : α → List (Piece String)} {as : List α}
    (h : ∀ a ∈ as, Fits V (f a) (g a)) : List.Forall₂ (Fits V) (as.map f) (as.map g) := by
  rw [List.forall₂_map_left_iff, List.forall₂_map_right_iff, List.forall₂_same]
  exact h

/-- Rows that are blocks as they are. -/
theorem rows {pss : List (List (Piece String))} (h : ∀ ps ∈ pss, Composed V ps) :
    List.Forall₂ (Fits V) (pss.map fun ps => [.row ps]) pss := by
  have hm := map (f := fun ps => [.row ps]) (g := id) fun ps hm => fits_row (h ps hm)
  rwa [List.map_id] at hm

end Fits

end Block

open Block (joined Fits fits_row)

mutual

def Call.blocksBody : Call → List Block
  | ⟨function, arguments, _⟩ =>
    [.row [.text function], .enclosed (joined ", " (Argument.blocksAll arguments))]

def Argument.blocks : Argument → List Block
  | .column c => [.row c.outline]
  | .call c => Call.blocksBody c
  | .wildcard => [.row [.text "*"]]

def Argument.blocksAll : List Argument → List (List Block)
  | [] => []
  | a :: as => Argument.blocks a :: Argument.blocksAll as

end

def Call.blocks (c : Call) : List Block :=
  c.blocksBody ++
    [.row (match c.label with
      | none => []
      | some label => [.text " AS ", .name label])]

def Connective.blocks (k : Connective) (members : List (List Block)) : List Block :=
  [.enclosed (joined (" " ++ k.keyword ++ " ") members)]

namespace Query

def projectionBlocks (q : Query) : List Block :=
  match q.columns.map (fun c => [.row c.outline]) ++ q.calls.map Call.blocks with
  | [] => [.row q.projectionOutline]
  | entries => joined ", " entries

/-- The parts of the statement up to its joins and conditions. An `INSERT` has its columns between
brackets, and so it has its values. -/
def openingBlocks (q : Query) : List (List Block) :=
  match q.verb with
  | .select =>
    [.row [.text q.verb.keyword]] :: (if q.distinct then [[.row [.text "DISTINCT"]]] else []) ++
      [q.projectionBlocks, [.row [.text "FROM ", .name q.table]]]
  | .insert =>
    [[.row [.text q.verb.keyword]], [.row [.name q.table]],
      [.enclosed [.row (separated ", " (q.columns.map fun c => [.name c.name]))]],
      [.row [.text "VALUES"]],
      [.enclosed [.row (separated ", " (q.columns.map fun c => [.slot c.name]))]]]
  | .update | .delete => q.openingParts.map fun ps => [.row ps]

def filterBlocks : List (List Block) → List (List Block)
  | [] => []
  | members => [[.row [.text "WHERE"]], Connective.and.blocks members]

end Query

mutual

/-- The operand of a predicate: a list of placeholders and a subquery stand between brackets. -/
def Operand.blocks (column : String) (comparison : Comparison) : Operand → Option (List Block)
  | .placeholders count =>
    if count = 1 then
      ((Operand.placeholders count).outline column comparison).map fun ps => [.row ps]
    else some [.enclosed [.row (separated ", " (List.replicate count.toNat [.slot column]))]]
  | .column c => some [.row c.outline]
  | .subquery q => some [.enclosed (Query.blocks q)]
  | .verbatim sql => if sql.isEmpty then none else some [.row [.text sql]]
  | .absent => none

def Predicate.blocks : Predicate → List Block
  | ⟨column, comparison, operand⟩ =>
    .row (column.outline ++ [.comparison comparison]) ::
      if comparison.isNullCheck then []
      else (Operand.blocks column.name comparison operand).elim [] (.row [.text " "] :: ·)

def Junction.blocks : Junction → List Block
  | ⟨connective, members⟩ => connective.blocks (Condition.blocksAll members)

def Condition.blocks : Condition → List Block
  | .predicate p => Predicate.blocks p
  | .junction j => Junction.blocks j

def Condition.blocksAll : List Condition → List (List Block)
  | [] => []
  | c :: cs => Condition.blocks c :: Condition.blocksAll cs

/-- The statement; the clauses after its conditions have no brackets of their own. -/
def Query.blocks : Query → List Block
  | q@⟨_, _, _, _, _, _, conditions, _, _, _, _⟩ =>
    joined " " (q.openingBlocks ++ (q.joins.map fun j => [.row j.outline]) ++
      Query.filterBlocks (Condition.blocksAll conditions) ++ q.tailParts.map fun ps => [.row ps])

end

variable {V : Verbatim → Prop}

theorem Column.blocks_fits (c : Column) : Fits V [.row c.outline] c.outline :=
  fits_row c.outline_composed

mutual

theorem Call.blocksBody_fits : ∀ c : Call, (∀ v ∈ c.verbatims, V v) →
    Fits V c.blocksBody c.outlineBody
  | ⟨function, arguments, _⟩, h => by
    simp only [Call.verbatims, List.forall_mem_cons] at h
    have hf : Fits V [.row [.text function]] [.text function] := fits_row (.verbatim_alone h.1)
    exact hf.append (Fits.listed (Argument.blocksAll_fits arguments h.2)).enclosed

theorem Argument.blocks_fits : ∀ a : Argument, (∀ v ∈ a.verbatims, V v) →
    Fits V a.blocks a.outline
  | .column c, _ => c.blocks_fits
  | .call c, h => Call.blocksBody_fits c h
  | .wildcard, _ => fits_row (.fixed (by decide))

theorem Argument.blocksAll_fits : ∀ as : List Argument, (∀ v ∈ Argument.verbatimsAll as, V v) →
    List.Forall₂ (Fits V) (Argument.blocksAll as) (Argument.outlineAll as)
  | [], _ => .nil
  | a :: as, h => by
    simp only [Argument.verbatimsAll, List.forall_mem_append] at h
    exact .cons (Argument.blocks_fits a h.1) (Argument.blocksAll_fits as h.2)

end

theorem Call.blocks_fits (c : Call) (h : ∀ v ∈ c.verbatims, V v) : Fits V c.blocks c.outline := by
  have hb := c.blocksBody_fits h
  unfold Call.blocks Call.outline
  cases c.label with
  | none => exact hb.append (fits_row .nil)
  | some label => exact hb.append (fits_row (.cons_fixed (by decide) (.name label)))

theorem Connective.blocks_fits (k : Connective) (hk : ∀ v ∈ k.verbatims, V v)
    {bss : List (List Block)} {pss : List (List (Piece String))}
    (h : List.Forall₂ (Fits V) bss pss) : Fits V (k.blocks bss) (k.outline pss) :=
  (Fits.joined (k.keyword_composed hk) h).enclosed

namespace Query

theorem projectionBlocks_fits (q : Query) (h : ∀ c ∈ q.calls, ∀ v ∈ c.verbatims, V v) :
    Fits V q.projectionBlocks q.projectionOutline := by
  have hp := q.projectionOutline_composed h
  have hcolumns : List.Forall₂ (Fits V) (q.columns.map fun c => [.row c.outline])
      (q.columns.map Column.outline) := Fits.map fun c _ => c.blocks_fits
  have hcalls := Fits.map fun c hc => Call.blocks_fits c (h c hc)
  have hentries : List.Forall₂ (Fits V)
      (q.columns.map (fun c => [.row c.outline]) ++ q.calls.map Call.blocks)
      (q.columns.map Column.outline ++ q.calls.map Call.outline) := List.rel_append hcolumns hcalls
  unfold projectionBlocks
  split
  · exact fits_row hp
  · next hne =>
    rw [projectionOutline]
    split
    · next he =>
      rw [he, List.forall₂_nil_right_iff] at hentries
      exact (hne hentries).elim
    · exact Fits.listed hentries

theorem openingBlocks_fits (q : Query) (h : ∀ c ∈ q.calls, ∀ v ∈ c.verbatims, V v) :
    List.Forall₂ (Fits V) q.openingBlocks q.openingParts := by
  have hp := q.openingParts_composed h
  have hprojection := q.projectionBlocks_fits h
  unfold openingBlocks
  cases hv : q.verb with
  | select =>
    have hd : List.Forall₂ (Fits V) (if q.distinct then [[.row [.text "DISTINCT"]]] else [])
        (if q.distinct then [[.text "DISTINCT"]] else []) := by
      split
      · exact .cons (fits_row (.fixed (by decide))) .nil
      · exact .nil
    have hf : Composed V [.text "FROM ", .name q.table] := .cons_fixed (by decide) (.name q.table)
    rw [openingParts, hv]
    exact List.rel_append (.cons (fits_row (.fixed (by decide))) hd)
      (.cons hprojection (.cons (fits_row hf) .nil))
  | insert =>
    have hn : Fits V [.row (separated ", " (q.columns.map fun c => [.name c.name]))]
        (separated ", " (q.columns.map fun c => [.name c.name])) :=
      fits_row (.listed (List.forall_mem_map.2 fun c _ => .name c.name))
    have hs : Fits V [.row (separated ", " (q.columns.map fun c => [.slot c.name]))]
        (separated ", " (q.columns.map fun c => [.slot c.name])) :=
      fits_row (.listed (List.forall_mem_map.2 fun c _ => .slot c.name))
    rw [openingParts, hv]
    exact .cons (fits_row (.fixed (by decide))) (.cons (fits_row (.name _)) (.cons hn.enclosed
      (.cons (fits_row (.fixed (by decide))) (.cons hs.enclosed .nil))))
  | update => exact Fits.rows hp
  | delete => exact Fits.rows hp

theorem filterBlocks_fits {bss : List (List Block)} {pss : List (List (Piece String))}
    (h : List.Forall₂ (Fits V) bss pss) :
    List.Forall₂ (Fits V) (filterBlocks bss) (filterParts pss) := by
  cases h with
  | nil => exact .nil
  | cons hb h =>
    have hand := Connective.and.blocks_fits (by simp [Connective.verbatims]) (.cons hb h)
    exact .cons (fits_row (.fixed (by decide))) (.cons hand .nil)

end Query

mutual

theorem Operand.blocks_fits (column : String) (comparison : Comparison) : ∀ o : Operand,
    (∀ v ∈ o.verbatims, V v) →
      Option.Rel (Fits V) (o.blocks column comparison) (o.outline column comparison)
  | .placeholders count, h => by
    have ho := Operand.outline_composed column comparison (.placeholders count) h
    rw [Operand.blocks]
    by_cases hc : count = 1
    · rw [if_pos hc]
      rw [Operand.outline] at *
      exact .some (fits_row (ho _ rfl))
    · have hs : Composed V (separated ", " (List.replicate count.toNat [.slot column])) :=
        .listed fun ps hm => List.eq_of_mem_replicate hm ▸ .slot column
      rw [if_neg hc, Operand.outline, if_neg hc]
      exact .some (fits_row hs).enclosed
  | .column c, _ => .some c.blocks_fits
  | .subquery q, h => by
    rw [Operand.verbatims] at h
    exact .some (Query.blocks_fits q h).enclosed
  | .verbatim sql, h => by
    have hv : V ⟨.operand, sql⟩ := by simpa [Operand.verbatims] using h
    rw [Operand.blocks, Operand.outline]
    split
    · exact .none
    · exact .some (fits_row (.verbatim_alone hv))
  | .absent, _ => .none

theorem Predicate.blocks_fits : ∀ p : Predicate, (∀ v ∈ p.verbatims, V v) →
    Fits V p.blocks p.outline
  | ⟨column, comparison, operand⟩, h => by
    simp only [Predicate.verbatims, List.forall_mem_append] at h
    have ho := Operand.blocks_fits column.name comparison operand h.2
    have hc : Composed V (column.outline ++ [.comparison comparison]) :=
      column.outline_composed.append (.comparison h.1)
    have hrest : Fits V
        (if comparison.isNullCheck then []
          else (operand.blocks column.name comparison).elim [] (.row [.text " "] :: ·))
        (if comparison.isNullCheck then []
          else (operand.outline column.name comparison).elim [] (.text " " :: ·)) := by
      split
      · exact .nil
      · exact Fits.spaced ho
    rw [Predicate.outline, ← List.singleton_append, ← List.append_assoc]
    exact (fits_row hc).append hrest

theorem Junction.blocks_fits : ∀ j : Junction, (∀ v ∈ j.verbatims, V v) → Fits V j.blocks j.outline
  | ⟨connective, members⟩, h => by
    simp only [Junction.verbatims, List.forall_mem_append] at h
    exact connective.blocks_fits h.1 (Condition.blocksAll_fits members h.2)

theorem Condition.blocks_fits : ∀ c : Condition, (∀ v ∈ c.verbatims, V v) →
    Fits V c.blocks c.outline
  | .predicate p, h => Predicate.blocks_fits p h
  | .junction j, h => Junction.blocks_fits j h

theorem Condition.blocksAll_fits : ∀ cs : List Condition,
    (∀ v ∈ Condition.verbatimsAll cs, V v) →
      List.Forall₂ (Fits V) (Condition.blocksAll cs) (Condition.outlineAll cs)
  | [], _ => .nil
  | c :: cs, h => by
    simp only [Condition.verbatimsAll, List.forall_mem_append] at h
    exact .cons (Condition.blocks_fits c h.1) (Condition.blocksAll_fits cs h.2)

/-- The blocks of a statement are its outline. -/
theorem Query.blocks_fits : ∀ q : Query, (∀ v ∈ q.verbatims, V v) → Fits V q.blocks q.outline
  | ⟨_, _, _, _, calls, joins, conditions, groupings, sortKeys, _, _⟩, h => by
    rcases Query.forall_verbatims.1 h with ⟨hc, hj, hw, hg, hs⟩
    have hjoins := Fits.map (g := Join.outline) fun j hm => fits_row (j.outline_composed (hj j hm))
    have hfilter := Query.filterBlocks_fits (Condition.blocksAll_fits conditions hw)
    rw [Query.blocks, Query.outline]
    apply Fits.joined (.fixed (by decide))
    exact List.rel_append (List.rel_append (List.rel_append (Query.openingBlocks_fits _ hc) hjoins)
      hfilter) (Fits.rows (Query.tailParts_composed _ hg hs))

end

end SqlRender
