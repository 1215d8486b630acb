import SqlRender.Proofs.Composition

/-!
# Brackets

Brackets are balanced when each closing one has an opening one before it and none is left open. The
brackets of a statement outside of its names are balanced if those of each verbatim text are.
-/
namespace SqlRender

namespace Text

/-- A round bracket. -/
inductive Bracket where
  | opening
  | closing
deriving DecidableEq

def bracket? : Char → Option Bracket
  | '(' => some .opening
  | ')' => some .closing
  | _ => none

@[simp] theorem bracket?_eq_none {c : Char} : bracket? c = none ↔ c ≠ '(' ∧ c ≠ ')' := by
  unfold bracket?
  split <;> simp_all

def brackets (s : String) : List Bracket := s.toList.filterMap bracket?

/-- How many brackets are open in the end if `n` are open at the beginning, unless a bracket is
closed that was not opened. -/
def depth (n : Nat) : List Bracket → Option Nat
  | [] => some n
  | .opening :: bs => depth (n + 1) bs
  | .closing :: bs =>
    match n with
    | 0 => none
    | n + 1 => depth n bs

/-- No bracket is closed that was not opened, and none is left open. -/
def Balanced (bs : List Bracket) : Prop := depth 0 bs = some 0

instance (bs : List Bracket) : Decidable (Balanced bs) := inferInstanceAs (Decidable (_ = _))

theorem depth_append (n : Nat) (bs cs : List Bracket) :
    depth n (bs ++ cs) = (depth n bs).bind fun m => depth m cs := by
  fun_induction depth n bs <;> simp_all [depth]

/-- More brackets may be open from the beginning to the end. -/
theorem depth_add {n m : Nat} {bs : List Bracket} (h : depth n bs = some m) (k : Nat) :
    depth (n + k) bs = some (m + k) := by
  fun_induction depth n bs with
  | case1 n =>
    cases h
    rfl
  | case2 n bs ih => simpa [depth, Nat.add_right_comm] using ih h
  | case3 => cases h
  | case4 bs n ih => simpa [depth, Nat.add_right_comm] using ih h

namespace Balanced

variable {bs cs : List Bracket}

theorem nil : Balanced [] := rfl

theorem depth_eq (h : Balanced bs) (n : Nat) : depth n bs = some n := by
  simpa using depth_add h n

theorem append (hb : Balanced bs) (hc : Balanced cs) : Balanced (bs ++ cs) := by
  rw [Balanced, depth_append, hb]
  exact hc

theorem enclosed (h : Balanced bs) : Balanced (.opening :: bs ++ [.closing]) := by
  rw [Balanced, List.cons_append, depth, depth_append, h.depth_eq]
  rfl

end Balanced

@[simp] theorem brackets_append (s t : String) : brackets (s ++ t) = brackets s ++ brackets t := by
  simp [brackets]

theorem brackets_of_isFixed {s : String} (h : isFixed s) : brackets s = [] := by
  rw [brackets, List.filterMap_eq_nil_iff]
  intro c hc
  have hf := List.all_eq_true.1 h c hc
  simp only [Bool.and_eq_true, bne_iff_ne] at hf
  exact bracket?_eq_none.2 ⟨hf.1.2, hf.2⟩

end Text

open Text (Balanced)

def Verbatim.IsBalanced (v : Verbatim) : Prop := Balanced (Text.brackets v.text)

namespace Piece

variable {σ : Type}

/-- The brackets of a piece; those of a name do not count. -/
def brackets : Piece σ → List Text.Bracket
  | .text s => Text.brackets s
  | .comparison c => Text.brackets c.keyword
  | .name _ | .slot _ => []

/-- What is made of balanced texts is balanced. -/
theorem Composed.balanced {ps : List (Piece String)} (h : Composed Verbatim.IsBalanced ps) :
    Balanced (ps.flatMap brackets) := by
  induction h with
  | nil => exact .nil
  | name s => exact .nil
  | slot mark => exact .nil
  | @comparison c h =>
    cases c with
    | verbatim sql =>
      have hv : Verbatim.IsBalanced ⟨.operator, sql⟩ := by simpa [Comparison.verbatims] using h
      rw [List.flatMap_singleton]
      exact hv
    | _ => exact .nil
  | fixed h =>
    rw [List.flatMap_singleton, brackets, Text.brackets_of_isFixed h]
    exact .nil
  | verbatim h before after hb ha =>
    rw [List.flatMap_singleton, brackets, Text.brackets_append, Text.brackets_append,
      Text.brackets_of_isFixed hb, Text.brackets_of_isFixed ha, List.nil_append, List.append_nil]
    exact h
  | append _ _ ihp ihq =>
    rw [List.flatMap_append]
    exact ihp.append ihq
  | enclosed _ ih =>
    rw [List.cons_append, List.flatMap_cons, List.flatMap_append]
    exact ih.enclosed

end Piece

/-- The brackets of a statement are balanced if those of its verbatim texts are. -/
theorem Query.balanced {q : Query} (h : ∀ v ∈ q.verbatims, v.IsBalanced) :
    Balanced (q.outline.flatMap Piece.brackets) := (q.outline_composed h).balanced

end SqlRender
