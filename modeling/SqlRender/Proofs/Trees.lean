import SqlRender.Proofs.Lexemes

/-!
# Brackets as trees

A pair of brackets makes one tree of what stands between the two. Every row of lexemes with balanced
brackets is a row of such trees.
-/
namespace SqlRender

namespace Text

/-- A lexeme, or a row of trees between brackets. -/
inductive Tree where
  | lexeme (l : Lexeme)
  | enclosed (ts : List Tree)

/-- The trees of a row of lexemes, if the brackets match. What stands before each open bracket
waits, the innermost first, and the last row is the one that goes on. -/
def nest : List Lexeme → List (List Tree) → List Tree → Option (List Tree)
  | [], outer, row => if outer.isEmpty then some row else none
  | l :: ls, outer, row =>
    match l.bracket? with
    | none => nest ls outer (row ++ [.lexeme l])
    | some .opening => nest ls (row :: outer) []
    | some .closing =>
      match outer with
      | [] => none
      | before :: outer => nest ls outer (before ++ [.enclosed row])

/-- The lexemes are the trees, wherever they stand. -/
def Nests (ls : List Lexeme) (ts : List Tree) : Prop :=
  ∀ rest outer row, nest (ls ++ rest) outer row = nest rest outer (row ++ ts)

namespace Nests

variable {ls ms : List Lexeme} {ts us : List Tree}

theorem nil : Nests [] [] := by
  intro rest outer row
  simp

theorem lexeme {l : Lexeme} (h : l.bracket? = none) : Nests [l] [.lexeme l] := by
  intro rest outer row
  simp [nest, h]

theorem append (hl : Nests ls ts) (hm : Nests ms us) : Nests (ls ++ ms) (ts ++ us) := by
  intro rest outer row
  rw [List.append_assoc, hl, hm, List.append_assoc]

theorem enclosed (h : Nests ls ts) :
    Nests (.bracket .opening :: ls ++ [.bracket .closing]) [.enclosed ts] := by
  intro rest outer row
  simp [nest, Lexeme.bracket?, h _ _ _]

theorem lexemes (h : ∀ l ∈ ls, l.bracket? = none) : Nests ls (ls.map .lexeme) := by
  induction ls with
  | nil => exact nil
  | cons l ls ih =>
    simp only [List.forall_mem_cons] at h
    exact (lexeme h.1).append (ih h.2)

theorem nest_eq (h : Nests ls ts) : nest ls [] [] = some ts := by
  simpa [nest] using h [] [] []

end Nests

/-- Lexemes with `n` closing brackets too many are trees before, between and after these brackets.
-/
def Splits : Nat → List Lexeme → Prop
  | 0, ls => ∃ ts, Nests ls ts
  | n + 1, ls => ∃ ms ts rest, ls = ms ++ .bracket .closing :: rest ∧ Nests ms ts ∧ Splits n rest

theorem Splits.append {n : Nat} {ls ms : List Lexeme} {ts : List Tree} (hm : Nests ms ts)
    (h : Splits n ls) : Splits n (ms ++ ls) := by
  cases n with
  | zero =>
    rcases h with ⟨us, hu⟩
    exact ⟨_, hm.append hu⟩
  | succ n =>
    rcases h with ⟨ls, us, rest, rfl, hu, hr⟩
    exact ⟨ms ++ ls, _, rest, by simp, hm.append hu, hr⟩

theorem splits_of_depth {n : Nat} {ls : List Lexeme}
    (h : depth n (ls.filterMap Lexeme.bracket?) = some 0) : Splits n ls := by
  induction ls generalizing n with
  | nil =>
    cases h
    exact ⟨[], .nil⟩
  | cons l ls ih =>
    cases l with
    | bracket b =>
      cases b with
      | opening =>
        -- The bracket takes everything up to the closing one that is too many without it.
        rcases ih h with ⟨ms, ts, rest, rfl, hm, hr⟩
        simpa using hr.append hm.enclosed
      | closing =>
        cases n with
        | zero => cases h
        | succ n => exact ⟨[], [], ls, rfl, .nil, ih h⟩
    | _ => exact (ih h).append (.lexeme rfl)

/-- Lexemes with balanced brackets are a row of trees. -/
theorem exists_nests {ls : List Lexeme} (h : Balanced (ls.filterMap Lexeme.bracket?)) :
    ∃ ts, Nests ls ts := splits_of_depth h

def trees (q : Char) (sql : String) : Option (List Tree) :=
  (atoms q sql.toList).bind fun as => nest (lexemes [] as) [] []

end Text

namespace Piece

open Text (Nests)

variable (s : Shipped)

/-- A text is read as the trees of its row. -/
theorem trees_written {n : Nat} {ps : List (Piece String)} (ha : Apart ps)
    (ho : ∀ p ∈ ps, p.Over (· ≠ s.dialect.quote)) {ts : List Text.Tree}
    (h : Nests (lexemes s n ps) ts) :
    Text.trees s.dialect.quote (written s.dialect n ps) = some ts := by
  rw [Text.trees, atoms_written s n ha ho, Option.bind_some]
  exact h.nest_eq

/-- A row between brackets is one tree. -/
theorem Composed.nests_enclosed (n : Nat) {ps : List (Piece String)}
    (h : Composed Verbatim.IsBalanced ps) :
    ∃ ts, Nests (lexemes s n (.text "(" :: ps ++ [.text ")"])) [.enclosed ts] := by
  have hb := h.balanced
  rw [← brackets_lexemes s n] at hb
  rcases Text.exists_nests hb with ⟨ts, ht⟩
  rw [lexemes_enclosed]
  exact ⟨ts, ht.enclosed⟩

end Piece

end SqlRender
