import SqlRender.Render.Statement
import Mathlib.Data.List.Basic

/-!
# Pieces of a statement

A statement is a row of pieces: text that is the same in every dialect, identifiers, comparisons
and slots. A slot is marked with its name while the row is laid out, and with its bind once the
slots are numbered from left to right. Only then can a dialect spell the row.
-/
namespace SqlRender

/-- One piece of a statement; `σ` is what marks a slot. -/
inductive Piece (σ : Type) where
  | text (s : String)
  | name (s : String)
  | comparison (c : Comparison)
  | slot (mark : σ)
deriving DecidableEq

/-- The names as binds with the positions `n + 1`, `n + 2` and so on. -/
def Bind.numbered (n : Nat) (names : List String) : List Bind :=
  names.mapIdx fun i name => ⟨name, n + i + 1⟩

@[simp] theorem Bind.numbered_nil (n : Nat) : numbered n [] = [] := rfl

@[simp] theorem Bind.numbered_cons (n : Nat) (name : String) (names : List String) :
    numbered n (name :: names) = ⟨name, n + 1⟩ :: numbered (n + 1) names := by
  simp [numbered, List.mapIdx_cons, Nat.add_assoc, Nat.add_comm 1]

theorem Bind.numbered_append (n : Nat) (names more : List String) :
    numbered n (names ++ more) = numbered n names ++ numbered (n + names.length) more := by
  simp [numbered, List.mapIdx_append, Nat.add_assoc, Nat.add_comm, Nat.add_left_comm]

@[simp] theorem Bind.length_numbered (n : Nat) (names : List String) :
    (numbered n names).length = names.length := by simp [numbered]

theorem Bind.numbered_positions (n : Nat) (names : List String) :
    (numbered n names).map Bind.position = List.range' (n + 1) names.length := by
  induction names generalizing n with
  | nil => rfl
  | cons name names ih => simp [ih, List.range'_succ]

namespace Piece

variable {σ : Type}

def slot? : Piece σ → Option σ
  | .slot mark => some mark
  | _ => none

/-- The marks of the slots from left to right. -/
def slots (ps : List (Piece σ)) : List σ := ps.filterMap slot?

@[simp] theorem slots_nil : slots ([] : List (Piece σ)) = [] := rfl

@[simp] theorem slots_text (s : String) (ps : List (Piece σ)) :
    slots (.text s :: ps) = slots ps := rfl

@[simp] theorem slots_name (s : String) (ps : List (Piece σ)) :
    slots (.name s :: ps) = slots ps := rfl

@[simp] theorem slots_comparison (c : Comparison) (ps : List (Piece σ)) :
    slots (.comparison c :: ps) = slots ps := rfl

@[simp] theorem slots_slot (mark : σ) (ps : List (Piece σ)) :
    slots (.slot mark :: ps) = mark :: slots ps := rfl

@[simp] theorem slots_append (ps qs : List (Piece σ)) : slots (ps ++ qs) = slots ps ++ slots qs :=
  List.filterMap_append

theorem slots_flatMap {α : Type} (f : α → List (Piece σ)) (as : List α) :
    slots (as.flatMap f) = as.flatMap fun a => slots (f a) := by
  induction as with
  | nil => rfl
  | cons a as ih => simp [ih]

def separated (separator : String) (pss : List (List (Piece σ))) : List (Piece σ) :=
  [text separator].intercalate pss

@[simp] theorem separated_nil (separator : String) :
    separated separator ([] : List (List (Piece σ))) = [] := rfl

@[simp] theorem separated_singleton (separator : String) (ps : List (Piece σ)) :
    separated separator [ps] = ps := by simp [separated]

theorem separated_cons_cons (separator : String) (ps qs : List (Piece σ))
    (pss : List (List (Piece σ))) : separated separator (ps :: qs :: pss) =
      ps ++ .text separator :: separated separator (qs :: pss) := by
  simp [separated, List.intercalate_cons_cons]

theorem separated_cons (separator : String) (ps : List (Piece σ)) (pss : List (List (Piece σ))) :
    separated separator (ps :: pss) = ps ++ pss.flatMap fun qs => .text separator :: qs := by
  induction pss generalizing ps with
  | nil => simp
  | cons qs pss ih => rw [separated_cons_cons, ih qs, List.flatMap_cons, List.cons_append]

theorem separated_append (separator : String) {pss : List (List (Piece σ))} (h : pss ≠ [])
    (qss : List (List (Piece σ))) : separated separator (pss ++ qss) =
      separated separator pss ++ qss.flatMap fun qs => .text separator :: qs := by
  rcases List.exists_cons_of_ne_nil h with ⟨ps, pss, rfl⟩
  simp [separated_cons]

@[simp] theorem slots_separated (separator : String) (pss : List (List (Piece σ))) :
    slots (separated separator pss) = pss.flatMap slots := by
  cases pss with
  | nil => rfl
  | cons ps pss => simp [separated_cons, slots_flatMap]

def number (n : Nat) : List (Piece String) → List (Piece Bind)
  | [] => []
  | .text s :: ps => .text s :: number n ps
  | .name s :: ps => .name s :: number n ps
  | .comparison c :: ps => .comparison c :: number n ps
  | .slot mark :: ps => .slot ⟨mark, n + 1⟩ :: number (n + 1) ps

theorem number_append (n : Nat) (ps qs : List (Piece String)) :
    number n (ps ++ qs) = number n ps ++ number (n + (slots ps).length) qs := by
  induction ps generalizing n with
  | nil => simp [number]
  | cons p ps ih => cases p <;> simp [number, ih, Nat.add_assoc, Nat.add_comm 1]

theorem slots_number (n : Nat) (ps : List (Piece String)) :
    slots (number n ps) = Bind.numbered n (slots ps) := by
  induction ps generalizing n with
  | nil => rfl
  | cons p ps ih => cases p <;> simp [number, ih]

/-- The spelling of a piece. An operator has a blank before it, and an empty operator leaves nothing
at all. -/
def spell (d : Dialect) : Piece Bind → String
  | .text s => s
  | .name s => d.escape s
  | .comparison c => if (d.operator c).isEmpty then "" else " " ++ d.operator c
  | .slot b => d.placeholder b

/-- The text of a row whose slots are numbered from `n + 1` on. -/
def written (d : Dialect) (n : Nat) (ps : List (Piece String)) : String :=
  String.join ((number n ps).map (spell d))

@[simp] theorem written_nil (d : Dialect) (n : Nat) : written d n [] = "" := rfl

@[simp] theorem written_text (d : Dialect) (n : Nat) (s : String) (ps : List (Piece String)) :
    written d n (.text s :: ps) = s ++ written d n ps := by
  simp [written, number, spell, String.join_cons]

@[simp] theorem written_name (d : Dialect) (n : Nat) (s : String) (ps : List (Piece String)) :
    written d n (.name s :: ps) = d.escape s ++ written d n ps := by
  simp [written, number, spell, String.join_cons]

@[simp] theorem written_comparison (d : Dialect) (n : Nat) (c : Comparison)
    (ps : List (Piece String)) : written d n (.comparison c :: ps) =
      (if (d.operator c).isEmpty then "" else " " ++ d.operator c) ++ written d n ps := by
  simp [written, number, spell, String.join_cons]

@[simp] theorem written_slot (d : Dialect) (n : Nat) (mark : String) (ps : List (Piece String)) :
    written d n (.slot mark :: ps) = d.placeholder ⟨mark, n + 1⟩ ++ written d (n + 1) ps := by
  simp [written, number, spell, String.join_cons]

theorem written_append (d : Dialect) (n : Nat) (ps qs : List (Piece String)) :
    written d n (ps ++ qs) = written d n ps ++ written d (n + (slots ps).length) qs := by
  simp [written, number_append, String.join_append]

def writtenAll (d : Dialect) (n : Nat) : List (List (Piece String)) → List String
  | [] => []
  | ps :: pss => written d n ps :: writtenAll d (n + (slots ps).length) pss

@[simp] theorem length_writtenAll (d : Dialect) (n : Nat) (pss : List (List (Piece String))) :
    (writtenAll d n pss).length = pss.length := by
  induction pss generalizing n with
  | nil => rfl
  | cons ps pss ih => simp [writtenAll, ih]

/-- Without slots the rows do not depend on the numbering. -/
theorem writtenAll_eq_map (d : Dialect) (n : Nat) {pss : List (List (Piece String))}
    (h : ∀ ps ∈ pss, slots ps = []) : writtenAll d n pss = pss.map (written d n) := by
  induction pss with
  | nil => rfl
  | cons ps pss ih =>
    have hp : slots ps = [] := h ps (by simp)
    have hps := ih fun qs hq => h qs (by simp [hq])
    simp [writtenAll, hp, hps]

theorem writtenAll_append (d : Dialect) (n : Nat) (pss qss : List (List (Piece String))) :
    writtenAll d n (pss ++ qss) =
      writtenAll d n pss ++ writtenAll d (n + (pss.flatMap slots).length) qss := by
  induction pss generalizing n with
  | nil => rfl
  | cons ps pss ih => simp [writtenAll, ih, Nat.add_assoc]

theorem intercalate_writtenAll (d : Dialect) (n : Nat) (separator : String)
    (pss : List (List (Piece String))) :
    separator.intercalate (writtenAll d n pss) = written d n (separated separator pss) := by
  induction pss generalizing n with
  | nil => rfl
  | cons ps pss ih =>
    cases pss with
    | nil => simp [writtenAll]
    | cons qs pss =>
      have h := ih (n + (slots ps).length)
      rw [writtenAll, writtenAll] at *
      rw [String.intercalate_cons_cons, h]
      simp [separated_cons_cons, written_append, String.append_assoc]

end Piece

end SqlRender
