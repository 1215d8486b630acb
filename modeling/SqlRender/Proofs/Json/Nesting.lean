import SqlRender.Proofs.Json.Grammar
import Mathlib.Order.Lattice

/-!
# Nesting of brackets

How many brackets of a JSON text are open at once. Brackets inside a text do not count, so the text
is scanned from left to right with its quotes in view. What a value adds to the nesting does not
depend on what stands around it.
-/
namespace SqlRender.Json

/-- Where a character stands: between texts, inside a text, or after a backslash inside a text. -/
inductive Place where
  | outside
  | inside
  | escaped

def Place.next : Place → Char → Place
  | outside, c => if c = '"' then inside else outside
  | inside, c => if c = '"' then outside else if c = '\\' then escaped else inside
  | escaped, _ => inside

def Place.opened (n : Nat) (c : Char) : Place → Nat
  | outside => if c ∈ ['[', '{'] then n + 1 else if c ∈ [']', '}'] then n - 1 else n
  | _ => n

/-- The greatest number of brackets that are open at once in the rest of a text, where `n` are open
already. -/
def deepest (n : Nat) : Place → List Char → Nat
  | _, [] => n
  | place, c :: cs => max n (deepest (place.opened n c) (place.next c) cs)

def nesting (s : String) : Nat := deepest 0 .outside s.toList

/-- The text opens `k` brackets at once, and closes them all. -/
def Balanced (t : List Char) (k : Nat) : Prop :=
  ∀ n rest, deepest n .outside (t ++ rest) = max (n + k) (deepest n .outside rest)

theorem le_deepest (n : Nat) (place : Place) (cs : List Char) : n ≤ deepest n place cs := by
  cases cs with
  | nil => exact le_rfl
  | cons c cs => exact le_max_left ..

namespace Balanced

variable {t u : List Char} {k l : Nat}

theorem nesting_eq {s : String} (h : Balanced s.toList k) : nesting s = k := by
  have hn := h 0 []
  rw [List.append_nil] at hn
  rw [nesting, hn]
  simp [deepest]

theorem nil : Balanced [] 0 := fun n rest => (max_eq_right (le_deepest n .outside rest)).symm

theorem append (ht : Balanced t k) (hu : Balanced u l) : Balanced (t ++ u) (max k l) := by
  intro n rest
  rw [List.append_assoc, ht, hu, ← max_assoc]
  congr 1
  omega

/-- A character that is neither a quote nor a bracket. -/
theorem singleton {c : Char} (h : c ∉ ['"', '[', '{', ']', '}']) : Balanced [c] 0 := by
  intro n rest
  simp only [List.mem_cons, List.not_mem_nil, or_false, not_or] at h
  simp [deepest, Place.opened, Place.next, h]

theorem cons {c : Char} (h : c ∉ ['"', '[', '{', ']', '}']) (ht : Balanced t k) :
    Balanced (c :: t) k := by
  simpa using (singleton h).append ht

/-- What stands between brackets is one deeper. -/
theorem brackets {c d : Char} (h : (c, d) ∈ [('[', ']'), ('{', '}')]) (ht : Balanced t k) :
    Balanced (c :: t ++ [d]) (k + 1) := by
  intro n rest
  have hc : Place.outside.opened n c = n + 1 ∧ Place.outside.next c = .outside ∧
      Place.outside.opened (n + 1) d = n ∧ Place.outside.next d = .outside := by
    simp only [List.mem_cons, Prod.mk.injEq, List.not_mem_nil, or_false] at h
    rcases h with ⟨rfl, rfl⟩ | ⟨rfl, rfl⟩ <;> simp [Place.opened, Place.next]
  obtain ⟨h₁, h₂, h₃, h₄⟩ := hc
  have hd := le_deepest n .outside rest
  rw [List.append_assoc, List.cons_append, deepest, h₁, h₂, ht, List.singleton_append, deepest, h₃,
    h₄]
  omega

end Balanced

section Inside

variable {n : Nat} {rest : List Char}

theorem deepest_inside {c : Char} (h : c ≠ '"' ∧ c ≠ '\\') :
    deepest n .inside (c :: rest) = deepest n .inside rest := by
  simp [deepest, Place.opened, Place.next, h, le_deepest]

theorem deepest_escape (e : Char) :
    deepest n .inside ('\\' :: e :: rest) = deepest n .inside rest := by
  simp [deepest, Place.opened, Place.next, le_deepest]

theorem IsHex.isPlain {c : Char} {k : Nat} (h : IsHex c k) : c ≠ '"' ∧ c ≠ '\\' := by
  have hall : ∀ d ∈ "0123456789abcdef".toList ++ "0123456789ABCDEF".toList,
      d ≠ '"' ∧ d ≠ '\\' := List.forall_iff_forall_mem.1 (by decide)
  apply hall
  rcases h with h | h
  · exact List.mem_append_left _ (List.mem_of_getElem? h)
  · exact List.mem_append_right _ (List.mem_of_getElem? h)

theorem HexEscape.deepest {u : List Char} {m : Nat} (h : HexEscape u m) :
    deepest n .inside (u ++ rest) = deepest n .inside rest := by
  obtain ⟨a, b, c, d, i, j, k, l, ha, hb, hc, hd, rfl, -⟩ := h
  simp only [List.cons_append, List.nil_append]
  rw [deepest_escape, deepest_inside ha.isPlain, deepest_inside hb.isPlain,
    deepest_inside hc.isPlain, deepest_inside hd.isPlain]

/-- Inside a text a character changes nothing, however it is spelled. -/
theorem Spelling.deepest {u : List Char} {c : Char} (h : Spelling u c) :
    deepest n .inside (u ++ rest) = deepest n .inside rest := by
  cases h with
  | plain h => exact deepest_inside ⟨h.1, h.2.1⟩
  | letter h => exact deepest_escape _
  | units h =>
    generalize utf16 c = ns at h
    induction h with
    | nil => rfl
    | cons hu _ ih => rw [List.flatten_cons, List.append_assoc, hu.deepest, ih]

theorem deepest_spellings {us : List (List Char)} {s : List Char}
    (h : List.Forall₂ Spelling us s) :
    deepest n .inside (us.flatten ++ '"' :: rest) = deepest n .outside rest := by
  induction h with
  | nil => simp [deepest, Place.opened, Place.next, le_deepest]
  | cons hu _ ih => rw [List.flatten_cons, List.append_assoc, hu.deepest, ih]

end Inside

/-- A text opens no brackets. -/
theorem Quoted.balanced {t : List Char} {s : String} (h : Quoted t s) : Balanced t 0 := by
  obtain ⟨us, hus, rfl⟩ := h
  intro n rest
  have he : '"' :: us.flatten ++ ['"'] ++ rest = '"' :: (us.flatten ++ '"' :: rest) := by simp
  rw [he, deepest, Place.opened, Place.next, if_pos rfl, if_neg (by decide), if_neg (by decide),
    deepest_spellings hus, Nat.add_zero]

/-- The brackets in the two texts do not count. -/
example : nesting "[[\"[\"], \"[\\\"[\"]" = 2 := by decide

end SqlRender.Json
