import SqlRender.Proofs.Rows
import SqlRender.Proofs.Projections

/-!
# Reading operators

An operator can be the beginning of another one, and the bare one is the beginning of all. What
follows an operator decides: an operand after a blank, the next member of a junction, or the end.
-/
namespace SqlRender

open Text (Atom chars Ends)

namespace Comparison

def spelling (c : Comparison) : List Char :=
  if c.keyword.isEmpty then [] else ' ' :: c.keyword.toList

theorem glyphs_eq {σ : Type} (c : Comparison) :
    Piece.glyphs (.comparison c : Piece σ) = c.spelling.map .char := by
  by_cases h : c.keyword.isEmpty
  · simp [Piece.glyphs, spelling, h]
  · simp [Piece.glyphs, spelling, h, chars]

def openers : List Char :=
  ['?', '(', 'A', 'O']

def Followed (r : List Atom) : Prop :=
  r = [] ∨ (∃ t, r = .char ')' :: t) ∨ (∃ s t, r = .char ' ' :: .name s :: t) ∨
    ∃ c t, r = .char ' ' :: .char c :: t ∧ c ∈ openers

def isMore : List Char → Bool
  | '=' :: _ => true
  | ' ' :: c :: _ => decide (c ∉ openers)
  | _ => false

theorem not_followed {t : List Char} (h : isMore t) (r : List Atom) :
    ¬Followed (t.map .char ++ r) := by
  unfold isMore at h
  split at h
  · simp [Followed]
  · next k _ =>
    have hk : k ∉ openers := of_decide_eq_true h
    rintro (hn | ⟨t, hn⟩ | ⟨s, t, hn⟩ | ⟨c, t, hn, hm⟩)
    · cases hn
    · cases hn
    · cases hn
    · cases hn
      exact hk hm
  · cases h

/-- An operator that begins like another one goes on with characters that cannot follow. -/
theorem isMore_drop : ∀ c ∈ plain, ∀ d ∈ plain, c.spelling <+: d.spelling →
    c = d ∨ isMore (d.spelling.drop c.spelling.length) := by
  decide

/-- An operator with more characters after it is no other operator. -/
theorem eq_of_spelling {c d : Comparison} (hc : c ∈ plain) (hd : d ∈ plain) {t s : List Atom}
    (h : d.spelling.map .char = c.spelling.map .char ++ t) (hs : Followed (t ++ s)) :
    c = d ∧ t = [] := by
  have hi : Function.Injective Atom.char := fun _ _ h => Atom.char.inj h
  have hp : c.spelling <+: d.spelling := by
    rw [← List.prefix_map_iff_of_injective hi, h]
    exact List.prefix_append _ _
  rcases hp with ⟨u, hu⟩
  have ht : t = u.map .char := by
    rw [← hu, List.map_append] at h
    exact (List.append_cancel_left h).symm
  rcases isMore_drop c hc d hd ⟨u, hu⟩ with rfl | hm
  · exact ⟨rfl, by simpa using h⟩
  · rw [← hu, List.drop_left] at hm
    rw [ht] at hs
    exact absurd hs (not_followed hm s)

theorem reads {c d : Comparison} (hc : ∀ v ∈ c.verbatims, v.IsWord)
    (hd : ∀ v ∈ d.verbatims, v.IsWord) {r s : List Atom} (hr : Followed r) (hs : Followed s)
    (h : Piece.glyphs (.comparison c : Piece String) ++ r =
      Piece.glyphs (.comparison d : Piece String) ++ s) : c = d ∧ r = s := by
  rw [glyphs_eq, glyphs_eq] at h
  rcases List.append_eq_append_iff.1 h with ⟨t, ht, rfl⟩ | ⟨t, ht, rfl⟩
  · obtain ⟨rfl, rfl⟩ := eq_of_spelling (mem_plain hc) (mem_plain hd) ht hr
    exact ⟨rfl, rfl⟩
  · rcases eq_of_spelling (mem_plain hd) (mem_plain hc) ht hs with ⟨rfl, rfl⟩
    exact ⟨rfl, rfl⟩

end Comparison

end SqlRender
