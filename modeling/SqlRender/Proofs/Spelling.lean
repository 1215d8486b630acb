import SqlRender.Proofs.Writing
import Mathlib.Data.List.Forall2

/-!
# Dialects spell, they do not arrange

The pieces of a query are fixed before a dialect is chosen. Two dialects can therefore differ in how
an identifier, an operator or a placeholder looks, and in nothing else.
-/
namespace SqlRender

/-- The spellings of a row by two dialects. They agree at every piece of fixed text. -/
theorem Piece.spell_pairs (d₁ d₂ : Dialect) (ps : List (Piece Bind)) :
    List.Forall₂ (fun p (pair : String × String) => ∀ s, p = .text s → pair = (s, s)) ps
      (ps.map fun p => (p.spell d₁, p.spell d₂)) := by
  induction ps with
  | nil => exact .nil
  | cons p ps ih =>
    refine .cons ?_ ih
    rintro s rfl
    rfl

/-- A query that one dialect accepts is accepted by every dialect. The text is the spelling of the
same pieces, the binds are those at the slots among them, and two texts differ only at the pieces
that a dialect spells. -/
theorem Query.render_every_dialect {q : Query} {d₀ : Dialect} {r₀ : Rendered}
    (h : q.render d₀ = .ok r₀) :
    (∀ d : Dialect,
      q.render d = .ok ⟨String.join (q.pieces.map (Piece.spell d)), Piece.slots q.pieces⟩) ∧
    ∀ (d₁ d₂ : Dialect) (r₁ r₂ : Rendered), q.render d₁ = .ok r₁ → q.render d₂ = .ok r₂ →
      r₁.binds = r₂.binds ∧ ∃ pairs : List (String × String),
        r₁.sql = String.join (pairs.map Prod.fst) ∧ r₂.sql = String.join (pairs.map Prod.snd) ∧
        List.Forall₂ (fun p pair => ∀ s, p = .text s → pair = (s, s)) q.pieces pairs := by
  have hd : q.defects = [] := (Query.render_eq_ok.1 h).1
  constructor
  · intro d
    exact Query.render_eq_ok.2 ⟨hd, rfl⟩
  · intro d₁ d₂ r₁ r₂ h₁ h₂
    obtain ⟨-, rfl⟩ := Query.render_eq_ok.1 h₁
    rcases Query.render_eq_ok.1 h₂ with ⟨-, rfl⟩
    refine ⟨rfl, _, ?_, ?_, Piece.spell_pairs d₁ d₂ q.pieces⟩
    · rw [List.map_map]
      rfl
    · rw [List.map_map]
      rfl

theorem Query.render_every_dialect_nested : (∃ r, Query.nestedUpdate.render .general = .ok r) ∧
    Query.nestedUpdate.render .postgres =
      .ok ⟨String.join (Query.nestedUpdate.pieces.map (Piece.spell .postgres)),
        Piece.slots Query.nestedUpdate.pieces⟩ := by
  have h : Query.nestedUpdate.render .general = .ok _ := rfl
  exact ⟨⟨_, h⟩, (Query.render_every_dialect h).1 .postgres⟩

end SqlRender
