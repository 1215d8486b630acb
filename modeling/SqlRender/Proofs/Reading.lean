import SqlRender.Proofs.Composition
import SqlRender.Proofs.Neighbours
import SqlRender.Proofs.Quoting
import SqlRender.Proofs.Writing
import SqlRender.Dialect.Shipped

/-!
# Reading a statement back

A shipped dialect quotes names with its quote character and spells every operator with its keyword.
As long as the verbatim texts leave that character out, the atoms of a statement are those of its
pieces one after another: every name is closed, and comes back as one atom.
-/
namespace SqlRender

theorem Shipped.operator_eq (s : Shipped) (c : Comparison) :
    s.dialect.operator c = c.keyword := by cases s <;> rfl

namespace Piece

/-- The atoms of a piece: a name is one, and all else falls into characters. -/
def atoms (d : Dialect) : Piece Bind → List Text.Atom
  | .name s => [.name s]
  | p => (p.spell d).toList.map .char

/-- Numbering the slots keeps the neighbours. -/
theorem apart_number (n : Nat) {ps : List (Piece String)} (h : Apart ps) : Apart (number n ps) := by
  induction ps generalizing n with
  | nil => exact apart_nil
  | cons p ps ih =>
    have hps : Apart ps := h.tail
    have hh : ∀ m, ∀ q ∈ (number m ps).head?, p.isText ∨ q.isDetached := by
      intro m
      have hc := (List.isChain_cons.1 h).1
      cases ps with
      | nil => simp [number]
      | cons q ps =>
        have hq := hc q rfl
        cases q <;> simp_all [number, isDetached]
    cases p <;> exact List.isChain_cons.2 ⟨hh _, ih _ hps⟩

theorem over_number {P : Char → Prop} (n : Nat) {ps : List (Piece String)}
    (h : ∀ p ∈ ps, p.Over P) : ∀ p ∈ number n ps, p.Over P := by
  induction ps generalizing n with
  | nil => simp [number]
  | cons p ps ih =>
    simp only [List.forall_mem_cons] at h
    have hp := h.1
    cases p <;> simp only [number, List.forall_mem_cons] <;> exact ⟨hp, ih _ h.2⟩

/-- What follows a name, an operator or a slot begins with a sign, if it is not empty. -/
theorem head_of_apart {α : Type} {f : Piece Bind → List α} {g : Char → α}
    (ht : ∀ s, f (.text s) = s.toList.map g)
    (hc : ∀ c, f (.comparison c) = [] ∨ (f (.comparison c)).head? = some (g ' '))
    {p : Piece Bind} {ps : List (Piece Bind)} (h : Apart (p :: ps)) (hp : p.isText = false) :
    ∀ a ∈ (ps.flatMap f).head?, ∃ c ∈ signs, a = g c := by
  induction ps generalizing p with
  | nil => simp
  | cons q ps ih =>
    have hq : q.isDetached := by
      simpa [hp] using (List.isChain_cons.1 h).1
    cases q with
    | name s => cases hq
    | slot b => cases hq
    | text s =>
      rw [List.flatMap_cons, ht]
      cases hs : s.toList with
      | nil => simp [isDetached, hs] at hq
      | cons c cs =>
        have hc : c ∈ signs := by simpa [isDetached, hs] using hq
        simpa using ⟨c, hc, rfl⟩
    | comparison c =>
      rw [List.flatMap_cons]
      obtain he | he := hc c
      · rw [he]
        exact ih h.tail rfl
      · cases hf : f (.comparison c) with
        | nil => simp [hf] at he
        | cons a as => simp_all [signs]

theorem forall_operator {P : Char → Prop} (s : Shipped) (hb : P ' ') {c : Comparison}
    (h : ∀ x ∈ c.keyword.toList, P x) :
    ∀ x ∈ (spell s.dialect (.comparison c)).toList, P x := by
  simp only [spell, s.operator_eq]
  split
  · simp
  · simpa [hb] using h

/-- The characters of an operator, a slot or a text. -/
theorem forall_spell {P : Char → Prop} {s : Shipped} (hb : P ' ')
    (hs : ∀ b, ∀ x ∈ (s.dialect.placeholder b).toList, P x) {p : Piece Bind} (hp : p.Over P)
    (hn : ∀ name, p ≠ .name name) : ∀ x ∈ (p.spell s.dialect).toList, P x := by
  cases p with
  | text t => exact hp
  | name t => exact absurd rfl (hn t)
  | slot b => exact hs b
  | comparison c => exact forall_operator s hb hp

end Piece

namespace Shipped

variable (s : Shipped)

theorem escape_eq : s.dialect.escape = Text.quoted s.dialect.quote := by cases s <;> rfl

theorem quote_notMem_signs : s.dialect.quote ∉ Piece.signs := by cases s <;> decide

def sign : Shipped → Char
  | postgres => '$'
  | general | sqlite => '?'

def digits (b : Bind) : List Char :=
  match s with
  | general => []
  | postgres | sqlite => b.position.repr.toList

theorem placeholder_eq (b : Bind) :
    (s.dialect.placeholder b).toList = s.sign :: s.digits b := by
  cases s with
  | general => simp [dialect, Dialect.general, sign, digits]
  | postgres => simp [dialect, Dialect.postgres, sign, digits]
  | sqlite => simp [dialect, Dialect.sqlite, sign, digits]

theorem isDigit_of_mem_digits {b : Bind} {c : Char} (h : c ∈ s.digits b) : c.isDigit := by
  cases s with
  | general => simp [digits] at h
  | postgres => exact Text.isDigit_of_mem_repr h
  | sqlite => exact Text.isDigit_of_mem_repr h

theorem forall_placeholder {P : Char → Prop} (hs : P s.sign) (hd : ∀ c, c.isDigit → P c)
    (b : Bind) : ∀ x ∈ (s.dialect.placeholder b).toList, P x := by
  simp only [placeholder_eq, List.forall_mem_cons]
  exact ⟨hs, fun x hx => hd x (s.isDigit_of_mem_digits hx)⟩

end Shipped

namespace Piece

variable (s : Shipped)

theorem atoms_eq {p : Piece Bind} (h : ∀ name, p ≠ .name name) :
    p.atoms s.dialect = (p.spell s.dialect).toList.map .char := by
  cases p with
  | name t => exact absurd rfl (h t)
  | _ => rfl

theorem atoms_join {ps : List (Piece Bind)} (ha : Apart ps)
    (ho : ∀ p ∈ ps, p.Over (· ≠ s.dialect.quote)) :
    Text.atoms s.dialect.quote (String.join (ps.map (spell s.dialect))).toList =
      some (ps.flatMap (atoms s.dialect)) := by
  have hjoin : ∀ ps : List (Piece Bind), (String.join (ps.map (spell s.dialect))).toList =
      ps.flatMap fun p => (p.spell s.dialect).toList := by
    intro ps
    rw [String.toList_join, List.flatMap_map]
  rw [hjoin]
  induction ps with
  | nil => simp
  | cons p ps ih =>
    have hp := ho p (by simp)
    have hps := ih ha.tail fun q hq => ho q (by simp [hq])
    rw [List.flatMap_cons, List.flatMap_cons]
    by_cases hn : ∃ name, p = .name name
    · obtain ⟨name, rfl⟩ := hn
      have hr : ∀ c ∈ (ps.flatMap fun p => (p.spell s.dialect).toList).head?,
          ∃ d ∈ signs, c = id d := by
        apply head_of_apart _ _ ha rfl
        · intro t
          simp [spell]
        · intro c
          rw [spell]
          split <;> simp
      have hq : (ps.flatMap fun p => (p.spell s.dialect).toList).head? ≠ some s.dialect.quote := by
        intro he
        rcases hr _ he with ⟨d, hd, rfl⟩
        exact s.quote_notMem_signs hd
      have hs : (spell s.dialect (.name name)).toList =
          (Text.quoted s.dialect.quote name).toList := by rw [spell, s.escape_eq]
      rw [hs, Text.atoms_quoted _ _ hq, hps]
      rfl
    · have hn : ∀ name, p ≠ .name name := fun name he => hn ⟨name, he⟩
      have hc : ∀ c ∈ (p.spell s.dialect).toList, c ≠ s.dialect.quote := by
        refine forall_spell ?_ (s.forall_placeholder ?_ ?_) hp hn
        · cases s <;> decide
        · cases s <;> decide
        · rintro c hc rfl
          revert hc
          cases s <;> decide
      rw [Text.atoms_append _ hc, hps, atoms_eq s hn]
      rfl

def spelled (n : Nat) (ps : List (Piece String)) : List Text.Atom :=
  (number n ps).flatMap (atoms s.dialect)

theorem atoms_written (n : Nat) {ps : List (Piece String)} (ha : Apart ps)
    (ho : ∀ p ∈ ps, p.Over (· ≠ s.dialect.quote)) :
    Text.atoms s.dialect.quote (written s.dialect n ps).toList = some (spelled s n ps) :=
  atoms_join s (apart_number n ha) (over_number n ho)

end Piece

theorem Query.pieces_apart (q : Query) : Piece.Apart q.pieces :=
  Piece.apart_number 0 q.outline_apart

theorem Query.pieces_over {P : Char → Prop} (hP : ∀ c, Text.isOrdinary c → P c) {q : Query}
    (h : ∀ v ∈ q.verbatims, v.Over P) : ∀ p ∈ q.pieces, p.Over P :=
  Piece.over_number 0 (Query.outline_over hP q h)

theorem Text.ne_quote_of_isOrdinary (s : Shipped) {c : Char} (h : Text.isOrdinary c) :
    c ≠ s.dialect.quote := by
  rintro rfl
  revert h
  cases s <;> decide

/-- The atoms of a statement are those of its pieces. -/
theorem Query.atoms_render {s : Shipped} {q : Query} {r : Rendered}
    (h : q.render s.dialect = .ok r) (hv : ∀ v ∈ q.verbatims, v.Over (· ≠ s.dialect.quote)) :
    Text.atoms s.dialect.quote r.sql.toList = some (q.pieces.flatMap (Piece.atoms s.dialect)) := by
  rcases Query.render_eq_ok.1 h with ⟨-, rfl⟩
  apply Piece.atoms_join s q.pieces_apart
  exact Query.pieces_over (fun c hc => Text.ne_quote_of_isOrdinary s hc) hv

end SqlRender
