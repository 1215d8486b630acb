import SqlRender.Proofs.Reading
import SqlRender.Proofs.Slots

/-!
# Names and placeholders of a statement

A scan reads a statement from left to right. Quoted names are read as a whole. Outside of them a
question mark with all the digits after it is a placeholder, and so is a dollar sign that has digits
after it. The scan finds the names and the slots of the query and nothing else, whatever the names
are: none of them breaks out of its quotes or passes for a placeholder.
-/
namespace SqlRender

namespace Text

/-- What a scan finds; a placeholder may carry a number. -/
inductive Token where
  | name (s : String)
  | placeholder (sign : Char) (number : Option Nat)
deriving DecidableEq

def Token.isPlaceholder : Token → Bool
  | .name _ => false
  | .placeholder _ _ => true

def digits : List Atom → List Char
  | .char c :: as => if c.isDigit then c :: digits as else []
  | _ => []

/-- The placeholder that begins with the character and has the digits after it, if there is one. -/
def placeholder? (c : Char) (ds : List Char) : Option Token :=
  if ds.isEmpty then
    if c = '?' then some (.placeholder c none) else none
  else
    if c = '?' ∨ c = '$' then some (.placeholder c (some (Nat.ofDigitChars 10 ds 0))) else none

/-- The names and placeholders among the atoms. The digits of a placeholder are passed over. -/
def tokens : List Atom → List Token
  | [] => []
  | .name s :: as => .name s :: tokens as
  | .char c :: as => (placeholder? c (digits as)).toList ++ tokens as

/-- The names and placeholders of a text, unless a name is left open. -/
def scan (q : Char) (sql : String) : Option (List Token) := (atoms q sql.toList).map tokens

theorem tokens_append {cs : List Char} (h : ∀ c ∈ cs, c ≠ '?' ∧ c ≠ '$') (as : List Atom) :
    tokens (cs.map .char ++ as) = tokens as := by
  induction cs with
  | nil => rfl
  | cons c cs ih =>
    have hc := h c (by simp)
    have hcs := ih fun d hd => h d (by simp [hd])
    have hp : ∀ ds, placeholder? c ds = none := by
      intro ds
      simp [placeholder?, hc]
    rw [List.map_cons, List.cons_append, tokens, hp, hcs]
    rfl

theorem digits_append {cs : List Char} (h : ∀ c ∈ cs, c.isDigit) {as : List Atom}
    (ha : digits as = []) : digits (cs.map .char ++ as) = cs := by
  induction cs with
  | nil => exact ha
  | cons c cs ih =>
    have hc := h c (by simp)
    have hcs := ih fun d hd => h d (by simp [hd])
    rw [List.map_cons, List.cons_append, digits, if_pos hc, hcs]

end Text

namespace Shipped

variable (s : Shipped)

def number (b : Bind) : Option Nat :=
  if s.dialect.style = .numbered then some b.position else none

def token : Piece Bind → Option Text.Token
  | .name name => some (.name name)
  | .slot b => some (.placeholder s.sign (s.number b))
  | .text _ | .comparison _ => none

theorem placeholder?_digits (b : Bind) :
    Text.placeholder? s.sign (s.digits b) = some (.placeholder s.sign (s.number b)) := by
  cases s with
  | general => rfl
  | postgres => simp [Text.placeholder?, sign, digits, number, dialect, Dialect.postgres]
  | sqlite => simp [Text.placeholder?, sign, digits, number, dialect, Dialect.sqlite]

/-- No digit follows a slot. -/
theorem digits_atoms {b : Bind} {ps : List (Piece Bind)} (h : Piece.Apart (.slot b :: ps)) :
    Text.digits (ps.flatMap (Piece.atoms s.dialect)) = [] := by
  have hh : ∀ a ∈ (ps.flatMap (Piece.atoms s.dialect)).head?, ∃ c ∈ Piece.signs, a = .char c := by
    apply Piece.head_of_apart _ _ h rfl
    · intro t
      rfl
    · intro c
      simp only [Piece.atoms, Piece.spell]
      split <;> simp
  cases ha : ps.flatMap (Piece.atoms s.dialect) with
  | nil => rfl
  | cons a as =>
    rcases hh a (by simp [ha]) with ⟨c, hc, rfl⟩
    have hd : ∀ c ∈ Piece.signs, c.isDigit = false := by simp [Piece.signs]
    simp [Text.digits, hd c hc]

theorem tokens_atoms {ps : List (Piece Bind)} (ha : Piece.Apart ps)
    (ho : ∀ p ∈ ps, p.Over fun c => c ≠ '?' ∧ c ≠ '$') :
    Text.tokens (ps.flatMap (Piece.atoms s.dialect)) = ps.filterMap s.token := by
  induction ps with
  | nil => rfl
  | cons p ps ih =>
    have hp := ho p (by simp)
    have hps := ih ha.tail fun q hq => ho q (by simp [hq])
    rw [List.flatMap_cons]
    cases p with
    | name name => exact congrArg (Text.Token.name name :: ·) hps
    | text t => exact (Text.tokens_append hp _).trans hps
    | comparison c =>
      have hc : ∀ x ∈ (Piece.spell s.dialect (.comparison c)).toList, x ≠ '?' ∧ x ≠ '$' :=
        Piece.forall_operator s (by decide) hp
      exact (Text.tokens_append hc _).trans hps
    | slot b =>
      have hd : ∀ c ∈ s.digits b, c ≠ '?' ∧ c ≠ '$' := by
        intro c hc
        have hdigit := s.isDigit_of_mem_digits hc
        constructor
        · rintro rfl
          cases hdigit
        · rintro rfl
          cases hdigit
      rw [Piece.atoms_eq s (by simp), Piece.spell, s.placeholder_eq, List.map_cons,
        List.cons_append, Text.tokens,
        Text.digits_append (fun c hc => s.isDigit_of_mem_digits hc) (s.digits_atoms ha),
        s.placeholder?_digits, Text.tokens_append hd, hps]
      rfl

/-- The placeholders among the tokens are those of the slots. -/
theorem filter_tokens (ps : List (Piece Bind)) :
    (ps.filterMap s.token).filter Text.Token.isPlaceholder =
      (Piece.slots ps).map fun b => .placeholder s.sign (s.number b) := by
  induction ps with
  | nil => rfl
  | cons p ps ih =>
    cases p with
    | slot b => exact congrArg (Text.Token.placeholder s.sign (s.number b) :: ·) ih
    | _ => exact ih

theorem numbers_numbered (h : s.dialect.style = .numbered) (names : List String) :
    (Bind.numbered 0 names).map s.number = (List.range' 1 names.length).map some := by
  have hn : s.number = some ∘ Bind.position := by
    funext b
    simp [number, h]
  rw [hn, ← List.map_map, Bind.numbered_positions]

end Shipped

/-- A scan of a statement finds every name closed, and in the order of the pieces exactly the names
and the slots of the query, each name as it was. The placeholders are those of the binds, and in a
dialect that numbers them they carry the numbers from 1 on. -/
theorem Query.render_scan {s : Shipped} {q : Query} {r : Rendered}
    (h : q.render s.dialect = .ok r)
    (hv : ∀ v ∈ q.verbatims, v.Over fun c => c ≠ s.dialect.quote ∧ c ≠ '?' ∧ c ≠ '$') :
    r.sql = String.join (q.pieces.map (Piece.spell s.dialect)) ∧
    ∃ tokens, Text.scan s.dialect.quote r.sql = some tokens ∧
      tokens = q.pieces.filterMap s.token ∧
      tokens.filter Text.Token.isPlaceholder =
        r.binds.map (fun b => .placeholder s.sign (s.number b)) ∧
      (s.dialect.style = .numbered →
        r.binds.map s.number = (List.range' 1 r.binds.length).map some) := by
  have hq : ∀ v ∈ q.verbatims, v.Over (· ≠ s.dialect.quote) := fun v hm x hx => (hv v hm x hx).1
  have hp : ∀ p ∈ q.pieces, p.Over fun c => c ≠ '?' ∧ c ≠ '$' := by
    apply Query.pieces_over
    · intro c hc
      constructor
      · rintro rfl
        cases hc
      · rintro rfl
        cases hc
    · exact fun v hm x hx => (hv v hm x hx).2
  have ha := Query.atoms_render h hq
  obtain ⟨-, rfl⟩ := Query.render_eq_ok.1 h
  refine ⟨rfl, _, ?_, rfl, s.filter_tokens _, fun hn => ?_⟩
  · rw [Text.scan, ha, Option.map_some, s.tokens_atoms q.pieces_apart hp]
  · simpa [Query.slots_pieces] using s.numbers_numbered hn q.slots

/-- A query whose names try to end their quotes and to pass for placeholders. -/
def Query.hostile : Query :=
  ((Query.update "t\" = $9 --").column (.bare "?")).filter
    (.predicate ⟨.qualified "\"" "a)", .like, .placeholders 1⟩)

theorem Query.render_scan_hostile : ∃ r, Query.hostile.render Shipped.postgres.dialect = .ok r ∧
    (∀ v ∈ Query.hostile.verbatims, v.Over fun c => c ≠ '"' ∧ c ≠ '?' ∧ c ≠ '$') ∧
    Text.scan '"' r.sql = some [.name "t\" = $9 --", .name "?", .placeholder '$' (some 1),
      .name "\"", .name "a)", .placeholder '$' (some 2)] := by
  have hv : ∀ v ∈ Query.hostile.verbatims, v.Over fun c => c ≠ '"' ∧ c ≠ '?' ∧ c ≠ '$' := by
    have he : Query.hostile.verbatims = [] := rfl
    simp [he]
  have h : Query.hostile.render Shipped.postgres.dialect = .ok _ := rfl
  rcases Query.render_scan h hv with ⟨-, _, hs, rfl, -⟩
  exact ⟨_, h, hv, hs⟩

end SqlRender
