import SqlRender.Proofs.Brackets
import SqlRender.Proofs.Reading
import SqlRender.Proofs.Words

/-!
# Lexemes

Outside of its names a text is read as words and single signs, with blanks between them. The lexemes
of a statement are those of its pieces, since no word goes on from one piece to the next.
-/
namespace SqlRender

namespace Text

/-- A quoted name, a word, a sign that stands for itself, or a bracket. -/
inductive Lexeme where
  | name (s : String)
  | word (cs : List Char)
  | sign (c : Char)
  | bracket (b : Bracket)
deriving DecidableEq

def sign? (c : Char) : Option Lexeme :=
  if c = ',' ∨ c = '.' then some (.sign c) else (bracket? c).map .bracket

def isGlyph (c : Char) : Bool := !c.isWhitespace && (sign? c).isNone

/-- A word is a lexeme unless it is empty. -/
def closed (word : List Char) : List Lexeme := if word.isEmpty then [] else [.word word]

/-- The lexemes of a row of atoms, the first of them continuing the word. -/
def lexemes (word : List Char) : List Atom → List Lexeme
  | [] => closed word
  | .name s :: as => closed word ++ .name s :: lexemes [] as
  | .char c :: as =>
    if c.isWhitespace then closed word ++ lexemes [] as
    else
      match sign? c with
      | some l => closed word ++ l :: lexemes [] as
      | none => lexemes (word ++ [c]) as

@[simp] theorem lexemes_name (s : String) (as : List Atom) :
    lexemes [] (.name s :: as) = .name s :: lexemes [] as := rfl

@[simp] theorem lexemes_blank (as : List Atom) : lexemes [] (.char ' ' :: as) = lexemes [] as := rfl

@[simp] theorem lexemes_opening (as : List Atom) :
    lexemes [] (.char '(' :: as) = .bracket .opening :: lexemes [] as := rfl

@[simp] theorem lexemes_closing (as : List Atom) :
    lexemes [] (.char ')' :: as) = .bracket .closing :: lexemes [] as := rfl

@[simp] theorem lexemes_dot (as : List Atom) :
    lexemes [] (.char '.' :: as) = .sign '.' :: lexemes [] as := rfl

/-- No word goes on at the first atom. -/
def Parted (as : List Atom) : Prop := ∀ c, as.head? = some (.char c) → isGlyph c = false

theorem lexemes_parted (word : List Char) {as : List Atom} (h : Parted as) :
    lexemes word as = closed word ++ lexemes [] as := by
  cases as with
  | nil => simp [lexemes, closed]
  | cons a as =>
    cases a with
    | name s => simp [lexemes, closed]
    | char c =>
      have hc : isGlyph c = false := h c rfl
      rw [lexemes, lexemes]
      by_cases hw : c.isWhitespace
      · simp [hw, closed]
      · cases hs : sign? c with
        | none => simp [isGlyph, hw, hs] at hc
        | some l => simp [hw, closed]

theorem lexemes_append (word : List Char) (as : List Atom) {bs : List Atom} (h : Parted bs) :
    lexemes word (as ++ bs) = lexemes word as ++ lexemes [] bs := by
  induction as generalizing word with
  | nil => exact lexemes_parted word h
  | cons a as ih =>
    cases a with
    | name s => simp [lexemes, ih]
    | char c =>
      rw [List.cons_append, lexemes, lexemes]
      split
      · simp [ih]
      · split
        · simp [ih]
        · exact ih _

theorem lexemes_glyphs {cs : List Char} (h : ∀ c ∈ cs, isGlyph c) (word : List Char)
    (as : List Atom) : lexemes word (cs.map .char ++ as) = lexemes (word ++ cs) as := by
  induction cs generalizing word with
  | nil => simp
  | cons c cs ih =>
    simp only [List.forall_mem_cons] at h
    have hc := h.1
    simp only [isGlyph, Bool.and_eq_true, Bool.not_eq_true', Option.isNone_iff_eq_none] at hc
    rw [List.map_cons, List.cons_append, lexemes]
    simp [hc, ih h.2]

/-- Characters of words make one word up to where the next lexeme begins. -/
theorem lexemes_word {cs : List Char} (hne : cs ≠ []) (h : ∀ c ∈ cs, isGlyph c) {as : List Atom}
    (ha : Parted as) : lexemes [] (cs.map .char ++ as) = .word cs :: lexemes [] as := by
  rw [lexemes_glyphs h, List.nil_append, lexemes_parted cs ha, closed]
  simp [hne]

theorem bracket?_of_isDigit {c : Char} (h : c.isDigit) : bracket? c = none := by
  rw [bracket?_eq_none]
  constructor <;>
  · rintro rfl
    cases h

theorem isGlyph_of_isDigit {c : Char} (h : c.isDigit) : isGlyph c := by
  have hw : c.isWhitespace = false := by
    by_contra hw
    simp only [Char.isWhitespace, Bool.not_eq_false, Bool.or_eq_true, decide_eq_true_eq] at hw
    rcases hw with ((rfl | rfl) | rfl) | rfl <;> cases h
  have hb : bracket? c = none := bracket?_of_isDigit h
  have hs : ¬(c = ',' ∨ c = '.') := by
    rintro (rfl | rfl) <;> cases h
  simp [isGlyph, sign?, hw, hb, hs]

def Lexeme.bracket? : Lexeme → Option Bracket
  | .bracket b => some b
  | _ => none

def Atom.bracket? : Atom → Option Bracket
  | .name _ => none
  | .char c => Text.bracket? c

theorem bracket?_of_isWhitespace {c : Char} (h : c.isWhitespace) : bracket? c = none := by
  rw [bracket?_eq_none]
  constructor <;>
  · rintro rfl
    cases h

theorem bracket?_sign? {c : Char} : (sign? c).bind Lexeme.bracket? = bracket? c := by
  unfold sign?
  split
  · next h => rcases h with rfl | rfl <;> rfl
  · cases bracket? c <;> rfl

/-- Nothing but the brackets of a text are brackets among its lexemes. -/
theorem brackets_lexemes (word : List Char) (as : List Atom) :
    (lexemes word as).filterMap Lexeme.bracket? = as.filterMap Atom.bracket? := by
  have hclosed : ∀ word, (closed word).filterMap Lexeme.bracket? = [] := by
    intro word
    unfold closed
    split <;> rfl
  induction as generalizing word with
  | nil => exact hclosed word
  | cons a as ih =>
    cases a with
    | name s =>
      rw [lexemes, List.filterMap_append, hclosed]
      exact ih []
    | char c =>
      have hb := bracket?_sign? (c := c)
      rw [lexemes]
      split
      · next hw =>
        simp [hclosed, ih, Atom.bracket?, bracket?_of_isWhitespace hw]
      · cases hs : sign? c with
        | none =>
          simp only [hs, Option.bind_none] at hb
          simp [ih, Atom.bracket?, ← hb]
        | some l =>
          simp only [hs, Option.bind_some] at hb
          simp [hclosed, ih, Atom.bracket?, List.filterMap_cons, hb]

end Text

open Text (Lexeme Parted)

namespace Piece

variable (s : Shipped)

def lexemes (n : Nat) (ps : List (Piece String)) : List Lexeme :=
  Text.lexemes [] ((number n ps).flatMap (atoms s.dialect))

theorem brackets_atoms (p : Piece Bind) :
    (p.atoms s.dialect).filterMap Text.Atom.bracket? = p.brackets := by
  have hchars : ∀ cs : List Char,
      (cs.map Text.Atom.char).filterMap Text.Atom.bracket? = cs.filterMap Text.bracket? := by
    intro cs
    rw [List.filterMap_map]
    rfl
  cases p with
  | name t => rfl
  | text t => exact hchars t.toList
  | comparison c =>
    rw [atoms_eq s (by simp), hchars, spell, s.operator_eq, brackets]
    split
    · next he => simp [Text.brackets, String.isEmpty_iff.1 he]
    · simp [Text.brackets, Text.bracket?]
  | slot b =>
    rw [atoms_eq s (by simp), hchars, spell, s.placeholder_eq, brackets, List.filterMap_eq_nil_iff]
    intro c hc
    rcases List.mem_cons.1 hc with rfl | hd
    · cases s <;> rfl
    · exact Text.bracket?_of_isDigit (s.isDigit_of_mem_digits hd)

theorem brackets_lexemes (n : Nat) (ps : List (Piece String)) :
    (lexemes s n ps).filterMap Lexeme.bracket? = ps.flatMap brackets := by
  rw [lexemes, Text.brackets_lexemes]
  induction ps generalizing n with
  | nil => rfl
  | cons p ps ih =>
    cases p <;> simp only [number, List.flatMap_cons, List.filterMap_append, ih, brackets_atoms] <;>
      rfl

theorem lexemes_nil (n : Nat) : lexemes s n [] = [] := rfl

theorem lexemes_name (n : Nat) (t : String) (ps : List (Piece String)) :
    lexemes s n (.name t :: ps) = .name t :: lexemes s n ps := rfl

theorem lexemes_text (n : Nat) (t : String) (ps : List (Piece String)) :
    lexemes s n (.text t :: ps) =
      Text.lexemes [] (t.toList.map .char ++ (number n ps).flatMap (atoms s.dialect)) := rfl

/-- No word goes on into a detached piece. -/
theorem parted_of_apart {n : Nat} {ps : List (Piece String)} (h : Apart (.name "" :: ps)) :
    Parted ((number n ps).flatMap (atoms s.dialect)) := by
  intro c hc
  have hh := head_of_apart (f := atoms s.dialect) (g := .char) (fun _ => rfl) (fun c => by
    rw [atoms_eq s (by simp), spell]
    split <;> simp) (apart_number n h) rfl
  rcases hh _ hc with ⟨d, hd, he⟩
  cases he
  have hs : ∀ c ∈ signs, Text.isGlyph c = false := by
    simp [signs, Text.isGlyph, Text.sign?, Text.bracket?]
  exact hs c hd

theorem lexemes_append (n : Nat) (ps : List (Piece String)) {qs : List (Piece String)}
    (h : Apart (.name "" :: qs)) :
    lexemes s n (ps ++ qs) = lexemes s n ps ++ lexemes s (n + (slots ps).length) qs := by
  rw [lexemes, number_append, List.flatMap_append, Text.lexemes_append _ _ (parted_of_apart s h)]
  rfl

theorem lexemes_opening (n : Nat) (ps : List (Piece String)) :
    lexemes s n (.text "(" :: ps) = .bracket .opening :: lexemes s n ps := by
  rw [lexemes_text]
  simp [lexemes]

theorem lexemes_closing (n : Nat) : lexemes s n [.text ")"] = [.bracket .closing] := by
  rw [lexemes_text]
  simp [number, Text.lexemes, Text.closed]

theorem lexemes_dot (n : Nat) (ps : List (Piece String)) :
    lexemes s n (.text "." :: ps) = .sign '.' :: lexemes s n ps := by
  rw [lexemes_text]
  simp [lexemes]

theorem lexemes_blank (n : Nat) (ps : List (Piece String)) :
    lexemes s n (.text " " :: ps) = lexemes s n ps := by
  rw [lexemes_text]
  simp [lexemes]

theorem lexemes_connective {k : Connective} (hk : k ∈ Connective.plain) (n : Nat)
    (ps : List (Piece String)) : lexemes s n (.text (" " ++ k.keyword ++ " ") :: ps) =
      .word k.keyword.toList :: lexemes s n ps := by
  simp only [Connective.plain, List.mem_cons, List.not_mem_nil, or_false] at hk
  rw [lexemes_text]
  rcases hk with rfl | rfl <;>
    simp [Connective.keyword, lexemes, Text.lexemes, Text.closed, Text.sign?, Text.bracket?]

theorem lexemes_enclosed (n : Nat) (ps : List (Piece String)) :
    lexemes s n (.text "(" :: ps ++ [.text ")"]) =
      .bracket .opening :: lexemes s n ps ++ [.bracket .closing] := by
  rw [List.cons_append, lexemes_opening, lexemes_append s n ps (by simp [Apart, isDetached, signs]),
    lexemes_closing, List.cons_append]

theorem lexemes_slot (n : Nat) (mark : String) :
    lexemes s n [.slot mark] = [.word (s.sign :: s.digits ⟨mark, n + 1⟩)] := by
  have hg : ∀ c ∈ s.sign :: s.digits ⟨mark, n + 1⟩, Text.isGlyph c := by
    rw [List.forall_mem_cons]
    constructor
    · cases s <;> decide
    · exact fun c hc => Text.isGlyph_of_isDigit (s.isDigit_of_mem_digits hc)
  have hp : Parted [] := by simp [Parted]
  have hw := Text.lexemes_word (List.cons_ne_nil _ _) hg hp
  simpa [lexemes, number, atoms, spell, s.placeholder_eq, Text.lexemes, Text.closed] using hw

end Piece

def Column.lexemes (c : Column) : List Lexeme :=
  match c.table with
  | none => [.name c.name]
  | some table => [.name table, .sign '.', .name c.name]

theorem Column.lexemes_append (s : Shipped) (n : Nat) (c : Column) (ps : List (Piece String)) :
    Piece.lexemes s n (c.outline ++ ps) = c.lexemes ++ Piece.lexemes s n ps := by
  rcases c with ⟨_ | table, name⟩
  · rfl
  · rw [Column.outline, List.cons_append, List.cons_append, Piece.lexemes_name, Piece.lexemes_dot]
    rfl

def Comparison.lexemes (c : Comparison) : List Lexeme :=
  Text.lexemes [] (c.keyword.toList.map .char)

theorem Comparison.lexemes_cons (s : Shipped) (n : Nat) (c : Comparison) {ps : List (Piece String)}
    (h : Piece.Apart (.name "" :: ps)) :
    Piece.lexemes s n (.comparison c :: ps) = c.lexemes ++ Piece.lexemes s n ps := by
  have ha := Piece.lexemes_append s n [.comparison c] h
  rw [List.singleton_append] at ha
  rw [ha]
  congr 1
  simp only [Piece.lexemes, Piece.number, List.flatMap_singleton, Piece.atoms, Piece.spell,
    s.operator_eq]
  by_cases hk : c.keyword.isEmpty
  · simp [Comparison.lexemes, String.isEmpty_iff.1 hk]
  · simp [hk, Comparison.lexemes]

end SqlRender
