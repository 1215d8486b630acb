import SqlRender.Proofs.Reading
import SqlRender.Proofs.Words

/-!
# Rows of atoms

A row of pieces turns into a row of atoms, in which every slot is the same question mark. Two such
rows are compared from the left: if they agree up to what follows them, and what follows cannot be
mistaken for more of the row, then the rows are the same and so is what follows. Lists and optional
clauses inherit this from their entries.
-/
namespace SqlRender

namespace Text

def chars (s : String) : List Atom := s.toList.map .char

theorem chars_append (s t : String) : chars (s ++ t) = chars s ++ chars t := by simp [chars]

theorem chars_injective {s t : String} (h : chars s = chars t) : s = t := by
  have hc : Function.Injective Atom.char := fun _ _ h => Atom.char.inj h
  exact String.toList_inj.1 (List.map_injective_iff.2 hc h)

/-- Two rows of atoms of one kind agree, if no further atom of that kind follows either. -/
theorem run_injective {α : Type} {P : α → Prop} {as bs r s : List α} (ha : ∀ x ∈ as, P x)
    (hb : ∀ x ∈ bs, P x) (hr : ∀ x ∈ r.head?, ¬P x) (hs : ∀ x ∈ s.head?, ¬P x)
    (h : as ++ r = bs ++ s) : as = bs ∧ r = s := by
  induction as generalizing bs with
  | nil =>
    cases bs with
    | nil => exact ⟨rfl, h⟩
    | cons b bs =>
      obtain rfl : r = b :: (bs ++ s) := h
      exact absurd (hb b (by simp)) (hr b rfl)
  | cons a as ih =>
    cases bs with
    | nil =>
      obtain rfl : a :: (as ++ r) = s := h
      exact absurd (ha a (by simp)) (hs a rfl)
    | cons b bs =>
      obtain ⟨rfl, ht⟩ : a = b ∧ as ++ r = bs ++ s := by simpa using h
      obtain ⟨rfl, hrs⟩ := ih (fun x hx => ha x (by simp [hx])) (fun x hx => hb x (by simp [hx])) ht
      exact ⟨rfl, hrs⟩

def Ends (words : List String) (r : List Atom) : Prop := r = [] ∨ ∃ w ∈ words, chars w <+: r

def clash (v w : String) : Bool := !v.toList.isPrefixOf w.toList && !w.toList.isPrefixOf v.toList

theorem not_prefix_of_clash {v w : String} (h : clash v w) {r : List Atom} (hv : chars v <+: r) :
    ¬chars w <+: r := by
  intro hw
  have hi : Function.Injective Atom.char := fun _ _ h => Atom.char.inj h
  have hp : v.toList <+: w.toList ∨ w.toList <+: v.toList := by
    rcases List.prefix_or_prefix_of_prefix hv hw with h | h
    · exact .inl ((List.prefix_map_iff_of_injective hi).1 h)
    · exact .inr ((List.prefix_map_iff_of_injective hi).1 h)
  simp only [clash, Bool.and_eq_true, Bool.not_eq_true', Bool.eq_false_iff, ne_eq,
    List.isPrefixOf_iff_prefix] at h
  exact hp.elim h.1 h.2

/-- Words that clash with each other are told apart. -/
theorem eq_of_clash {α : Type} {f : α → String} {as : List α}
    (hc : ∀ a ∈ as, ∀ b ∈ as, a ≠ b → clash (f a) (f b)) {a b : α} (hma : a ∈ as) (hmb : b ∈ as)
    {r s : List Atom} (h : chars (f a) ++ r = chars (f b) ++ s) : a = b ∧ r = s := by
  by_cases hab : a = b
  · subst hab
    exact ⟨rfl, List.append_cancel_left h⟩
  · have ha : chars (f a) <+: chars (f b) ++ s := ⟨r, h⟩
    exact absurd (List.prefix_append _ _) (not_prefix_of_clash (hc a hma b hmb hab) ha)

namespace Ends

variable {words : List String} {r : List Atom}

theorem nil : Ends words [] := .inl rfl

theorem word {w : String} (h : w ∈ words) (r : List Atom) : Ends words (chars w ++ r) :=
  .inr ⟨w, h, List.prefix_append _ _⟩

theorem mono {more : List String} (h : Ends words r) (hw : words ⊆ more) : Ends more r := by
  rcases h with rfl | ⟨w, hm, hp⟩
  · exact nil
  · exact .inr ⟨w, hw hm, hp⟩

/-- No word follows that clashes with all that can follow. -/
theorem ne_append (h : Ends words r) {w : String} (hw : w ≠ "") (hc : words.all (clash w))
    (s : List Atom) : r ≠ chars w ++ s := by
  rintro rfl
  obtain hn | ⟨v, hm, hp⟩ := h
  · simp [chars, hw] at hn
  · exact not_prefix_of_clash (List.all_eq_true.1 hc v hm) (List.prefix_append _ _) hp

/-- What follows begins with a character that satisfies the condition, if all words do. -/
theorem head {p : Char → Bool} (h : Ends words r)
    (hp : words.all fun w => w.toList.head?.any p) : ∀ a ∈ r.head?, ∃ c, a = .char c ∧ p c := by
  rcases h with rfl | ⟨w, hm, t, rfl⟩
  · simp
  · have hw := List.all_eq_true.1 hp w hm
    cases hl : w.toList with
    | nil => simp [hl] at hw
    | cons c cs =>
      have hc : p c := by simpa [hl] using hw
      simpa [chars, hl] using hc

end Ends

section

variable {α κ : Type} {V : α → Prop} {E F : List Atom → Prop} {row : α → List Atom} {k : α → κ}

/-- The row of `a` is not mistaken for that of another value, unless `k` takes the two for the same.
What follows the rows is one of `E`, and the other value one of `V`. -/
def Reads (V : α → Prop) (E : List Atom → Prop) (row : α → List Atom) (k : α → κ) (a : α) : Prop :=
  ∀ b r s, V b → E r → E s → row a ++ r = row b ++ s → k a = k b ∧ r = s

/-- Entries with a mark before each of them. -/
theorem Reads.flatMap {mark : List Atom} {as : List α} (h : ∀ a ∈ as, Reads V E row k a)
    (ha : ∀ a ∈ as, V a) (hE : ∀ r, E (mark ++ r)) (hF : ∀ r, F r → E r)
    (hm : ∀ b r s, V b → F r → r ≠ mark ++ (row b ++ s)) {bs : List α} (hb : ∀ b ∈ bs, V b)
    {r s : List Atom} (hr : F r) (hs : F s)
    (he : as.flatMap (fun a => mark ++ row a) ++ r = bs.flatMap (fun b => mark ++ row b) ++ s) :
    as.map k = bs.map k ∧ r = s := by
  have hE : ∀ (cs : List α) (t : List Atom), F t →
      E (cs.flatMap (fun c => mark ++ row c) ++ t) := by
    intro cs t ht
    cases cs with
    | nil => exact hF t ht
    | cons c cs => simpa using hE _
  induction as generalizing bs with
  | nil =>
    cases bs with
    | nil => exact ⟨rfl, he⟩
    | cons b bs => exact absurd (by simpa using he) (hm b r _ (hb b (by simp)) hr)
  | cons a as ih =>
    cases bs with
    | nil => exact absurd (by simpa using he.symm) (hm a s _ (ha a (by simp)) hs)
    | cons b bs =>
      have he' : row a ++ (as.flatMap (fun a => mark ++ row a) ++ r) =
          row b ++ (bs.flatMap (fun b => mark ++ row b) ++ s) := by simpa using he
      obtain ⟨hk, ht⟩ := h a (by simp) b _ _ (hb b (by simp)) (hE as r hr) (hE bs s hs) he'
      obtain ⟨hks, hrs⟩ := ih (fun a hm => h a (by simp [hm])) (fun a hm => ha a (by simp [hm]))
        (fun b hm => hb b (by simp [hm])) ht
      exact ⟨by simp [hk, hks], hrs⟩

def listed (mark : List Atom) (row : α → List Atom) : List α → List Atom
  | [] => []
  | a :: as => row a ++ as.flatMap fun a => mark ++ row a

theorem Reads.listed_cons {mark : List Atom} {a b : α} {as bs : List α}
    (h : ∀ c ∈ a :: as, Reads V E row k c) (ha : ∀ c ∈ a :: as, V c) (hE : ∀ r, E (mark ++ r))
    (hF : ∀ r, F r → E r) (hm : ∀ r s, F r → r ≠ mark ++ s) (hb : ∀ c ∈ b :: bs, V c)
    {r s : List Atom} (hr : F r) (hs : F s)
    (he : listed mark row (a :: as) ++ r = listed mark row (b :: bs) ++ s) :
    (a :: as).map k = (b :: bs).map k ∧ r = s := by
  have hE' : ∀ (cs : List α) (t : List Atom), F t →
      E (cs.flatMap (fun c => mark ++ row c) ++ t) := by
    intro cs t ht
    cases cs with
    | nil => exact hF t ht
    | cons c cs => simpa using hE _
  have he' : row a ++ (as.flatMap (fun a => mark ++ row a) ++ r) =
      row b ++ (bs.flatMap (fun b => mark ++ row b) ++ s) := by
    simpa [Text.listed] using he
  rcases h a (by simp) b _ _ (hb b (by simp)) (hE' as r hr) (hE' bs s hs) he' with ⟨hk, ht⟩
  obtain ⟨hks, hrs⟩ := Reads.flatMap (fun c hc => h c (by simp [hc]))
    (fun c hc => ha c (by simp [hc])) hE hF (fun b r s _ hr => hm r _ hr)
    (fun c hc => hb c (by simp [hc])) hr hs ht
  exact ⟨by simp [hk, hks], hrs⟩

/-- An empty list is told apart if no entry begins like what can follow. -/
theorem Reads.listed {mark : List Atom} {as : List α} (h : ∀ a ∈ as, Reads V E row k a)
    (ha : ∀ a ∈ as, V a) (hE : ∀ r, E (mark ++ r)) (hF : ∀ r, F r → E r)
    (hm : ∀ r s, F r → r ≠ mark ++ s) (hn : ∀ b r s, V b → F r → r ≠ row b ++ s) {bs : List α}
    (hb : ∀ b ∈ bs, V b) {r s : List Atom} (hr : F r) (hs : F s)
    (he : listed mark row as ++ r = listed mark row bs ++ s) :
    as.map k = bs.map k ∧ r = s := by
  cases as with
  | nil =>
    cases bs with
    | nil => exact ⟨rfl, he⟩
    | cons b bs => exact absurd (by simpa [Text.listed] using he) (hn b r _ (hb b (by simp)) hr)
  | cons a as =>
    cases bs with
    | nil => exact absurd (by simpa [Text.listed] using he.symm) (hn a s _ (ha a (by simp)) hs)
    | cons b bs => exact Reads.listed_cons h ha hE hF hm hb hr hs he

end

end Text

namespace Piece

open Text

variable {σ : Type}

/-- The atoms of a piece in the general dialect, where a slot is a question mark. -/
def glyphs : Piece σ → List Atom
  | .text s => chars s
  | .name s => [.name s]
  | .comparison c => if c.keyword.isEmpty then [] else .char ' ' :: chars c.keyword
  | .slot _ => [.char '?']

def row (ps : List (Piece σ)) : List Atom := ps.flatMap glyphs

@[simp] theorem row_nil : row ([] : List (Piece σ)) = [] := rfl

@[simp] theorem row_text (s : String) (ps : List (Piece σ)) :
    row (.text s :: ps) = chars s ++ row ps := rfl

@[simp] theorem row_name (s : String) (ps : List (Piece σ)) :
    row (.name s :: ps) = .name s :: row ps := rfl

@[simp] theorem row_comparison (c : Comparison) (ps : List (Piece σ)) :
    row (.comparison c :: ps) = glyphs (.comparison c : Piece σ) ++ row ps := rfl

@[simp] theorem row_slot (mark : σ) (ps : List (Piece σ)) :
    row (.slot mark :: ps) = .char '?' :: row ps := rfl

@[simp] theorem row_append (ps qs : List (Piece σ)) : row (ps ++ qs) = row ps ++ row qs :=
  List.flatMap_append

theorem row_separated {α : Type} (separator : String) (f : α → List (Piece σ)) (as : List α) :
    row (separated separator (as.map f)) = listed (chars separator) (fun a => row (f a)) as := by
  cases as with
  | nil => rfl
  | cons a as =>
    have hr : ∀ bs : List α, row ((bs.map f).flatMap fun ps => .text separator :: ps) =
        bs.flatMap fun b => chars separator ++ row (f b) := by
      intro bs
      induction bs with
      | nil => rfl
      | cons b bs ih => simp [ih]
    rw [List.map_cons, separated_cons, row_append, hr, listed]

theorem atoms_comparison (c : Comparison) :
    atoms Shipped.general.dialect (.comparison c) = glyphs (.comparison c : Piece Bind) := by
  by_cases h : c.keyword.isEmpty
  · simp [atoms, spell, glyphs, Shipped.dialect, Dialect.general, h]
  · simp [atoms, spell, glyphs, Shipped.dialect, Dialect.general, h, chars]

theorem atoms_slot (b : Bind) : atoms Shipped.general.dialect (.slot b) = [.char '?'] := by
  simp [atoms, spell, Shipped.dialect, Dialect.general]

theorem row_number (n : Nat) (ps : List (Piece String)) :
    (number n ps).flatMap (atoms Shipped.general.dialect) = row ps := by
  induction ps generalizing n with
  | nil => rfl
  | cons p ps ih =>
    cases p with
    | comparison c =>
      rw [number, List.flatMap_cons, ih, atoms_comparison]
      rfl
    | slot mark =>
      rw [number, List.flatMap_cons, ih, atoms_slot]
      rfl
    | _ =>
      rw [number, List.flatMap_cons, ih]
      rfl

def trail (pss : List (List (Piece σ))) : List Atom := pss.flatMap fun ps => .char ' ' :: row ps

theorem trail_append (pss qss : List (List (Piece σ))) :
    trail (pss ++ qss) = trail pss ++ trail qss := List.flatMap_append

theorem row_parts {pss : List (List (Piece σ))} (h : pss ≠ []) (qss : List (List (Piece σ))) :
    row (separated " " (pss ++ qss)) = row (separated " " pss) ++ trail qss := by
  have hr : ∀ qss : List (List (Piece σ)),
      row (qss.flatMap fun ps => .text " " :: ps) = trail qss := by
    intro qss
    induction qss with
    | nil => rfl
    | cons qs qss ih => simp [ih, trail, chars]
  rw [separated_append " " h, row_append, hr]

end Piece

end SqlRender
