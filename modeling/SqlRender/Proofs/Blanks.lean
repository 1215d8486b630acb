import SqlRender.Proofs.Rows

/-!
# Blanks

A row of atoms is tidy if it can stand between two blanks and no blank is next to another one; a
stricter reading allows no blank on the inner side of a bracket or before a comma either. Tidy rows
can be joined by one blank, by a comma and a blank, or by a tidy word between blanks, and they can
be put in brackets.
-/
namespace SqlRender

namespace Text

/-- One of the two neighbours is a stray blank: both are blanks, or, if `strict`, it stands on the
inner side of a bracket or before a comma. -/
def Stray (strict : Bool) (a b : Atom) : Prop :=
  (a = .char ' ' ∧ b = .char ' ') ∨
    strict ∧ ((a = .char '(' ∧ b = .char ' ') ∨ (a = .char ' ' ∧ (b = .char ')' ∨ b = .char ',')))

instance (strict : Bool) (a b : Atom) : Decidable (Stray strict a b) :=
  inferInstanceAs (Decidable (_ ∨ _))

/-- The row can stand between the atom and a blank: there is no stray blank in it or at its ends. -/
def Led (strict : Bool) (z : Atom) (as : List Atom) : Prop :=
  (z :: (as ++ [.char ' '])).IsChain fun a b => ¬Stray strict a b

instance (strict : Bool) (z : Atom) (as : List Atom) : Decidable (Led strict z as) :=
  inferInstanceAs (Decidable (List.IsChain _ _))

/-- The row can stand between blanks. -/
def Tidy (strict : Bool) (as : List Atom) : Prop := Led strict (.char ' ') as

instance (strict : Bool) (as : List Atom) : Decidable (Tidy strict as) :=
  inferInstanceAs (Decidable (Led _ _ _))

def Atom.IsSolid (a : Atom) : Prop := a ∉ [Atom.char ' ', .char '(', .char ')', .char ',']

instance (a : Atom) : Decidable a.IsSolid := inferInstanceAs (Decidable (a ∉ _))

section

variable {strict : Bool} {as bs : List Atom} {a b x z : Atom}

theorem not_stray_of_left (h : a.IsSolid) : ¬Stray strict a b := by
  simp only [Atom.IsSolid, List.mem_cons, List.not_mem_nil, or_false, not_or] at h
  simp [Stray, h]

theorem not_stray_of_right (h : b.IsSolid) : ¬Stray strict a b := by
  simp only [Atom.IsSolid, List.mem_cons, List.not_mem_nil, or_false, not_or] at h
  simp [Stray, h]

theorem Led.cons (h : ¬Stray strict z x) (hb : Led strict x bs) : Led strict z (x :: bs) :=
  List.isChain_cons_cons.2 ⟨h, hb⟩

/-- Where a blank may stand, so may an atom that is no more of a stray. -/
theorem Led.append (ha : Led strict z as)
    (hx : ∀ a, Stray strict a x → Stray strict a (Atom.char ' ')) (hb : Led strict x bs) :
    Led strict z (as ++ x :: bs) := by
  have ha : ((z :: as) ++ [Atom.char ' ']).IsChain fun a b => ¬Stray strict a b := ha
  rcases List.isChain_append.1 ha with ⟨hc, -, hl⟩
  have hz : ((z :: as) ++ [x]).IsChain fun a b => ¬Stray strict a b := by
    apply List.isChain_append.2
    refine ⟨hc, .singleton x, ?_⟩
    intro a ha b hb hs
    obtain rfl : x = b := by simpa using hb
    exact hl a ha _ rfl (hx a hs)
  have he : z :: (as ++ x :: bs ++ [.char ' ']) = (z :: as) ++ x :: (bs ++ [.char ' ']) := by simp
  rw [Led, he, List.isChain_split]
  exact ⟨hz, hb⟩

/-- What may stand after a blank may stand after an atom that is no more of a stray. -/
theorem Tidy.led (h : Tidy strict as)
    (hx : ∀ b, Stray strict x b → Stray strict (Atom.char ' ') b) : Led strict x as := by
  apply List.IsChain.cons_of_imp _ h
  intro b hb hs
  exact hb (hx b hs)

theorem Tidy.ends (h : Tidy strict as) : as.head? ≠ some (.char ' ') ∧
    as.getLast? ≠ some (.char ' ') ∧ as.IsChain fun a b => ¬Stray strict a b := by
  have hb : Stray strict (Atom.char ' ') (.char ' ') := .inl ⟨rfl, rfl⟩
  rcases List.isChain_cons.1 h with ⟨hhead, hc⟩
  rcases List.isChain_append.1 hc with ⟨hc, -, hlast⟩
  refine ⟨fun he => ?_, fun he => hlast _ he _ rfl hb, hc⟩
  apply hhead _ _ hb
  simp [he]

theorem Tidy.spaced (ha : Tidy strict as) (hb : Tidy strict bs) :
    Tidy strict (as ++ .char ' ' :: bs) := Led.append ha (fun _ h => h) hb

theorem Stray.of_comma (h : Stray strict a (.char ',')) : Stray strict a (.char ' ') := by
  simp_all [Stray]

theorem Stray.of_closing (h : Stray strict a (.char ')')) : Stray strict a (.char ' ') := by
  simp_all [Stray]

theorem Stray.of_opening (h : Stray strict (.char '(') b) : Stray strict (.char ' ') b := by
  simp_all [Stray]

theorem Tidy.listed (ha : Tidy strict as) (hb : Tidy strict bs) :
    Tidy strict (as ++ .char ',' :: .char ' ' :: bs) :=
  Led.append ha (fun _ => Stray.of_comma) (Led.cons (by simp [Stray]) hb)

/-- The row and the brackets around it. -/
theorem Tidy.enclosed (h : Tidy strict as) :
    Tidy strict (.char '(' :: (as ++ [.char ')'])) := by
  have hc : Led strict (.char ')') [] := by simp [Led, Stray]
  exact Led.cons (by simp [Stray]) ((h.led fun _ => Stray.of_opening).append
    (fun _ => Stray.of_closing) hc)

theorem Tidy.dotted (ha : Tidy strict as) (hb : Tidy strict bs) :
    Tidy strict (as ++ .char '.' :: bs) := by
  have hd : (Atom.char '.').IsSolid := by decide
  exact Led.append ha (fun a h => absurd h (not_stray_of_right hd))
    (hb.led fun b h => absurd h (not_stray_of_left hd))

/-- The brackets right after a row. -/
theorem Tidy.applied (ha : Tidy strict as) (hb : Tidy strict bs) :
    Tidy strict (as ++ .char '(' :: (bs ++ [.char ')'])) := by
  have hb := (List.isChain_cons_cons.1 hb.enclosed).2
  exact Led.append ha (by simp [Stray]) hb

theorem Tidy.applied_nil (ha : Tidy strict as) :
    Tidy strict (as ++ [.char '(', .char ')']) :=
  Led.append ha (by simp [Stray]) (Led.cons (by simp [Stray]) (by simp [Led, Stray]))

/-- A word of solid atoms. -/
theorem tidy_of_forall (hne : as ≠ []) (h : ∀ a ∈ as, a.IsSolid) : Tidy strict as := by
  have hl : ∀ (as : List Atom) (z : Atom), z.IsSolid → (∀ a ∈ as, a.IsSolid) → Led strict z as := by
    intro as
    induction as with
    | nil => exact fun z hz _ => List.isChain_cons_cons.2 ⟨not_stray_of_left hz, .singleton _⟩
    | cons a as ih =>
      intro z hz h
      rw [List.forall_mem_cons] at h
      exact Led.cons (not_stray_of_left hz) (ih a h.1 h.2)
  cases as with
  | nil => exact absurd rfl hne
  | cons a as =>
    rw [List.forall_mem_cons] at h
    exact Led.cons (not_stray_of_right h.1) (hl as a h.1 h.2)

end

def isTidy (t : String) : Bool := decide (Tidy true (chars t))

theorem Tidy.of_strict {strict : Bool} {as : List Atom} (h : Tidy true as) : Tidy strict as := by
  refine List.IsChain.imp (fun a b hs h => hs ?_) h
  exact h.imp_right fun h => ⟨rfl, h.2⟩

theorem isSolid_of_isDigit {c : Char} (h : c.isDigit) : (Atom.char c).IsSolid := by
  have hs : ∀ d ∈ [' ', '(', ')', ','], d.isDigit = false := by simp [Char.isDigit]
  intro hm
  simp only [List.mem_cons, Atom.char.injEq, List.not_mem_nil, or_false] at hm
  have hd := hs c (by simpa using hm)
  rw [h] at hd
  cases hd

theorem tidy_of_isTidy {strict : Bool} {t : String} (h : isTidy t) : Tidy strict (chars t) :=
  (of_decide_eq_true h).of_strict

end Text

/-- The text neither begins nor ends with a blank, and no two of its blanks stand side by side. -/
def Text.IsTrim (t : String) : Prop :=
  t.toList.head? ≠ some ' ' ∧ t.toList.getLast? ≠ some ' ' ∧
    t.toList.IsChain fun c d => ¬(c = ' ' ∧ d = ' ')

instance (t : String) : Decidable (Text.IsTrim t) := inferInstanceAs (Decidable (_ ∧ _))

def Verbatim.IsTidy (strict : Bool) (v : Verbatim) : Prop :=
  v.text ≠ "" → Text.Tidy strict (Text.chars v.text)

/-- Brackets and commas matter to the stricter reading only. -/
theorem Verbatim.isTidy_of_isTrim {strict : Bool} {v : Verbatim} (h : Text.IsTrim v.text)
    (hs : strict → v.Over fun c => c ≠ '(' ∧ c ≠ ')' ∧ c ≠ ',') : v.IsTidy strict := by
  intro hne
  rcases h with ⟨hhead, hlast, hchain⟩
  have hmem : ∀ c ∈ ' ' :: (v.text.toList ++ [' ']), strict → c ≠ '(' ∧ c ≠ ')' ∧ c ≠ ',' := by
    intro c hc hstrict
    have hc : c = ' ' ∨ c ∈ v.text.toList := by simpa [or_comm] using hc
    rcases hc with rfl | hc
    · decide
    · exact hs hstrict c hc
  have hblank : (' ' :: (v.text.toList ++ [' '])).IsChain fun c d => ¬(c = ' ' ∧ d = ' ') := by
    have hhead' : ∀ c ∈ (v.text.toList ++ [' ']).head?, c ≠ ' ' := by
      have hne : v.text.toList ≠ [] := by simpa using hne
      rw [List.head?_append_of_ne_nil _ hne]
      rintro c hc rfl
      exact hhead hc
    rw [List.isChain_cons, List.isChain_append]
    refine ⟨fun c hc h => hhead' c hc h.2, hchain, .singleton _, ?_⟩
    rintro c hc d - ⟨rfl, -⟩
    exact hlast hc
  have hmap : Text.Atom.char ' ' :: (Text.chars v.text ++ [.char ' ']) =
      (' ' :: (v.text.toList ++ [' '])).map .char := by simp [Text.chars]
  rw [Text.Tidy, Text.Led, hmap, List.isChain_map]
  apply List.IsChain.imp_of_mem_imp _ hblank
  intro c d hc hd hb hstray
  simp only [Text.Stray, Text.Atom.char.injEq] at hstray
  rcases hstray with hstray | ⟨hstrict, ⟨hopen, -⟩ | ⟨-, hclose | hcomma⟩⟩
  · exact hb hstray
  · exact (hmem c hc hstrict).1 hopen
  · exact (hmem d hd hstrict).2.1 hclose
  · exact (hmem d hd hstrict).2.2 hcomma

namespace Piece

open Text (chars)

section

variable {s : Shipped} {n : Nat} {ps : List (Piece String)}

@[simp] theorem spelled_nil : spelled s n [] = [] := rfl

@[simp] theorem spelled_text (t : String) :
    spelled s n (.text t :: ps) = chars t ++ spelled s n ps := rfl

@[simp] theorem spelled_name (t : String) :
    spelled s n (.name t :: ps) = .name t :: spelled s n ps := rfl

@[simp] theorem spelled_append (qs : List (Piece String)) :
    spelled s n (ps ++ qs) = spelled s n ps ++ spelled s (n + (slots ps).length) qs := by
  simp [spelled, number_append]

theorem spelled_slot (mark : String) : spelled s n [.slot mark] =
    .char s.sign :: (s.digits ⟨mark, n + 1⟩).map .char := by
  simp [spelled, number, atoms, spell, s.placeholder_eq]

theorem spelled_comparison (c : Comparison) : spelled s n [.comparison c] =
    if c.keyword.isEmpty then [] else .char ' ' :: chars c.keyword := by
  simp only [spelled, number, List.flatMap_singleton, atoms, spell, s.operator_eq]
  split
  · rfl
  · simp [chars]

end

def Tidy (s : Shipped) (strict : Bool) (ps : List (Piece String)) : Prop :=
  ∀ n, Text.Tidy strict (spelled s n ps)

variable {s : Shipped} {strict : Bool} {ps qs : List (Piece String)}
  {pss : List (List (Piece String))}

theorem tidy_text {t : String} (h : Text.Tidy strict (chars t)) : Tidy s strict [.text t] := by
  intro n
  simpa using h

theorem tidy_word {t : String} (h : Text.isTidy t) : Tidy s strict [.text t] :=
  tidy_text (Text.tidy_of_isTidy h)

theorem tidy_name (t : String) : Tidy s strict [.name t] :=
  fun _ => Text.tidy_of_forall (by simp) (by simp [Text.Atom.IsSolid])

theorem tidy_slot (mark : String) : Tidy s strict [.slot mark] := by
  intro n
  rw [spelled_slot]
  apply Text.tidy_of_forall (by simp)
  rw [List.forall_mem_cons, List.forall_mem_map]
  constructor
  · cases s <;> decide
  · exact fun c hc => Text.isSolid_of_isDigit (s.isDigit_of_mem_digits hc)

namespace Tidy

theorem spaced (hp : Tidy s strict ps) (hq : Tidy s strict qs) :
    Tidy s strict (ps ++ .text " " :: qs) := by
  intro n
  rw [spelled_append, spelled_text]
  exact (hp n).spaced (hq _)

theorem listed_append (hp : Tidy s strict ps) (hq : Tidy s strict qs) :
    Tidy s strict (ps ++ .text ", " :: qs) := by
  intro n
  rw [spelled_append, spelled_text]
  exact (hp n).listed (hq _)

/-- A word between blanks. -/
theorem worded {w : String} (hw : Text.Tidy strict (chars w)) (hp : Tidy s strict ps)
    (hq : Tidy s strict qs) : Tidy s strict (ps ++ .text (" " ++ w ++ " ") :: qs) := by
  intro n
  have hc : chars (" " ++ w ++ " ") = .char ' ' :: (chars w ++ [.char ' ']) := by simp [chars]
  rw [spelled_append, spelled_text, hc]
  simpa using (hp n).spaced (hw.spaced (hq _))

/-- A word and a blank in front of a row. -/
theorem headed {w : String} (hw : Text.isTidy w) (hq : Tidy s strict qs) :
    Tidy s strict (.text (w ++ " ") :: qs) := by
  intro n
  have hc : chars (w ++ " ") = chars w ++ [.char ' '] := by simp [chars]
  rw [spelled_text, hc]
  simpa using (Text.tidy_of_isTidy hw).spaced (hq n)

theorem enclosed (hp : Tidy s strict ps) : Tidy s strict (.text "(" :: ps ++ [.text ")"]) := by
  intro n
  simpa [chars] using (hp n).enclosed

/-- A word and brackets right after it. -/
theorem applied {f : String} (hf : Text.Tidy strict (chars f)) (hp : Tidy s strict ps) :
    Tidy s strict (.text f :: .text "(" :: ps ++ [.text ")"]) := by
  intro n
  simpa [chars] using hf.applied (hp n)

theorem applied_nil {f : String} (hf : Text.Tidy strict (chars f)) :
    Tidy s strict [.text f, .text "(", .text ")"] := by
  intro n
  simpa [chars] using hf.applied_nil

/-- Rows that are joined two by two. -/
theorem separated {separator : String} (hjoin : ∀ ps qs, Tidy s strict ps → Tidy s strict qs →
      Tidy s strict (ps ++ .text separator :: qs)) (hne : pss ≠ [])
    (h : ∀ ps ∈ pss, Tidy s strict ps) : Tidy s strict (separated separator pss) := by
  induction pss with
  | nil => exact absurd rfl hne
  | cons ps pss ih =>
    rw [List.forall_mem_cons] at h
    cases pss with
    | nil => simpa using h.1
    | cons qs pss =>
      rw [separated_cons_cons]
      exact hjoin _ _ h.1 (ih (by simp) h.2)

theorem listed (hne : pss ≠ []) (h : ∀ ps ∈ pss, Tidy s strict ps) :
    Tidy s strict (Piece.separated ", " pss) := separated (fun _ _ => listed_append) hne h

theorem comparison {c : Comparison} (hc : ∀ v ∈ c.verbatims, v.IsTidy strict)
    (hp : Tidy s strict ps) : Tidy s strict (ps ++ [.comparison c]) := by
  intro n
  have hk : c.keyword.isEmpty = false → Text.Tidy strict (chars c.keyword) := by
    intro he
    cases c with
    | verbatim sql =>
      have hv : Verbatim.IsTidy strict ⟨.operator, sql⟩ := by simpa [Comparison.verbatims] using hc
      exact hv (by rintro rfl; cases he)
    | bare => cases he
    | _ => exact Text.tidy_of_isTidy (by decide)
  rw [spelled_append, spelled_comparison]
  split
  · simpa using hp n
  · next he => exact (hp n).spaced (hk (by simpa using he))

end Tidy

end Piece

end SqlRender
