import SqlRender.Text.Quoted
import Mathlib.Data.List.Basic

/-!
# Reading quoted text

A text with quoted names in it is read from left to right. Inside a name a doubled quote character
stands for one, and the first single one closes the name. What is read is a row of atoms: names as a
whole, and the characters between them.
-/
namespace SqlRender.Text

/-- Reads on after an opening quote character, and gives the name and what follows it. -/
def unquote (q : Char) : List Char → Option (List Char × List Char)
  | [] => none
  | c :: cs =>
    if c = q then
      match cs with
      | [] => some ([], [])
      | d :: rest =>
        if d = q then (unquote q rest).map (Prod.map (q :: ·) id) else some ([], d :: rest)
    else (unquote q cs).map (Prod.map (c :: ·) id)

/-- A quoted name is read back as it was, unless another quote character follows it. -/
theorem unquote_doubled (q : Char) (s : List Char) {rest : List Char} (h : rest.head? ≠ some q) :
    unquote q (doubled q s ++ q :: rest) = some (s, rest) := by
  induction s with
  | nil =>
    cases rest with
    | nil => simp [doubled, unquote]
    | cons d rest =>
      have hd : d ≠ q := by simpa using h
      simp [doubled, unquote, hd]
  | cons c s ih =>
    by_cases hc : c = q
    · subst hc
      simp [doubled, unquote, ih]
    · rw [doubled, if_neg hc, List.cons_append, unquote.eq_def]
      simp [hc, ih]

theorem unquote_length {q : Char} {cs name rest : List Char}
    (h : unquote q cs = some (name, rest)) : rest.length < cs.length := by
  fun_induction unquote q cs generalizing name with
  | case1 => cases h
  | case2 => simp_all
  | case3 rest' ih =>
    rcases Option.map_eq_some_iff.1 h with ⟨⟨name', rest''⟩, hr, he⟩
    cases he
    have := ih hr
    simp only [List.length_cons]
    omega
  | case4 d rest' hd => simp_all
  | case5 c cs hc ih =>
    rcases Option.map_eq_some_iff.1 h with ⟨⟨name', rest'⟩, hr, he⟩
    cases he
    have := ih hr
    simp only [List.length_cons]
    omega

/-- A quoted name, or a character outside of all names. -/
inductive Atom where
  | name (s : String)
  | char (c : Char)
deriving DecidableEq

/-- The atoms of a text, unless a name is left open. -/
def atoms (q : Char) (cs : List Char) : Option (List Atom) :=
  match cs with
  | [] => some []
  | c :: cs =>
    if c = q then
      match _h : unquote q cs with
      | none => none
      | some (name, rest) => (atoms q rest).map (.name (String.ofList name) :: ·)
    else (atoms q cs).map (.char c :: ·)
termination_by cs.length
decreasing_by
  · have := unquote_length _h
    simp only [List.length_cons]
    omega
  · simp

@[simp] theorem atoms_nil (q : Char) : atoms q [] = some [] := by rw [atoms]

theorem atoms_append (q : Char) {cs : List Char} (h : ∀ c ∈ cs, c ≠ q) (rest : List Char) :
    atoms q (cs ++ rest) = (atoms q rest).map (cs.map Atom.char ++ ·) := by
  induction cs with
  | nil => simp
  | cons c cs ih =>
    have hc : c ≠ q := h c (by simp)
    rw [List.cons_append, atoms, if_neg hc, ih fun d hd => h d (by simp [hd])]
    simp [Function.comp_def]

theorem atoms_quoted (q : Char) (s : String) {rest : List Char} (h : rest.head? ≠ some q) :
    atoms q ((quoted q s).toList ++ rest) = (atoms q rest).map (.name s :: ·) := by
  have hu := unquote_doubled q s.toList h
  rw [quoted, String.toList_ofList, List.cons_append, List.append_assoc, List.singleton_append,
    atoms, if_pos rfl]
  split
  · next hn => simp [hu] at hn
  · next name rest' hs =>
    obtain ⟨rfl, rfl⟩ : s.toList = name ∧ rest = rest' := by simpa [hu] using hs
    simp

end SqlRender.Text
