import SqlRender.Proofs.Trees

/-!
# Conditions by precedence

How a text is read as a condition. A pair of brackets that stands alone is read by itself. Outside
of brackets `AND` binds closer than `OR`, and the first `AND` after a `BETWEEN` is a part of it. All
else, with the brackets in it, belongs to a predicate.
-/
namespace SqlRender

/-- Predicates under conjunctions and disjunctions. -/
inductive Formula (α : Type) where
  | predicate (a : α)
  | all (members : List (Formula α))
  | any (members : List (Formula α))

namespace Formula

variable {α β : Type}

mutual

def leaves : Formula α → List α
  | predicate a => [a]
  | all members => leavesAll members
  | any members => leavesAll members

def leavesAll : List (Formula α) → List α
  | [] => []
  | f :: fs => leaves f ++ leavesAll fs

end

mutual

/-- Whether the formula holds if the truth of its predicates is given by their places, the first one
having the place `n`. -/
def holds (truth : Nat → Bool) (n : Nat) : Formula α → Bool
  | predicate _ => truth n
  | all members => holdsAll truth n members
  | any members => holdsAny truth n members

def holdsAll (truth : Nat → Bool) (n : Nat) : List (Formula α) → Bool
  | [] => true
  | f :: fs => holds truth n f && holdsAll truth (n + f.leaves.length) fs

def holdsAny (truth : Nat → Bool) (n : Nat) : List (Formula α) → Bool
  | [] => false
  | f :: fs => holds truth n f || holdsAny truth (n + f.leaves.length) fs

end

/-- The formulas have as many predicates, and hold for the same truth of these. -/
def Agrees (f : Formula α) (g : Formula β) : Prop :=
  f.leaves.length = g.leaves.length ∧ ∀ truth n, f.holds truth n = g.holds truth n

theorem agrees_predicate (a : α) (b : β) : (predicate a).Agrees (predicate b) :=
  ⟨rfl, fun _ _ => rfl⟩

theorem agrees_all_singleton (f : Formula α) : (all [f]).Agrees f := by
  constructor
  · simp [leaves, leavesAll]
  · intro truth n
    simp [holds, holdsAll]

theorem agrees_any_singleton (f : Formula α) : (any [f]).Agrees f := by
  constructor
  · simp [leaves, leavesAll]
  · intro truth n
    simp [holds, holdsAny]

theorem Agrees.trans {γ : Type} {f : Formula α} {g : Formula β} {h : Formula γ} (hf : f.Agrees g)
    (hg : g.Agrees h) : f.Agrees h :=
  ⟨hf.1.trans hg.1, fun truth n => (hf.2 truth n).trans (hg.2 truth n)⟩

section

variable {fs : List (Formula α)} {gs : List (Formula β)} (h : List.Forall₂ Agrees fs gs)

include h

theorem length_leavesAll : (leavesAll fs).length = (leavesAll gs).length := by
  induction h with
  | nil => rfl
  | cons hf _ ih => simp [leavesAll, hf.1, ih]

theorem Agrees.all : (all fs).Agrees (all gs) := by
  refine ⟨length_leavesAll h, fun truth n => ?_⟩
  rw [holds, holds]
  induction h generalizing n with
  | nil => rfl
  | cons hf _ ih => rw [holdsAll, holdsAll, hf.2, hf.1, ih]

theorem Agrees.any : (any fs).Agrees (any gs) := by
  refine ⟨length_leavesAll h, fun truth n => ?_⟩
  rw [holds, holds]
  induction h generalizing n with
  | nil => rfl
  | cons hf _ ih => rw [holdsAny, holdsAny, hf.2, hf.1, ih]

end

end Formula

def Connective.formula {α : Type} (k : Connective) (members : List (Formula α)) : Formula α :=
  if k = .or then .any members else .all members

theorem Connective.leaves_formula {α : Type} (k : Connective) (members : List (Formula α)) :
    (k.formula members).leaves = Formula.leavesAll members := by
  unfold Connective.formula
  split <;> rfl

namespace Text

/-- A keyword can be written in any case. -/
def Tree.isKeyword (keyword : String) : Tree → Bool
  | .lexeme (.word cs) => cs.map Char.toUpper == keyword.toList
  | _ => false

/-- A tree, and what it means if it stands alone. -/
structure Part where
  tree : Tree
  alone : Formula (List Tree)

/-- What stands between two connectives is a pair of brackets or a predicate. -/
def factor : List Part → Formula (List Tree)
  | [p] => p.alone
  | ps => .predicate (ps.map Part.tree)

/-- The parts, with a mark at those that are connectives. One `AND` is owed to each `BETWEEN`. -/
def marked (owed : Bool) : List Part → List (Option Connective × Part)
  | [] => []
  | p :: ps =>
    if p.tree.isKeyword "BETWEEN" then (none, p) :: marked true ps
    else if p.tree.isKeyword "AND" then
      (if owed then none else some .and, p) :: marked false ps
    else if p.tree.isKeyword "OR" then (some .or, p) :: marked owed ps
    else (none, p) :: marked owed ps

def cut (k : Connective) (row : List (Option Connective × Part)) :
    List (List (Option Connective × Part)) :=
  row.splitOnP fun x => x.1 = some k

def conjunction (row : List (Option Connective × Part)) : Formula (List Tree) :=
  .all ((cut .and row).map fun fs => factor (fs.map Prod.snd))

def disjunction (ps : List Part) : Formula (List Tree) :=
  .any ((cut .or (marked false ps)).map conjunction)

mutual

def Tree.alone : Tree → Formula (List Tree)
  | .lexeme l => .predicate [.lexeme l]
  | .enclosed ts => disjunction (Tree.parts ts)

def Tree.parts : List Tree → List Part
  | [] => []
  | t :: ts => ⟨t, Tree.alone t⟩ :: Tree.parts ts

end

/-- The condition that is read from a text, unless a name is left open or the brackets do not match.
-/
def formula (q : Char) (sql : String) : Option (Formula (List Tree)) :=
  (trees q sql).map fun ts => disjunction (Tree.parts ts)

theorem Tree.parts_eq_map (ts : List Tree) : Tree.parts ts = ts.map fun t => ⟨t, t.alone⟩ := by
  induction ts with
  | nil => rfl
  | cons t ts ih => rw [Tree.parts, ih, List.map_cons]

/-- No connective is among the trees, and no `AND` is owed after them. -/
def Steady (ts : List Tree) : Prop :=
  ∀ ps, marked false (Tree.parts ts ++ ps) = (Tree.parts ts).map (none, ·) ++ marked false ps

/-- The tree has no part in the reading of what is around it. -/
def Tree.IsNeutral (t : Tree) : Prop :=
  t.isKeyword "BETWEEN" = false ∧ t.isKeyword "AND" = false ∧ t.isKeyword "OR" = false

instance (t : Tree) : Decidable t.IsNeutral := inferInstanceAs (Decidable (_ ∧ _ ∧ _))

theorem marked_neutral {ts : List Tree} (h : ∀ t ∈ ts, t.IsNeutral) (owed : Bool)
    (ps : List Part) : marked owed (Tree.parts ts ++ ps) =
      (Tree.parts ts).map (none, ·) ++ marked owed ps := by
  induction ts with
  | nil => rfl
  | cons t ts ih =>
    simp only [List.forall_mem_cons] at h
    rcases h.1 with ⟨hb, ha, ho⟩
    simp [Tree.parts, marked, hb, ha, ho, ih h.2]

theorem steady_neutral {ts : List Tree} (h : ∀ t ∈ ts, t.IsNeutral) : Steady ts :=
  marked_neutral h false

/-- The `AND` between the bounds joins no conditions. -/
theorem steady_between {ts : List Tree} {between lower and upper : Tree}
    (ht : ∀ t ∈ ts, t.IsNeutral) (hb : between.isKeyword "BETWEEN") (hl : lower.IsNeutral)
    (ha : and.isKeyword "AND") (hn : and.isKeyword "BETWEEN" = false) (hu : upper.IsNeutral) :
    Steady (ts ++ [between, lower, and, upper]) := by
  intro ps
  rcases hl with ⟨hl₁, hl₂, hl₃⟩
  rcases hu with ⟨hu₁, hu₂, hu₃⟩
  have hs : Tree.parts (ts ++ [between, lower, and, upper]) = Tree.parts ts ++
      [⟨between, between.alone⟩, ⟨lower, lower.alone⟩, ⟨and, and.alone⟩, ⟨upper, upper.alone⟩] := by
    simp [Tree.parts_eq_map]
  rw [hs, List.append_assoc, marked_neutral ht]
  simp [marked, hb, ha, hn, hl₁, hl₂, hl₃, hu₁, hu₂, hu₃]

/-- Rows without a separator, joined by one, are cut apart again. -/
theorem splitOnP_intercalate {α : Type} {p : α → Bool} {separator : α} (hs : p separator)
    {rows : List (List α)} (hne : rows ≠ []) (h : ∀ row ∈ rows, ∀ x ∈ row, p x = false) :
    ([separator].intercalate rows).splitOnP p = rows := by
  induction rows with
  | nil => exact absurd rfl hne
  | cons row rows ih =>
    simp only [List.forall_mem_cons] at h
    cases rows with
    | nil => simpa using List.splitOnP_eq_singleton h.1
    | cons row' rows =>
      rw [List.intercalate_cons_cons, List.append_assoc, List.singleton_append,
        List.splitOnP_append_cons_of_forall_mem h.1 _ hs, ih (by simp) h.2]

theorem forall_mem_intercalate {α : Type} {P : α → Prop} {separator : α} (hs : P separator)
    {rows : List (List α)} (h : ∀ row ∈ rows, ∀ x ∈ row, P x) :
    ∀ x ∈ [separator].intercalate rows, P x := by
  induction rows with
  | nil => simp
  | cons row rows ih =>
    simp only [List.forall_mem_cons] at h
    cases rows with
    | nil => simpa using h.1
    | cons row' rows =>
      rw [List.intercalate_cons_cons, List.append_assoc, List.singleton_append]
      exact List.forall_mem_append.2 ⟨h.1, List.forall_mem_cons.2 ⟨hs, ih h.2⟩⟩

def word (k : Connective) : Tree := .lexeme (.word k.keyword.toList)

variable {tss : List (List Tree)}

/-- The rows of the parts with the connective between them. -/
theorem marked_intercalate {k : Connective} (hk : k ∈ Connective.plain)
    (h : ∀ ts ∈ tss, Steady ts) : marked false (Tree.parts ([word k].intercalate tss)) =
      [(some k, ⟨word k, (word k).alone⟩)].intercalate
        (tss.map fun ts => (Tree.parts ts).map (none, ·)) := by
  have hword : ∀ k ∈ Connective.plain, ∀ ps, marked false (⟨word k, (word k).alone⟩ :: ps) =
      (some k, ⟨word k, (word k).alone⟩) :: marked false ps := by
    intro k hk ps
    simp only [Connective.plain, List.mem_cons, List.not_mem_nil, or_false] at hk
    rcases hk with rfl | rfl <;> rfl
  induction tss with
  | nil => rfl
  | cons ts tss ih =>
    simp only [List.forall_mem_cons] at h
    cases tss with
    | nil => simpa [marked] using h.1 []
    | cons us tss =>
      have hs : Tree.parts ([word k].intercalate (ts :: us :: tss)) =
          Tree.parts ts ++ ⟨word k, (word k).alone⟩ ::
            Tree.parts ([word k].intercalate (us :: tss)) := by
        simp [List.intercalate_cons_cons, Tree.parts_eq_map]
      rw [hs, h.1, hword k hk, ih h.2]
      simp [List.intercalate_cons_cons]

section

variable {k : Connective} {p : Part} {rows : List (List (Option Connective × Part))}
  (h : ∀ row ∈ rows, ∀ x ∈ row, x.1 = none)

include h

theorem cut_intercalate (hne : rows ≠ []) : cut k ([(some k, p)].intercalate rows) = rows :=
  splitOnP_intercalate (by simp) hne fun row hr x hx => by simp [h row hr x hx]

/-- Another connective is not between the rows. -/
theorem cut_other {l : Connective} (hkl : k ≠ l) :
    cut l ([(some k, p)].intercalate rows) = [[(some k, p)].intercalate rows] := by
  apply List.splitOnP_eq_singleton
  apply forall_mem_intercalate
  · simpa using hkl
  · intro row hr x hx
    simp [h row hr x hx]

end

theorem cut_unmarked (k : Connective) (ps : List Part) :
    cut k (ps.map (none, ·)) = [ps.map (none, ·)] := by
  apply List.splitOnP_eq_singleton
  simp

/-- How the factors are taken together that stand between the same connective. -/
def joined {α : Type} (k : Connective) (fs : List (Formula α)) : Formula α :=
  if k = .or then .any (fs.map fun f => .all [f]) else .any [.all fs]

/-- Members with a connective between them are read as the factors that they are. -/
theorem disjunction_intercalate {k : Connective} (hk : k ∈ Connective.plain) (hne : tss ≠ [])
    (h : ∀ ts ∈ tss, Steady ts) : disjunction (Tree.parts ([word k].intercalate tss)) =
      joined k (tss.map fun ts => factor (Tree.parts ts)) := by
  have hrows : ∀ row ∈ tss.map fun ts => (Tree.parts ts).map ((none : Option Connective), ·),
      ∀ x ∈ row, x.1 = none := by
    simp
  have hne' : (tss.map fun ts => (Tree.parts ts).map ((none : Option Connective), ·)) ≠ [] := by
    simpa using hne
  rw [disjunction, marked_intercalate hk h, joined]
  simp only [Connective.plain, List.mem_cons, List.not_mem_nil, or_false] at hk
  rcases hk with rfl | rfl
  · rw [cut_other hrows (by simp), List.map_singleton, conjunction, cut_intercalate hrows hne']
    simp [Function.comp_def]
  · rw [cut_intercalate hrows hne']
    simp [conjunction, cut_unmarked, Function.comp_def]

section

variable {α β : Type} (k : Connective) {fs : List (Formula α)} {gs : List (Formula β)}

theorem leaves_joined (fs : List (Formula α)) : (joined k fs).leaves = Formula.leavesAll fs := by
  have hall : Formula.leavesAll (fs.map fun f => .all [f]) = Formula.leavesAll fs := by
    induction fs with
    | nil => rfl
    | cons f fs ih => simp [Formula.leavesAll, Formula.leaves, ih]
  unfold joined
  split <;> simp [Formula.leaves, Formula.leavesAll, hall]

theorem agrees_joined (h : List.Forall₂ Formula.Agrees fs gs) :
    (joined k fs).Agrees (k.formula gs) := by
  unfold joined Connective.formula
  split
  · apply Formula.Agrees.any
    rw [List.forall₂_map_left_iff]
    exact h.imp fun f g hf => (Formula.agrees_all_singleton f).trans hf
  · exact (Formula.agrees_any_singleton _).trans (Formula.Agrees.all h)

end

end Text

end SqlRender
