import SqlRender.Query.Basic

/-!
# Equality of queries

Queries, conditions and operands are compared as trees; `Query.same_iff` and its companions say that
the comparison decides equality.
-/
namespace SqlRender

mutual

def Operand.same : Operand → Operand → Bool
  | .placeholders n, .placeholders n' => n == n'
  | .column c, .column c' => c == c'
  | .subquery q, .subquery q' => Query.same q q'
  | .verbatim s, .verbatim s' => s == s'
  | .absent, .absent => true
  | _, _ => false

def Predicate.same : Predicate → Predicate → Bool
  | ⟨c, o, v⟩, ⟨c', o', v'⟩ => c == c' && o == o' && Operand.same v v'

def Junction.same : Junction → Junction → Bool
  | ⟨k, ms⟩, ⟨k', ms'⟩ => k == k' && Condition.sameAll ms ms'

def Condition.same : Condition → Condition → Bool
  | .predicate p, .predicate p' => Predicate.same p p'
  | .junction j, .junction j' => Junction.same j j'
  | _, _ => false

def Condition.sameAll : List Condition → List Condition → Bool
  | [], [] => true
  | c :: cs, c' :: cs' => Condition.same c c' && Condition.sameAll cs cs'
  | _, _ => false

/-- Whether two queries are the same tree. -/
def Query.same : Query → Query → Bool
  | ⟨v, t, d, cs, fs, js, ws, gs, ks, l, o⟩, ⟨v', t', d', cs', fs', js', ws', gs', ks', l', o'⟩ =>
    v == v' && t == t' && d == d' && cs == cs' && fs == fs' && js == js' &&
      Condition.sameAll ws ws' && gs == gs' && ks == ks' && l == l' && o == o'

end

mutual

theorem Operand.same_iff : ∀ a b : Operand, Operand.same a b = true ↔ a = b
  | .placeholders _, .placeholders _ | .column _, .column _ | .verbatim _, .verbatim _
  | .absent, .absent => by simp [Operand.same]
  | .subquery q, .subquery q' => by simp [Operand.same, Query.same_iff q q']
  | .placeholders _, .column _ | .placeholders _, .subquery _ | .placeholders _, .verbatim _
  | .placeholders _, .absent | .column _, .placeholders _ | .column _, .subquery _
  | .column _, .verbatim _ | .column _, .absent | .subquery _, .placeholders _
  | .subquery _, .column _ | .subquery _, .verbatim _ | .subquery _, .absent
  | .verbatim _, .placeholders _ | .verbatim _, .column _ | .verbatim _, .subquery _
  | .verbatim _, .absent | .absent, .placeholders _ | .absent, .column _ | .absent, .subquery _
  | .absent, .verbatim _ => by simp [Operand.same]

theorem Predicate.same_iff : ∀ a b : Predicate, Predicate.same a b = true ↔ a = b
  | ⟨_, _, v⟩, ⟨_, _, v'⟩ => by simp [Predicate.same, Operand.same_iff v v', and_assoc]

theorem Junction.same_iff : ∀ a b : Junction, Junction.same a b = true ↔ a = b
  | ⟨_, ms⟩, ⟨_, ms'⟩ => by simp [Junction.same, Condition.sameAll_iff ms ms']

theorem Condition.same_iff : ∀ a b : Condition, Condition.same a b = true ↔ a = b
  | .predicate p, .predicate p' => by simp [Condition.same, Predicate.same_iff p p']
  | .junction j, .junction j' => by simp [Condition.same, Junction.same_iff j j']
  | .predicate _, .junction _ | .junction _, .predicate _ => by simp [Condition.same]

theorem Condition.sameAll_iff : ∀ a b : List Condition, Condition.sameAll a b = true ↔ a = b
  | [], [] => by simp [Condition.sameAll]
  | c :: cs, c' :: cs' => by
    simp [Condition.sameAll, Condition.same_iff c c', Condition.sameAll_iff cs cs']
  | [], _ :: _ | _ :: _, [] => by simp [Condition.sameAll]

theorem Query.same_iff : ∀ a b : Query, Query.same a b = true ↔ a = b
  | ⟨_, _, _, _, _, _, ws, _, _, _, _⟩, ⟨_, _, _, _, _, _, ws', _, _, _, _⟩ => by
    simp [Query.same, Condition.sameAll_iff ws ws', and_assoc]

end

instance : DecidableEq Operand := fun a b => decidable_of_iff _ (Operand.same_iff a b)
instance : DecidableEq Predicate := fun a b => decidable_of_iff _ (Predicate.same_iff a b)
instance : DecidableEq Junction := fun a b => decidable_of_iff _ (Junction.same_iff a b)
instance : DecidableEq Condition := fun a b => decidable_of_iff _ (Condition.same_iff a b)
instance : DecidableEq Query := fun a b => decidable_of_iff _ (Query.same_iff a b)

end SqlRender
