import SqlRender.Query.Column

/-!
# Computed columns

A computed column is a function call. Its arguments are columns, further calls or the wildcard, so
calls nest without bound. Equality of calls is decided by comparing the trees.
-/
namespace SqlRender

mutual

/-- A call of `function`; `label` is the alias under which a projection shows its result. -/
structure Call where
  function : String
  arguments : List Argument
  label : Option String

/-- One argument of a call. -/
inductive Argument where
  | column (column : Column)
  | call (call : Call)
  | wildcard

end

namespace Call

def named (function : String) : Call := ⟨function, [], none⟩

def argument (c : Call) (a : Argument) : Call := { c with arguments := c.arguments ++ [a] }

def labelled (c : Call) (label : String) : Call := { c with label := some label }

def countAll : Call := (named "COUNT").argument .wildcard

end Call

mutual

/-- Whether two calls are the same tree. -/
def Call.same : Call → Call → Bool
  | ⟨f, as, l⟩, ⟨f', as', l'⟩ => f == f' && Argument.sameAll as as' && l == l'

def Argument.same : Argument → Argument → Bool
  | .column c, .column c' => c == c'
  | .call c, .call c' => Call.same c c'
  | .wildcard, .wildcard => true
  | _, _ => false

def Argument.sameAll : List Argument → List Argument → Bool
  | [], [] => true
  | a :: as, b :: bs => Argument.same a b && Argument.sameAll as bs
  | _, _ => false

end

mutual

theorem Call.same_iff : ∀ a b : Call, Call.same a b = true ↔ a = b
  | ⟨f, as, l⟩, ⟨f', as', l'⟩ => by
    simp [Call.same, Argument.sameAll_iff as as', and_assoc]

theorem Argument.same_iff : ∀ a b : Argument, Argument.same a b = true ↔ a = b
  | .column c, .column c' => by simp [Argument.same]
  | .call c, .call c' => by simp [Argument.same, Call.same_iff c c']
  | .wildcard, .wildcard => by simp [Argument.same]
  | .column _, .call _ | .column _, .wildcard | .call _, .column _ | .call _, .wildcard
  | .wildcard, .column _ | .wildcard, .call _ => by simp [Argument.same]

theorem Argument.sameAll_iff : ∀ as bs : List Argument, Argument.sameAll as bs = true ↔ as = bs
  | [], [] => by simp [Argument.sameAll]
  | a :: as, b :: bs => by
    simp [Argument.sameAll, Argument.same_iff a b, Argument.sameAll_iff as bs]
  | [], _ :: _ | _ :: _, [] => by simp [Argument.sameAll]

end

instance : DecidableEq Call := fun a b => decidable_of_iff _ (Call.same_iff a b)

instance : DecidableEq Argument := fun a b => decidable_of_iff _ (Argument.same_iff a b)

end SqlRender
