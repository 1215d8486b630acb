import SqlRender.Proofs.Outline

/-!
# Verbatim text

The texts of the caller that a statement carries as they are, without quotes around them. All other
text of a statement is fixed, and made of ordinary characters.
-/
namespace SqlRender

/-- The places in a query where verbatim text can stand. -/
inductive Verbatim.Place where
  | function
  | operator
  | operand
  | connective
  | joinMethod
  | grouping
  | direction
deriving DecidableEq

/-- A verbatim text and its place. -/
structure Verbatim where
  place : Verbatim.Place
  text : String
deriving DecidableEq

mutual

def Call.verbatims : Call → List Verbatim
  | ⟨function, arguments, _⟩ => ⟨.function, function⟩ :: Argument.verbatimsAll arguments

def Argument.verbatims : Argument → List Verbatim
  | .call c => Call.verbatims c
  | .column _ | .wildcard => []

def Argument.verbatimsAll : List Argument → List Verbatim
  | [] => []
  | a :: as => Argument.verbatims a ++ Argument.verbatimsAll as

end

def JoinMethod.verbatims : JoinMethod → List Verbatim
  | .verbatim sql => [⟨.joinMethod, sql⟩]
  | _ => []

def Grouping.verbatims : Grouping → List Verbatim
  | .column _ => []
  | .verbatim sql => [⟨.grouping, sql⟩]

def Direction.verbatims : Direction → List Verbatim
  | .verbatim sql => [⟨.direction, sql⟩]
  | _ => []

def Comparison.verbatims : Comparison → List Verbatim
  | .verbatim sql => [⟨.operator, sql⟩]
  | _ => []

def Connective.verbatims : Connective → List Verbatim
  | .verbatim sql => [⟨.connective, sql⟩]
  | _ => []

mutual

def Operand.verbatims : Operand → List Verbatim
  | .subquery q => Query.verbatims q
  | .verbatim sql => [⟨.operand, sql⟩]
  | .placeholders _ | .column _ | .absent => []

def Predicate.verbatims : Predicate → List Verbatim
  | ⟨_, comparison, operand⟩ => comparison.verbatims ++ Operand.verbatims operand

def Junction.verbatims : Junction → List Verbatim
  | ⟨connective, members⟩ => connective.verbatims ++ Condition.verbatimsAll members

def Condition.verbatims : Condition → List Verbatim
  | .predicate p => Predicate.verbatims p
  | .junction j => Junction.verbatims j

def Condition.verbatimsAll : List Condition → List Verbatim
  | [] => []
  | c :: cs => Condition.verbatims c ++ Condition.verbatimsAll cs

/-- All verbatim texts of a query, those of its subqueries included. -/
def Query.verbatims : Query → List Verbatim
  | ⟨_, _, _, _, calls, joins, conditions, groupings, sortKeys, _, _⟩ =>
    calls.flatMap Call.verbatims ++ joins.flatMap (fun j => j.method.verbatims) ++
      Condition.verbatimsAll conditions ++ groupings.flatMap Grouping.verbatims ++
      sortKeys.flatMap fun k => k.direction.verbatims

end

theorem Query.forall_verbatims {P : Verbatim → Prop} {q : Query} : (∀ v ∈ q.verbatims, P v) ↔
    (∀ c ∈ q.calls, ∀ v ∈ c.verbatims, P v) ∧ (∀ j ∈ q.joins, ∀ v ∈ j.method.verbatims, P v) ∧
      (∀ v ∈ Condition.verbatimsAll q.conditions, P v) ∧
      (∀ g ∈ q.groupings, ∀ v ∈ g.verbatims, P v) ∧
      ∀ k ∈ q.sortKeys, ∀ v ∈ k.direction.verbatims, P v := by
  have hf : ∀ {α : Type} (f : α → List Verbatim) (as : List α),
      (∀ v ∈ as.flatMap f, P v) ↔ ∀ a ∈ as, ∀ v ∈ f a, P v := by
    intro α f as
    simp only [List.mem_flatMap, forall_exists_index, and_imp]
    exact ⟨fun h a ha v hv => h v a ha hv, fun h v a ha hv => h a ha v hv⟩
  cases q
  simp only [Query.verbatims, List.forall_mem_append, hf, and_assoc]

def Text.isOrdinary (c : Char) : Bool := c.isAlphanum || " (),.*=!<>".toList.contains c

theorem Text.over_word {P : Char → Prop} (hP : ∀ c, Text.isOrdinary c → P c) {s : String}
    (h : s.toList.all Text.isOrdinary) : ∀ x ∈ s.toList, P x :=
  fun x hx => hP x (List.all_eq_true.1 h x hx)

theorem Text.isDigit_of_mem_repr {n : Nat} {c : Char} (h : c ∈ n.repr.toList) : c.isDigit :=
  Nat.isDigit_of_mem_toDigits (b := 10) (by decide) (by decide) (by simpa [Nat.repr] using h)

/-- Whether `P` holds of all characters that stand outside of names and slots. -/
def Piece.Over {σ : Type} (P : Char → Prop) : Piece σ → Prop
  | .text s => ∀ x ∈ s.toList, P x
  | .comparison c => ∀ x ∈ c.keyword.toList, P x
  | .name _ | .slot _ => True

def Verbatim.Over (P : Char → Prop) (v : Verbatim) : Prop := ∀ x ∈ v.text.toList, P x

namespace Piece

variable {σ : Type} {P : Char → Prop}

@[simp] theorem over_name (s : String) : (name s : Piece σ).Over P := trivial

@[simp] theorem over_slot (mark : σ) : (slot mark).Over P := trivial

theorem over_text {s : String} : (text s : Piece σ).Over P ↔ ∀ x ∈ s.toList, P x := Iff.rfl

end Piece

end SqlRender
