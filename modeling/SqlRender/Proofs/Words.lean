import SqlRender.Proofs.Verbatim

/-!
# Words as the only verbatim text

The names of functions are verbatim text as well, so that a query with calls is never without any.
If these names are words and there is no other verbatim text, then operators, connectives, methods
and directions are among finitely many.
-/
namespace SqlRender

def Text.isWordChar (c : Char) : Bool := c.isAlphanum || c == '_'

/-- The name of a function that is a word. -/
def Verbatim.IsWord (v : Verbatim) : Prop :=
  v.place = .function ∧ v.text ≠ "" ∧ ∀ c ∈ v.text.toList, Text.isWordChar c

theorem Verbatim.not_isWord {place : Place} (h : place ≠ .function) (sql : String) :
    ¬∀ v ∈ [(⟨place, sql⟩ : Verbatim)], v.IsWord := by
  simp only [List.forall_mem_singleton]
  exact fun hw => h hw.1

def Comparison.plain : List Comparison :=
  [equal, notEqual, less, greater, lessOrEqual, greaterOrEqual, isIn, notIn, between, like, notLike,
    isNull, isNotNull, bare]

theorem Comparison.mem_plain {c : Comparison} (h : ∀ v ∈ c.verbatims, v.IsWord) : c ∈ plain := by
  cases c with
  | verbatim sql => exact absurd h (Verbatim.not_isWord (by decide) sql)
  | _ => decide

def Connective.plain : List Connective := [and, or]

theorem Connective.mem_plain {k : Connective} (h : ∀ v ∈ k.verbatims, v.IsWord) : k ∈ plain := by
  cases k with
  | verbatim sql => exact absurd h (Verbatim.not_isWord (by decide) sql)
  | _ => decide

def JoinMethod.plain : List JoinMethod := [inner, left, right, outer]

theorem JoinMethod.mem_plain {m : JoinMethod} (h : ∀ v ∈ m.verbatims, v.IsWord) : m ∈ plain := by
  cases m with
  | verbatim sql => exact absurd h (Verbatim.not_isWord (by decide) sql)
  | _ => decide

def Direction.plain : List Direction := [ascending, descending]

theorem Direction.mem_plain {d : Direction} (h : ∀ v ∈ d.verbatims, v.IsWord) : d ∈ plain := by
  cases d with
  | verbatim sql => exact absurd h (Verbatim.not_isWord (by decide) sql)
  | _ => decide

theorem Grouping.eq_column {g : Grouping} (h : ∀ v ∈ g.verbatims, v.IsWord) :
    ∃ c, g = .column c := by
  cases g with
  | verbatim sql => exact absurd h (Verbatim.not_isWord (by decide) sql)
  | column c => exact ⟨c, rfl⟩

end SqlRender
