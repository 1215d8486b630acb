import SqlRender.Pool
import SqlRender.Query.Equality

/-!
# Shapes of documents

The types of value that a document can describe, and how each is laid out in JSON. A record is
written as its members by name or by place; a choice is written as the name of an alternative, with
a content if the alternative carries one. Layouts are data: reading a document and the limits on its
nesting are stated once, for all types.
-/
namespace SqlRender.Document

/-- The types with a layout of their own. -/
inductive Noun where
  | verb
  | column
  | call
  | argument
  | join
  | joinMethod
  | grouping
  | sortKey
  | direction
  | predicate
  | condition
  | junction
  | connective
  | comparison
  | operand
  | query
  | pool
deriving DecidableEq

@[reducible] def Noun.Value : Noun → Type
  | .verb => Verb
  | .column => Column
  | .call => Call
  | .argument => Argument
  | .join => Join
  | .joinMethod => JoinMethod
  | .grouping => Grouping
  | .sortKey => SortKey
  | .direction => Direction
  | .predicate => Predicate
  | .condition => Condition
  | .junction => Junction
  | .connective => Connective
  | .comparison => Comparison
  | .operand => Operand
  | .query => Query
  | .pool => Pool

instance (n : Noun) : DecidableEq n.Value := by cases n <;> infer_instance

/-- What can stand at one place of a document. `size` and `count` are 64-bit numbers, `small` is a
32-bit number. -/
inductive Shape where
  | text
  | flag
  | count
  | size
  | small
  | optional (shape : Shape)
  | list (shape : Shape)
  | noun (noun : Noun)
deriving DecidableEq

@[reducible] def Shape.Value : Shape → Type
  | .text => String
  | .flag => Bool
  | .count => UInt64
  | .size => UInt64
  | .small => UInt32
  | .optional s => Option s.Value
  | .list s => List s.Value
  | .noun n => n.Value

/-- A member of a record; one with a default may be left out. -/
structure Member where
  key : String
  shape : Shape
  default : Option shape.Value

/-- One value for each member. -/
@[reducible] def Values : List Member → Type
  | [] => Unit
  | m :: ms => m.shape.Value × Values ms

/-- An alternative of a choice, by itself or with a content. -/
inductive Alternative (α : Type) where
  | plain (name : String) (value : α)
  | carrying (name : String) (shape : Shape) (wrap : shape.Value → α)

def Alternative.name {α : Type} : Alternative α → String
  | plain name _ => name
  | carrying name _ _ => name

/-- How the values of a type are written. -/
inductive Layout (α : Type) where
  | record (name : String) (members : List Member) (build : Values members → α)
  | choice (alternatives : List (Alternative α))

end SqlRender.Document
