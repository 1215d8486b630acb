import SqlRender.Document.Shape
import SqlRender.Proofs.Json.Grammar

/-!
# The grammar of documents

Which texts describe a value, for every type of a document, said without a reader and without the
layouts. A record is an object with its members in any order, or an array with its members in order;
a choice is the name of an alternative, or an object whose only member is the alternative. Between
any two tokens there may be a gap, and at most 127 brackets may be open at once.
-/
namespace SqlRender.Document

open Json

/-- The phrases of the values of every shape. -/
abbrev Grammar := (s : Shape) → List Char → s.Value → Prop

/-- An alternative without a content: its name, or an object that maps the name to `null`. Here and
below `room` is the grammar of what stands between brackets, if one more may be open. -/
def Named (room : Option Grammar) (name : String) (cs : List Char) : Prop :=
  Quoted cs name ∨
    room.isSome ∧ ∃ t, IsObject [(name, t)] cs ∧ Spaced (· = "null".toList) t

/-- An alternative with a content: an object that maps its name to the content. -/
def Tagged (room : Option Grammar) (name : String) (s : Shape) (cs : List Char) (v : s.Value) :
    Prop :=
  ∃ inner t, room = some inner ∧ IsObject [(name, t)] cs ∧ Spaced (inner s · v) t

def Elements (room : Option Grammar) (s : Shape) (cs : List Char) (vs : List s.Value) : Prop :=
  ∃ inner ts, room = some inner ∧ IsArray ts cs ∧
    List.Forall₂ (fun t v => Spaced (inner s · v) t) ts vs

/-- A member of a record of type `α`: what its text says of the record, and what it says of the
record that the member is left out. -/
structure Field (α : Type) where
  key : String
  given : Grammar → List Char → α → Prop
  omitted : α → Prop

namespace Field

variable {α : Type}

def required (key : String) (s : Shape) (get : α → s.Value) : Field α where
  key := key
  given inner t a := Spaced (inner s · (get a)) t
  omitted _ := False

def defaulted (key : String) (s : Shape) (default : s.Value) (get : α → s.Value) : Field α where
  key := key
  given inner t a := Spaced (inner s · (get a)) t
  omitted a := get a = default

def optional (key : String) (s : Shape) (get : α → Option s.Value) : Field α :=
  defaulted key (.optional s) none get

def list (key : String) (n : Noun) (get : α → List n.Value) : Field α :=
  defaulted key (.list (.noun n)) [] get

/-- The member stands at most once among those of an object. -/
def Holds (inner : Grammar) (f : Field α) (ms : List (String × List Char)) (a : α) : Prop :=
  match ms.filter (·.1 = f.key) with
  | [] => f.omitted a
  | [m] => f.given inner m.2 a
  | _ => False

end Field

variable {α : Type}

/-- The members of a record in any order. A member that the record does not have may stand there any
number of times, with any well-formed value. -/
def ByName (inner : Grammar) (fields : List (Field α)) (ms : List (String × List Char)) (a : α) :
    Prop :=
  (∀ f ∈ fields, f.Holds inner ms a) ∧ ∀ m ∈ ms, m.1 ∉ fields.map Field.key → WellFormed m.2

/-- The members of a record in order, and no further element; the last ones may be left out. -/
def ByPlace (inner : Grammar) : List (Field α) → List (List Char) → α → Prop
  | [], ts, _ => ts = []
  | f :: fs, [], a => f.omitted a ∧ ByPlace inner fs [] a
  | f :: fs, t :: ts, a => f.given inner t a ∧ ByPlace inner fs ts a

def Record (room : Option Grammar) (fields : List (Field α)) (cs : List Char) (a : α) : Prop :=
  ∃ inner, room = some inner ∧
    ((∃ ms, IsObject ms cs ∧ ByName inner fields ms a) ∨
      ∃ ts, IsArray ts cs ∧ ByPlace inner fields ts a)

def Noun.Phrase (room : Option Grammar) : (n : Noun) → List Char → n.Value → Prop
  | .verb, cs, .select => Named room "select" cs
  | .verb, cs, .insert => Named room "insert" cs
  | .verb, cs, .update => Named room "update" cs
  | .verb, cs, .delete => Named room "delete" cs
  | .column, cs, c => Record room
      [.optional "table" .text Column.table, .required "name" .text Column.name] cs c
  | .call, cs, c => Record room
      [.required "function" .text Call.function, .list "arguments" .argument Call.arguments,
        .optional "alias" .text Call.label] cs c
  | .argument, cs, .column c => Tagged room "column" (.noun .column) cs c
  | .argument, cs, .call c => Tagged room "computed" (.noun .call) cs c
  | .argument, cs, .wildcard => Named room "wildcard" cs
  | .join, cs, j => Record room
      [.required "method" (.noun .joinMethod) Join.method,
        .required "local" (.noun .column) Join.own,
        .required "foreign" (.noun .column) Join.foreign] cs j
  | .joinMethod, cs, .inner => Named room "inner" cs
  | .joinMethod, cs, .left => Named room "left" cs
  | .joinMethod, cs, .right => Named room "right" cs
  | .joinMethod, cs, .outer => Named room "outer" cs
  | .joinMethod, cs, .verbatim sql => Tagged room "custom" .text cs sql
  | .grouping, cs, .column c => Tagged room "column" (.noun .column) cs c
  | .grouping, cs, .verbatim sql => Tagged room "custom" .text cs sql
  | .sortKey, cs, k => Record room
      [.required "column" (.noun .column) SortKey.column,
        .defaulted "direction" (.noun .direction) .ascending SortKey.direction] cs k
  | .direction, cs, .ascending => Named room "ascending" cs
  | .direction, cs, .descending => Named room "descending" cs
  | .direction, cs, .verbatim sql => Tagged room "custom" .text cs sql
  | .predicate, cs, p => Record room
      [.required "column" (.noun .column) Predicate.column,
        .required "comparison" (.noun .comparison) Predicate.comparison,
        .required "value" (.noun .operand) Predicate.operand] cs p
  | .condition, cs, .predicate p => Tagged room "predicate" (.noun .predicate) cs p
  | .condition, cs, .junction j => Tagged room "group" (.noun .junction) cs j
  | .junction, cs, j => Record room
      [.required "relation" (.noun .connective) Junction.connective,
        .required "predicates" (.list (.noun .condition)) Junction.members] cs j
  | .connective, cs, .and => Named room "and" cs
  | .connective, cs, .or => Named room "or" cs
  | .connective, cs, .verbatim sql => Tagged room "custom" .text cs sql
  | .comparison, cs, .equal => Named room "equal" cs
  | .comparison, cs, .notEqual => Named room "not_equal" cs
  | .comparison, cs, .less => Named room "less_than" cs
  | .comparison, cs, .greater => Named room "greater_than" cs
  | .comparison, cs, .lessOrEqual => Named room "less_than_or_equal" cs
  | .comparison, cs, .greaterOrEqual => Named room "greater_than_or_equal" cs
  | .comparison, cs, .isIn => Named room "in" cs
  | .comparison, cs, .notIn => Named room "not_in" cs
  | .comparison, cs, .between => Named room "between" cs
  | .comparison, cs, .like => Named room "like" cs
  | .comparison, cs, .notLike => Named room "not_like" cs
  | .comparison, cs, .isNull => Named room "is_null" cs
  | .comparison, cs, .isNotNull => Named room "is_not_null" cs
  | .comparison, cs, .bare => Named room "none" cs
  | .comparison, cs, .verbatim sql => Tagged room "sql" .text cs sql
  | .operand, cs, .placeholders count => Tagged room "placeholders" .size cs count
  | .operand, cs, .column c => Tagged room "column" (.noun .column) cs c
  | .operand, cs, .subquery q => Tagged room "subquery" (.noun .query) cs q
  | .operand, cs, .verbatim sql => Tagged room "custom" .text cs sql
  | .operand, cs, .absent => Named room "none" cs
  | .query, cs, q => Record room
      [.required "statement" (.noun .verb) Query.verb, .required "table" .text Query.table,
        .defaulted "distinct" .flag false Query.distinct, .list "columns" .column Query.columns,
        .list "computed" .call Query.calls, .list "joins" .join Query.joins,
        .list "predicates" .condition Query.conditions,
        .list "group_bys" .grouping Query.groupings, .list "order_bys" .sortKey Query.sortKeys,
        .optional "limit" .count Query.limit, .optional "offset" .count Query.offset] cs q
  | .pool, cs, p => Record room [.defaulted "max_connections" .small 2 Pool.maxConnections] cs p

/-- The phrases of the values of every shape. Numbers are plain decimals without a leading zero, and
`null` is no phrase of a value that is present. -/
def Shape.Phrase (room : Option Grammar) : Grammar
  | .text, cs, s => Quoted cs s
  | .flag, cs, b => cs = (if b then "true" else "false").toList
  | .count, cs, n => cs = n.toNat.repr.toList
  | .size, cs, n => cs = n.toNat.repr.toList
  | .small, cs, n => cs = n.toNat.repr.toList
  | .optional _, cs, none => cs = "null".toList
  | .optional s, cs, some v => cs ≠ "null".toList ∧ Phrase room s cs v
  | .list s, cs, vs => Elements room s cs vs
  | .noun n, cs, v => n.Phrase room cs v

/-- The grammar with the given number of brackets that may be open at once. -/
def grammar : Nat → Grammar
  | 0 => Shape.Phrase none
  | depth + 1 => Shape.Phrase (some (grammar depth))

def Describes (n : Noun) (s : String) (v : n.Value) : Prop :=
  Spaced (grammar 127 (.noun n) · v) s.toList

end SqlRender.Document
