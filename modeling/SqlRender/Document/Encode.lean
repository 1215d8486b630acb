import SqlRender.Document.Shape
import SqlRender.Json.Write

/-!
# Encoding

The document of a value: members in the order of their layout, every collection written even if it
is empty, and optional members written only if they are present.
-/
namespace SqlRender

open Json

def encodeWord (n : UInt64) : String := n.toNat.repr

def Verb.encode : Verb → String
  | .select => writeText "select"
  | .insert => writeText "insert"
  | .update => writeText "update"
  | .delete => writeText "delete"

def Column.encode (c : Column) : String :=
  writeObject (presentMember "table" writeText c.table ++ [("name", writeText c.name)])

mutual

def Call.encode : Call → String
  | ⟨function, arguments, label⟩ =>
    writeObject ([("function", writeText function),
      ("arguments", writeArray (Argument.encodeAll arguments))] ++
      presentMember "alias" writeText label)

def Argument.encode : Argument → String
  | .column c => writeTagged "column" c.encode
  | .call c => writeTagged "computed" (Call.encode c)
  | .wildcard => writeText "wildcard"

def Argument.encodeAll : List Argument → List String
  | [] => []
  | a :: as => Argument.encode a :: Argument.encodeAll as

end

def JoinMethod.encode : JoinMethod → String
  | .inner => writeText "inner"
  | .left => writeText "left"
  | .right => writeText "right"
  | .outer => writeText "outer"
  | .verbatim sql => writeTagged "custom" (writeText sql)

def Join.encode (j : Join) : String :=
  writeObject [("method", j.method.encode), ("local", j.own.encode), ("foreign", j.foreign.encode)]

def Grouping.encode : Grouping → String
  | .column c => writeTagged "column" c.encode
  | .verbatim sql => writeTagged "custom" (writeText sql)

def Direction.encode : Direction → String
  | .ascending => writeText "ascending"
  | .descending => writeText "descending"
  | .verbatim sql => writeTagged "custom" (writeText sql)

def SortKey.encode (k : SortKey) : String :=
  writeObject [("column", k.column.encode), ("direction", k.direction.encode)]

def Comparison.encode : Comparison → String
  | .equal => writeText "equal"
  | .notEqual => writeText "not_equal"
  | .less => writeText "less_than"
  | .greater => writeText "greater_than"
  | .lessOrEqual => writeText "less_than_or_equal"
  | .greaterOrEqual => writeText "greater_than_or_equal"
  | .isIn => writeText "in"
  | .notIn => writeText "not_in"
  | .between => writeText "between"
  | .like => writeText "like"
  | .notLike => writeText "not_like"
  | .isNull => writeText "is_null"
  | .isNotNull => writeText "is_not_null"
  | .bare => writeText "none"
  | .verbatim sql => writeTagged "sql" (writeText sql)

def Connective.encode : Connective → String
  | .and => writeText "and"
  | .or => writeText "or"
  | .verbatim sql => writeTagged "custom" (writeText sql)

mutual

def Operand.encode : Operand → String
  | .placeholders count => writeTagged "placeholders" (encodeWord count)
  | .column c => writeTagged "column" c.encode
  | .subquery q => writeTagged "subquery" (Query.encode q)
  | .verbatim sql => writeTagged "custom" (writeText sql)
  | .absent => writeText "none"

def Predicate.encode : Predicate → String
  | ⟨column, comparison, operand⟩ =>
    writeObject [("column", column.encode), ("comparison", comparison.encode),
      ("value", Operand.encode operand)]

def Junction.encode : Junction → String
  | ⟨connective, members⟩ =>
    writeObject [("relation", connective.encode),
      ("predicates", writeArray (Condition.encodeAll members))]

def Condition.encode : Condition → String
  | .predicate p => writeTagged "predicate" (Predicate.encode p)
  | .junction j => writeTagged "group" (Junction.encode j)

def Condition.encodeAll : List Condition → List String
  | [] => []
  | c :: cs => Condition.encode c :: Condition.encodeAll cs

def Query.encode : Query → String
  | ⟨verb, table, distinct, columns, calls, joins, conditions, groupings, sortKeys, limit,
      offset⟩ =>
    writeObject ([("statement", verb.encode), ("table", writeText table),
      ("distinct", writeFlag distinct), ("columns", writeArray (columns.map Column.encode)),
      ("computed", writeArray (calls.map Call.encode)),
      ("joins", writeArray (joins.map Join.encode)),
      ("predicates", writeArray (Condition.encodeAll conditions)),
      ("group_bys", writeArray (groupings.map Grouping.encode)),
      ("order_bys", writeArray (sortKeys.map SortKey.encode))] ++
      presentMember "limit" encodeWord limit ++ presentMember "offset" encodeWord offset)

end

def Pool.encode (p : Pool) : String :=
  writeObject [("max_connections", p.maxConnections.toNat.repr)]

/-- The document of a value of any type. -/
def Document.encode : (n : Document.Noun) → n.Value → String
  | .verb => Verb.encode
  | .column => Column.encode
  | .call => Call.encode
  | .argument => Argument.encode
  | .join => Join.encode
  | .joinMethod => JoinMethod.encode
  | .grouping => Grouping.encode
  | .sortKey => SortKey.encode
  | .direction => Direction.encode
  | .predicate => Predicate.encode
  | .condition => Condition.encode
  | .junction => Junction.encode
  | .connective => Connective.encode
  | .comparison => Comparison.encode
  | .operand => Operand.encode
  | .query => Query.encode
  | .pool => Pool.encode

end SqlRender
