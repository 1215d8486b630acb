import SqlRender.Document.Shape

/-!
# Layouts

The layout of every type of a document: the names of its members and alternatives, their order, and
the members that may be left out.
-/
namespace SqlRender.Document

namespace Member

def required (key : String) (shape : Shape) : Member := ⟨key, shape, none⟩

def optional (key : String) (shape : Shape) : Member := ⟨key, .optional shape, some none⟩

def list (key : String) (noun : Noun) : Member := ⟨key, .list (.noun noun), some []⟩

end Member

def Noun.layout : (n : Noun) → Layout n.Value
  | .verb => .choice
      [.plain "select" .select, .plain "insert" .insert, .plain "update" .update,
        .plain "delete" .delete]
  | .column => .record "Column" [.optional "table" .text, .required "name" .text]
      fun (table, name, ()) => ⟨table, name⟩
  | .call => .record "ComputedColumn"
      [.required "function" .text, .list "arguments" .argument, .optional "alias" .text]
      fun (function, arguments, label, ()) => ⟨function, arguments, label⟩
  | .argument => .choice
      [.carrying "column" (.noun .column) .column, .carrying "computed" (.noun .call) .call,
        .plain "wildcard" .wildcard]
  | .join => .record "Join"
      [.required "method" (.noun .joinMethod), .required "local" (.noun .column),
        .required "foreign" (.noun .column)]
      fun (m, own, foreign, ()) => ⟨m, own, foreign⟩
  | .joinMethod => .choice
      [.plain "inner" .inner, .plain "left" .left, .plain "right" .right, .plain "outer" .outer,
        .carrying "custom" .text .verbatim]
  | .grouping => .choice
      [.carrying "column" (.noun .column) .column, .carrying "custom" .text .verbatim]
  | .sortKey => .record "OrderBy"
      [.required "column" (.noun .column), ⟨"direction", .noun .direction, some .ascending⟩]
      fun (c, d, ()) => ⟨c, d⟩
  | .direction => .choice
      [.plain "ascending" .ascending, .plain "descending" .descending,
        .carrying "custom" .text .verbatim]
  | .predicate => .record "Predicate"
      [.required "column" (.noun .column), .required "comparison" (.noun .comparison),
        .required "value" (.noun .operand)]
      fun (c, o, v, ()) => ⟨c, o, v⟩
  | .condition => .choice
      [.carrying "predicate" (.noun .predicate) .predicate,
        .carrying "group" (.noun .junction) .junction]
  | .junction => .record "PredicateGroup"
      [.required "relation" (.noun .connective), .required "predicates" (.list (.noun .condition))]
      fun (k, members, ()) => ⟨k, members⟩
  | .connective => .choice
      [.plain "and" .and, .plain "or" .or, .carrying "custom" .text .verbatim]
  | .comparison => .choice
      [.plain "equal" .equal, .plain "not_equal" .notEqual, .plain "less_than" .less,
        .plain "greater_than" .greater, .plain "less_than_or_equal" .lessOrEqual,
        .plain "greater_than_or_equal" .greaterOrEqual, .plain "in" .isIn, .plain "not_in" .notIn,
        .plain "between" .between, .plain "like" .like, .plain "not_like" .notLike,
        .plain "is_null" .isNull, .plain "is_not_null" .isNotNull, .plain "none" .bare,
        .carrying "sql" .text .verbatim]
  | .operand => .choice
      [.carrying "placeholders" .size .placeholders, .carrying "column" (.noun .column) .column,
        .carrying "subquery" (.noun .query) .subquery, .carrying "custom" .text .verbatim,
        .plain "none" .absent]
  | .query => .record "DataQuery"
      [.required "statement" (.noun .verb), .required "table" .text,
        ⟨"distinct", .flag, some false⟩, .list "columns" .column, .list "computed" .call,
        .list "joins" .join, .list "predicates" .condition, .list "group_bys" .grouping,
        .list "order_bys" .sortKey, .optional "limit" .count, .optional "offset" .count]
      fun (v, table, distinct, columns, calls, joins, conditions, groupings, sortKeys, limit,
          offset, ()) =>
        ⟨v, table, distinct, columns, calls, joins, conditions, groupings, sortKeys, limit, offset⟩
  | .pool => .record "PoolConfig" [⟨"max_connections", .small, some ({} : Pool).maxConnections⟩]
      fun (n, ()) => ⟨n⟩

end SqlRender.Document
