import SqlRender.Command.Render
import SqlRender.Proofs.Document.Undoing

/-!
# Decoding undoes encoding

The document of every value is read as the value again, if its brackets do not nest too deep. The
proofs go over the types of documents as the encoder does: each record member by member, and each
choice by its alternatives.
-/
namespace SqlRender

open Document Json

theorem Verb.undoes (v : Verb) : Undoes (.noun .verb) v.encode.toList v := by
  cases v <;> exact undoes_name _ fun _ _ h => h

theorem Column.undoes (c : Column) : Undoes (.noun .column) c.encode.toList c := by
  have h := Writes.optional (s := .text) "table" c.table undoes_presentText
    (.required "name" (undoes_text c.name) .nil)
  exact undoes_record (n := .column) rfl (by decide) h

mutual

theorem Call.undoes : ∀ c : Call, Undoes (.noun .call) c.encode.toList c
  | ⟨function, arguments, label⟩ => by
    have h := Writes.required "function" (undoes_text function)
      (.defaulted "arguments" [] (undoes_array (Argument.undoesAll arguments))
        (.optional (s := .text) "alias" label undoes_presentText .nil))
    rw [List.append_nil] at h
    rw [Call.encode]
    exact undoes_record (n := .call) rfl (by decide) h

theorem Argument.undoes : ∀ a : Argument, Undoes (.noun .argument) a.encode.toList a
  | .column c => undoes_tagged rfl (by decide) (by simp) c.undoes
  | .call c => undoes_tagged rfl (by decide) (by simp) (Call.undoes c)
  | .wildcard => undoes_name _ fun _ _ h => h

theorem Argument.undoesAll : ∀ as : List Argument,
    List.Forall₂ (fun t a => Undoes (.noun .argument) t.toList a) (Argument.encodeAll as) as
  | [] => .nil
  | a :: as => .cons (Argument.undoes a) (Argument.undoesAll as)

end

theorem JoinMethod.undoes (m : JoinMethod) : Undoes (.noun .joinMethod) m.encode.toList m := by
  cases m with
  | verbatim sql => exact undoes_tagged rfl (by decide) (by simp) (undoes_text sql)
  | _ => exact undoes_name _ fun _ _ h => h

theorem Join.undoes (j : Join) : Undoes (.noun .join) j.encode.toList j := by
  have h := Writes.required "method" j.method.undoes
    (.required "local" j.own.undoes (.required "foreign" j.foreign.undoes .nil))
  exact undoes_record (n := .join) rfl (by decide) h

theorem Grouping.undoes (g : Grouping) : Undoes (.noun .grouping) g.encode.toList g := by
  cases g with
  | column c => exact undoes_tagged rfl (by decide) (by simp) c.undoes
  | verbatim sql => exact undoes_tagged rfl (by decide) (by simp) (undoes_text sql)

theorem Direction.undoes (d : Direction) : Undoes (.noun .direction) d.encode.toList d := by
  cases d with
  | verbatim sql => exact undoes_tagged rfl (by decide) (by simp) (undoes_text sql)
  | _ => exact undoes_name _ fun _ _ h => h

theorem SortKey.undoes (k : SortKey) : Undoes (.noun .sortKey) k.encode.toList k := by
  have h := Writes.required "column" k.column.undoes
    (.defaulted "direction" Direction.ascending k.direction.undoes .nil)
  exact undoes_record (n := .sortKey) rfl (by decide) h

theorem Comparison.undoes (c : Comparison) : Undoes (.noun .comparison) c.encode.toList c := by
  cases c with
  | verbatim sql => exact undoes_tagged rfl (by decide) (by simp) (undoes_text sql)
  | _ => exact undoes_name _ fun _ _ h => h

theorem Connective.undoes (k : Connective) : Undoes (.noun .connective) k.encode.toList k := by
  cases k with
  | verbatim sql => exact undoes_tagged rfl (by decide) (by simp) (undoes_text sql)
  | _ => exact undoes_name _ fun _ _ h => h

mutual

theorem Operand.undoes : ∀ o : Operand, Undoes (.noun .operand) o.encode.toList o
  | .placeholders count => undoes_tagged rfl (by decide) (by simp) (undoes_size count)
  | .column c => undoes_tagged rfl (by decide) (by simp) c.undoes
  | .subquery q => undoes_tagged rfl (by decide) (by simp) (Query.undoes q)
  | .verbatim sql => undoes_tagged rfl (by decide) (by simp) (undoes_text sql)
  | .absent => undoes_name _ fun _ _ h => h

theorem Predicate.undoes : ∀ p : Predicate, Undoes (.noun .predicate) p.encode.toList p
  | ⟨column, comparison, operand⟩ => by
    have h := Writes.required "column" column.undoes
      (.required "comparison" comparison.undoes (.required "value" (Operand.undoes operand) .nil))
    rw [Predicate.encode]
    exact undoes_record (n := .predicate) rfl (by decide) h

theorem Junction.undoes : ∀ j : Junction, Undoes (.noun .junction) j.encode.toList j
  | ⟨connective, members⟩ => by
    have h := Writes.required "relation" connective.undoes
      (.required "predicates" (undoes_array (Condition.undoesAll members)) .nil)
    rw [Junction.encode]
    exact undoes_record (n := .junction) rfl (by decide) h

theorem Condition.undoes : ∀ c : Condition, Undoes (.noun .condition) c.encode.toList c
  | .predicate p => undoes_tagged rfl (by decide) (by simp) (Predicate.undoes p)
  | .junction j => undoes_tagged rfl (by decide) (by simp) (Junction.undoes j)

theorem Condition.undoesAll : ∀ cs : List Condition,
    List.Forall₂ (fun t c => Undoes (.noun .condition) t.toList c) (Condition.encodeAll cs) cs
  | [] => .nil
  | c :: cs => .cons (Condition.undoes c) (Condition.undoesAll cs)

theorem Query.undoes : ∀ q : Query, Undoes (.noun .query) q.encode.toList q
  | ⟨verb, table, distinct, columns, calls, joins, conditions, groupings, sortKeys, limit,
      offset⟩ => by
    have h := Writes.required "statement" verb.undoes (.required "table" (undoes_text table)
      (.defaulted "distinct" false (undoes_flag distinct)
      (.defaulted "columns" [] (undoes_entries .column Column.undoes columns)
      (.defaulted "computed" [] (undoes_entries .call Call.undoes calls)
      (.defaulted "joins" [] (undoes_entries .join Join.undoes joins)
      (.defaulted "predicates" [] (undoes_array (Condition.undoesAll conditions))
      (.defaulted "group_bys" [] (undoes_entries .grouping Grouping.undoes groupings)
      (.defaulted "order_bys" [] (undoes_entries .sortKey SortKey.undoes sortKeys)
      (.optional (s := .count) "limit" limit undoes_presentWord
      (.optional (s := .count) "offset" offset undoes_presentWord .nil))))))))))
    rw [List.append_nil] at h
    rw [Query.encode, List.append_assoc]
    exact undoes_record (n := .query) rfl (by decide) h

end

theorem Pool.undoes (p : Pool) : Undoes (.noun .pool) p.encode.toList p := by
  have h := Writes.defaulted "max_connections" ({} : Pool).maxConnections
    (undoes_halfWord p.maxConnections) .nil
  exact undoes_record (n := .pool) rfl (by decide) h

/-- The document of every value is read as the value again, of whatever type it is. -/
theorem Document.undoes (n : Noun) (v : n.Value) :
    Undoes (.noun n) (Document.encode n v).toList v :=
  match n with
  | .verb => Verb.undoes v
  | .column => Column.undoes v
  | .call => Call.undoes v
  | .argument => Argument.undoes v
  | .join => Join.undoes v
  | .joinMethod => JoinMethod.undoes v
  | .grouping => Grouping.undoes v
  | .sortKey => SortKey.undoes v
  | .direction => Direction.undoes v
  | .predicate => Predicate.undoes v
  | .condition => Condition.undoes v
  | .junction => Junction.undoes v
  | .connective => Connective.undoes v
  | .comparison => Comparison.undoes v
  | .operand => Operand.undoes v
  | .query => Query.undoes v
  | .pool => Pool.undoes v

theorem Document.Undoes.decode_eq {n : Noun} {s : String} {v : n.Value}
    (h : Undoes (.noun n) s.toList v) :
    decode n s = if nesting s ≤ 127 then .ok v else .error .malformed := by
  obtain ⟨k, h⟩ := h
  have hrun := h.run maxDepth stops_nil
  rw [List.append_nil] at hrun
  rw [h.balanced.nesting_eq, decode, decodeBy, readDocument]
  by_cases hk : k ≤ 127
  · rw [outcome, if_pos (show k ≤ maxDepth from hk)] at hrun
    rw [Reader.run_bind_ok hrun, if_pos hk]
    rfl
  · rw [outcome, if_neg (show ¬k ≤ maxDepth from hk)] at hrun
    rw [Reader.run_bind_error hrun, if_neg hk]

/-- Decoding undoes encoding. The document of a value of any type is decoded to just that value if
at most 127 of its brackets are open at once, and it is malformed otherwise; and so the document of
a query within that nesting is rendered as the query is, in each shipped dialect: the same text and
binds, or the same defect. -/
theorem Document.decode_encode :
    (∀ (n : Noun) (v : n.Value), decode n (Document.encode n v) =
      if nesting (Document.encode n v) ≤ 127 then .ok v else .error .malformed) ∧
    ∀ (s : Shipped) (q : Query), Command.render s q.encode =
      if nesting q.encode ≤ 127 then (q.render s.dialect).mapError .query
      else .error (.document .malformed) := by
  refine ⟨fun n v => (Document.undoes n v).decode_eq, fun s q => ?_⟩
  rw [Command.render, Command.decodeQuery, q.undoes.decode_eq]
  split <;> rfl

end SqlRender
