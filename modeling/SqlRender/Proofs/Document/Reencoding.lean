import SqlRender.Proofs.Document.Roundtrip

/-!
# Encoding what was decoded

A document may leave out what its encoding writes: the encoding of an omitted list is a pair of
brackets with nothing in between. So the encoding of a value can nest deeper than a document of the
value, but never by more than one bracket, and it is read again unless that bracket is the one too
many.
-/
namespace SqlRender

open Document Json

namespace Json

/-- The text opens at most `k` brackets at once, and closes them all. -/
def Within (t : List Char) (k : Nat) : Prop := ∃ l ≤ k, Balanced t l

namespace Within

variable {t : List Char} {k : Nat}

theorem of_balanced (h : Balanced t 0) : Within t k := ⟨0, Nat.zero_le k, h⟩

theorem nesting_le {s : String} (h : Within s.toList k) : nesting s ≤ k := by
  rcases h with ⟨l, hl, hb⟩
  rw [hb.nesting_eq]
  exact hl

theorem text (s : String) : Within (writeText s).toList k :=
  of_balanced (quoted_writeText s).balanced

theorem number (n : Nat) : Within n.repr.toList k := of_balanced (balanced_repr n)

theorem word (n : UInt64) : Within (encodeWord n).toList k := number n.toNat

theorem flag (b : Bool) : Within (writeFlag b).toList k := of_balanced (balanced_flag b)

theorem intercalate {ts : List (List Char)} (h : ∀ t ∈ ts, Within t k) :
    Within ([','].intercalate ts) k := by
  induction ts with
  | nil => exact of_balanced Balanced.nil
  | cons t ts ih =>
    rw [List.forall_mem_cons] at h
    rcases h.1 with ⟨l, hl, ht⟩
    rcases ih h.2 with ⟨m, hm, hts⟩
    by_cases hne : ts = []
    · subst hne
      rw [List.intercalate_singleton]
      exact h.1
    · exact ⟨max l m, max_le hl hm, balanced_intercalate_cons hne ht hts⟩

theorem array {ts : List String} (h : ∀ t ∈ ts, Within t.toList k) :
    Within (writeArray ts).toList (k + 1) := by
  rcases intercalate (List.forall_mem_map.2 h) with ⟨l, hl, hb⟩
  rw [toList_writeArray]
  exact ⟨l + 1, Nat.succ_le_succ hl, hb.brackets (by simp)⟩

theorem object {ms : List (String × String)} (h : ∀ m ∈ ms, Within m.2.toList k) :
    Within (writeObject ms).toList (k + 1) := by
  have hm : ∀ m ∈ ms, Within (memberText m.1 m.2.toList) k := by
    intro m hm
    rcases h m hm with ⟨l, hl, hb⟩
    exact ⟨l, hl, balanced_memberText m.1 hb⟩
  rcases intercalate (List.forall_mem_map.2 hm) with ⟨l, hl, hb⟩
  rw [toList_writeObject]
  exact ⟨l + 1, Nat.succ_le_succ hl, hb.brackets (by simp)⟩

theorem present {α : Type} {key : String} {write : α → String} (h : ∀ a, Within (write a).toList k)
    (o : Option α) : ∀ m ∈ presentMember key write o, Within m.2.toList k := by
  cases o with
  | none => simp [presentMember]
  | some a => simpa [presentMember] using h a

end Within

end Json

namespace Document

/-- The member of a record stands in the document, or the record is as if it had been left out. -/
theorem Record.field {α : Type} {room : Option Grammar} {fields : List (Field α)} {cs : List Char}
    {a : α} (h : Record room fields cs a) :
    ∃ inner, room = some inner ∧ ∀ f ∈ fields, (∃ t, f.given inner t a) ∨ f.omitted a := by
  rcases h with ⟨inner, hroom, ⟨ms, -, hn, -⟩ | ⟨ts, -, hp⟩⟩
  · refine ⟨inner, hroom, fun f hf => ?_⟩
    have hh := hn f hf
    unfold Field.Holds at hh
    split at hh
    · exact .inr hh
    · exact .inl ⟨_, hh⟩
    · cases hh
  · refine ⟨inner, hroom, ?_⟩
    clear hroom
    induction fields generalizing ts with
    | nil => simp
    | cons f fs ih =>
      rw [List.forall_mem_cons]
      cases ts with
      | nil => exact ⟨.inr hp.1, ih [] hp.2⟩
      | cons t ts => exact ⟨.inl ⟨t, hp.1⟩, ih ts hp.2⟩

/-- The encodings of the values in the grammar, and of lists of them, open at most `k` brackets. -/
structure Bounds (g : Grammar) (k : Nat) : Prop where
  noun : ∀ {n : Noun} {cs : List Char} {v : n.Value}, g (.noun n) cs v →
    Within (Document.encode n v).toList k
  list : ∀ {n : Noun} {cs : List Char} {vs : List n.Value}, g (.list (.noun n)) cs vs →
    Within (writeArray (vs.map (Document.encode n))).toList k

section Fields

variable {α : Type} {inner : Grammar} {k : Nat} {key : String} {a : α}

theorem Bounds.required (hb : Bounds inner k) (n : Noun) (get : α → n.Value)
    (h : (∃ t, (Field.required key (.noun n) get).given inner t a) ∨
      (Field.required key (.noun n) get).omitted a) :
    Within (Document.encode n (get a)).toList k := by
  rcases h with ⟨_, _, _, _, _, ht, _⟩ | h
  · exact hb.noun ht
  · cases h

theorem Bounds.members (hb : Bounds inner k) (n : Noun) (get : α → List n.Value)
    (h : (∃ t, (Field.required key (.list (.noun n)) get).given inner t a) ∨
      (Field.required key (.list (.noun n)) get).omitted a) :
    Within (writeArray ((get a).map (Document.encode n))).toList k := by
  rcases h with ⟨_, _, _, _, _, ht, _⟩ | h
  · exact hb.list ht
  · cases h

/-- A list that is left out is written as a pair of brackets. -/
theorem Bounds.entries (hb : Bounds inner k) (hk : 0 < k) (n : Noun) (get : α → List n.Value)
    (h : (∃ t, (Field.list key n get).given inner t a) ∨ (Field.list key n get).omitted a) :
    Within (writeArray ((get a).map (Document.encode n))).toList k := by
  rcases h with ⟨_, _, _, _, _, ht, _⟩ | h
  · exact hb.list ht
  · have he : get a = [] := h
    rw [he]
    cases k with
    | zero => cases hk
    | succ k => exact Within.array (by simp)

theorem Bounds.direction (hb : Bounds inner k) (get : α → Direction)
    (h : (∃ t, (Field.defaulted key (.noun .direction) .ascending get).given inner t a) ∨
      (Field.defaulted key (.noun .direction) .ascending get).omitted a) :
    Within (get a).encode.toList k := by
  rcases h with ⟨_, _, _, _, _, ht, _⟩ | h
  · exact hb.noun (n := .direction) ht
  · have he : get a = .ascending := h
    rw [he]
    exact Within.text _

end Fields

theorem encodeAll_arguments (as : List Argument) :
    Argument.encodeAll as = as.map (Document.encode .argument) := by
  induction as with
  | nil => rfl
  | cons a as ih =>
    rw [Argument.encodeAll, ih]
    rfl

theorem encodeAll_conditions (cs : List Condition) :
    Condition.encodeAll cs = cs.map (Document.encode .condition) := by
  induction cs with
  | nil => rfl
  | cons c cs ih =>
    rw [Condition.encodeAll, ih]
    rfl

/-- An alternative that carries a text. -/
theorem within_verbatim (name sql : String) {k : Nat} :
    Within (writeTagged name (writeText sql)).toList (k + 1) :=
  Within.object (by simpa using Within.text sql)

section Step

variable {room : Option Grammar} {k : Nat} (hroom : ∀ inner ∈ room, 0 < k ∧ Bounds inner k)
  {cs : List Char}

include hroom

theorem within_tagged (name : String) {n : Noun} {v : n.Value}
    (h : Tagged room name (.noun n) cs v) :
    Within (writeTagged name (Document.encode n v)).toList (k + 1) := by
  rcases h with ⟨inner, t, hi, -, _, _, _, _, ht, -⟩
  have hb := (hroom inner hi).2
  exact Within.object (by simpa using hb.noun ht)

theorem within_call {c : Call} (h : Noun.Phrase room .call cs c) :
    Within c.encode.toList (k + 1) := by
  rcases c with ⟨function, arguments, label⟩
  rcases h.field with ⟨inner, hi, hf⟩
  rcases hroom inner hi with ⟨hk, hb⟩
  simp only [List.forall_mem_cons] at hf
  have harguments := hb.entries hk .argument Call.arguments hf.2.1
  rw [Call.encode, encodeAll_arguments]
  apply Within.object
  simp only [List.forall_mem_append, List.forall_mem_cons, List.not_mem_nil, false_implies,
    implies_true, and_true]
  exact ⟨⟨Within.text function, harguments⟩, Within.present Within.text label⟩

theorem within_join {j : Join} (h : Noun.Phrase room .join cs j) :
    Within j.encode.toList (k + 1) := by
  rcases h.field with ⟨inner, hi, hf⟩
  have hb := (hroom inner hi).2
  simp only [List.forall_mem_cons] at hf
  have hmethod := hb.required .joinMethod Join.method hf.1
  have hown := hb.required .column Join.own hf.2.1
  have hforeign := hb.required .column Join.foreign hf.2.2.1
  apply Within.object
  simp only [List.forall_mem_cons, List.not_mem_nil, false_implies, implies_true, and_true]
  exact ⟨hmethod, hown, hforeign⟩

theorem within_sortKey {s : SortKey} (h : Noun.Phrase room .sortKey cs s) :
    Within s.encode.toList (k + 1) := by
  rcases h.field with ⟨inner, hi, hf⟩
  have hb := (hroom inner hi).2
  simp only [List.forall_mem_cons] at hf
  have hcolumn := hb.required .column SortKey.column hf.1
  have hdirection := hb.direction SortKey.direction hf.2.1
  apply Within.object
  simp only [List.forall_mem_cons, List.not_mem_nil, false_implies, implies_true, and_true]
  exact ⟨hcolumn, hdirection⟩

theorem within_predicate {p : Predicate} (h : Noun.Phrase room .predicate cs p) :
    Within p.encode.toList (k + 1) := by
  rcases p with ⟨column, comparison, operand⟩
  rcases h.field with ⟨inner, hi, hf⟩
  have hb := (hroom inner hi).2
  simp only [List.forall_mem_cons] at hf
  have hcolumn := hb.required .column Predicate.column hf.1
  have hcomparison := hb.required .comparison Predicate.comparison hf.2.1
  have hoperand := hb.required .operand Predicate.operand hf.2.2.1
  rw [Predicate.encode]
  apply Within.object
  simp only [List.forall_mem_cons, List.not_mem_nil, false_implies, implies_true, and_true]
  exact ⟨hcolumn, hcomparison, hoperand⟩

theorem within_junction {j : Junction} (h : Noun.Phrase room .junction cs j) :
    Within j.encode.toList (k + 1) := by
  rcases j with ⟨connective, members⟩
  rcases h.field with ⟨inner, hi, hf⟩
  have hb := (hroom inner hi).2
  simp only [List.forall_mem_cons] at hf
  have hconnective := hb.required .connective Junction.connective hf.1
  have hmembers := hb.members .condition Junction.members hf.2.1
  rw [Junction.encode, encodeAll_conditions]
  apply Within.object
  simp only [List.forall_mem_cons, List.not_mem_nil, false_implies, implies_true, and_true]
  exact ⟨hconnective, hmembers⟩

theorem within_query {q : Query} (h : Noun.Phrase room .query cs q) :
    Within q.encode.toList (k + 1) := by
  rcases q with ⟨verb, table, distinct, columns, calls, joins, conditions, groupings, sortKeys,
    limit, offset⟩
  rcases h.field with ⟨inner, hi, hf⟩
  rcases hroom inner hi with ⟨hk, hb⟩
  simp only [List.forall_mem_cons] at hf
  rcases hf with ⟨hverb, -, -, hcolumns, hcalls, hjoins, hconditions, hgroupings, hsortKeys, -⟩
  have hverb := hb.required .verb Query.verb hverb
  have hcolumns := hb.entries hk .column Query.columns hcolumns
  have hcalls := hb.entries hk .call Query.calls hcalls
  have hjoins := hb.entries hk .join Query.joins hjoins
  have hconditions := hb.entries hk .condition Query.conditions hconditions
  have hgroupings := hb.entries hk .grouping Query.groupings hgroupings
  have hsortKeys := hb.entries hk .sortKey Query.sortKeys hsortKeys
  rw [Query.encode, encodeAll_conditions]
  apply Within.object
  simp only [List.forall_mem_append, List.forall_mem_cons, List.not_mem_nil, false_implies,
    implies_true, and_true]
  exact ⟨⟨⟨hverb, Within.text table, Within.flag distinct, hcolumns, hcalls, hjoins, hconditions,
    hgroupings, hsortKeys⟩, Within.present Within.word limit⟩, Within.present Within.word offset⟩

theorem within_noun {n : Noun} {v : n.Value} (h : n.Phrase room cs v) :
    Within (Document.encode n v).toList (k + 1) := by
  cases n with
  | call => exact within_call hroom h
  | join => exact within_join hroom h
  | sortKey => exact within_sortKey hroom h
  | predicate => exact within_predicate hroom h
  | junction => exact within_junction hroom h
  | query => exact within_query hroom h
  | column =>
    apply Within.object
    rw [List.forall_mem_append]
    exact ⟨Within.present Within.text _, by simpa using Within.text _⟩
  | pool => exact Within.object (by simpa using Within.number _)
  | argument =>
    cases v with
    | column c => exact within_tagged hroom "column" (n := .column) h
    | call c =>
      rw [Document.encode, Argument.encode]
      exact within_tagged hroom "computed" (n := .call) h
    | wildcard => exact Within.text _
  | grouping =>
    cases v with
    | column c => exact within_tagged hroom "column" (n := .column) h
    | verbatim sql => exact within_verbatim "custom" sql
  | condition =>
    cases v with
    | predicate p =>
      rw [Document.encode, Condition.encode]
      exact within_tagged hroom "predicate" (n := .predicate) h
    | junction j =>
      rw [Document.encode, Condition.encode]
      exact within_tagged hroom "group" (n := .junction) h
  | operand =>
    cases v with
    | placeholders count =>
      rw [Document.encode, Operand.encode]
      exact Within.object (by simpa using Within.word count)
    | column c =>
      rw [Document.encode, Operand.encode]
      exact within_tagged hroom "column" (n := .column) h
    | subquery q =>
      rw [Document.encode, Operand.encode]
      exact within_tagged hroom "subquery" (n := .query) h
    | verbatim sql =>
      rw [Document.encode, Operand.encode]
      exact within_verbatim "custom" sql
    | absent => exact Within.text _
  | verb => cases v <;> exact Within.text _
  | joinMethod | direction | connective | comparison =>
    cases v with
    | verbatim sql => exact within_verbatim _ sql
    | _ => exact Within.text _

/-- One bracket more may be open around what the grammar has between brackets. -/
theorem bounds_phrase : Bounds (Shape.Phrase room) (k + 1) where
  noun h := within_noun hroom h
  list h := by
    rcases h with ⟨inner, ts, hi, -, hts⟩
    have hb := (hroom inner hi).2
    apply Within.array
    rw [List.forall_mem_map]
    clear hi
    induction hts with
    | nil => simp
    | cons ht _ ih =>
      rcases ht with ⟨_, _, _, _, hv, _⟩
      rw [List.forall_mem_cons]
      exact ⟨hb.noun hv, ih⟩

end Step

theorem bounds_grammar (depth : Nat) : Bounds (grammar depth) (depth + 1) := by
  induction depth with
  | zero => exact @bounds_phrase none 0 (by simp)
  | succ depth ih =>
    apply bounds_phrase
    intro inner hi
    cases hi
    exact ⟨Nat.succ_pos depth, ih⟩

theorem nesting_encode_le {n : Noun} {v : n.Value} {k : Nat} {cs : List Char}
    (h : Spaced (grammar k (.noun n) · v) cs) : nesting (Document.encode n v) ≤ k + 1 := by
  rcases h with ⟨_, _, _, _, hv, _⟩
  exact ((bounds_grammar k).noun hv).nesting_le

/-- What the decoder accepts is a phrase of the grammar. -/
theorem spaced_of_decode {n : Noun} {s : String} {v : n.Value} (h : decode n s = .ok v) :
    Spaced (grammar maxDepth (.noun n) · v) s.toList :=
  readDocument_eq_ok.1 (decodeBy_eq_ok.1 h)

end Document

def Call.chain : Nat → Call
  | 0 => ⟨"F", [], none⟩
  | n + 1 => ⟨"F", [.call (chain n)], none⟩

/-- A document of the chain of calls that leaves out the innermost arguments. -/
def Call.chainDocument : Nat → String
  | 0 => writeObject [("function", writeText "F")]
  | n + 1 => writeObject [("function", writeText "F"),
      ("arguments", writeArray [writeTagged "computed" (chainDocument n)])]

namespace Call

theorem undoes_chainDocument (n : Nat) :
    Undoes (.noun .call) (chainDocument n).toList (chain n) := by
  have hf : Undoes .text (writeText "F").toList "F" := undoes_text "F"
  induction n with
  | zero =>
    have h := Writes.required "function" hf (.omitted (m := .list "arguments" .argument) rfl
      (.omitted (m := .optional "alias" .text) rfl .nil))
    exact undoes_record (n := .call) rfl (by decide) h
  | succ n ih =>
    have ha : Undoes (.noun .argument) (writeTagged "computed" (chainDocument n)).toList
        (.call (chain n)) := undoes_tagged rfl (by decide) (by simp) ih
    have h := Writes.required "function" hf (.defaulted "arguments" []
      (undoes_array (.cons ha .nil)) (.omitted (m := .optional "alias" .text) rfl .nil))
    exact undoes_record (n := .call) rfl (by decide) h

/-- The brackets of the arguments and those of the call. -/
theorem balanced_arguments {ts : List String} {k : Nat}
    (h : Balanced ([','].intercalate (ts.map String.toList)) k) :
    Balanced (writeObject [("function", writeText "F"), ("arguments", writeArray ts)]).toList
      (k + 2) := by
  have hf := balanced_memberText "function" (quoted_writeText "F").balanced
  have ha : Balanced (writeArray ts).toList (k + 1) := by
    rw [toList_writeArray]
    exact h.brackets (by simp)
  have hs : Balanced ([','].intercalate [memberText "arguments" (writeArray ts).toList])
      (k + 1) := by
    simpa using balanced_memberText "arguments" ha
  have hm := balanced_intercalate_cons (by simp) hf hs
  rw [Nat.zero_max] at hm
  rw [toList_writeObject]
  exact hm.brackets (by simp)

theorem balanced_computed {t : String} {k : Nat} (h : Balanced t.toList k) :
    Balanced ([','].intercalate ([writeTagged "computed" t].map String.toList)) (k + 1) := by
  have hm := balanced_memberText "computed" h
  rw [List.map_singleton, List.intercalate_singleton, writeTagged, toList_writeObject,
    List.map_singleton, List.intercalate_singleton]
  exact hm.brackets (by simp)

theorem balanced_chainDocument (n : Nat) : Balanced (chainDocument n).toList (3 * n + 1) := by
  induction n with
  | zero =>
    have hf := balanced_memberText "function" (quoted_writeText "F").balanced
    rw [chainDocument, toList_writeObject, List.map_singleton, List.intercalate_singleton]
    exact hf.brackets (by simp)
  | succ n ih => exact balanced_arguments (balanced_computed ih)

theorem balanced_encode_chain (n : Nat) : Balanced (chain n).encode.toList (3 * n + 2) := by
  induction n with
  | zero =>
    have hn : Balanced ([','].intercalate (([] : List String).map String.toList)) 0 := Balanced.nil
    exact balanced_arguments hn
  | succ n ih => exact balanced_arguments (balanced_computed ih)

theorem decode_chainDocument {n : Nat} (hn : 3 * n + 1 ≤ 127) :
    decode .call (chainDocument n) = .ok (chain n) := by
  rw [(undoes_chainDocument n).decode_eq, (balanced_chainDocument n).nesting_eq, if_pos hn]

theorem nesting_encode_chain (n : Nat) :
    nesting (Document.encode .call (chain n)) = 3 * n + 2 := (balanced_encode_chain n).nesting_eq

end Call

/-- What was decoded can be encoded and decoded again, except at the very limit of the nesting. The
encoding of a decoded value is decoded to the same value, whose encoding is the same text, if at
most 127 of its brackets are open at once; otherwise it is malformed. An encoding opens at most one
bracket more than any document of the value does, ignored members apart: so it opens at most 128,
and it is decoded again whenever the document stays within 126. -/
theorem Document.decode_reencoded {n : Noun} {s : String} {v : n.Value} (h : decode n s = .ok v) :
    (decode n (Document.encode n v) =
      if nesting (Document.encode n v) ≤ 127 then .ok v else .error .malformed) ∧
    (∀ w, decode n (Document.encode n v) = .ok w →
      w = v ∧ Document.encode n w = Document.encode n v) ∧
    nesting (Document.encode n v) ≤ 128 ∧
    ∀ k, Spaced (grammar k (.noun n) · v) s.toList → nesting (Document.encode n v) ≤ k + 1 := by
  have hdecode := (Document.undoes n v).decode_eq
  have hagain : ∀ w, decode n (Document.encode n v) = .ok w →
      w = v ∧ Document.encode n w = Document.encode n v := by
    intro w hw
    rw [hdecode] at hw
    split at hw
    · cases hw
      exact ⟨rfl, rfl⟩
    · cases hw
  exact ⟨hdecode, hagain, nesting_encode_le (spaced_of_decode h), fun _ => nesting_encode_le⟩

/-- Inside 41 calls the pair of brackets that the document leaves out still fits. -/
theorem Call.decode_reencoded_chain : decode .call (Call.chainDocument 41) = .ok (Call.chain 41) ∧
    decode .call (Document.encode .call (Call.chain 41)) = .ok (Call.chain 41) := by
  have h : decode .call (Call.chainDocument 41) = .ok (Call.chain 41) :=
    Call.decode_chainDocument (by decide)
  have hagain := (Document.decode_reencoded h).1
  rw [Call.nesting_encode_chain, if_pos (by decide)] at hagain
  exact ⟨h, hagain⟩

/-- Inside 42 calls it does not: the document opens 127 brackets, and the pair that it leaves out is
the 128th of the encoding. -/
theorem Call.chain_not_reencoded : decode .call (Call.chainDocument 42) = .ok (Call.chain 42) ∧
    decode .call (Document.encode .call (Call.chain 42)) = .error .malformed := by
  have hn : ¬nesting (Document.encode .call (Call.chain 42)) ≤ 127 := by
    rw [Call.nesting_encode_chain]
    decide
  have hagain := (Document.undoes .call (Call.chain 42)).decode_eq
  rw [if_neg hn] at hagain
  exact ⟨Call.decode_chainDocument (by decide), hagain⟩

end SqlRender
