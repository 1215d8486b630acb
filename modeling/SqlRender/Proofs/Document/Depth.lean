import SqlRender.Proofs.Document.Reencoding
import SqlRender.Proofs.Renumbering

/-!
# How deep a decoded query can be

The writer follows subqueries, junctions and calls as deep as they nest. In a document each of them
stands between brackets of its own: five for a subquery, three for a junction and three for a call,
however the records are written. Since at most 127 brackets may be open at once, no path through a
decoded query is long.
-/
namespace SqlRender

open Document Json

/-- The part of the query at the end of a path with `s` steps into a subquery and `g` steps into a
junction. -/
inductive Query.Reaches (root : Query) : Nat → Nat → Node → Prop
  | root : Reaches root 0 0 (.query root)
  | condition {s g : Nat} {q : Query} {c : Condition} (h : Reaches root s g (.query q))
      (hc : c ∈ q.conditions) : Reaches root s g (.condition c)
  | predicate {s g : Nat} {p : Predicate} (h : Reaches root s g (.condition (.predicate p))) :
      Reaches root s g (.predicate p)
  | junction {s g : Nat} {j : Junction} (h : Reaches root s g (.condition (.junction j))) :
      Reaches root s (g + 1) (.junction j)
  | member {s g : Nat} {j : Junction} {c : Condition} (h : Reaches root s g (.junction j))
      (hc : c ∈ j.members) : Reaches root s g (.condition c)
  | subquery {s g : Nat} {p : Predicate} {q : Query} (h : Reaches root s g (.predicate p))
      (hq : p.operand = .subquery q) : Reaches root (s + 1) g (.query q)

/-- The call stands inside the outer one, with `n` calls around it. -/
inductive Call.Encloses (outer : Call) : Nat → Call → Prop
  | self : Encloses outer 0 outer
  | argument {n : Nat} {c d : Call} (h : Encloses outer n c) (hd : .call d ∈ c.arguments) :
      Encloses outer (n + 1) d

namespace Document

/-- The grammar of what stands between brackets where `k` more may be open. -/
def grammarWithin : Nat → Option Grammar
  | 0 => none
  | k + 1 => some (grammar k)

theorem grammar_eq_phrase (k : Nat) : grammar k = Shape.Phrase (grammarWithin k) := by
  cases k <;> rfl

theorem grammarWithin_eq_some {k : Nat} {inner : Grammar} (h : grammarWithin k = some inner) :
    ∃ j, k = j + 1 ∧ inner = grammar j := by
  cases k with
  | zero => cases h
  | succ j => exact ⟨j, rfl, (Option.some.inj h).symm⟩

/-- The value has a phrase with at most `k` open brackets. -/
def Fits (k : Nat) (n : Noun) (v : n.Value) : Prop := ∃ cs, n.Phrase (grammarWithin k) cs v

theorem fits_of_grammar {k : Nat} {n : Noun} {v : n.Value} {cs : List Char}
    (h : grammar k (.noun n) cs v) : Fits k n v := by
  rw [grammar_eq_phrase] at h
  exact ⟨cs, h⟩

section Phrases

variable {k : Nat} {cs : List Char} {α : Type} {a : α} {key : String}

/-- An alternative with a content takes one bracket. -/
theorem fits_of_tagged {name : String} {n : Noun} {v : n.Value}
    (h : Tagged (grammarWithin k) name (.noun n) cs v) : ∃ j, k = j + 1 ∧ Fits j n v := by
  rcases h with ⟨inner, _, hi, -, _, _, _, _, hv, -⟩
  rcases grammarWithin_eq_some hi with ⟨j, hj, rfl⟩
  exact ⟨j, hj, fits_of_grammar hv⟩

/-- A list takes one bracket. -/
theorem fits_of_mem {n : Noun} {vs : List n.Value} (h : grammar k (.list (.noun n)) cs vs) :
    ∃ j, k = j + 1 ∧ ∀ v ∈ vs, Fits j n v := by
  rw [grammar_eq_phrase] at h
  rcases h with ⟨inner, ts, hi, -, hts⟩
  rcases grammarWithin_eq_some hi with ⟨j, hj, rfl⟩
  refine ⟨j, hj, ?_⟩
  clear hi
  induction hts with
  | nil => simp
  | cons ht _ ih =>
    rcases ht with ⟨_, _, _, _, hv, _⟩
    rw [List.forall_mem_cons]
    exact ⟨fits_of_grammar hv, ih⟩

/-- A record takes one bracket. -/
theorem fields_of_record {fields : List (Field α)} (h : Record (grammarWithin k) fields cs a) :
    ∃ j, k = j + 1 ∧ ∀ f ∈ fields, (∃ t, f.given (grammar j) t a) ∨ f.omitted a := by
  rcases h.field with ⟨inner, hi, hf⟩
  rcases grammarWithin_eq_some hi with ⟨j, hj, rfl⟩
  exact ⟨j, hj, hf⟩

theorem fits_required {n : Noun} {get : α → n.Value}
    (h : (∃ t, (Field.required key (.noun n) get).given (grammar k) t a) ∨
      (Field.required key (.noun n) get).omitted a) : Fits k n (get a) := by
  rcases h with ⟨_, _, _, _, _, hv, _⟩ | h
  · exact fits_of_grammar hv
  · cases h

/-- The members of a list that may be left out; if it is, there are none. -/
theorem fits_entry {n : Noun} {get : α → List n.Value}
    (h : (∃ t, (Field.list key n get).given (grammar k) t a) ∨ (Field.list key n get).omitted a)
    {v : n.Value} (hv : v ∈ get a) : ∃ j, k = j + 1 ∧ Fits j n v := by
  rcases h with ⟨_, _, _, _, _, hvs, _⟩ | h
  · rcases fits_of_mem hvs with ⟨j, hj, hall⟩
    exact ⟨j, hj, hall v hv⟩
  · have he : get a = [] := h
    simp [he] at hv

end Phrases

end Document

section Steps

variable {k : Nat}

theorem Query.fits_conditions {q : Query} (h : Fits k .query q) :
    ∃ j, k = j + 1 ∧ ∀ c ∈ q.conditions, ∃ i, j = i + 1 ∧ Fits i .condition c := by
  rcases h with ⟨cs, h⟩
  rcases fields_of_record h with ⟨j, hj, hf⟩
  simp only [List.forall_mem_cons] at hf
  rcases hf with ⟨-, -, -, -, -, -, hconditions, -⟩
  exact ⟨j, hj, fun c hc => fits_entry hconditions hc⟩

theorem Query.fits_calls {q : Query} (h : Fits k .query q) {c : Call} (hc : c ∈ q.calls) :
    ∃ i, k = i + 2 ∧ Fits i .call c := by
  rcases h with ⟨cs, h⟩
  rcases fields_of_record h with ⟨j, rfl, hf⟩
  simp only [List.forall_mem_cons] at hf
  rcases hf with ⟨-, -, -, -, hcalls, -⟩
  rcases fits_entry hcalls hc with ⟨i, rfl, hi⟩
  exact ⟨i, rfl, hi⟩

theorem Condition.fits_predicate {p : Predicate} (h : Fits k .condition (.predicate p)) :
    ∃ j, k = j + 1 ∧ Fits j .predicate p := by
  rcases h with ⟨cs, h⟩
  exact fits_of_tagged h

theorem Condition.fits_junction {j : Junction} (h : Fits k .condition (.junction j)) :
    ∃ i, k = i + 1 ∧ Fits i .junction j := by
  rcases h with ⟨cs, h⟩
  exact fits_of_tagged h

/-- The list of the members cannot be left out, so its bracket is there even if it is empty. -/
theorem Junction.fits_members {j : Junction} (h : Fits k .junction j) :
    ∃ i, k = i + 2 ∧ ∀ c ∈ j.members, Fits i .condition c := by
  rcases h with ⟨cs, h⟩
  rcases fields_of_record h with ⟨l, rfl, hf⟩
  simp only [List.forall_mem_cons] at hf
  rcases hf with ⟨-, ⟨_, _, _, _, _, hmembers, _⟩ | hmembers, -⟩
  · rcases fits_of_mem hmembers with ⟨i, rfl, hall⟩
    exact ⟨i, rfl, hall⟩
  · cases hmembers

theorem Predicate.fits_subquery {p : Predicate} (h : Fits k .predicate p) {q : Query}
    (hq : p.operand = .subquery q) : ∃ j, k = j + 2 ∧ Fits j .query q := by
  rcases h with ⟨cs, h⟩
  rcases fields_of_record h with ⟨l, rfl, hf⟩
  simp only [List.forall_mem_cons] at hf
  rcases fits_required hf.2.2.1 with ⟨_, hoperand⟩
  rw [hq] at hoperand
  rcases fits_of_tagged hoperand with ⟨j, rfl, hj⟩
  exact ⟨j, rfl, hj⟩

theorem Call.fits_argument {c d : Call} (h : Fits k .call c) (hd : .call d ∈ c.arguments) :
    ∃ j, k = j + 3 ∧ Fits j .call d := by
  rcases h with ⟨cs, h⟩
  rcases fields_of_record h with ⟨l, rfl, hf⟩
  simp only [List.forall_mem_cons] at hf
  rcases fits_entry hf.2.1 hd with ⟨m, rfl, _, hargument⟩
  rcases fits_of_tagged hargument with ⟨j, rfl, hj⟩
  exact ⟨j, rfl, hj⟩

/-- The innermost call needs a bracket too. -/
theorem Call.Encloses.fits {outer c : Call} {n : Nat} (h : outer.Encloses n c)
    (hk : Fits k .call outer) : ∃ j, k = j + 3 * n + 1 := by
  have hstep : ∃ j, k = j + 3 * n ∧ Fits j .call c := by
    induction h with
    | self => exact ⟨k, rfl, hk⟩
    | argument _ hd ih =>
      rcases ih with ⟨j, rfl, hj⟩
      rcases Call.fits_argument hj hd with ⟨i, rfl, hi⟩
      exact ⟨i, by omega, hi⟩
  rcases hstep with ⟨j, rfl, _, hc⟩
  rcases fields_of_record hc with ⟨i, rfl, -⟩
  exact ⟨i, by omega⟩

end Steps

namespace Node

def Fits (k : Nat) : Node → Prop
  | query q => Document.Fits k .query q
  | junction j => Document.Fits k .junction j
  | condition c => Document.Fits k .condition c
  | predicate p => Document.Fits k .predicate p

/-- The brackets that stand open before the node, those of its subqueries and junctions apart. -/
def opened : Node → Nat
  | query _ | junction _ => 0
  | condition _ => 2
  | predicate _ => 3

end Node

/-- Every step of a path takes its brackets from those that may be open. -/
theorem Query.Reaches.fits {root : Query} {k s g : Nat} {x : Node} (h : root.Reaches s g x)
    (hk : Fits k .query root) : ∃ j, x.Fits j ∧ k = j + x.opened + 5 * s + 3 * g := by
  induction h with
  | root => exact ⟨k, hk, rfl⟩
  | condition _ hc ih =>
    rcases ih with ⟨j, hj, rfl⟩
    rcases Query.fits_conditions hj with ⟨l, rfl, hall⟩
    rcases hall _ hc with ⟨i, rfl, hi⟩
    exact ⟨i, hi, by simp only [Node.opened]⟩
  | predicate _ ih =>
    rcases ih with ⟨j, hj, rfl⟩
    rcases Condition.fits_predicate hj with ⟨i, rfl, hi⟩
    exact ⟨i, hi, by simp only [Node.opened]⟩
  | junction _ ih =>
    rcases ih with ⟨j, hj, rfl⟩
    rcases Condition.fits_junction hj with ⟨i, rfl, hi⟩
    exact ⟨i, hi, by simp only [Node.opened]; omega⟩
  | member _ hc ih =>
    rcases ih with ⟨j, hj, rfl⟩
    rcases Junction.fits_members hj with ⟨i, rfl, hall⟩
    exact ⟨i, hall _ hc, by simp only [Node.opened]⟩
  | subquery _ hq ih =>
    rcases ih with ⟨j, hj, rfl⟩
    rcases Predicate.fits_subquery hj hq with ⟨i, rfl, hi⟩
    exact ⟨i, hi, by simp only [Node.opened]; omega⟩

section Bounds

variable {root : Query} {k s g : Nat} (hk : Fits k .query root)

include hk

theorem Query.Reaches.query_le {q : Query} (h : root.Reaches s g (.query q)) :
    1 + 5 * s + 3 * g ≤ k := by
  rcases h.fits hk with ⟨j, hj, rfl⟩
  rcases Query.fits_conditions hj with ⟨i, rfl, -⟩
  simp only [Node.opened]
  omega

theorem Query.Reaches.junction_le {j : Junction} (h : root.Reaches s g (.junction j)) :
    2 + 5 * s + 3 * g ≤ k := by
  rcases h.fits hk with ⟨l, hl, rfl⟩
  rcases Junction.fits_members hl with ⟨i, rfl, -⟩
  simp only [Node.opened]
  omega

theorem Query.Reaches.call_le {q : Query} (h : root.Reaches s g (.query q)) {outer c : Call}
    (houter : outer ∈ q.calls) {n : Nat} (hc : outer.Encloses n c) :
    3 + 5 * s + 3 * g + 3 * n ≤ k := by
  rcases h.fits hk with ⟨j, hj, rfl⟩
  rcases Query.fits_calls hj houter with ⟨i, rfl, hi⟩
  rcases hc.fits hi with ⟨l, rfl⟩
  simp only [Node.opened]
  omega

end Bounds

/-- The nesting of a decoded query is bounded on every path, whatever the document looks like: with
`s` subqueries and `g` junctions on the way to it, themselves included, a query has
`1 + 5 * s + 3 * g ≤ 127` and a junction `2 + 5 * s + 3 * g ≤ 127`, and a call of the query inside
`n` others has `3 + 5 * s + 3 * g + 3 * n ≤ 127`. Rendering the document renders this query, so it
never meets more than 25 nested subqueries, 41 nested junctions or 42 nested calls. -/
theorem Query.nesting_of_decode {document : String} {root : Query}
    (h : decode .query document = .ok root) :
    (∀ s g q, root.Reaches s g (.query q) → 1 + 5 * s + 3 * g ≤ 127 ∧ s ≤ 25) ∧
    (∀ s g j, root.Reaches s g (.junction j) → 2 + 5 * s + 3 * g ≤ 127 ∧ g ≤ 41) ∧
    (∀ s g q, root.Reaches s g (.query q) → ∀ outer ∈ q.calls, ∀ n c, outer.Encloses n c →
      3 + 5 * s + 3 * g + 3 * n ≤ 127 ∧ n + 1 ≤ 42) ∧
    ∀ d : Shipped, Command.render d document = (root.render d.dialect).mapError .query := by
  have hk : Fits 127 .query root := by
    rcases spaced_of_decode h with ⟨_, _, _, _, hv, _⟩
    exact fits_of_grammar hv
  refine ⟨fun s g q hq => ?_, fun s g j hj => ?_, fun s g q hq outer houter n c hc => ?_,
    fun d => ?_⟩
  · have hle := hq.query_le hk
    exact ⟨hle, by omega⟩
  · have hle := hj.junction_le hk
    exact ⟨hle, by omega⟩
  · have hle := hq.call_le hk houter hc
    exact ⟨hle, by omega⟩
  · rw [Command.render, Command.decodeQuery, h]
    rfl

namespace Query

def tower : Nat → Query
  | 0 => select "t"
  | n + 1 => (select "t").filter (.predicate ⟨.bare "c", .isIn, .subquery (tower n)⟩)

theorem reaches_tower (n m : Nat) : (tower (n + m)).Reaches n 0 (.query (tower m)) := by
  induction n generalizing m with
  | zero =>
    rw [Nat.zero_add]
    exact .root
  | succ n ih =>
    have h := ih (m + 1)
    rw [← Nat.add_assoc, Nat.add_right_comm] at h
    exact .subquery (.predicate (.condition h List.mem_cons_self)) rfl

theorem within_conditions (cs : List Condition) {k : Nat}
    (h : Within (writeArray (Condition.encodeAll cs)).toList (k + 1)) :
    Within (Query.encode { select "t" with conditions := cs }).toList (k + 2) := by
  have hempty : Within (writeArray []).toList (k + 1) := Within.array (by simp)
  apply Within.object
  simp only [List.forall_mem_append, List.forall_mem_cons, List.not_mem_nil, false_implies,
    implies_true, and_true]
  exact ⟨⟨⟨Within.text _, Within.text _, Within.flag _, hempty, hempty, hempty, h, hempty, hempty⟩,
    Within.present Within.word none⟩, Within.present Within.word none⟩

/-- The tower takes five brackets for each subquery, and two for the innermost lists. -/
theorem within_tower (n : Nat) : Within (tower n).encode.toList (5 * n + 2) := by
  induction n with
  | zero => exact within_conditions [] (Within.array (by simp [Condition.encodeAll]))
  | succ n ih =>
    have hcolumn : Within (Column.bare "c").encode.toList (5 * n + 2 + 1) :=
      Within.object (by simpa [Column.bare, presentMember] using Within.text _)
    have hoperand : Within (Operand.encode (.subquery (tower n))).toList (5 * n + 2 + 1) := by
      rw [Operand.encode]
      exact Within.object (by simpa using ih)
    apply within_conditions [_] (k := 5 * n + 5)
    apply Within.array
    simp only [Condition.encodeAll, Condition.encode, List.forall_mem_singleton]
    apply Within.object
    rw [List.forall_mem_singleton, Predicate.encode]
    apply Within.object
    simp only [List.forall_mem_cons, List.not_mem_nil, false_implies, implies_true, and_true]
    exact ⟨hcolumn, Within.text _, hoperand⟩

/-- 25 subqueries inside each other can be decoded, and the bound leaves room for no more. -/
theorem nesting_of_decode_tower : decode .query (tower 25).encode = .ok (tower 25) ∧
    (tower 25).Reaches 25 0 (.query (tower 0)) ∧ 1 + 5 * 25 + 3 * 0 ≤ 127 ∧ 25 ≤ 25 := by
  have hn := (within_tower 25).nesting_le
  have h := (tower 25).undoes.decode_eq
  rw [if_pos hn] at h
  have hr := reaches_tower 25 0
  exact ⟨h, hr, (Query.nesting_of_decode h).1 25 0 _ hr⟩

end Query

end SqlRender
