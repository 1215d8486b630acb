import SqlRender.Proofs.Predicates
import SqlRender.Proofs.Tokens

/-!
# How many binds a statement asks for

A statement asks for one bind for each written column, and for those of its predicates. The limit
`maxPlaceholders` is one for each predicate and not for the statement: the binds of several
predicates and of the written columns add up past it.
-/
namespace SqlRender

/-- The placeholders of the operand itself; those of a subquery belong to its predicates. -/
def Operand.demand (comparison : Comparison) : Operand → Nat
  | .placeholders count => if comparison = .between ∧ count = 1 then 2 else count.toNat
  | .column _ | .subquery _ | .verbatim _ | .absent => 0

namespace Predicate

def demand (p : Predicate) : Nat :=
  if p.comparison.isNullCheck then 0 else p.operand.demand p.comparison

@[simp]
def demands : List Predicate → Nat
  | [] => 0
  | p :: ps => p.demand + demands ps

theorem demands_append (ps qs : List Predicate) :
    demands (ps ++ qs) = demands ps + demands qs := by
  induction ps with
  | nil => simp
  | cons p ps ih => rw [List.cons_append, demands, demands, ih, Nat.add_assoc]

/-- Only the predicates that ask for binds count. -/
theorem demands_le {n : Nat} {ps : List Predicate} (h : ∀ p ∈ ps, p.demand ≤ n) :
    demands ps ≤ n * ps.countP fun p => 0 < p.demand := by
  induction ps with
  | nil => simp
  | cons p ps ih =>
    simp only [List.forall_mem_cons] at h
    have hp := h.1
    have hps := ih h.2
    rw [demands, List.countP_cons]
    by_cases hz : 0 < p.demand
    · simp only [hz, decide_true, if_true, Nat.mul_add, Nat.mul_one]
      omega
    · simp only [hz, decide_false, Bool.false_eq_true, if_false, Nat.add_zero]
      omega

/-- A sound predicate asks for no more binds than one predicate may. -/
theorem demand_le {p : Predicate} (h : (Condition.predicate p).IsSound) :
    p.demand ≤ maxPlaceholders.toNat := by
  obtain ⟨column, comparison, operand⟩ := p
  obtain ⟨-, ho⟩ | _ := h
  unfold demand
  split
  · exact Nat.zero_le _
  · next hn =>
    cases ho (by simpa using hn) with
    | placeholders _ few _ =>
      rw [Operand.demand]
      split
      · decide
      · exact UInt64.le_iff_toNat_le.1 few
    | _ => exact Nat.zero_le _

end Predicate

mutual

theorem Operand.length_slots (column : String) (comparison : Comparison) : ∀ o : Operand,
    o.IsSound comparison →
      (o.slots column comparison).length = o.demand comparison + Predicate.demands o.predicates
  | .placeholders count, _ => by
    rw [Operand.slots, Operand.demand, Operand.predicates]
    split <;> simp
  | .subquery q, .subquery select h => by
    rw [Operand.slots, Operand.demand, Operand.predicates, Query.length_slots q h, select]
    simp [Verb.writesColumns]
  | .column _, _ | .verbatim _, _ | .absent, _ => rfl

theorem Condition.length_slots : ∀ c : Condition, c.IsSound →
    c.slots.length = Predicate.demands c.predicates
  | .predicate ⟨column, comparison, operand⟩, .predicate _ ho => by
    rw [Condition.slots, Predicate.slots, Condition.predicates, Predicate.predicates,
      Predicate.demands, Predicate.demand]
    cases hn : comparison.isNullCheck with
    | true => rfl
    | false => exact Operand.length_slots column.name comparison operand (ho hn)
  | .junction ⟨_, members⟩, .junction _ _ hm => by
    rw [Condition.slots, Condition.predicates]
    exact Condition.length_slotsAll members hm

theorem Condition.length_slotsAll : ∀ cs : List Condition, (∀ c ∈ cs, c.IsSound) →
    (Condition.slotsAll cs).length = Predicate.demands (Condition.predicatesAll cs)
  | [], _ => rfl
  | c :: cs, h => by
    simp only [List.forall_mem_cons] at h
    rw [Condition.slotsAll, Condition.predicatesAll, List.length_append, Predicate.demands_append,
      Condition.length_slots c h.1, Condition.length_slotsAll cs h.2]

/-- The slots are those of the written columns and those that the predicates ask for. -/
theorem Query.length_slots : ∀ q : Query, q.IsSound → q.slots.length =
    (if q.verb.writesColumns then q.columns.length else 0) + Predicate.demands q.predicates
  | ⟨verb, _, _, columns, _, _, conditions, _, _, _, _⟩, .intro _ _ _ _ _ _ _ hc _ _ => by
    rw [Query.slots, Query.predicates, List.length_append, Condition.length_slotsAll conditions hc]
    cases verb.writesColumns <;> simp

end

def Text.Token.number? : Text.Token → Option Nat
  | .name _ => none
  | .placeholder _ number => number

namespace Shipped

/-- The numbers of the placeholders that a scan finds, in a dialect that numbers them. -/
theorem filterMap_number? {s : Shipped} (h : s.dialect.style = .numbered) (ps : List (Piece Bind)) :
    (ps.filterMap s.token).filterMap Text.Token.number? = (Piece.slots ps).map Bind.position := by
  induction ps with
  | nil => rfl
  | cons p ps ih =>
    cases p with
    | slot b =>
      have hn : s.number b = some b.position := by rw [number, if_pos h]
      simp [token, Text.Token.number?, hn, ih]
    | _ => exact ih

end Shipped

namespace Query

variable {q : Query} {r : Rendered}

theorem length_binds {d : Dialect} (h : q.render d = .ok r) : r.binds.length =
    (if q.verb.writesColumns then q.columns.length else 0) + Predicate.demands q.predicates := by
  have hs := isSound_of_render h
  obtain ⟨-, rfl⟩ := render_eq_ok.1 h
  rw [slots_pieces, Bind.length_numbered, q.length_slots hs]

theorem scan_eq {s : Shipped} (h : q.render s.dialect = .ok r)
    (hv : ∀ v ∈ q.verbatims, v.Over fun c => c ≠ s.dialect.quote ∧ c ≠ '?' ∧ c ≠ '$') :
    Text.scan s.dialect.quote r.sql = some (q.pieces.filterMap s.token) := by
  have ho : ∀ c, Text.isOrdinary c → c ≠ '?' ∧ c ≠ '$' := by
    intro c hc
    constructor <;>
    · rintro rfl
      cases hc
  have hp := pieces_over ho fun v hm x hx => (hv v hm x hx).2
  rw [Text.scan, atoms_render h fun v hm x hx => (hv v hm x hx).1, Option.map_some,
    s.tokens_atoms q.pieces_apart hp]

/-- The binds of a statement are those of its written columns and those that its predicates ask for,
each of them at most `maxPlaceholders`. So the limit bounds the binds of one predicate, and those of
the statement only with the number of its predicates. The placeholders in the text carry the numbers
from 1 to the number of binds. -/
theorem length_binds_sqlite (h : q.render .sqlite = .ok r) :
    r.binds.length = (if q.verb.writesColumns then q.columns.length else 0) +
      Predicate.demands q.predicates ∧
    (∀ p ∈ q.predicates, p.demand ≤ maxPlaceholders.toNat) ∧
    r.binds.length ≤ (if q.verb.writesColumns then q.columns.length else 0) +
      maxPlaceholders.toNat * q.predicates.countP (fun p => 0 < p.demand) ∧
    ((∀ v ∈ q.verbatims, v.Over fun c => c ≠ '"' ∧ c ≠ '?' ∧ c ≠ '$') →
      ∃ tokens, Text.scan '"' r.sql = some tokens ∧
        tokens.filterMap Text.Token.number? = List.range' 1 r.binds.length) := by
  have hs := isSound_of_render h
  have hle : ∀ p ∈ q.predicates, p.demand ≤ maxPlaceholders.toNat :=
    fun p hp => Predicate.demand_le (isSound_of_mem_predicates hs hp)
  refine ⟨length_binds h, hle, ?_, fun hv => ?_⟩
  · rw [length_binds h]
    exact Nat.add_le_add_left (Predicate.demands_le hle) _
  · refine ⟨_, scan_eq (s := .sqlite) h hv, ?_⟩
    obtain ⟨-, rfl⟩ := render_eq_ok.1 h
    rw [Shipped.filterMap_number? rfl, slots_pieces, Bind.numbered_positions, Bind.length_numbered]

theorem length_binds_sqlite_nested : ∃ r, nestedUpdate.render .sqlite = .ok r ∧
    r.binds.length = 1 + 4 ∧ (∀ p ∈ nestedUpdate.predicates, p.demand ≤ 32766) ∧
    r.binds.length ≤ 1 + 32766 * 2 ∧ ∃ tokens, Text.scan '"' r.sql = some tokens ∧
      tokens.filterMap Text.Token.number? = [1, 2, 3, 4, 5] := by
  have h : nestedUpdate.render .sqlite = .ok _ := rfl
  obtain ⟨hlen, hp, hle, hscan⟩ := length_binds_sqlite h
  have hv : nestedUpdate.verbatims = [] := rfl
  exact ⟨_, h, hlen, hp, hle, hscan (by simp [hv])⟩

def overfull : Query :=
  ((select "t").filter (.predicate (.inList (.bare "a") maxPlaceholders))).filter
    (.predicate (.placeholder (.bare "b") .equal))

/-- The limit is not one for a whole statement. -/
theorem not_length_binds_le : ¬∀ (q : Query) (r : Rendered), q.render .sqlite = .ok r →
    r.binds.length ≤ maxPlaceholders.toNat := by
  intro h
  have hr : overfull.render .sqlite = .ok _ := render_eq_ok.2 ⟨rfl, rfl⟩
  have hlen := length_binds hr
  have hle := h _ _ hr
  have hn : Predicate.demands overfull.predicates = maxPlaceholders.toNat + 1 := rfl
  rw [hlen, hn] at hle
  omega

end Query

end SqlRender
