import SqlRender.Proofs.Openings
import SqlRender.Proofs.Operators
import SqlRender.Proofs.Slots

/-!
# Reading conditions

The rows of operands, predicates and junctions determine them, up to what erasure takes away. What
follows a condition is the next member of its junction or a closing parenthesis. A blank with a
placeholder, a name or a parenthesis after it is thus always an operand. Each theorem takes the
parts of its node for granted; the induction over the tree comes later.
-/
namespace SqlRender

open Text (Atom chars Ends Reads listed clash Undotted)
open Piece (trail separated)

def Operand.IsPlain (column : String) (comparison : Comparison) (o : Operand) : Prop :=
  (∀ v ∈ o.verbatims, v.IsWord) ∧ o.defects column comparison = []

def Predicate.IsPlain (p : Predicate) : Prop := (∀ v ∈ p.verbatims, v.IsWord) ∧ p.defects = []

def Condition.IsPlain (c : Condition) : Prop := (∀ v ∈ c.verbatims, v.IsWord) ∧ c.defects = []

def Query.IsPlain (q : Query) : Prop := (∀ v ∈ q.verbatims, v.IsWord) ∧ q.defects = []

def Condition.following : List String := [" AND ", " OR ", ")"]

/-- The row of the predicate determines it, up to what erasure takes away. -/
abbrev Predicate.IsRead (p : Predicate) : Prop :=
  Reads IsPlain (Ends Condition.following) (fun p => Piece.row (outline p)) erase p

abbrev Condition.IsRead (c : Condition) : Prop :=
  Reads IsPlain (Ends following) (fun c => Piece.row (outline c)) erase c

abbrev Query.IsRead (q : Query) : Prop :=
  Reads IsPlain (Ends [")"]) (fun q => Piece.row (outline q)) erase q

theorem Comparison.followed_of_ends {r : List Atom} (hr : Ends Condition.following r) :
    Comparison.Followed r := by
  rcases hr with rfl | ⟨w, hw, u, rfl⟩
  · exact .inl rfl
  · simp only [Condition.following, List.mem_cons, List.not_mem_nil, or_false] at hw
    rcases hw with rfl | rfl | rfl <;>
      simp [chars, Comparison.Followed, Comparison.openers]

theorem Query.row_outline (q : Query) : Piece.row q.outline =
    Piece.row (separated " " q.openingParts) ++ (trail (q.joins.map Join.outline) ++
      (trail (Query.filterParts (Condition.outlineAll q.conditions)) ++ trail q.tailParts)) := by
  have hne : q.openingParts ≠ [] := by
    unfold Query.openingParts
    cases q.verb <;> simp
  rw [Query.outline_eq, List.append_assoc, List.append_assoc, Piece.row_parts hne,
    Piece.trail_append, Piece.trail_append]

namespace Operand

variable {column : String} {comparison : Comparison}

def row (column : String) (comparison : Comparison) (o : Operand) : List Atom :=
  (o.outline column comparison).elim [] fun ps => .char ' ' :: Piece.row ps

abbrev IsRead (column : String) (comparison : Comparison) (o : Operand) : Prop :=
  Reads (IsPlain column comparison) (Ends Condition.following) (row column comparison) erase o

theorem row_column (c : Column) :
    row column comparison (.column c) = .char ' ' :: Piece.row c.outline := by
  simp [row, outline]

theorem row_subquery (q : Query) : row column comparison (.subquery q) =
    .char ' ' :: .char '(' :: (Piece.row q.outline ++ [.char ')']) := by
  simp [row, outline, chars]

theorem row_value (column : String) (comparison : Comparison) :
    ∃ t, row column comparison (.placeholders 1) = .char ' ' :: .char '?' :: t := by
  by_cases hb : comparison = .between <;> simp [row, outline, hb]

theorem row_list {n : UInt64} (hn : n ≠ 1) : row column comparison (.placeholders n) =
    .char ' ' :: .char '(' ::
      (listed (chars ", ") (fun _ => [.char '?']) (List.replicate n.toNat ()) ++ [.char ')']) := by
  have he : outline column comparison (.placeholders n) =
      some (.text "(" :: separated ", " ((List.replicate n.toNat ()).map fun _ => [.slot column]) ++
        [.text ")"]) := by
    rw [outline, if_neg hn, List.map_replicate]
  rw [row, he, Option.elim_some, List.cons_append, Piece.row_text, Piece.row_append,
    Piece.row_separated]
  simp [chars]

theorem not_isPlain_verbatim (sql : String) : ¬IsPlain column comparison (.verbatim sql) := by
  rintro ⟨h, -⟩
  exact absurd (by simpa only [verbatims] using h) (Verbatim.not_isWord (by decide) sql)

/-- An operand begins with a name, a placeholder or a parenthesis. -/
theorem row_start {o : Operand} (h : o.IsPlain column comparison) (ho : o ≠ .absent) :
    ∃ a t, row column comparison o = .char ' ' :: a :: t ∧
      ((∃ s, a = .name s) ∨ a = .char '?' ∨ a = .char '(') := by
  cases o with
  | placeholders n =>
    by_cases hn : n = 1
    · subst hn
      obtain ⟨t, ht⟩ := row_value column comparison
      exact ⟨_, t, ht, by simp⟩
    · exact ⟨_, _, row_list hn, by simp⟩
  | column c =>
    rcases c.row_outline with ⟨s, t, ht⟩
    exact ⟨.name s, t, by rw [row_column, ht], by simp⟩
  | subquery q => exact ⟨_, _, row_subquery q, by simp⟩
  | verbatim sql => exact absurd h (not_isPlain_verbatim sql)
  | absent => exact absurd rfl ho

/-- What can follow a condition is no operand. -/
theorem row_ne {o : Operand} (h : o.IsPlain column comparison) (ho : o ≠ .absent) {r : List Atom}
    (hr : Ends Condition.following r) (s : List Atom) : r ≠ row column comparison o ++ s := by
  rcases row_start h ho with ⟨a, t, ht, ha⟩
  rintro rfl
  rw [ht] at hr
  obtain hn | ⟨w, hw, u, hu⟩ := hr
  · cases hn
  · simp only [Condition.following, List.mem_cons, List.not_mem_nil, or_false] at hw
    rcases hw with rfl | rfl | rfl <;> rcases ha with ⟨_, rfl⟩ | rfl | rfl <;> simp [chars] at hu

theorem followed {o : Operand} (h : o.IsPlain column comparison) {r : List Atom}
    (hr : Ends Condition.following r) :
    Comparison.Followed (row column comparison o ++ r) := by
  by_cases ho : o = .absent
  · subst ho
    exact Comparison.followed_of_ends hr
  · obtain ⟨a, t, ht, ha⟩ := row_start h ho
    rw [ht]
    rcases ha with ⟨_, rfl⟩ | rfl | rfl <;>
      simp [Comparison.Followed, Comparison.openers]

theorem reads_list {n m : UInt64} {r s : List Atom}
    (he : listed (chars ", ") (fun _ => [.char '?']) (List.replicate n.toNat ()) ++ .char ')' :: r =
      listed (chars ", ") (fun _ => [.char '?']) (List.replicate m.toNat ()) ++ .char ')' :: s) :
    n = m ∧ r = s := by
  obtain ⟨hnm, hrs⟩ := Reads.listed (V := fun _ => True) (E := fun _ => True)
    (F := fun r => ∃ t, r = .char ')' :: t) (k := id)
    (fun _ _ _ r s _ _ _ h => by simpa using h) (fun _ _ => trivial) (fun _ => trivial)
    (fun _ _ => trivial) (by rintro _ s ⟨t, rfl⟩; simp [chars])
    (by rintro b _ s - ⟨t, rfl⟩; simp) (fun _ _ => trivial) ⟨_, rfl⟩ ⟨_, rfl⟩ he
  have hl := congrArg List.length hnm
  exact ⟨UInt64.toNat_inj.1 (by simpa using hl), (List.cons.inj hrs).2⟩

/-- A list of placeholders is no statement. -/
theorem list_ne (n : UInt64) (q : Query) (r s : List Atom) :
    listed (chars ", ") (fun _ => [.char '?']) (List.replicate n.toNat ()) ++ .char ')' :: r ≠
      Piece.row q.outline ++ s := by
  rw [Query.row_outline, Query.row_opening]
  cases List.replicate n.toNat () with
  | nil => cases q.verb <;> simp [listed, Verb.keyword, chars]
  | cons a as => cases q.verb <;> simp [listed, Verb.keyword, chars]

theorem reads_absent : IsRead column comparison .absent := by
  intro o' r s h' hr hs he
  by_cases ho : o' = .absent
  · subst ho
    exact ⟨rfl, he⟩
  · exact absurd he (row_ne h' ho hr s)

theorem reads_column {c : Column} (h : IsPlain column comparison (.column c)) :
    IsRead column comparison (.column c) := by
  intro o' r s h' hr hs he
  rcases c.row_outline with ⟨_, _, hc⟩
  cases o' with
  | absent => exact absurd he.symm (row_ne h (by simp) hs r)
  | verbatim sql => exact absurd h' (not_isPlain_verbatim sql)
  | column c' =>
    rw [row_column, row_column] at he
    obtain ⟨rfl, hrs⟩ := c.reads c' r s trivial (hr.undotted (by decide))
      (hs.undotted (by decide)) (List.cons.inj he).2
    exact ⟨rfl, hrs⟩
  | subquery q => simp [row_column, row_subquery, hc] at he
  | placeholders n =>
    by_cases hn : n = 1
    · subst hn
      rcases row_value column comparison with ⟨t, ht⟩
      simp [row_column, ht, hc] at he
    · simp [row_column, row_list hn, hc] at he

theorem IsPlain.query {q : Query} (h : IsPlain column comparison (.subquery q)) : q.IsPlain := by
  obtain ⟨hw, hd⟩ := h
  rw [defects, List.append_eq_nil_iff] at hd
  exact ⟨by simpa only [verbatims] using hw, hd.2⟩

theorem reads_subquery {q : Query} (hq : q.IsRead)
    (h : IsPlain column comparison (.subquery q)) : IsRead column comparison (.subquery q) := by
  intro o' r s h' hr hs he
  cases o' with
  | absent => exact absurd he.symm (row_ne h (by simp) hs r)
  | verbatim sql => exact absurd h' (not_isPlain_verbatim sql)
  | column c =>
    rcases c.row_outline with ⟨_, _, hc⟩
    simp [row_column, row_subquery, hc] at he
  | subquery q' =>
    have hclose : ∀ r : List Atom, Ends [")"] (.char ')' :: r) :=
      fun r => Ends.word (w := ")") (by simp) r
    have he : Piece.row q.outline ++ .char ')' :: r = Piece.row q'.outline ++ .char ')' :: s := by
      simpa [row_subquery] using he
    rcases hq q' _ _ h'.query (hclose r) (hclose s) he with ⟨hq, hrs⟩
    exact ⟨by rw [erase, erase, hq], (List.cons.inj hrs).2⟩
  | placeholders n =>
    by_cases hn : n = 1
    · subst hn
      obtain ⟨t, ht⟩ := row_value column comparison
      simp [row_subquery, ht] at he
    · rw [row_subquery, row_list hn] at he
      exact absurd (by simpa using he.symm) (list_ne n q s (.char ')' :: r))

theorem reads_placeholders {n : UInt64} (h : IsPlain column comparison (.placeholders n)) :
    IsRead column comparison (.placeholders n) := by
  intro o' r s h' hr hs he
  rcases row_value column comparison with ⟨t, ht⟩
  cases o' with
  | absent => exact absurd he.symm (row_ne h (by simp) hs r)
  | verbatim sql => exact absurd h' (not_isPlain_verbatim sql)
  | column c =>
    rcases reads_column h' (.placeholders n) s r h hs hr he.symm with ⟨hc, hrs⟩
    exact ⟨hc.symm, hrs.symm⟩
  | subquery q =>
    by_cases hn : n = 1
    · subst hn
      simp [ht, row_subquery] at he
    · rw [row_list hn, row_subquery] at he
      exact absurd (by simpa using he) (list_ne n q r (.char ')' :: s))
  | placeholders m =>
    by_cases hn : n = 1
    · by_cases hm : m = 1
      · subst hn hm
        exact ⟨rfl, List.append_cancel_left he⟩
      · simp [hn, ht, row_list hm] at he
    · by_cases hm : m = 1
      · simp [hm, ht, row_list hn] at he
      · rw [row_list hn, row_list hm] at he
        obtain ⟨rfl, hrs⟩ := reads_list (n := n) (m := m) (by simpa using he)
        exact ⟨rfl, hrs⟩

end Operand

namespace Predicate

variable {p : Predicate}

theorem row_outline (p : Predicate) : Piece.row p.outline =
    Piece.row p.column.outline ++ (Piece.glyphs (.comparison p.comparison : Piece String) ++
      if p.comparison.isNullCheck then [] else p.operand.row p.column.name p.comparison) := by
  rcases p with ⟨column, comparison, operand⟩
  rw [outline, Piece.row_append, Piece.row_comparison]
  split
  · rfl
  · cases ho : operand.outline column.name comparison <;> simp [Operand.row, ho, chars]

theorem IsPlain.operand (h : p.IsPlain) (hn : p.comparison.isNullCheck = false) :
    p.operand.IsPlain p.column.name p.comparison := by
  rcases p with ⟨column, comparison, operand⟩
  obtain ⟨hw, hd⟩ := h
  simp only [verbatims, List.forall_mem_append] at hw
  simp only [defects, List.append_eq_nil_iff] at hd
  exact ⟨hw.2, by simpa [show comparison.isNullCheck = false from hn] using hd.2⟩

theorem IsPlain.comparison (h : p.IsPlain) : ∀ v ∈ p.comparison.verbatims, v.IsWord := by
  rcases p with ⟨column, comparison, operand⟩
  have hw := h.1
  simp only [verbatims, List.forall_mem_append] at hw
  exact hw.1

/-- What can follow the operator of a predicate. -/
theorem IsPlain.followed (h : p.IsPlain) {r : List Atom} (hr : Ends Condition.following r) :
    Comparison.Followed ((if p.comparison.isNullCheck then [] else
      p.operand.row p.column.name p.comparison) ++ r) := by
  cases hn : p.comparison.isNullCheck with
  | true => exact Comparison.followed_of_ends hr
  | false => exact Operand.followed (h.operand hn) hr

theorem undotted (c : Comparison) {r : List Atom} (hr : Comparison.Followed r) :
    Undotted (Piece.glyphs (.comparison c : Piece String) ++ r) := by
  by_cases hc : c.keyword.isEmpty
  · rcases hr with rfl | ⟨_, rfl⟩ | ⟨_, _, rfl⟩ | ⟨_, _, rfl, -⟩ <;>
      simp [Piece.glyphs, hc, Undotted]
  · simp [Piece.glyphs, hc, Undotted]

theorem reads (ho : p.comparison.isNullCheck = false →
      p.operand.IsRead p.column.name p.comparison) (h : p.IsPlain) : p.IsRead := by
  intro p' r s h' hr hs he
  have hf := h.followed hr
  have hf' := h'.followed hs
  simp only [row_outline, List.append_assoc] at he
  rcases p.column.reads p'.column _ _ trivial (undotted _ hf) (undotted _ hf') he with ⟨hc, he⟩
  obtain ⟨hk, he⟩ := Comparison.reads h.comparison h'.comparison hf hf' he
  rcases p with ⟨column, comparison, operand⟩
  rcases p' with ⟨column', comparison', operand'⟩
  cases hc
  cases hk
  cases hn : comparison.isNullCheck with
  | true => exact ⟨by simp [erase, hn], by simpa [hn] using he⟩
  | false =>
    obtain ⟨ho, hrs⟩ := ho hn operand' r s (h'.operand hn) hr hs (by simpa [hn] using he)
    exact ⟨by simp [erase, hn, ho], hrs⟩

theorem head_row (p : Predicate) : ∃ s t, Piece.row p.outline = .name s :: t := by
  rcases p.column.row_outline with ⟨s, t, hc⟩
  rw [row_outline, hc]
  exact ⟨s, _, rfl⟩

end Predicate

namespace Condition

theorem forall_isPlain {cs : List Condition} (hw : ∀ v ∈ verbatimsAll cs, v.IsWord)
    (hd : defectsAll cs = []) : ∀ c ∈ cs, c.IsPlain := by
  induction cs with
  | nil => simp
  | cons c cs ih =>
    simp only [verbatimsAll, List.forall_mem_append] at hw
    simp only [defectsAll, List.append_eq_nil_iff] at hd
    exact List.forall_mem_cons.2 ⟨⟨hw.1, hd.1⟩, ih hw.2 hd.2⟩

end Condition

namespace Connective

def mark (k : Connective) : List Atom := chars (" " ++ k.keyword ++ " ")

theorem row_outline (k : Connective) (cs : List Condition) :
    Piece.row (k.outline (Condition.outlineAll cs)) = .char '(' ::
      (listed k.mark (fun c => Piece.row (Condition.outline c)) cs ++ [.char ')']) := by
  rw [outline, Condition.outlineAll_eq_map, List.cons_append, Piece.row_text, Piece.row_append,
    Piece.row_separated]
  simp [chars, mark]

theorem following_mark {k : Connective} (hk : ∀ v ∈ k.verbatims, v.IsWord) (r : List Atom) :
    Ends Condition.following (k.mark ++ r) := by
  have hm : ∀ k ∈ plain, " " ++ k.keyword ++ " " ∈ Condition.following := by decide
  exact Ends.word (hm k (mem_plain hk)) r

theorem reads {k k' : Connective} (hk : ∀ v ∈ k.verbatims, v.IsWord)
    (hk' : ∀ v ∈ k'.verbatims, v.IsWord) {r s : List Atom} (he : k.mark ++ r = k'.mark ++ s) :
    k = k' ∧ r = s :=
  Text.eq_of_clash (f := fun k => " " ++ keyword k ++ " ")
    (by decide : ∀ a ∈ plain, ∀ b ∈ plain, a ≠ b → _) (mem_plain hk) (mem_plain hk') he

theorem not_blank {k : Connective} (hk : ∀ v ∈ k.verbatims, v.IsWord) :
    Text.isBlank k.keyword = false := by
  have hb : ∀ k ∈ plain, Text.isBlank k.keyword = false := by decide
  exact hb k (mem_plain hk)

theorem erase_eq {k k' : Connective} (hk : ∀ v ∈ k.verbatims, v.IsWord)
    (hk' : ∀ v ∈ k'.verbatims, v.IsWord) {cs ds : List Condition} (hl : cs.length = ds.length)
    (h : cs.length ≠ 1 → k = k') : k.erase cs = k'.erase ds := by
  unfold erase
  rw [not_blank hk, not_blank hk', ← hl]
  by_cases h1 : cs.length = 1
  · simp [h1]
  · simp [h1, h h1]

/-- The members of a junction after the first one, each after the connective. -/
def rest (k : Connective) (cs : List Condition) : List Atom :=
  cs.flatMap fun c => k.mark ++ Piece.row (Condition.outline c)

theorem ends_close (r : List Atom) : Ends Condition.following (.char ')' :: r) :=
  Ends.word (w := ")") (by simp [Condition.following]) r

theorem ends_rest {k : Connective} (hk : ∀ v ∈ k.verbatims, v.IsWord) (cs : List Condition)
    (r : List Atom) : Ends Condition.following (k.rest cs ++ .char ')' :: r) := by
  cases cs with
  | nil => exact ends_close r
  | cons c cs => simpa [rest] using following_mark hk _

section

variable {k k' : Connective} {cs ds : List Condition} {r s : List Atom}
  (hk : ∀ v ∈ k.verbatims, v.IsWord) (hk' : ∀ v ∈ k'.verbatims, v.IsWord)
  (h : ∀ c ∈ cs, c.IsRead) (hc : ∀ c ∈ cs, c.IsPlain) (hd : ∀ d ∈ ds, d.IsPlain)

include hk hk' h hc hd

theorem reads_rest (he : k.rest cs ++ .char ')' :: r = k'.rest ds ++ .char ')' :: s) :
    cs.map Condition.erase = ds.map Condition.erase ∧ (cs ≠ [] → k = k') ∧ r = s := by
  cases cs with
  | nil =>
    cases ds with
    | nil => exact ⟨rfl, fun hn => absurd rfl hn, by simpa [rest] using he⟩
    | cons d ds => simp [rest, mark, chars] at he
  | cons c cs =>
    cases ds with
    | nil => simp [rest, mark, chars] at he
    | cons d ds =>
      have hm := he
      simp only [rest, List.flatMap_cons, List.append_assoc] at hm
      rcases reads hk hk' hm with ⟨rfl, -⟩
      obtain ⟨hm, hrs⟩ := Reads.flatMap (F := fun r => ∃ t, r = .char ')' :: t) h hc
        (following_mark hk) (by rintro _ ⟨t, rfl⟩; exact ends_close t)
        (by rintro b _ s - ⟨t, rfl⟩; simp [mark, chars]) hd ⟨r, rfl⟩ ⟨s, rfl⟩ he
      exact ⟨hm, fun _ => rfl, (List.cons.inj hrs).2⟩

/-- The members of a junction; of a single member the connective is not seen. -/
theorem reads_members (hcs : cs ≠ []) (hds : ds ≠ [])
    (he : Piece.row (k.outline (Condition.outlineAll cs)) ++ r =
      Piece.row (k'.outline (Condition.outlineAll ds)) ++ s) :
    cs.map Condition.erase = ds.map Condition.erase ∧ (cs.length ≠ 1 → k = k') ∧ r = s := by
  obtain ⟨c, cs, rfl⟩ := List.exists_cons_of_ne_nil hcs
  rcases List.exists_cons_of_ne_nil hds with ⟨d, ds, rfl⟩
  have he : Piece.row c.outline ++ (k.rest cs ++ .char ')' :: r) =
      Piece.row d.outline ++ (k'.rest ds ++ .char ')' :: s) := by
    simpa [row_outline, listed, rest] using he
  obtain ⟨hcd, he⟩ := h c (by simp) d _ _ (hd d (by simp)) (ends_rest hk cs r)
    (ends_rest hk' ds s) he
  obtain ⟨hm, hkk, hrs⟩ := reads_rest hk hk' (fun c hm => h c (by simp [hm]))
    (fun c hm => hc c (by simp [hm])) (fun d hm => hd d (by simp [hm])) he
  exact ⟨by simp [hcd, hm], fun hl => hkk (by simpa using hl), hrs⟩

end

end Connective

namespace Condition

theorem IsPlain.junction {k : Connective} {cs : List Condition} (h : IsPlain (.junction ⟨k, cs⟩)) :
    (∀ v ∈ k.verbatims, v.IsWord) ∧ cs ≠ [] ∧ ∀ c ∈ cs, c.IsPlain := by
  rcases h with ⟨hw, hd⟩
  simp only [verbatims, Junction.verbatims, List.forall_mem_append] at hw
  simp only [defects, Junction.defects, Connective.defects, List.append_eq_nil_iff] at hd
  refine ⟨hw.1, ?_, forall_isPlain hw.2 hd.2⟩
  rintro rfl
  simp [Defect.when] at hd

theorem reads_predicate {p : Predicate} (hp : p.IsRead) : IsRead (.predicate p) := by
  intro c r s h' hr hs he
  obtain ⟨_, _, hrow⟩ := p.head_row
  cases c with
  | predicate p' =>
    rcases hp p' r s h' hr hs he with ⟨hp, hrs⟩
    exact ⟨by rw [erase, erase, hp], hrs⟩
  | junction j =>
    rcases j with ⟨k, cs⟩
    simp [hrow, outline, Junction.outline, Connective.row_outline] at he

theorem reads_junction {k : Connective} {cs : List Condition}
    (hc : ∀ c ∈ cs, c.IsRead) (h : IsPlain (.junction ⟨k, cs⟩)) :
    IsRead (.junction ⟨k, cs⟩) := by
  intro c r s h' hr hs he
  cases c with
  | predicate p =>
    obtain ⟨_, _, hrow⟩ := p.head_row
    simp [hrow, outline, Junction.outline, Connective.row_outline] at he
  | junction j =>
    rcases j with ⟨k', ds⟩
    rcases h.junction with ⟨hk, hcs, hp⟩
    obtain ⟨hk', hds, hp'⟩ := h'.junction
    rcases Connective.reads_members hk hk' hc hp hp' hcs hds he with ⟨hm, hkk, hrs⟩
    have hl : cs.length = ds.length := by simpa using congrArg List.length hm
    simp only [erase, Junction.erase, eraseAll_eq_map, hm, Connective.erase_eq hk hk' hl hkk]
    exact ⟨trivial, hrs⟩

end Condition

end SqlRender
