import SqlRender.Proofs.Projections

/-!
# Reading clauses

The rows of joins, groupings, sort keys and counts determine them if none of them is verbatim. Each
clause begins with words of its own, so that a clause that is left out is told from one that is
there by what follows.
-/
namespace SqlRender

open Text (Atom chars Ends Reads listed clash Undotted)
open Piece (row trail separated)

def Join.IsPlain (j : Join) : Prop :=
  (∀ v ∈ j.method.verbatims, v.IsWord) ∧ j.defects = []

theorem Join.IsPlain.table {j : Join} (h : j.IsPlain) : ∃ t, j.foreign.table = some t := by
  have hd := h.2
  cases ht : j.foreign.table with
  | none => simp [Join.defects, ht] at hd
  | some t => exact ⟨t, rfl⟩

theorem Join.IsPlain.row_outline {j : Join} (h : j.IsPlain) : ∃ t, j.foreign.table = some t ∧
    row j.outline = chars (j.method.keyword ++ " ") ++ .name t :: (chars " ON " ++
      (row j.own.outline ++ (chars " = " ++ row j.foreign.outline))) := by
  rcases h.table with ⟨t, ht⟩
  exact ⟨t, ht, by simp [Join.outline, ht, Text.chars_append]⟩

theorem JoinMethod.reads {m m' : JoinMethod} (h : ∀ v ∈ m.verbatims, v.IsWord)
    (h' : ∀ v ∈ m'.verbatims, v.IsWord) {r s : List Atom}
    (he : chars (m.keyword ++ " ") ++ r = chars (m'.keyword ++ " ") ++ s) : m = m' ∧ r = s :=
  Text.eq_of_clash (f := fun m => keyword m ++ " ")
    (by decide : ∀ a ∈ plain, ∀ b ∈ plain, a ≠ b → _) (mem_plain h) (mem_plain h') he

theorem Join.reads {j : Join} (h : j.IsPlain) :
    Reads Join.IsPlain Undotted (fun j => row (Join.outline j)) id j := by
  intro j' r s h' hr hs he
  rcases h.row_outline with ⟨t, ht, hrow⟩
  obtain ⟨t', ht', hrow'⟩ := h'.row_outline
  simp only [hrow, hrow', List.append_assoc, List.cons_append] at he
  rcases JoinMethod.reads h.1 h'.1 he with ⟨hm, hj⟩
  have ho := List.append_cancel_left (List.cons.inj hj).2
  have hu : ∀ r, Undotted (chars " = " ++ r) := by simp [Undotted, chars]
  rcases j.own.reads j'.own _ _ trivial (hu _) (hu _) ho with ⟨ho, hf⟩
  have hf := List.append_cancel_left hf
  obtain ⟨hf, hrs⟩ := j.foreign.reads j'.foreign _ _ trivial hr hs hf
  rcases j with ⟨method, own, foreign⟩
  rcases j' with ⟨method', own', foreign'⟩
  cases hm
  cases ho
  cases hf
  exact ⟨rfl, hrs⟩

theorem Grouping.reads {g : Grouping} (h : ∀ v ∈ g.verbatims, v.IsWord) :
    Reads (fun g : Grouping => ∀ v ∈ g.verbatims, v.IsWord) Undotted
      (fun g => row (Grouping.outline g)) id g := by
  intro g' r s h' hr hs he
  obtain ⟨c, rfl⟩ := eq_column h
  rcases eq_column h' with ⟨c', rfl⟩
  rcases c.reads c' r s trivial hr hs he with ⟨rfl, hrs⟩
  exact ⟨rfl, hrs⟩

theorem Direction.reads {d d' : Direction} (h : ∀ v ∈ d.verbatims, v.IsWord)
    (h' : ∀ v ∈ d'.verbatims, v.IsWord) {r s : List Atom}
    (he : chars d.keyword ++ r = chars d'.keyword ++ s) : d = d' ∧ r = s :=
  Text.eq_of_clash (by decide) (mem_plain h) (mem_plain h') he

theorem SortKey.reads {k : SortKey} (h : ∀ v ∈ k.direction.verbatims, v.IsWord) :
    Reads (fun k : SortKey => ∀ v ∈ k.direction.verbatims, v.IsWord) (fun _ => True)
      (fun k => row (SortKey.outline k)) id k := by
  have hrow : ∀ k : SortKey, (∀ v ∈ k.direction.verbatims, v.IsWord) →
      row k.outline = row k.column.outline ++ (.char ' ' :: chars k.direction.keyword) := by
    intro k h
    have hd : ∀ d ∈ Direction.plain, d.keyword ≠ "" := by decide
    simp [SortKey.outline, hd _ (Direction.mem_plain h), chars]
  have hu : ∀ r, Undotted (.char ' ' :: r) := by simp [Undotted]
  intro k' r s h' _ _ he
  simp only [hrow k h, hrow k' h', List.append_assoc, List.cons_append] at he
  obtain ⟨hc, hd⟩ := k.column.reads k'.column _ _ trivial (hu _) (hu _) he
  rcases Direction.reads h h' (List.cons.inj hd).2 with ⟨hd, hrs⟩
  rcases k with ⟨column, direction⟩
  obtain ⟨column', direction'⟩ := k'
  cases hc
  cases hd
  exact ⟨rfl, hrs⟩

namespace Query

/-- The row of a clause that lists its entries. -/
theorem trail_listPart {α : Type} (words : String) (f : α → List (Piece String)) (as : List α) :
    trail (listPart words (as.map f)) = if as.isEmpty then [] else
      chars (" " ++ words) ++ listed (chars ", ") (fun a => row (f a)) as := by
  cases as with
  | nil => rfl
  | cons a as =>
    have hl := Piece.row_separated ", " f (a :: as)
    rw [List.map_cons] at hl
    simp [listPart, trail, hl, chars]

theorem reads_listPart {α : Type} {V : α → Prop} {E : List Atom → Prop}
    {f : α → List (Piece String)} {words : String} {rest : List String}
    (hc : rest.all (clash (" " ++ words)))
    (hm : rest.all (clash ", ")) (hE : ∀ r, E (chars ", " ++ r)) (hF : ∀ r, Ends rest r → E r)
    {as bs : List α} (h : ∀ a ∈ as, Reads V E (fun a => row (f a)) id a) (ha : ∀ a ∈ as, V a)
    (hb : ∀ b ∈ bs, V b) {r s : List Atom} (hr : Ends rest r) (hs : Ends rest s)
    (he : trail (listPart words (as.map f)) ++ r = trail (listPart words (bs.map f)) ++ s) :
    as = bs ∧ r = s := by
  have hne : " " ++ words ≠ "" := by simp
  rw [trail_listPart, trail_listPart] at he
  cases as with
  | nil =>
    cases bs with
    | nil => exact ⟨rfl, by simpa using he⟩
    | cons b bs => exact absurd (by simpa using he) (hr.ne_append hne hc _)
  | cons a as =>
    cases bs with
    | nil => exact absurd (by simpa using he.symm) (hs.ne_append hne hc _)
    | cons b bs =>
      simp only [List.isEmpty_cons, Bool.false_eq_true, if_false, List.append_assoc] at he
      have he := List.append_cancel_left he
      have hcomma : ∀ r s, Ends rest r → r ≠ chars ", " ++ s :=
        fun r s hr => hr.ne_append (by decide) hm s
      rcases Reads.listed_cons h ha hE hF hcomma hb hr hs he with ⟨hab, hrs⟩
      exact ⟨by simpa using hab, hrs⟩

/-- The row of a clause that holds a number. -/
theorem trail_countPart (words : String) (count : Option UInt64) :
    trail (countPart words count) =
      count.elim [] fun n => chars (" " ++ words) ++ chars n.toNat.repr := by
  cases count with
  | none => rfl
  | some n => simp [countPart, trail, chars]

theorem reads_count {n m : UInt64} {rest : List String}
    (hd : rest.all fun w => w.toList.head?.any fun c => !c.isDigit) {r s : List Atom}
    (hr : Ends rest r) (hs : Ends rest s)
    (he : chars n.toNat.repr ++ r = chars m.toNat.repr ++ s) : n = m ∧ r = s := by
  have hdigits : ∀ n : UInt64, ∀ x ∈ chars n.toNat.repr, ∃ c, x = .char c ∧ c.isDigit := by
    intro n x hx
    rcases List.mem_map.1 hx with ⟨c, hc, rfl⟩
    exact ⟨c, rfl, Text.isDigit_of_mem_repr hc⟩
  have hstop : ∀ {r}, Ends rest r → ∀ x ∈ r.head?, ¬∃ c, x = .char c ∧ c.isDigit := by
    rintro r hr x hx ⟨c, rfl, hc⟩
    obtain ⟨d, hd, hn⟩ := hr.head hd _ hx
    cases hd
    simp [hc] at hn
  rcases Text.run_injective (hdigits n) (hdigits m) (hstop hr) (hstop hs) he with ⟨hnm, hrs⟩
  have hrepr := congrArg (fun s => Nat.ofDigitChars 10 s.toList 0) (Text.chars_injective hnm)
  exact ⟨UInt64.toNat_inj.1 (by simpa [Nat.repr] using hrepr), hrs⟩

theorem reads_countPart {words : String} {rest : List String}
    (hc : rest.all (clash (" " ++ words)))
    (hd : rest.all fun w => w.toList.head?.any fun c => !c.isDigit) {n m : Option UInt64}
    {r s : List Atom} (hr : Ends rest r) (hs : Ends rest s)
    (he : trail (countPart words n) ++ r = trail (countPart words m) ++ s) : n = m ∧ r = s := by
  have hne : " " ++ words ≠ "" := by simp
  rw [trail_countPart, trail_countPart] at he
  cases n with
  | none =>
    cases m with
    | none => exact ⟨rfl, by simpa using he⟩
    | some m => exact absurd (by simpa using he) (hr.ne_append hne hc _)
  | some n =>
    cases m with
    | none => exact absurd (by simpa using he.symm) (hs.ne_append hne hc _)
    | some m =>
      simp only [Option.elim_some, List.append_assoc] at he
      rcases reads_count hd hr hs (List.append_cancel_left he) with ⟨rfl, hrs⟩
      exact ⟨rfl, hrs⟩

theorem ends_listPart {rest : List String} (words : String) (pss : List (List (Piece String)))
    {r : List Atom} (hr : Ends rest r) :
    Ends ((" " ++ words) :: rest) (trail (listPart words pss) ++ r) := by
  cases pss with
  | nil => exact hr.mono (by simp)
  | cons ps pss =>
    have ht : trail (listPart words (ps :: pss)) ++ r =
        chars (" " ++ words) ++ (row (separated ", " (ps :: pss)) ++ r) := by
      simp [listPart, trail, chars]
    rw [ht]
    exact Ends.word (by simp) _

theorem ends_countPart {rest : List String} (words : String) (count : Option UInt64)
    {r : List Atom} (hr : Ends rest r) :
    Ends ((" " ++ words) :: rest) (trail (countPart words count) ++ r) := by
  rw [trail_countPart]
  cases count with
  | none => exact hr.mono (by simp)
  | some n =>
    rw [Option.elim_some, List.append_assoc]
    exact Ends.word (by simp) _

/-- The first words of what can follow the conditions, and the end of a subquery. -/
def closing : List String := [" GROUP BY ", " ORDER BY ", " LIMIT ", " OFFSET ", ")"]

theorem ends_tail (q : Query) {r : List Atom} (hr : Ends [")"] r) :
    Ends closing (trail q.tailParts ++ r) := by
  simp only [tailParts, Piece.trail_append, List.append_assoc]
  exact ends_listPart _ _ (ends_listPart _ _ (ends_countPart _ _ (ends_countPart _ _ hr)))

theorem reads_tail {q q' : Query} (hg : ∀ g ∈ q.groupings, ∀ v ∈ g.verbatims, v.IsWord)
    (hg' : ∀ g ∈ q'.groupings, ∀ v ∈ g.verbatims, v.IsWord)
    (hk : ∀ k ∈ q.sortKeys, ∀ v ∈ k.direction.verbatims, v.IsWord)
    (hk' : ∀ k ∈ q'.sortKeys, ∀ v ∈ k.direction.verbatims, v.IsWord) {r s : List Atom}
    (hr : Ends [")"] r) (hs : Ends [")"] s)
    (he : trail q.tailParts ++ r = trail q'.tailParts ++ s) :
    q.groupings = q'.groupings ∧ q.sortKeys = q'.sortKeys ∧ q.limit = q'.limit ∧
      q.offset = q'.offset ∧ r = s := by
  have ho : ∀ (q : Query) {r}, Ends [")"] r →
      Ends [" OFFSET ", ")"] (trail (countPart "OFFSET " q.offset) ++ r) :=
    fun q r hr => ends_countPart _ _ hr
  have hl : ∀ (q : Query) {r}, Ends [")"] r → Ends [" LIMIT ", " OFFSET ", ")"]
      (trail (countPart "LIMIT " q.limit) ++ (trail (countPart "OFFSET " q.offset) ++ r)) :=
    fun q r hr => ends_countPart _ _ (ho q hr)
  have hks : ∀ (q : Query) {r}, Ends [")"] r → Ends [" ORDER BY ", " LIMIT ", " OFFSET ", ")"]
      (trail (listPart "ORDER BY " (q.sortKeys.map SortKey.outline)) ++
        (trail (countPart "LIMIT " q.limit) ++ (trail (countPart "OFFSET " q.offset) ++ r))) :=
    fun q r hr => ends_listPart _ _ (hl q hr)
  simp only [tailParts, Piece.trail_append, List.append_assoc] at he
  obtain ⟨hg, he⟩ := reads_listPart (by decide) (by decide) (by simp [Undotted, chars])
    (fun r hr => hr.undotted (by decide)) (fun g hm => Grouping.reads (hg g hm)) hg hg'
    (hks q hr) (hks q' hs) he
  obtain ⟨hk, he⟩ := reads_listPart (by decide) (by decide) (fun _ => trivial)
    (fun _ _ => trivial) (fun k hm => SortKey.reads (hk k hm)) hk hk' (hl q hr) (hl q' hs) he
  obtain ⟨hl, he⟩ := reads_countPart (by decide) (by decide) (ho q hr) (ho q' hs) he
  rcases reads_countPart (by decide) (by decide) hr hs he with ⟨ho, he⟩
  exact ⟨hg, hk, hl, ho, he⟩

def joining : List String := [" JOIN ", " LEFT JOIN ", " RIGHT JOIN ", " FULL OUTER JOIN "]

theorem head_join {j : Join} (h : j.IsPlain) :
    ∃ w ∈ joining, ∃ t, .char ' ' :: row j.outline = chars w ++ t := by
  rcases h.row_outline with ⟨t, -, hrow⟩
  have hw : ∀ m ∈ JoinMethod.plain, " " ++ (m.keyword ++ " ") ∈ joining := by decide
  refine ⟨_, hw _ (JoinMethod.mem_plain h.1), .name t :: (chars " ON " ++ (row j.own.outline ++
    (chars " = " ++ row j.foreign.outline))), ?_⟩
  rw [hrow, Text.chars_append " ", List.append_assoc]
  simp [chars]

theorem ends_joins {js : List Join} (h : ∀ j ∈ js, j.IsPlain) {rest : List String} {r : List Atom}
    (hr : Ends rest r) : Ends (joining ++ rest) (trail (js.map Join.outline) ++ r) := by
  cases js with
  | nil => exact hr.mono (by simp)
  | cons j js =>
    obtain ⟨w, hw, t, ht⟩ := head_join (h j (by simp))
    have he : trail ((j :: js).map Join.outline) ++ r =
        chars w ++ (t ++ (trail (js.map Join.outline) ++ r)) := by
      simp [trail, ← List.append_assoc, ← ht]
    rw [he]
    exact Ends.word (by simp [hw]) _

theorem reads_joins {js js' : List Join} (h : ∀ j ∈ js, j.IsPlain) (h' : ∀ j ∈ js', j.IsPlain)
    {r s : List Atom} (hr : Ends (" WHERE (" :: closing) r) (hs : Ends (" WHERE (" :: closing) s)
    (he : trail (js.map Join.outline) ++ r = trail (js'.map Join.outline) ++ s) :
    js = js' ∧ r = s := by
  have hm : ∀ (j : Join) r s, j.IsPlain → Ends (" WHERE (" :: closing) r →
      r ≠ [.char ' '] ++ (row j.outline ++ s) := by
    intro j r s hj hr he
    rcases head_join hj with ⟨w, hw, t, ht⟩
    have hc : ∀ w ∈ joining, w ≠ "" ∧ (" WHERE (" :: closing).all (clash w) := by decide
    have he : r = chars w ++ (t ++ s) := by
      rw [he, ← List.append_assoc (chars w), ← ht]
      rfl
    exact hr.ne_append (hc w hw).1 (hc w hw).2 (t ++ s) he
  have htrail : ∀ js : List Join, trail (js.map Join.outline) =
      js.flatMap fun j => [.char ' '] ++ row j.outline := by
    intro js
    simp [trail, List.flatMap_map]
  rw [htrail, htrail] at he
  obtain ⟨hjs, hrs⟩ := Reads.flatMap (fun j hj => Join.reads (h j hj)) h
    (by simp [Undotted]) (fun r hr => hr.undotted (by decide)) hm h' hr hs he
  exact ⟨by simpa using hjs, hrs⟩

end Query

end SqlRender
