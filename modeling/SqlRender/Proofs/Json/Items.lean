import SqlRender.Proofs.Json.Reads

/-!
# Reading items

Items with commas between them are read one by one, and the bracket that closes them is no item. A
gap before the first item belongs to it.
-/
namespace SqlRender.Json

theorem length_le_intercalate (ts : List (List Char)) :
    ts.length ≤ ([','].intercalate ts).length + 1 := by
  induction ts with
  | nil => exact Nat.zero_le _
  | cons t ts ih =>
    by_cases hts : ts = []
    · subst hts
      exact Nat.le_add_left _ _
    · have hl := congrArg List.length (intercalate_cons hts (t := t) [])
      simp only [List.length_append, List.length_cons, List.length_nil] at hl ⊢
      omega

/-- The entries after the gap of the first one. -/
theorem intercalate_gap_append (g t : List Char) (ts : List (List Char)) :
    [','].intercalate ((g ++ t) :: ts) = g ++ [','].intercalate (t :: ts) := by
  cases ts with
  | nil => simp
  | cons u us => simp [List.intercalate_cons_cons]

theorem head_intercalate (c : Char) (u : List Char) (ts : List (List Char)) :
    ∃ v, [','].intercalate ((c :: u) :: ts) = c :: v := by
  cases ts with
  | nil => exact ⟨u, by simp⟩
  | cons t ts => exact ⟨_, by rw [List.intercalate_cons_cons]; rfl⟩

/-- The first entry of several as a reader finds it, and a bound on the number of entries. -/
theorem Listed.split {ts : List (List Char)} {inner : List Char} (hl : Listed ts inner)
    (hne : ts ≠ []) (ho : ∀ t ∈ ts.head?, Opens t) :
    ∃ g c v, Gap g ∧ inner = g ++ c :: v ∧ isGap c = false ∧ c ∉ [']', '}'] ∧
      ts.length ≤ v.length + 2 := by
  obtain ⟨t, ts, rfl⟩ := List.exists_cons_of_ne_nil hne
  obtain ⟨g, c, u, rfl, hg, hcg, hcb⟩ := ho t rfl
  obtain ⟨v, hv⟩ := head_intercalate c u ts
  have hn := length_le_intercalate ((c :: u) :: ts)
  rw [hv] at hn
  rw [listed_of_ne_nil hne, intercalate_gap_append, hv] at hl
  exact ⟨g, c, v, hg, hl, hcg, hcb, hn⟩

namespace Reader

variable {α : Type} {item : Reader α} {entry : List Char → α → Prop} {close : Char}
  {cs rest : List Char} {ts : List (List Char)} {as : List α}

theorem divided_sound (h : Takes item entry) {n : Nat}
    (hr : (divided item close n).run cs = .ok (as, rest)) :
    ∃ ts, ts ≠ [] ∧ List.Forall₂ entry ts as ∧ cs = [','].intercalate ts ++ close :: rest := by
  induction n generalizing cs as with
  | zero => cases hr
  | succ n ih =>
    obtain ⟨t, a, c, mid, ht, rfl, hf⟩ := h.mark_sound hr
    split at hf
    · next hc =>
      obtain ⟨as, has, rfl⟩ := map_eq_ok.1 hf
      obtain ⟨ts, hne, hts, rfl⟩ := ih has
      exact ⟨t :: ts, by simp, .cons ht hts, by rw [intercalate_cons hne, hc]⟩
    · split at hf
      · next hc =>
        obtain ⟨rfl, rfl⟩ := pure_eq_ok.1 hf
        exact ⟨[t], by simp, .cons ht .nil, by rw [List.intercalate_singleton, hc]⟩
      · cases hf

theorem divided_complete (h : Takes item entry) (hc : close ∈ [']', '}'])
    (hts : List.Forall₂ entry ts as) (hne : ts ≠ []) {n : Nat} (hn : ts.length ≤ n)
    (rest : List Char) :
    (divided item close n).run ([','].intercalate ts ++ close :: rest) = .ok (as, rest) := by
  have hcomma : close ≠ ',' := by
    rintro rfl
    exact absurd hc (by decide)
  induction hts generalizing n with
  | nil => exact absurd rfl hne
  | @cons t a ts as ht hts ih =>
    obtain ⟨n, rfl⟩ : ∃ m, n = m + 1 := ⟨n - 1, by simp at hn; omega⟩
    rw [divided]
    by_cases hts' : ts = []
    · subst hts'
      cases hts
      rw [List.intercalate_singleton, h.mark_complete ht (List.mem_cons_of_mem _ hc),
        if_neg hcomma, if_pos rfl]
      rfl
    · rw [intercalate_cons hts', h.mark_complete ht (by simp), if_pos rfl,
        run_bind_ok (ih hts' (by simpa using hn))]
      rfl

theorem divided_gap (h : ∀ {g}, Gap g → ∀ cs, item.run (g ++ cs) = item.run cs) {g : List Char}
    (hg : Gap g) (cs : List Char) (n : Nat) :
    (divided item close n).run (g ++ cs) = (divided item close n).run cs := by
  cases n with
  | zero => rfl
  | succ n =>
    rw [divided]
    exact run_bind_congr (h hg cs)

theorem items_sound (h : Takes item entry)
    (hgap : ∀ {g}, Gap g → ∀ cs, item.run (g ++ cs) = item.run cs)
    (hr : (items item close).run cs = .ok (as, rest)) :
    ∃ ts inner, List.Forall₂ entry ts as ∧ Listed ts inner ∧ cs = inner ++ close :: rest := by
  rw [items, bind_eq_ok] at hr
  obtain ⟨c, _, ha, hr⟩ := hr
  obtain ⟨g, t, hg, rfl, rfl⟩ := ahead_split ha
  split at hr
  · next hc =>
    cases hr
    exact ⟨[], g, .nil, hg, by rw [hc]⟩
  · rw [run_bind_ok (run_remaining _), ← divided_gap hgap hg] at hr
    obtain ⟨ts, hne, hts, hcs⟩ := divided_sound h hr
    exact ⟨ts, _, hts, (listed_of_ne_nil hne).2 rfl, hcs⟩

/-- Several items are read one by one, in as many turns as there are items. -/
theorem run_items (hgap : ∀ {g}, Gap g → ∀ cs, item.run (g ++ cs) = item.run cs)
    (hc : close ∈ [']', '}']) (hne : ts ≠ []) (ho : ∀ t ∈ ts.head?, Opens t) (rest : List Char) :
    ∃ n, ts.length ≤ n ∧ (items item close).run ([','].intercalate ts ++ close :: rest) =
      (divided item close n).run ([','].intercalate ts ++ close :: rest) := by
  obtain ⟨g, c, v, hg, hi, hcg, hcb, hn⟩ := ((listed_of_ne_nil hne).2 rfl).split hne ho
  refine ⟨(c :: v ++ close :: rest).length, by rw [List.length_append]; simp at hn ⊢; omega, ?_⟩
  rw [hi, List.append_assoc, divided_gap hgap hg, List.cons_append, items,
    run_bind_ok (run_ahead hg hcg), if_neg (by rintro rfl; exact hcb hc),
    run_bind_ok (run_remaining _)]

theorem items_complete (h : Takes item entry)
    (hgap : ∀ {g}, Gap g → ∀ cs, item.run (g ++ cs) = item.run cs) (hc : close ∈ [']', '}'])
    (hts : List.Forall₂ entry ts as) {inner : List Char} (hl : Listed ts inner) (rest : List Char) :
    (items item close).run (inner ++ close :: rest) = .ok (as, rest) := by
  have hclose : isGap close = false := not_gap_of_mark (List.mem_cons_of_mem _ hc)
  by_cases hne : ts = []
  · subst hne
    cases hts
    rw [items, run_bind_ok (run_ahead hl (hclose)), if_pos rfl]
    rfl
  · rw [listed_of_ne_nil hne] at hl
    obtain ⟨n, hn, hrun⟩ := run_items hgap hc hne (fun t ht => by
      cases hts with
      | nil => cases ht
      | cons ha _ =>
        cases ht
        exact h.opens ha) rest
    rw [hl, hrun]
    exact divided_complete h hc hts hne hn rest

end Reader

end SqlRender.Json
