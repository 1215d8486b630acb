import SqlRender.Document.Decode
import SqlRender.Proofs.Document.Fields
import SqlRender.Proofs.Json.Items

/-!
# Reading members by place

A record by place is read from left to right, a member at a time, until its elements end; the
members after that have their defaults. Every element but the first one has a comma before it.
-/
namespace SqlRender.Document

open Json Reader

variable {cs rest : List Char}

variable {g : Grammar} {inner : Reading} {ms : List Member} {name : String} {size i : Nat}

/-- The elements after the first one, each after its comma. -/
def Tail (ts : List (List Char)) : List Char := ts.flatMap (',' :: ·)

theorem intercalate_eq_tail (t : List Char) (ts : List (List Char)) :
    [','].intercalate (t :: ts) = t ++ Tail ts := by
  induction ts generalizing t with
  | nil => simp [Tail]
  | cons u us ih => rw [List.intercalate_cons_cons, ih]; simp [Tail]

theorem readElement_close {β : Type} {k : List Char} (hk : Gap k) (first : Bool) (r : Reader β)
    (t : List Char) : (readElement first r).run (k ++ ']' :: t) = .ok (none, ']' :: t) := by
  rw [readElement, run_bind_ok (run_ahead hk (by decide)), if_pos rfl]
  rfl

theorem readElement_sound {β : Type} {first : Bool} {r : Reader β} {o : Option β}
    {mid : List Char} (h : (readElement first r).run cs = .ok (o, mid)) :
    ∃ k c t, Gap k ∧ cs = k ++ c :: t ∧ ((c = ']' ∧ o = none ∧ mid = c :: t) ∨
      c = (if first then c else ',') ∧
        ∃ x, o = some x ∧ r.run (if first then c :: t else t) = .ok (x, mid)) := by
  rw [readElement, bind_eq_ok] at h
  obtain ⟨c, _, ha, h⟩ := h
  obtain ⟨k, t, hk, rfl, rfl⟩ := ahead_split ha
  refine ⟨k, c, t, hk, rfl, ?_⟩
  split at h
  · next hc =>
    cases h
    exact .inl ⟨hc, rfl, rfl⟩
  · cases first
    · rw [if_neg (by decide)] at h
      split at h
      · next hc =>
        rw [run_bind_ok (run_next _ _)] at h
        obtain ⟨x, hx, rfl⟩ := map_eq_ok.1 h
        exact .inr ⟨hc, x, rfl, hx⟩
      · cases h
    · rw [if_pos rfl] at h
      obtain ⟨x, hx, rfl⟩ := map_eq_ok.1 h
      exact .inr ⟨rfl, x, rfl, hx⟩

/-- At the closing bracket all further members have their defaults. -/
theorem eq_nil_of_close {k : List Char} {ts : List (List Char)} {t : List Char} (hk : Gap k)
    (h : ']' :: t = k ++ Tail ts ++ ']' :: rest) : ts = [] ∧ t = rest := by
  obtain rfl := hk.eq_nil (by decide) (h.trans (List.append_assoc ..))
  cases ts with
  | nil => exact ⟨rfl, List.tail_eq_of_cons_eq h⟩
  | cons u us => exact absurd (List.cons_eq_cons.1 h).1 (by decide)

theorem places_sound (hr : ∀ s, Reads (inner s) (g s)) {v : Values ms} {k : List Char}
    (hk : Gap k) (hi : i ≠ 0)
    (h : (readPlaces inner name size ms i).run cs = .ok (v, k ++ ']' :: rest)) :
    ∃ j ts, Gap j ∧ Places g ms ts v ∧ cs = j ++ Tail ts ++ ']' :: rest := by
  induction ms generalizing cs i with
  | nil =>
    obtain ⟨-, rfl⟩ := pure_eq_ok.1 h
    exact ⟨k, [], hk, rfl, by simp [Tail]⟩
  | cons m ms ih =>
    rw [readPlaces, bind_eq_ok] at h
    obtain ⟨o, mid, ho, h⟩ := h
    split at h
    · cases h
    · next x hx =>
      obtain ⟨xs, hxs, rfl⟩ := map_eq_ok.1 h
      obtain ⟨l, ts, hl, hts, rfl⟩ := ih (Nat.succ_ne_zero i) hxs
      rw [beq_false_of_ne hi] at ho
      obtain ⟨j, c, t, hj, rfl, ⟨rfl, rfl, ht⟩ | ⟨hc, y, rfl, hy⟩⟩ := readElement_sound ho
      -- At the bracket nothing was taken, so the members after this one had no element either.
      · obtain ⟨rfl, rfl⟩ := eq_nil_of_close hl ht.symm
        exact ⟨j, [], hj, ⟨hx, hts⟩, by simp [Tail]⟩
      · obtain rfl := Option.some.inj hx
        obtain ⟨u, hu, rfl⟩ := (hr m.shape).takes.sound hy
        refine ⟨j, (u ++ l) :: ts, hj, ⟨(hr m.shape).takes.append_gap hu hl, hts⟩, ?_⟩
        rw [hc]
        simp [Tail]

/-- The first element has no comma before it. -/
theorem places_sound_first (hr : ∀ s, Reads (inner s) (g s)) {v : Values ms} {k : List Char}
    (hk : Gap k) (h : (readPlaces inner name size ms 0).run cs = .ok (v, k ++ ']' :: rest)) :
    ∃ ts body, Places g ms ts v ∧ Listed ts body ∧ cs = body ++ ']' :: rest := by
  cases ms with
  | nil =>
    obtain ⟨-, rfl⟩ := pure_eq_ok.1 h
    exact ⟨[], k, rfl, hk, rfl⟩
  | cons m ms =>
    rw [readPlaces, bind_eq_ok] at h
    obtain ⟨o, mid, ho, h⟩ := h
    split at h
    · cases h
    · next x hx =>
      obtain ⟨xs, hxs, rfl⟩ := map_eq_ok.1 h
      obtain ⟨l, ts, hl, hts, rfl⟩ := places_sound hr hk (Nat.succ_ne_zero 0) hxs
      obtain ⟨j, c, t, hj, rfl, ⟨rfl, rfl, ht⟩ | ⟨-, y, rfl, hy⟩⟩ := readElement_sound ho
      · obtain ⟨rfl, rfl⟩ := eq_nil_of_close hl ht.symm
        exact ⟨[], j, ⟨hx, hts⟩, hj, rfl⟩
      · obtain rfl := Option.some.inj hx
        rw [if_pos (by decide), ← (hr m.shape).gap hj] at hy
        obtain ⟨u, hu, hc⟩ := (hr m.shape).takes.sound hy
        refine ⟨(u ++ l) :: ts, _, ⟨(hr m.shape).takes.append_gap hu hl, hts⟩, rfl, ?_⟩
        rw [hc, intercalate_eq_tail]
        simp

theorem stops_tail (ts : List (List Char)) (rest : List Char) :
    Stops (Tail ts ++ ']' :: rest) := by
  cases ts with
  | nil => exact stops_cons (by simp) rest
  | cons t ts => exact stops_cons (by simp) _

theorem places_complete (hr : ∀ s, Reads (inner s) (g s)) {v : Values ms} {ts : List (List Char)}
    (h : Places g ms ts v) (hi : i ≠ 0) {j : List Char} (hj : Gap j) (rest : List Char) :
    ∃ k, Gap k ∧ (readPlaces inner name size ms i).run (j ++ Tail ts ++ ']' :: rest) =
      .ok (v, k ++ ']' :: rest) := by
  induction ms generalizing ts i j with
  | nil =>
    obtain rfl : ts = [] := h
    exact ⟨j, hj, by simp [readPlaces, Tail]; rfl⟩
  | cons m ms ih =>
    obtain ⟨x, xs⟩ := v
    rw [readPlaces, beq_false_of_ne hi]
    cases ts with
    | nil =>
      obtain ⟨hx, hxs⟩ := h
      obtain ⟨k, hk, hrun⟩ := ih hxs (Nat.succ_ne_zero i) gap_nil
      refine ⟨k, hk, ?_⟩
      have he : j ++ Tail [] ++ ']' :: rest = j ++ ']' :: rest := by simp [Tail]
      rw [he, run_bind_ok (readElement_close hj _ _ _), hx]
      exact run_bind_ok hrun
    | cons t ts =>
      obtain ⟨hx, hxs⟩ := h
      obtain ⟨l, hl, helem⟩ := (hr m.shape).takes.complete hx (stops_tail ts rest)
      obtain ⟨k, hk, hrun⟩ := ih hxs (Nat.succ_ne_zero i) hl
      refine ⟨k, hk, ?_⟩
      have he : j ++ Tail (t :: ts) ++ ']' :: rest =
          j ++ ',' :: (t ++ (Tail ts ++ ']' :: rest)) := by simp [Tail]
      have hfirst : (readElement false (inner m.shape)).run
          (j ++ ',' :: (t ++ (Tail ts ++ ']' :: rest))) =
            .ok (some x, l ++ (Tail ts ++ ']' :: rest)) := by
        rw [readElement, run_bind_ok (run_ahead hj (by decide)), if_neg (by decide),
          if_neg (by decide), if_pos rfl, run_bind_ok (run_next _ _), run_bind_ok helem]
        rfl
      rw [he, run_bind_ok hfirst, ← List.append_assoc]
      exact run_bind_ok hrun

theorem places_complete_first (hr : ∀ s, Reads (inner s) (g s)) {v : Values ms}
    {ts : List (List Char)} {body : List Char} (h : Places g ms ts v) (hl : Listed ts body)
    (rest : List Char) :
    ∃ k, Gap k ∧ (readPlaces inner name size ms 0).run (body ++ ']' :: rest) =
      .ok (v, k ++ ']' :: rest) := by
  cases ms with
  | nil =>
    obtain rfl : ts = [] := h
    exact ⟨body, hl, rfl⟩
  | cons m ms =>
    obtain ⟨x, xs⟩ := v
    rw [readPlaces]
    cases ts with
    | nil =>
      obtain ⟨hx, hxs⟩ := h
      obtain ⟨k, hk, hrun⟩ := places_complete hr hxs (Nat.succ_ne_zero 0) gap_nil rest
      refine ⟨k, hk, ?_⟩
      rw [run_bind_ok (readElement_close hl _ _ _), hx]
      exact run_bind_ok hrun
    | cons t ts =>
      obtain ⟨hx, hxs⟩ := h
      obtain ⟨l, hl', helem⟩ := (hr m.shape).takes.complete hx (stops_tail ts rest)
      obtain ⟨k, hk, hrun⟩ := places_complete hr hxs (Nat.succ_ne_zero 0) hl' rest
      refine ⟨k, hk, ?_⟩
      rw [listed_of_ne_nil (by simp), intercalate_eq_tail] at hl
      obtain ⟨j, c, u, rfl, hj, hc, hb⟩ := (hr m.shape).takes.opens hx
      rw [List.append_assoc, (hr m.shape).gap hj] at helem
      have hfirst : (readElement true (inner m.shape)).run
          (j ++ (c :: u ++ (Tail ts ++ ']' :: rest))) =
            .ok (some x, l ++ (Tail ts ++ ']' :: rest)) := by
        rw [readElement, List.cons_append, run_bind_ok (run_ahead hj hc),
          if_neg (by rintro rfl; simp at hb), if_pos rfl]
        exact run_bind_ok helem
      rw [hl, List.append_assoc, List.append_assoc]
      refine (run_bind_ok hfirst).trans ?_
      rw [← List.append_assoc]
      exact run_bind_ok hrun

end SqlRender.Document
