import SqlRender.Json.Reader
import SqlRender.Proofs.Json.Grammar
import Mathlib.Data.List.TakeWhile

/-!
# Readers of phrases

A reader follows a phrase if it takes every phrase with a gap before it from the front of a text,
and takes nothing else. The end of a number shows only in what comes after it, so what comes after a
phrase is the end, a gap, a comma or a closing bracket.
-/
namespace SqlRender.Json

open Reader

theorem isGap_iff {c : Char} : isGap c = true ↔ c ∈ [' ', '\t', '\n', '\r'] := by
  simp [isGap, or_assoc]

@[simp] theorem gap_nil : Gap [] := by simp [Gap]

theorem not_gap_of_mark {c : Char} (h : c ∈ [',', ']', '}']) : isGap c = false :=
  List.forall_iff_forall_mem.1 (by decide : List.Forall (isGap · = false) [',', ']', '}']) c h

theorem gap_cons {c : Char} {cs : List Char} : Gap (c :: cs) ↔ isGap c = true ∧ Gap cs := by
  simp only [Gap, List.forall_mem_cons, isGap_iff]

theorem Gap.append {g h : List Char} (hg : Gap g) (hh : Gap h) : Gap (g ++ h) :=
  List.forall_mem_append.2 ⟨hg, hh⟩

theorem Gap.eq_nil {g : List Char} (hg : Gap g) {c : Char} (hc : isGap c = false)
    {t u : List Char} (h : c :: t = g ++ u) : g = [] := by
  cases g with
  | nil => rfl
  | cons d g =>
    obtain ⟨rfl, -⟩ := List.cons_eq_cons.1 h
    simp [(gap_cons.1 hg).1] at hc

theorem gap_takeWhile (cs : List Char) : Gap (cs.takeWhile isGap) := fun _ hc =>
  isGap_iff.1 (List.mem_takeWhile_imp hc)

theorem Gap.dropWhile {g : List Char} (hg : Gap g) (cs : List Char) :
    (g ++ cs).dropWhile isGap = cs.dropWhile isGap := by
  induction g with
  | nil => rfl
  | cons c g ih =>
    rw [gap_cons] at hg
    rw [List.cons_append, List.dropWhile_cons_of_pos hg.1, ih hg.2]

/-- A text is a gap and what follows it. -/
theorem gap_append_dropWhile {cs t : List Char} (h : cs.dropWhile isGap = t) :
    ∃ g, Gap g ∧ cs = g ++ t :=
  ⟨_, gap_takeWhile cs, by rw [← h, List.takeWhile_append_dropWhile]⟩

def Stops (rest : List Char) : Prop := ∀ c ∈ rest.head?, isGap c = true ∨ c ∈ [',', ']', '}']

@[simp] theorem stops_nil : Stops [] := by simp [Stops]

theorem stops_cons {c : Char} (h : c ∈ [',', ']', '}']) (rest : List Char) : Stops (c :: rest) := by
  simpa [Stops] using Or.inr (by simpa using h)

theorem Gap.stops {g rest : List Char} (hg : Gap g) (h : Stops rest) : Stops (g ++ rest) := by
  cases g with
  | nil => exact h
  | cons c g => simp [Stops, (gap_cons.1 hg).1]

namespace Reader

variable {α β : Type} {cs rest : List Char}

section Run

variable {x : Reader α} {f : α → Reader β} {a : α} {b : β} {e : Fault}

theorem run_bind_ok (h : x.run cs = .ok (a, rest)) : (x >>= f).run cs = (f a).run rest := by
  rw [StateT.run_bind, h]
  rfl

theorem run_bind_error (h : x.run cs = .error e) : (x >>= f).run cs = .error e := by
  rw [StateT.run_bind, h]
  rfl

theorem run_bind_congr {cs' : List Char} (h : x.run cs = x.run cs') :
    (x >>= f).run cs = (x >>= f).run cs' := by
  rw [StateT.run_bind, h, ← StateT.run_bind]

theorem bind_eq_ok : (x >>= f).run cs = .ok (b, rest) ↔
    ∃ a mid, x.run cs = .ok (a, mid) ∧ (f a).run mid = .ok (b, rest) := by
  constructor
  · intro h
    cases hx : x.run cs with
    | error e => simp [run_bind_error hx] at h
    | ok p => exact ⟨p.1, p.2, rfl, (run_bind_ok hx).symm.trans h⟩
  · rintro ⟨a, mid, hx, hf⟩
    rw [run_bind_ok hx, hf]

theorem pure_eq_ok {a' : α} :
    (pure a : Reader α).run cs = .ok (a', rest) ↔ a = a' ∧ cs = rest := by
  rw [StateT.run_pure]
  simp [pure, Except.pure]

theorem map_eq_ok {g : α → β} : (x >>= fun a => pure (g a)).run cs = .ok (b, rest) ↔
    ∃ a, x.run cs = .ok (a, rest) ∧ g a = b := by
  simp only [bind_eq_ok, pure_eq_ok]
  constructor
  · rintro ⟨a, _, h, rfl, rfl⟩
    exact ⟨a, h, rfl⟩
  · rintro ⟨a, h, rfl⟩
    exact ⟨a, rest, h, rfl, rfl⟩

/-- A check before a reader. -/
theorem guard_eq_ok {p : Prop} [Decidable p] {k : PUnit → Reader α} :
    (if p then throw e >>= k else x).run cs = .ok (a, rest) ↔ ¬p ∧ x.run cs = .ok (a, rest) := by
  by_cases hp : p
  · rw [if_pos hp]
    exact iff_of_false (fun h => nomatch h) (fun h => h.1 hp)
  · rw [if_neg hp, and_iff_right hp]

/-- A reader that always refuses in the end. -/
theorem bind_refuse_ne_ok {m : β → Mismatch} {y : Reader β} {p : α × List Char} :
    (y >>= fun b => refuse (m b) : Reader α).run cs ≠ .ok p := by
  intro h
  obtain ⟨b, mid, -, hr⟩ := bind_eq_ok.1 (show _ = Except.ok (p.1, p.2) from h)
  cases hr

end Run

@[simp] theorem run_next (c : Char) (cs : List Char) : next.run (c :: cs) = .ok (c, cs) := rfl

theorem next_eq_ok {c : Char} : next.run cs = .ok (c, rest) ↔ cs = c :: rest := by
  cases cs with
  | nil => exact iff_of_false (fun h => nomatch h) (fun h => nomatch h)
  | cons d ds => simp

theorem run_gap (cs : List Char) : gap.run cs = .ok ((), cs.dropWhile isGap) := rfl

theorem gap_eq_ok {u : Unit} : gap.run cs = .ok (u, rest) ↔ cs.dropWhile isGap = rest := by
  simp [run_gap]

theorem run_remaining (cs : List Char) : remaining.run cs = .ok (cs.length, cs) := rfl

theorem remaining_eq_ok {n : Nat} :
    remaining.run cs = .ok (n, rest) ↔ cs.length = n ∧ cs = rest := by
  simp [run_remaining]

/-- The next token begins with `c`, after a gap that is taken. -/
theorem ahead_eq_ok {c : Char} :
    ahead.run cs = .ok (c, rest) ↔ cs.dropWhile isGap = rest ∧ ∃ t, rest = c :: t := by
  rw [ahead, run_bind_ok (run_gap cs)]
  cases cs.dropWhile isGap with
  | nil => exact iff_of_false (fun h => nomatch h) (by rintro ⟨rfl, t, ht⟩; cases ht)
  | cons d ds =>
    have hp : peek.run (d :: ds) = .ok (d, d :: ds) := rfl
    rw [hp]
    constructor
    · rintro ⟨⟩
      exact ⟨rfl, ds, rfl⟩
    · rintro ⟨rfl, t, ht⟩
      cases ht
      rfl

theorem mark_eq_ok {c : Char} {u : Unit} :
    (mark c).run cs = .ok (u, rest) ↔ cs.dropWhile isGap = c :: rest := by
  rw [mark, run_bind_ok (run_gap cs), bind_eq_ok]
  simp only [next_eq_ok]
  constructor
  · rintro ⟨d, mid, hd, h⟩
    split at h
    · cases h
    · next hc =>
      obtain ⟨-, rfl⟩ := pure_eq_ok.1 h
      rw [hd, not_not.1 hc]
  · intro h
    refine ⟨c, rest, h, ?_⟩
    rw [if_neg (not_not.2 rfl)]
    rfl

theorem word_eq_ok {w : List Char} {u : Unit} :
    (word w).run cs = .ok (u, rest) ↔ cs = w ++ rest := by
  induction w generalizing cs with
  | nil =>
    rw [word, pure_eq_ok]
    simp
  | cons c w ih =>
    rw [word, bind_eq_ok]
    simp only [next_eq_ok]
    constructor
    · rintro ⟨d, mid, rfl, h⟩
      split at h
      · cases h
      · next hc => rw [not_not.1 hc, ih.1 h, List.cons_append]
    · rintro rfl
      refine ⟨c, w ++ rest, rfl, ?_⟩
      rw [if_neg (not_not.2 rfl)]
      exact ih.2 rfl

theorem run_word (w rest : List Char) : (word w).run (w ++ rest) = .ok ((), rest) :=
  word_eq_ok.2 rfl

theorem run_ahead {g t : List Char} {c : Char} (hg : Gap g) (hc : isGap c = false) :
    ahead.run (g ++ c :: t) = .ok (c, c :: t) := by
  rw [ahead_eq_ok, hg.dropWhile, List.dropWhile_cons_of_neg (by simpa using hc)]
  exact ⟨rfl, t, rfl⟩

theorem run_ahead_cons {t : List Char} {c : Char} (hc : isGap c = false) :
    ahead.run (c :: t) = .ok (c, c :: t) :=
  run_ahead gap_nil hc

theorem ahead_gap {g : List Char} (hg : Gap g) (cs : List Char) :
    ahead.run (g ++ cs) = ahead.run cs := by
  rw [ahead, run_bind_ok (run_gap _), run_bind_ok (run_gap _), hg.dropWhile]

theorem run_mark {g : List Char} {c : Char} (hg : Gap g) (hc : isGap c = false)
    (rest : List Char) : (mark c).run (g ++ c :: rest) = .ok ((), rest) := by
  rw [mark_eq_ok, hg.dropWhile, List.dropWhile_cons_of_neg (by simpa using hc)]

theorem run_mark_cons {c : Char} (hc : isGap c = false) (rest : List Char) :
    (mark c).run (c :: rest) = .ok ((), rest) :=
  run_mark gap_nil hc rest

/-- What follows the first token of a value. -/
theorem ahead_split {c : Char} {mid : List Char} (h : ahead.run cs = .ok (c, mid)) :
    ∃ g t, Gap g ∧ mid = c :: t ∧ cs = g ++ c :: t := by
  rw [ahead_eq_ok] at h
  obtain ⟨h, t, rfl⟩ := h
  obtain ⟨g, hg, rfl⟩ := gap_append_dropWhile h
  exact ⟨g, t, hg, rfl, rfl⟩

theorem isGap_of_ahead {c : Char} {mid : List Char} (h : ahead.run cs = .ok (c, mid)) :
    isGap c = false := by
  rw [ahead_eq_ok] at h
  obtain ⟨h, t, rfl⟩ := h
  have hd := List.head?_dropWhile_not isGap cs
  rw [h] at hd
  simpa using hd

theorem mark_split {c : Char} {u : Unit} (h : (mark c).run cs = .ok (u, rest)) :
    ∃ g, Gap g ∧ cs = g ++ c :: rest :=
  gap_append_dropWhile (mark_eq_ok.1 h)

/-- A reader, and the mark after the gap that it leaves. -/
theorem run_to_mark {x : Reader α} {f : α → Char → Reader β} {a : α} {g : List Char} {c : Char}
    (h : x.run cs = .ok (a, g ++ c :: rest)) (hg : Gap g) (hc : c ∈ [',', ']', '}']) :
    (x >>= fun a => gap >>= fun _ => next >>= f a).run cs = (f a c).run rest := by
  rw [run_bind_ok h, run_bind_ok (run_gap _), hg.dropWhile,
    List.dropWhile_cons_of_neg (by simp [not_gap_of_mark hc]), run_bind_ok (run_next _ _)]

end Reader

/-- The first of several entries ends at a comma. -/
theorem intercalate_cons {t : List Char} {ts : List (List Char)} (h : ts ≠ []) (rest : List Char) :
    [','].intercalate (t :: ts) ++ rest = t ++ ',' :: ([','].intercalate ts ++ rest) := by
  rw [List.intercalate_cons_of_ne_nil h]
  simp

theorem listed_of_ne_nil {ts : List (List Char)} {inner : List Char} (h : ts ≠ []) :
    Listed ts inner ↔ inner = [','].intercalate ts := by
  cases ts with
  | nil => exact absurd rfl h
  | cons t ts => rfl

/-- A phrase begins with a character that neither is a gap nor closes a bracket; only `null` begins
with an `n`. -/
def Begins (body : List Char) : Prop :=
  ∃ c t, body = c :: t ∧ isGap c = false ∧ c ∉ [']', '}'] ∧ (c = 'n' → body = "null".toList)

/-- The text begins with a token after a gap, and the token closes no bracket. -/
def Opens (cs : List Char) : Prop :=
  ∃ g c u, cs = g ++ c :: u ∧ Gap g ∧ isGap c = false ∧ c ∉ [']', '}']

theorem Opens.append {cs : List Char} (h : Opens cs) (t : List Char) : Opens (cs ++ t) := by
  obtain ⟨g, c, u, rfl, hg⟩ := h
  exact ⟨g, c, u ++ t, by simp, hg⟩

theorem Opens.gap_append {g cs : List Char} (hg : Gap g) (h : Opens cs) : Opens (g ++ cs) := by
  obtain ⟨k, c, u, rfl, hk, hc⟩ := h
  exact ⟨g ++ k, c, u, by simp, hg.append hk, hc⟩

theorem Begins.opens {body : List Char} (h : Begins body) : Opens body := by
  obtain ⟨c, t, rfl, hg, hc, -⟩ := h
  exact ⟨[], c, t, rfl, gap_nil, hg, hc⟩

/-- Takes the phrases with a gap before them and nothing else. -/
structure Reads {α : Type} (r : Reader α) (phrase : List Char → α → Prop) : Prop where
  begins : ∀ {body a}, phrase body a → Begins body
  gap : ∀ {g}, Gap g → ∀ cs, r.run (g ++ cs) = r.run cs
  sound : ∀ {cs a rest}, r.run cs = .ok (a, rest) →
    ∃ g body, Gap g ∧ phrase body a ∧ cs = g ++ body ++ rest
  complete : ∀ {body a rest}, phrase body a → Stops rest → r.run (body ++ rest) = .ok (a, rest)

/-- Takes the entries, which may have gaps around them, and nothing else; some of the gap after an
entry may stay in the text. -/
structure Takes {α : Type} (r : Reader α) (entry : List Char → α → Prop) : Prop where
  opens : ∀ {t a}, entry t a → Opens t
  append_gap : ∀ {t h a}, entry t a → Gap h → entry (t ++ h) a
  sound : ∀ {cs a rest}, r.run cs = .ok (a, rest) → ∃ t, entry t a ∧ cs = t ++ rest
  complete : ∀ {t a rest}, entry t a → Stops rest →
    ∃ h, Gap h ∧ r.run (t ++ rest) = .ok (a, h ++ rest)

variable {α β : Type}

theorem Reads.takes {r : Reader α} {phrase : List Char → α → Prop} (h : Reads r phrase) :
    Takes r fun t a => Spaced (phrase · a) t where
  opens := by
    rintro _ a ⟨g, body, k, hg, hb, -, rfl⟩
    exact ((h.begins hb).opens.gap_append hg).append k
  append_gap := by
    rintro _ j a ⟨g, body, k, hg, hb, hk, rfl⟩ hj
    exact ⟨g, body, k ++ j, hg, hb, hk.append hj, by simp⟩
  sound hr := by
    obtain ⟨g, body, hg, hb, rfl⟩ := h.sound hr
    exact ⟨g ++ body, ⟨g, body, [], hg, hb, gap_nil, by simp⟩, rfl⟩
  complete := by
    rintro _ a rest ⟨g, body, k, hg, hb, hk, rfl⟩ hr
    refine ⟨k, hk, ?_⟩
    rw [List.append_assoc, List.append_assoc, h.gap hg, h.complete hb (hk.stops hr)]

/-- The value of a reader turned into another. -/
theorem Reads.map {r : Reader α} {phrase : List Char → α → Prop} (h : Reads r phrase)
    {phrase' : List Char → β → Prop} (f : α → β)
    (hf : ∀ {body b}, phrase' body b ↔ ∃ a, phrase body a ∧ f a = b) :
    Reads (r >>= fun a => pure (f a)) phrase' where
  begins hb := by
    obtain ⟨a, ha, -⟩ := hf.1 hb
    exact h.begins ha
  gap hg cs := run_bind_congr (h.gap hg cs)
  sound hr := by
    obtain ⟨a, ha, rfl⟩ := map_eq_ok.1 hr
    obtain ⟨g, body, hg, hb, rfl⟩ := h.sound ha
    exact ⟨g, body, hg, hf.2 ⟨a, hb, rfl⟩, rfl⟩
  complete hb hr := by
    obtain ⟨a, ha, rfl⟩ := hf.1 hb
    exact map_eq_ok.2 ⟨a, h.complete ha hr, rfl⟩

namespace Takes

variable {r : Reader α} {entry : List Char → α → Prop} {f : α → Char → Reader β} {b : β}
  {cs rest : List Char}

/-- An entry up to and with the mark after it. -/
theorem mark_sound (h : Takes r entry)
    (hr : (r >>= fun a => gap >>= fun _ => next >>= f a).run cs = .ok (b, rest)) :
    ∃ t a c mid, entry t a ∧ cs = t ++ c :: mid ∧ (f a c).run mid = .ok (b, rest) := by
  simp only [bind_eq_ok, gap_eq_ok, next_eq_ok] at hr
  obtain ⟨a, _, ha, _, _, hd, c, mid, rfl, hf⟩ := hr
  obtain ⟨t, ht, rfl⟩ := h.sound ha
  obtain ⟨g, hg, rfl⟩ := gap_append_dropWhile hd
  exact ⟨t ++ g, a, c, mid, h.append_gap ht hg, by simp, hf⟩

theorem mark_complete (h : Takes r entry) {t : List Char} {a : α} (ht : entry t a) {c : Char}
    (hc : c ∈ [',', ']', '}']) :
    (r >>= fun a => gap >>= fun _ => next >>= f a).run (t ++ c :: rest) = (f a c).run rest := by
  obtain ⟨g, hg, hr⟩ := h.complete ht (stops_cons hc rest)
  exact run_to_mark hr hg hc

end Takes

end SqlRender.Json
