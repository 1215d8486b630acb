import SqlRender.Json.Skip
import SqlRender.Proofs.Json.Reads
import Mathlib.Tactic.IntervalCases

/-!
# Reading texts

A text is read character by character, and each character in any of its spellings. An ignored text
is read in the same steps, without pairing the halves.
-/
namespace SqlRender.Json

theorem letterEscape_eq_some {e c : Char} : letterEscape e = some c ↔ (e, c) ∈ escapes := by
  unfold letterEscape escapes
  split <;> simp_all [eq_comm]

theorem hexValue?_eq_some {c : Char} {k : Nat} : hexValue? c = some k ↔ IsHex c k := by
  constructor
  · intro h
    unfold hexValue? at h
    simp only [Char.le_def, UInt32.le_iff_toNat_le] at h
    have hc : c = Char.ofNat c.val.toNat := (Char.ofNat_toNat c).symm
    simp only [Char.toNat] at h
    generalize c.val.toNat = n at h hc
    subst hc
    split at h
    · next hn =>
      obtain ⟨h₁, h₂⟩ : 48 ≤ n ∧ n ≤ 57 := hn
      obtain rfl : n - 48 = k := Option.some.inj h
      left
      interval_cases n <;> rfl
    split at h
    · next hn =>
      obtain ⟨h₁, h₂⟩ : 97 ≤ n ∧ n ≤ 102 := hn
      obtain rfl : n - 97 + 10 = k := Option.some.inj h
      left
      interval_cases n <;> rfl
    split at h
    · next hn =>
      obtain ⟨h₁, h₂⟩ : 65 ≤ n ∧ n ≤ 70 := hn
      obtain rfl : n - 65 + 10 = k := Option.some.inj h
      right
      interval_cases n <;> rfl
    · cases h
  · rintro (h | h)
    all_goals
      have hk : k < 16 := by simpa using (List.getElem?_eq_some_iff.1 h).1
      interval_cases k <;>
        · obtain rfl := Option.some.inj h
          rfl

theorem hexEscape_iff {cs : List Char} {n : Nat} : HexEscape cs n ↔
    ∃ a b c d, cs = ['\\', 'u', a, b, c, d] ∧ hexUnit? a b c d = some n := by
  simp only [HexEscape, hexUnit?, Option.bind_eq_bind, Option.bind_eq_some_iff, hexValue?_eq_some]
  constructor
  · rintro ⟨a, b, c, d, i, j, k, l, ha, hb, hc, hd, rfl, rfl⟩
    exact ⟨a, b, c, d, rfl, i, ha, j, hb, k, hc, l, hd, rfl⟩
  · rintro ⟨a, b, c, d, rfl, i, ha, j, hb, k, hc, l, hd, hn⟩
    exact ⟨a, b, c, d, i, j, k, l, ha, hb, hc, hd, rfl, (Option.some.inj hn).symm⟩

theorem IsHex.lt {c : Char} {k : Nat} (h : IsHex c k) : k < 16 := by
  rcases h with h | h
  all_goals simpa using (List.getElem?_eq_some_iff.1 h).1

theorem HexEscape.lt {cs : List Char} {n : Nat} (h : HexEscape cs n) : n < 0x10000 := by
  obtain ⟨a, b, c, d, i, j, k, l, ha, hb, hc, hd, -, rfl⟩ := h
  have := ha.lt
  have := hb.lt
  have := hc.lt
  have := hd.lt
  omega

theorem toNat_bounds (c : Char) : c.toNat < 0xD800 ∨ 0xDFFF < c.toNat ∧ c.toNat < 0x110000 :=
  c.valid

theorem toNat_ofNat {n : Nat} (h : n < 0xD800 ∨ 0xDFFF < n ∧ n < 0x110000) :
    (Char.ofNat n).toNat = n := by
  rw [Char.ofNat, dif_pos h]
  rfl

theorem HexEscape.eq_cons {cs : List Char} {n : Nat} (h : HexEscape cs n) :
    ∃ u, cs = '\\' :: 'u' :: u := by
  obtain ⟨a, b, c, d, rfl, -⟩ := hexEscape_iff.1 h
  exact ⟨_, rfl⟩

theorem units_eq_cons {us : List (List Char)} {c : Char}
    (h : List.Forall₂ HexEscape us (utf16 c)) : ∃ v, us.flatten = '\\' :: 'u' :: v := by
  unfold utf16 at h
  split at h
  all_goals
    obtain ⟨_, us, hv, -, rfl⟩ := List.forall₂_cons_right_iff.1 h
    obtain ⟨v, rfl⟩ := hv.eq_cons
    exact ⟨_, rfl⟩

/-- A spelling is the character itself or begins with a backslash. -/
theorem Spelling.eq_or {u : List Char} {c : Char} (h : Spelling u c) :
    (u = [c] ∧ IsPlain c) ∨ ∃ v, u = '\\' :: v := by
  cases h with
  | plain h => exact .inl ⟨rfl, h⟩
  | letter h => exact .inr ⟨_, rfl⟩
  | units h =>
    obtain ⟨v, hv⟩ := units_eq_cons h
    exact .inr ⟨_, hv⟩

/-- A character of the first plane is no half of a pair. -/
theorem utf16_eq_single {c : Char} {n : Nat} (hn : n < 0x10000) :
    utf16 c = [n] ↔ isLeading n = false ∧ isTrailing n = false ∧ Char.ofNat n = c := by
  have hc := toNat_bounds c
  simp only [isLeading, isTrailing, Bool.and_eq_false_iff, decide_eq_false_iff_not]
  unfold utf16
  constructor
  · intro h
    split at h
    · obtain rfl : c.toNat = n := List.singleton_inj.1 h
      exact ⟨by omega, by omega, Char.ofNat_toNat c⟩
    · simp at h
  · rintro ⟨h₁, h₂, rfl⟩
    rw [toNat_ofNat (by omega), if_pos hn]

/-- A character beyond the first plane is a pair of halves. -/
theorem utf16_eq_pair {c : Char} {n m : Nat} : utf16 c = [n, m] ↔
    isLeading n = true ∧ isTrailing m = true ∧
      Char.ofNat (0x10000 + (n - 0xD800) * 0x400 + (m - 0xDC00)) = c := by
  have hc := toNat_bounds c
  simp only [isLeading, isTrailing, Bool.and_eq_true, decide_eq_true_eq]
  unfold utf16
  constructor
  · intro h
    split at h
    · simp at h
    · simp only [List.cons.injEq, and_true] at h
      have hv : 0x10000 + (n - 0xD800) * 0x400 + (m - 0xDC00) = c.toNat := by omega
      exact ⟨by omega, by omega, by rw [hv, Char.ofNat_toNat]⟩
  · rintro ⟨h₁, h₂, rfl⟩
    rw [toNat_ofNat (by omega), if_neg (by omega)]
    simp only [List.cons.injEq, and_true]
    omega

theorem Quoted.begins {body : List Char} {s : String} (h : Quoted body s) : Begins body := by
  obtain ⟨us, -, rfl⟩ := h
  exact ⟨'"', _, rfl, by decide, by decide, fun h => absurd h (by decide)⟩

namespace Reader

variable {cs rest : List Char}

theorem hexUnit_eq_ok {n : Nat} : hexUnit.run cs = .ok (n, rest) ↔
    ∃ u, HexEscape ('\\' :: 'u' :: u) n ∧ cs = u ++ rest := by
  simp only [hexEscape_iff]
  constructor
  · intro h
    rw [hexUnit, bind_eq_ok] at h
    obtain ⟨_, _, hg, h⟩ := h
    cases hg
    split at h
    · next a b c d tail =>
      split at h
      · next hu =>
        cases h
        exact ⟨[a, b, c, d], ⟨a, b, c, d, rfl, hu⟩, rfl⟩
      · cases h
    · split at h <;> cases h
  · rintro ⟨u, ⟨a, b, c, d, hu, hn⟩, rfl⟩
    cases hu
    simp [hexUnit, hn]
    rfl

theorem not_isTrailing_of_isLeading {n : Nat} (h : isLeading n) : isTrailing n = false := by
  simp only [isLeading, isTrailing, Bool.and_eq_true, Bool.and_eq_false_iff, decide_eq_true_eq,
    decide_eq_false_iff_not] at h ⊢
  omega

/-- The escape of a character after its first backslash and its `u`. -/
theorem unicodeEscape_sound {c : Char} (h : unicodeEscape.run cs = .ok (c, rest)) :
    ∃ us, List.Forall₂ HexEscape us (utf16 c) ∧ '\\' :: 'u' :: cs = us.flatten ++ rest := by
  rw [unicodeEscape, bind_eq_ok] at h
  obtain ⟨n, mid, hn, h⟩ := h
  obtain ⟨u, hu, rfl⟩ := hexUnit_eq_ok.1 hn
  dsimp only at h
  rw [guard_eq_ok] at h
  obtain ⟨ht, h⟩ := h
  split at h
  · next hl =>
    rw [bind_eq_ok] at h
    obtain ⟨_, _, hw, h⟩ := h
    obtain rfl := word_eq_ok.1 hw
    rw [bind_eq_ok] at h
    obtain ⟨m, _, hm, h⟩ := h
    obtain ⟨v, hv, rfl⟩ := hexUnit_eq_ok.1 hm
    split at h
    · next hm =>
      obtain ⟨hc, rfl⟩ := pure_eq_ok.1 h
      have hp : utf16 c = [n, m] := utf16_eq_pair.2 ⟨hl, hm, hc⟩
      refine ⟨['\\' :: 'u' :: u, '\\' :: 'u' :: v], ?_, by simp⟩
      rw [hp]
      exact .cons hu (.cons hv .nil)
    · cases h
  · next hl =>
    obtain ⟨hc, rfl⟩ := pure_eq_ok.1 h
    have hp : utf16 c = [n] :=
      (utf16_eq_single hu.lt).2 ⟨by simpa using hl, by simpa using ht, hc⟩
    refine ⟨['\\' :: 'u' :: u], ?_, by simp⟩
    rw [hp]
    exact .cons hu .nil

/-- One unit is read alone, and a leading half takes the escape of its trailing half. -/
theorem unicodeEscape_complete {c : Char} {us : List (List Char)}
    (h : List.Forall₂ HexEscape us (utf16 c)) (he : '\\' :: 'u' :: cs = us.flatten ++ rest) :
    unicodeEscape.run cs = .ok (c, rest) := by
  by_cases hc : c.toNat < 0x10000
  · have hu : utf16 c = [c.toNat] := if_pos hc
    obtain ⟨hl, ht, hn⟩ := (utf16_eq_single hc).1 hu
    simp only [hu, List.forall₂_cons_right_iff, List.forall₂_nil_right_iff] at h
    obtain ⟨_, _, hn', rfl, rfl⟩ := h
    obtain ⟨u, rfl⟩ := hn'.eq_cons
    obtain rfl : cs = u ++ rest := by simpa using he
    rw [unicodeEscape, run_bind_ok (hexUnit_eq_ok.2 ⟨u, hn', rfl⟩)]
    simp only [ht, hl, hn]
    rfl
  · obtain ⟨n, m, hu⟩ : ∃ n m, utf16 c = [n, m] := ⟨_, _, if_neg hc⟩
    obtain ⟨hl, hm, hn⟩ := utf16_eq_pair.1 hu
    have ht := not_isTrailing_of_isLeading hl
    simp only [hu, List.forall₂_cons_right_iff, List.forall₂_nil_right_iff] at h
    obtain ⟨_, _, hn', ⟨_, _, hm', rfl, rfl⟩, rfl⟩ := h
    obtain ⟨u, rfl⟩ := hn'.eq_cons
    obtain ⟨v, rfl⟩ := hm'.eq_cons
    obtain rfl : cs = u ++ '\\' :: 'u' :: (v ++ rest) := by simpa using he
    rw [unicodeEscape, run_bind_ok (hexUnit_eq_ok.2 ⟨u, hn', rfl⟩)]
    simp only [ht, hl]
    refine (run_bind_ok (run_word ['\\', 'u'] (v ++ rest))).trans ?_
    rw [run_bind_ok (hexUnit_eq_ok.2 ⟨v, hm', rfl⟩), if_pos hm, hn]
    rfl

/-- The escape of a character after its backslash. -/
theorem escape_eq_ok {c : Char} : escape.run cs = .ok (c, rest) ↔
    ∃ u, Spelling ('\\' :: u) c ∧ cs = u ++ rest := by
  constructor
  · intro h
    rw [escape, bind_eq_ok] at h
    obtain ⟨e, mid, he, h⟩ := h
    obtain rfl := next_eq_ok.1 he
    split at h
    · next hu =>
      subst hu
      obtain ⟨us, hs, hcs⟩ := unicodeEscape_sound h
      obtain ⟨v, hv⟩ := units_eq_cons hs
      have hu : Spelling us.flatten c := .units hs
      rw [hv] at hu hcs
      exact ⟨'u' :: v, hu, List.tail_eq_of_cons_eq hcs⟩
    · split at h
      · next x hx =>
        obtain ⟨rfl, rfl⟩ := pure_eq_ok.1 h
        exact ⟨[e], .letter (letterEscape_eq_some.1 hx), rfl⟩
      · cases h
  · rintro ⟨u, hu, rfl⟩
    generalize hw : '\\' :: u = w at hu
    cases hu with
    | plain h =>
      obtain ⟨rfl, -⟩ := List.cons_eq_cons.1 hw
      exact absurd rfl h.2.1
    | @letter e _ h =>
      obtain rfl : u = [e] := List.tail_eq_of_cons_eq hw
      have hx := letterEscape_eq_some.2 h
      have hu : e ≠ 'u' := by
        rintro rfl
        cases hx
      rw [escape, List.singleton_append, run_bind_ok (run_next e rest), if_neg hu, hx]
      rfl
    | units h =>
      obtain ⟨v, hv⟩ := units_eq_cons h
      obtain rfl : u = 'u' :: v := List.tail_eq_of_cons_eq (hw.trans hv)
      rw [escape, List.cons_append, run_bind_ok (run_next _ _), if_pos rfl]
      exact unicodeEscape_complete h (by rw [hv]; rfl)

theorem textBody_sound {n : Nat} {s : List Char} (h : (textBody n).run cs = .ok (s, rest)) :
    ∃ us, List.Forall₂ Spelling us s ∧ cs = us.flatten ++ '"' :: rest := by
  induction n generalizing cs s with
  | zero => cases h
  | succ n ih =>
    rw [textBody, bind_eq_ok] at h
    obtain ⟨c, mid, hc, h⟩ := h
    obtain rfl := next_eq_ok.1 hc
    split at h
    · next hq =>
      obtain ⟨rfl, rfl⟩ := pure_eq_ok.1 h
      exact ⟨[], .nil, by rw [hq]; rfl⟩
    · next hq =>
      split at h
      · next hb =>
        simp only [bind_eq_ok, pure_eq_ok, escape_eq_ok] at h
        obtain ⟨x, _, ⟨u, hu, rfl⟩, t, _, ht, rfl, rfl⟩ := h
        obtain ⟨us, hus, rfl⟩ := ih ht
        refine ⟨('\\' :: u) :: us, .cons hu hus, ?_⟩
        simp [hb]
      · next hb =>
        split at h
        · cases h
        · next hl =>
          simp only [bind_eq_ok, pure_eq_ok] at h
          obtain ⟨t, _, ht, rfl, rfl⟩ := h
          obtain ⟨us, hus, rfl⟩ := ih ht
          exact ⟨[c] :: us, .cons (.plain ⟨hq, hb, Char.not_lt.1 hl⟩) hus, rfl⟩

theorem textBody_complete {n : Nat} {us : List (List Char)} {s : List Char}
    (h : List.Forall₂ Spelling us s) (hn : s.length < n) (rest : List Char) :
    (textBody n).run (us.flatten ++ '"' :: rest) = .ok (s, rest) := by
  induction h generalizing n with
  | nil =>
    obtain ⟨n, rfl⟩ := Nat.exists_eq_add_of_lt hn
    rfl
  | @cons u c us s hu hus ih =>
    obtain ⟨n, rfl⟩ : ∃ m, n = m + 1 := ⟨n - 1, by omega⟩
    have hs := ih (by simpa using hn)
    rw [textBody, List.flatten_cons, List.append_assoc]
    rcases hu.eq_or with ⟨rfl, hq, hb, hl⟩ | ⟨v, rfl⟩
    · rw [List.singleton_append, run_bind_ok (run_next _ _), if_neg hq, if_neg hb,
        if_neg (Char.not_lt.2 hl), run_bind_ok hs]
      rfl
    · rw [List.cons_append, run_bind_ok (run_next _ _), if_neg (by decide), if_pos rfl,
        run_bind_ok (escape_eq_ok.2 ⟨v, hu, rfl⟩), run_bind_ok hs]
      rfl

theorem length_le_flatten {us : List (List Char)} {s : List Char}
    (h : List.Forall₂ Spelling us s) : s.length ≤ us.flatten.length := by
  induction h with
  | nil => rfl
  | @cons u c us s hu _ ih =>
    have hl : 0 < u.length := by rcases hu.eq_or with ⟨rfl, -⟩ | ⟨v, rfl⟩ <;> simp
    rw [List.flatten_cons, List.length_append, List.length_cons]
    omega

/-- A text from its opening to its closing quote. -/
theorem text_eq_ok {s : String} : text.run cs = .ok (s, rest) ↔
    ∃ body, Quoted body s ∧ cs = body ++ rest := by
  constructor
  · intro h
    simp only [text, bind_eq_ok, word_eq_ok, remaining_eq_ok, pure_eq_ok] at h
    obtain ⟨_, _, rfl, _, _, ⟨rfl, rfl⟩, t, _, ht, rfl, rfl⟩ := h
    obtain ⟨us, hus, rfl⟩ := textBody_sound ht
    exact ⟨'"' :: us.flatten ++ ['"'], ⟨us, by rwa [String.toList_ofList], rfl⟩, by simp⟩
  · rintro ⟨body, ⟨us, hus, rfl⟩, rfl⟩
    have hr := run_remaining (us.flatten ++ '"' :: rest)
    have hl := length_le_flatten hus
    have hb := textBody_complete (n := (us.flatten ++ '"' :: rest).length + 1) hus
      (by rw [List.length_append]; omega) rest
    have he : '"' :: us.flatten ++ ['"'] ++ rest = ['"'] ++ (us.flatten ++ '"' :: rest) := by simp
    rw [text, he, run_bind_ok (run_word _ _)]
    rw [run_bind_ok hr, run_bind_ok hb, String.ofList_toList]
    rfl

/-- The name of a member, with the gap before it. -/
theorem key_eq_ok {s : String} : key.run cs = .ok (s, rest) ↔
    ∃ g body, Gap g ∧ Quoted body s ∧ cs = g ++ body ++ rest := by
  rw [key, run_bind_ok (run_gap cs), text_eq_ok]
  constructor
  · rintro ⟨body, hb, hcs⟩
    exact ⟨_, body, gap_takeWhile cs, hb, by
      rw [List.append_assoc, ← hcs, List.takeWhile_append_dropWhile]⟩
  · rintro ⟨g, _, hg, ⟨us, hus, rfl⟩, rfl⟩
    refine ⟨_, ⟨us, hus, rfl⟩, ?_⟩
    rw [List.append_assoc, hg.dropWhile]
    rfl

theorem skipText_sound {n : Nat} {u : Unit} (h : (skipText n).run cs = .ok (u, rest)) :
    ∃ us : List (List Char), (∀ u ∈ us, LooseSpelling u) ∧ cs = us.flatten ++ '"' :: rest := by
  induction n generalizing cs with
  | zero => cases h
  | succ n ih =>
    rw [skipText, bind_eq_ok] at h
    obtain ⟨c, mid, hc, h⟩ := h
    obtain rfl := next_eq_ok.1 hc
    split at h
    · next hq =>
      obtain ⟨-, rfl⟩ := pure_eq_ok.1 h
      exact ⟨[], by simp, by rw [hq]; rfl⟩
    · next hq =>
      split at h
      · next hb =>
        subst hb
        rw [bind_eq_ok] at h
        obtain ⟨e, _, he, h⟩ := h
        obtain rfl := next_eq_ok.1 he
        dsimp only at h
        split at h
        · next he =>
          subst he
          rw [bind_eq_ok] at h
          obtain ⟨m, _, hm, h⟩ := h
          obtain ⟨v, hv, rfl⟩ := hexUnit_eq_ok.1 hm
          obtain ⟨us, hus, rfl⟩ := ih h
          exact ⟨('\\' :: 'u' :: v) :: us, List.forall_mem_cons.2 ⟨.unit hv, hus⟩, by simp⟩
        · rw [guard_eq_ok] at h
          obtain ⟨hx, h⟩ := h
          obtain ⟨x, hx⟩ : ∃ x, letterEscape e = some x := by
            simpa [Option.ne_none_iff_exists'] using hx
          obtain ⟨us, hus, rfl⟩ := ih h
          exact ⟨['\\', e] :: us,
            List.forall_mem_cons.2 ⟨.letter (letterEscape_eq_some.1 hx), hus⟩, rfl⟩
      · next hb =>
        split at h
        · cases h
        · next hl =>
          obtain ⟨us, hus, rfl⟩ := ih h
          exact ⟨[c] :: us, by simpa using ⟨.plain ⟨hq, hb, Char.not_lt.1 hl⟩, hus⟩, rfl⟩

theorem skipText_complete {n : Nat} {us : List (List Char)} (h : ∀ u ∈ us, LooseSpelling u)
    (hn : us.length < n) (rest : List Char) :
    (skipText n).run (us.flatten ++ '"' :: rest) = .ok ((), rest) := by
  induction us generalizing n with
  | nil =>
    obtain ⟨n, rfl⟩ := Nat.exists_eq_add_of_lt hn
    rfl
  | cons u us ih =>
    obtain ⟨n, rfl⟩ : ∃ m, n = m + 1 := ⟨n - 1, by omega⟩
    rw [List.forall_mem_cons] at h
    have hs := ih h.2 (by simpa using hn)
    rw [skipText, List.flatten_cons, List.append_assoc]
    rcases h.1 with ⟨hq, hb, hl⟩ | he | hv
    · rw [List.singleton_append, run_bind_ok (run_next _ _), if_neg hq, if_neg hb,
        if_neg (Char.not_lt.2 hl), hs]
    · next e x =>
      have hx := letterEscape_eq_some.2 he
      have hu : e ≠ 'u' := by
        rintro rfl
        cases hx
      rw [List.cons_append, run_bind_ok (run_next _ _), if_neg (by decide), if_pos rfl,
        List.singleton_append, run_bind_ok (run_next _ _)]
      dsimp only
      rw [if_neg hu, hx]
      exact hs
    · obtain ⟨v, rfl⟩ := hv.eq_cons
      rw [List.cons_append, run_bind_ok (run_next _ _), if_neg (by decide), if_pos rfl,
        List.cons_append, run_bind_ok (run_next _ _)]
      dsimp only
      rw [if_pos rfl, run_bind_ok (hexUnit_eq_ok.2 ⟨v, hv, rfl⟩), hs]

theorem length_le_flatten_loose {us : List (List Char)} (h : ∀ u ∈ us, LooseSpelling u) :
    us.length ≤ us.flatten.length := by
  induction us with
  | nil => rfl
  | cons u us ih =>
    rw [List.forall_mem_cons] at h
    have hu : 0 < u.length := by
      rcases h.1 with _ | _ | hv
      · simp
      · simp
      · obtain ⟨v, rfl⟩ := hv.eq_cons
        simp
    have := ih h.2
    rw [List.flatten_cons, List.length_append, List.length_cons]
    omega

/-- An ignored text after its opening quote. -/
theorem skipText_eq_ok {u : Unit} : (skipText (cs.length + 1)).run cs = .ok (u, rest) ↔
    ∃ us : List (List Char), (∀ u ∈ us, LooseSpelling u) ∧ cs = us.flatten ++ '"' :: rest := by
  constructor
  · exact skipText_sound
  · rintro ⟨us, hus, rfl⟩
    have hl := length_le_flatten_loose hus
    exact skipText_complete hus (by rw [List.length_append]; omega) rest

end Reader

end SqlRender.Json
