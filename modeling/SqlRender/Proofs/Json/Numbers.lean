import SqlRender.Json.Number
import SqlRender.Proofs.Json.Reads
import Mathlib.Data.List.Induction
import Mathlib.Tactic.IntervalCases

/-!
# Reading numbers

A number is read as far as it goes: its digits, its fraction and its exponent end where no further
character of theirs stands. A natural number is read from its one plain decimal form and from no
other text.
-/
namespace SqlRender.Json

/-- What may follow a phrase is no part of a number. -/
theorem Stops.head {rest : List Char} (h : Stops rest) {c : Char} (hc : c ∈ rest.head?) :
    c.isDigit = false ∧ c ≠ '.' ∧ (c == 'e' || c == 'E') = false := by
  have hall : ∀ d ∈ [' ', '\t', '\n', '\r', ',', ']', '}'],
      d.isDigit = false ∧ d ≠ '.' ∧ (d == 'e' || d == 'E') = false :=
    List.forall_iff_forall_mem.1 (by decide)
  apply hall
  rcases h c hc with hg | hm
  · exact List.mem_append_left [',', ']', '}'] (isGap_iff.1 hg)
  · exact List.mem_append_right [' ', '\t', '\n', '\r'] hm

theorem Digits.eq_cons {ds : List Char} (h : Digits ds) : ∃ c t, ds = c :: t ∧ c.isDigit := by
  obtain ⟨c, t, rfl⟩ := List.exists_cons_of_ne_nil h.1
  exact ⟨c, t, rfl, h.2 c List.mem_cons_self⟩

namespace Reader

variable {cs rest : List Char}

theorem takeWhile_digits {ds : List Char} (hd : ∀ c ∈ ds, c.isDigit)
    (hr : ∀ c ∈ rest.head?, c.isDigit = false) :
    (ds ++ rest).takeWhile Char.isDigit = ds ∧ (ds ++ rest).dropWhile Char.isDigit = rest := by
  have hn : rest.takeWhile Char.isDigit = [] ∧ rest.dropWhile Char.isDigit = rest := by
    cases rest with
    | nil => exact ⟨rfl, rfl⟩
    | cons c rest => simp [hr c rfl]
  rw [List.takeWhile_append_of_pos hd, List.dropWhile_append_of_pos hd, hn.1, hn.2,
    List.append_nil]
  exact ⟨rfl, rfl⟩

theorem digits_eq_ok {e : Fault} {ds : List Char} : (digits e).run cs = .ok (ds, rest) ↔
    Digits ds ∧ cs = ds ++ rest ∧ ∀ c ∈ rest.head?, c.isDigit = false := by
  have hg : (get : Reader (List Char)).run cs = .ok (cs, cs) := rfl
  rw [digits, run_bind_ok hg]
  constructor
  · intro h
    split at h
    · cases h
    · cases h
    · next hn hc =>
      have hne : cs.takeWhile Char.isDigit ≠ [] := by
        intro ht
        cases hd : cs.dropWhile Char.isDigit with
        | nil => exact hn ht hd
        | cons c tail => exact hc c tail ht hd
      cases h
      refine ⟨⟨hne, fun c hc => List.mem_takeWhile_imp hc⟩, by simp, fun c hc => ?_⟩
      have hf := List.head?_dropWhile_not Char.isDigit cs
      rwa [Option.mem_def.1 hc] at hf
  · rintro ⟨⟨hne, hd⟩, rfl, hr⟩
    obtain ⟨ht, hw⟩ := takeWhile_digits hd hr
    rw [ht, hw]
    split
    · next h _ => exact absurd rfl hne
    · next h _ => exact absurd rfl hne
    · rfl

theorem accept_eq_ok {p : Char → Bool} {o : Option Char} : (accept p).run cs = .ok (o, rest) ↔
    (∃ c, o = some c ∧ p c = true ∧ cs = c :: rest) ∨
      (o = none ∧ cs = rest ∧ ∀ c ∈ rest.head?, p c = false) := by
  cases cs with
  | nil =>
    have hr : (accept p).run [] = .ok (none, []) := rfl
    rw [hr]
    constructor
    · rintro ⟨⟩
      exact .inr ⟨rfl, rfl, by simp⟩
    · rintro (⟨c, -, -, h⟩ | ⟨rfl, rfl, -⟩)
      · cases h
      · rfl
  | cons d ds =>
    have hr : (accept p).run (d :: ds) =
        if p d then .ok (some d, ds) else .ok (none, d :: ds) := by
      cases hp : p d <;> simp [accept, hp] <;> rfl
    rw [hr]
    constructor
    · intro h
      split at h
      · next hp =>
        cases h
        exact .inl ⟨d, rfl, hp, rfl⟩
      · next hp =>
        cases h
        exact .inr ⟨rfl, rfl, by simpa using hp⟩
    · rintro (⟨c, rfl, hp, h⟩ | ⟨rfl, rfl, hp⟩)
      · obtain ⟨rfl, rfl⟩ := List.cons_eq_cons.1 h
        rw [if_pos hp]
      · rw [if_neg (by simpa using hp)]

theorem fraction_eq_ok {e : Fault} {ds : List Char} : (fraction e).run cs = .ok (ds, rest) ↔
    (Digits ds ∧ cs = '.' :: ds ++ rest ∧ ∀ c ∈ rest.head?, c.isDigit = false) ∨
      (ds = [] ∧ cs = rest ∧ ∀ c ∈ rest.head?, c ≠ '.') := by
  rw [fraction, bind_eq_ok]
  simp only [accept_eq_ok]
  constructor
  · rintro ⟨o, mid, ⟨c, rfl, hc, rfl⟩ | ⟨rfl, rfl, hn⟩, h⟩
    · obtain ⟨hd, rfl, hr⟩ := digits_eq_ok.1 h
      exact .inl ⟨hd, by rw [eq_of_beq hc]; rfl, hr⟩
    · obtain ⟨rfl, rfl⟩ := pure_eq_ok.1 h
      exact .inr ⟨rfl, rfl, by simpa using hn⟩
  · rintro (⟨hd, rfl, hr⟩ | ⟨rfl, rfl, hn⟩)
    · exact ⟨_, _, .inl ⟨'.', rfl, rfl, rfl⟩, digits_eq_ok.2 ⟨hd, rfl, hr⟩⟩
    · exact ⟨_, _, .inr ⟨rfl, rfl, by simpa using hn⟩, rfl⟩

/-- The exponent shows in the text whatever its value is. -/
theorem exponent_sound {e : Fault} {o : Option Int} (h : (exponent e).run cs = .ok (o, rest)) :
    ∃ body, Exponent body ∧ cs = body ++ rest ∧ o.isNone = body.isEmpty := by
  simp only [exponent, bind_eq_ok, accept_eq_ok] at h
  obtain ⟨_, mid, ⟨c, rfl, hc, rfl⟩ | ⟨rfl, rfl, -⟩, h⟩ := h
  · simp only [bind_eq_ok, accept_eq_ok, digits_eq_ok, pure_eq_ok] at h
    obtain ⟨_, _, hs, ds, _, ⟨hd, rfl, -⟩, rfl, rfl⟩ := h
    have hc : c = 'e' ∨ c = 'E' := by simpa using hc
    obtain ⟨d, rfl, hp, rfl⟩ | ⟨rfl, rfl, -⟩ := hs
    · exact ⟨c :: [d] ++ ds, .inr ⟨c, [d], ds, hc, by simpa [or_comm] using hp, hd, rfl⟩,
        by simp, rfl⟩
    · exact ⟨c :: [] ++ ds, .inr ⟨c, [], ds, hc, by simp, hd, rfl⟩, by simp, rfl⟩
  · obtain ⟨rfl, rfl⟩ := pure_eq_ok.1 h
    exact ⟨[], .inl rfl, rfl, rfl⟩

theorem exponent_complete {e : Fault} {body : List Char} (h : Exponent body) (hr : Stops rest) :
    ∃ o, (exponent e).run (body ++ rest) = .ok (o, rest) ∧ o.isNone = body.isEmpty := by
  obtain rfl | ⟨c, sign, ds, hc, hs, hd, rfl⟩ := h
  · refine ⟨none, ?_, rfl⟩
    rw [exponent, List.nil_append,
      run_bind_ok (accept_eq_ok.2 (.inr ⟨rfl, rfl, fun c hc => (hr.head hc).2.2⟩))]
    rfl
  · have hr' : (digits e).run (ds ++ rest) = .ok (ds, rest) :=
      digits_eq_ok.2 ⟨hd, rfl, fun c hc => (hr.head hc).1⟩
    have hs' : ∃ o, (accept fun c => c == '+' || c == '-').run (sign ++ (ds ++ rest)) =
        .ok (o, ds ++ rest) := by
      simp only [List.mem_cons, List.not_mem_nil, or_false] at hs
      rcases hs with rfl | rfl | rfl
      · obtain ⟨d, t, rfl, ht⟩ := hd.eq_cons
        have hn : (d == '+' || d == '-') = false := by
          by_contra hp
          rcases (by simpa [or_iff_not_imp_left] using hp : d = '+' ∨ d = '-') with rfl | rfl <;>
            exact absurd ht (by decide)
        exact ⟨none, accept_eq_ok.2 (.inr ⟨rfl, rfl, by simpa using hn⟩)⟩
      · exact ⟨some '+', accept_eq_ok.2 (.inl ⟨'+', rfl, rfl, rfl⟩)⟩
      · exact ⟨some '-', accept_eq_ok.2 (.inl ⟨'-', rfl, rfl, rfl⟩)⟩
    obtain ⟨o, ho⟩ := hs'
    refine ⟨some (if o = some '-' then -(digitsValue ds : Int) else digitsValue ds), ?_, rfl⟩
    rw [exponent, List.append_assoc, List.cons_append,
      run_bind_ok (accept_eq_ok.2 (.inl ⟨c, rfl, by simpa using hc, rfl⟩))]
    dsimp only
    rw [run_bind_ok ho, run_bind_ok hr']
    rfl

theorem fraction_sound {e : Fault} {ds : List Char} (h : (fraction e).run cs = .ok (ds, rest)) :
    ∃ body, Fraction body ∧ cs = body ++ rest ∧ ds.isEmpty = body.isEmpty := by
  obtain ⟨hd, rfl, -⟩ | ⟨rfl, rfl, -⟩ := fraction_eq_ok.1 h
  · exact ⟨'.' :: ds, .inr ⟨ds, hd, rfl⟩, rfl, by simpa using hd.1⟩
  · exact ⟨[], .inl rfl, rfl, rfl⟩

end Reader

def Numeral.Written (n : Numeral) (cs : List Char) : Prop :=
  ∃ sign fraction exponent, sign ∈ [[], ['-']] ∧ Whole n.whole ∧ Fraction fraction ∧
    Exponent exponent ∧ cs = sign ++ n.whole ++ fraction ++ exponent ∧
    n.negative = !sign.isEmpty ∧ n.plain = (fraction.isEmpty && exponent.isEmpty)

theorem Numeral.Written.written {n : Numeral} {cs : List Char} (h : n.Written cs) :
    Number.Written cs := by
  obtain ⟨sign, fraction, exponent, hs, hw, hf, he, hcs, -⟩ := h
  exact ⟨sign, n.whole, fraction, exponent, hs, hw, hf, he, hcs⟩

/-- A whole part without a leading zero passes the check of the reader. -/
theorem whole_iff {ds : List Char} :
    Whole ds ↔ Digits ds ∧ ¬(ds.head? = some '0' ∧ ds.length ≠ 1) := by
  refine and_congr_right fun _ => ?_
  constructor
  · rintro h ⟨hz, hl⟩
    exact hl (by rw [h hz]; rfl)
  · intro h hz
    obtain ⟨x, hx⟩ := List.length_eq_one_iff.1 (by simpa [hz] using h)
    simpa [hx] using hz

namespace Reader

variable {cs rest : List Char}

theorem numeral_sound {e : Fault} {n : Numeral} (h : (numeral e).run cs = .ok (n, rest)) :
    ∃ body, n.Written body ∧ cs = body ++ rest := by
  rw [numeral, bind_eq_ok] at h
  obtain ⟨o, _, hs, h⟩ := h
  rw [bind_eq_ok] at h
  obtain ⟨ds, _, hd, h⟩ := h
  rw [digits_eq_ok] at hd
  obtain ⟨hd, rfl, -⟩ := hd
  dsimp only at h
  rw [guard_eq_ok, bind_eq_ok] at h
  obtain ⟨hz, f, _, hr, h⟩ := h
  obtain ⟨fraction, hf, rfl, hfe⟩ := fraction_sound hr
  rw [bind_eq_ok] at h
  obtain ⟨p, _, hp, h⟩ := h
  obtain ⟨exponent, he, rfl, hpe⟩ := exponent_sound hp
  obtain ⟨rfl, rfl⟩ := pure_eq_ok.1 h
  have hw : Whole ds := whole_iff.2 ⟨hd, hz⟩
  have hplain : (f.isEmpty && p.isNone) = (fraction.isEmpty && exponent.isEmpty) := by rw [hfe, hpe]
  rw [accept_eq_ok] at hs
  obtain ⟨c, rfl, hc, rfl⟩ | ⟨rfl, rfl, -⟩ := hs
  · obtain rfl := eq_of_beq hc
    exact ⟨['-'] ++ ds ++ fraction ++ exponent,
      ⟨['-'], fraction, exponent, by simp, hw, hf, he, rfl, rfl, hplain⟩, by simp⟩
  · exact ⟨[] ++ ds ++ fraction ++ exponent,
      ⟨[], fraction, exponent, by simp, hw, hf, he, rfl, rfl, hplain⟩, by simp⟩

theorem fraction_complete {e : Fault} {body : List Char} (h : Fraction body)
    (hr : ∀ c ∈ rest.head?, c.isDigit = false ∧ c ≠ '.') :
    ∃ ds, (fraction e).run (body ++ rest) = .ok (ds, rest) ∧ ds.isEmpty = body.isEmpty := by
  obtain rfl | ⟨ds, hd, rfl⟩ := h
  · exact ⟨[], fraction_eq_ok.2 (.inr ⟨rfl, rfl, fun c hc => (hr c hc).2⟩), rfl⟩
  · exact ⟨ds, fraction_eq_ok.2 (.inl ⟨hd, rfl, fun c hc => (hr c hc).1⟩), by simpa using hd.1⟩

theorem sign_complete {sign cs : List Char} (hs : sign ∈ [[], ['-']]) (hc : '-' ∉ cs.head?) :
    ∃ o, (accept (· == '-')).run (sign ++ cs) = .ok (o, cs) ∧ o.isSome = !sign.isEmpty := by
  simp only [List.mem_cons, List.not_mem_nil, or_false] at hs
  rcases hs with rfl | rfl
  · refine ⟨none, accept_eq_ok.2 (.inr ⟨rfl, rfl, fun c h => ?_⟩), rfl⟩
    simpa using fun hn : c = '-' => hc (hn ▸ h)
  · exact ⟨some '-', accept_eq_ok.2 (.inl ⟨'-', rfl, rfl, rfl⟩), rfl⟩

theorem numeral_complete {e : Fault} {sign whole frac expo : List Char}
    (hs : sign ∈ [[], ['-']]) (hw : Whole whole) (hf : Fraction frac) (he : Exponent expo)
    (hr : Stops rest) :
    ∃ n, (numeral e).run (sign ++ whole ++ frac ++ expo ++ rest) = .ok (n, rest) ∧
      n.whole = whole ∧ n.negative = !sign.isEmpty ∧
      n.plain = (frac.isEmpty && expo.isEmpty) := by
  -- Each part ends where the next one begins, since that is no digit and no point.
  have hhe : ∀ c ∈ (expo ++ rest).head?, c.isDigit = false ∧ c ≠ '.' := by
    intro c hc
    obtain rfl | ⟨_, sign, ds, rfl | rfl, -, -, rfl⟩ := he
    · exact ⟨(hr.head hc).1, (hr.head hc).2.1⟩
    all_goals
      cases hc
      decide
  have hhf : ∀ c ∈ (frac ++ (expo ++ rest)).head?, c.isDigit = false := by
    intro c hc
    obtain rfl | ⟨ds, -, rfl⟩ := hf
    · exact (hhe c hc).1
    · cases hc
      decide
  obtain ⟨o, ho, hoe⟩ := exponent_complete (e := e) he hr
  obtain ⟨f, hf, hfe⟩ := fraction_complete (e := e) hf hhe
  have hd := digits_eq_ok (e := e).2 ⟨hw.1, rfl, hhf⟩
  have hsign : '-' ∉ (whole ++ (frac ++ (expo ++ rest))).head? := by
    obtain ⟨c, t, rfl, hc⟩ := hw.1.eq_cons
    rintro ⟨⟩
    cases hc
  obtain ⟨s, hs, hse⟩ := sign_complete hs hsign
  refine ⟨⟨s.isSome, whole, f, o, f.isEmpty && o.isNone⟩, ?_, rfl, hse, by rw [hfe, hoe]⟩
  simp only [List.append_assoc]
  rw [numeral, run_bind_ok hs, run_bind_ok hd]
  dsimp only
  rw [if_neg (whole_iff.1 hw).2, run_bind_ok hf, run_bind_ok ho]
  rfl

end Reader

theorem digitChar_digitValue {c : Char} (h : c.isDigit) :
    digitValue c < 10 ∧ (digitValue c).digitChar = c := by
  obtain ⟨h₁, h₂⟩ : 48 ≤ c.toNat ∧ c.toNat ≤ 57 := by
    simpa [Char.isDigit, UInt32.le_iff_toNat_le] using h
  have hc : c = Char.ofNat c.toNat := (Char.ofNat_toNat c).symm
  generalize c.toNat = n at hc h₁ h₂
  subst hc
  interval_cases n <;> decide

theorem isDigit_iff {c : Char} : c.isDigit = true ↔ c ∈ "0123456789".toList := by
  constructor
  · intro h
    obtain ⟨hv, hc⟩ := digitChar_digitValue h
    rw [← hc]
    generalize digitValue c = n at hv
    interval_cases n <;> decide
  · exact fun h => List.all_eq_true.1 (by decide : "0123456789".toList.all Char.isDigit) c h

/-- A number begins with a sign or a digit. -/
theorem Number.Written.start {cs : List Char} (h : Number.Written cs) :
    ∃ c t, cs = c :: t ∧ c ∈ "-0123456789".toList := by
  obtain ⟨sign, whole, fraction, exponent, hs, hw, -, -, rfl⟩ := h
  simp only [List.mem_cons, List.not_mem_nil, or_false] at hs
  rcases hs with rfl | rfl
  · obtain ⟨c, t, rfl, hc⟩ := hw.1.eq_cons
    exact ⟨c, t ++ fraction ++ exponent, rfl, List.mem_cons_of_mem _ (isDigit_iff.1 hc)⟩
  · exact ⟨'-', whole ++ fraction ++ exponent, rfl, by decide⟩

/-- The first character tells a number from every other value. -/
theorem start_facts : ∀ c ∈ "-0123456789".toList, isGap c = false ∧ c ∉ [']', '}'] ∧
    c ∉ ['n', 't', 'f', '"', '[', '{'] ∧ (decide (c = '-') || c.isDigit) = true :=
  List.forall_iff_forall_mem.1 (by decide)

/-- The digits of a natural number have no leading zero. -/
theorem whole_toDigits (n : Nat) : Whole (Nat.toDigits 10 n) := by
  refine ⟨⟨Nat.toDigits_ne_nil, fun c hc => Nat.isDigit_of_mem_toDigits (by decide) le_rfl hc⟩, ?_⟩
  induction n using Nat.strongRecOn with
  | ind n ih =>
    by_cases hn : n < 10
    · rw [Nat.toDigits_of_lt_base hn]
      intro h
      rw [Option.some.inj h]
    · rw [Nat.toDigits_of_base_le (by decide) (Nat.not_lt.1 hn),
        List.head?_append_of_ne_nil _ Nat.toDigits_ne_nil]
      intro h
      have hz := congrArg (Nat.ofDigitChars 10 · 0) (ih (n / 10) (by omega) h)
      rw [Nat.ofDigitChars_toDigits (by decide) le_rfl] at hz
      have : n / 10 = 0 := hz
      omega

/-- A whole part without a leading zero is the digits of its value. -/
theorem Whole.eq_toDigits {ds : List Char} (h : Whole ds) :
    ds = Nat.toDigits 10 (digitsValue ds) := by
  induction ds using List.reverseRecOn with
  | nil => exact absurd rfl h.1.1
  | append_singleton ds c ih =>
    have hv : digitsValue (ds ++ [c]) = 10 * digitsValue ds + digitValue c := by
      simp [digitsValue]
    obtain ⟨hc, hd⟩ := digitChar_digitValue (h.1.2 c (by simp))
    by_cases hds : ds = []
    · subst hds
      rw [hv, show digitsValue [] = 0 from rfl, Nat.mul_zero, Nat.zero_add,
        Nat.toDigits_of_lt_base hc, hd]
      rfl
    · have hz : ds.head? ≠ some '0' := by
        intro hz
        have := h.2 (by rw [List.head?_append_of_ne_nil _ hds, hz])
        simp [hds, List.append_eq_singleton_iff] at this
      have hw : Whole ds := ⟨⟨hds, fun x hx => h.1.2 x (List.mem_append_left _ hx)⟩, (absurd · hz)⟩
      have hpos : 0 < digitsValue ds := by
        refine Nat.pos_of_ne_zero fun h0 => hz ?_
        rw [ih hw, h0]
        rfl
      rw [hv, ← Nat.toDigits_append_toDigits (by decide) hpos hc, ← ih hw,
        Nat.toDigits_of_lt_base hc, hd]

/-- A natural number has one plain form: its decimal digits. -/
theorem whole_eq_iff {ds : List Char} {n : Nat} :
    Whole ds ∧ digitsValue ds = n ↔ ds = n.repr.toList := by
  rw [Nat.toList_repr]
  constructor
  · rintro ⟨h, rfl⟩
    exact h.eq_toDigits
  · rintro rfl
    exact ⟨whole_toDigits n, Nat.ofDigitChars_toDigits (by decide) le_rfl⟩

theorem whole_repr (n : Nat) : Whole n.repr.toList ∧ digitsValue n.repr.toList = n :=
  whole_eq_iff.2 rfl

theorem Number.written_repr (n : Nat) : Number.Written n.repr.toList :=
  ⟨[], n.repr.toList, [], [], by simp, (whole_repr n).1, .inl rfl, .inl rfl, by simp⟩

/-- A numeral has the value of a natural number if it has no sign, no fraction and no exponent. -/
theorem Numeral.value_eq_natural {n : Numeral} {k : Nat} : n.value = .ok (.integer k) ↔
    n.plain = true ∧ n.negative = false ∧ digitsValue n.whole = k ∧ k < UInt64.size := by
  unfold Numeral.value
  dsimp only
  generalize hi : (if n.negative = true then -(digitsValue n.whole : Int)
    else digitsValue n.whole) = i
  constructor
  · intro h
    split at h
    · next hc =>
      simp only [Bool.and_eq_true, decide_eq_true_eq, Bool.not_eq_true', Bool.and_eq_false_iff,
        beq_eq_false_iff_ne] at hc
      obtain ⟨⟨⟨hp, -⟩, hlt⟩, hz⟩ := hc
      obtain rfl := Number.integer.inj (Except.ok.inj h)
      cases hn : n.negative
      · rw [hn, if_neg (by decide)] at hi
        exact ⟨hp, rfl, Int.ofNat_inj.1 hi, Int.ofNat_lt.1 hlt⟩
      · rw [hn, if_pos rfl] at hi
        have hz := hz.resolve_left (by simp [hn])
        omega
    · generalize n.toFloat? = x at h
      cases x <;> cases h
  · rintro ⟨hp, hn, rfl, hk⟩
    rw [hn, if_neg (by decide)] at hi
    subst hi
    have hlo : Numeral.minWord ≤ (digitsValue n.whole : Int) :=
      le_trans (by decide) (Int.natCast_nonneg _)
    rw [if_pos (by simpa [hp, hn, hlo] using hk)]
    rfl

namespace Reader

variable {cs rest : List Char}

theorem number_sound {x : Number} (h : number.run cs = .ok (x, rest)) :
    ∃ n, (numeral .truncated).run cs = .ok (n, rest) ∧ n.value = .ok x := by
  rw [number, bind_eq_ok] at h
  obtain ⟨n, mid, hn, h⟩ := h
  cases hv : n.value with
  | error e =>
    rw [hv] at h
    cases h
  | ok y =>
    rw [hv] at h
    cases h
    exact ⟨n, hn, hv⟩

theorem number_natural {k : Nat} (h : number.run cs = .ok (.integer k, rest)) :
    cs = k.repr.toList ++ rest := by
  obtain ⟨n, hn, hv⟩ := number_sound h
  obtain ⟨_, ⟨sign, fraction, exponent, -, hw, -, -, rfl, hneg, hplain⟩, rfl⟩ := numeral_sound hn
  rw [Numeral.value_eq_natural] at hv
  obtain ⟨hp, hs, hk, -⟩ := hv
  rw [← whole_eq_iff.1 ⟨hw, hk⟩]
  simp_all

theorem run_number {k : Nat} (hk : k < UInt64.size) (hr : Stops rest) :
    number.run (k.repr.toList ++ rest) = .ok (.integer k, rest) := by
  obtain ⟨hw, hv⟩ := whole_repr k
  obtain ⟨n, hn, hwhole, hs, hp⟩ := numeral_complete (e := .truncated)
    (List.mem_cons_self : [] ∈ [[], ['-']]) hw (.inl rfl) (.inl rfl) hr
  simp only [List.nil_append, List.append_nil] at hn
  have hx : n.value = .ok (.integer k) :=
    Numeral.value_eq_natural.2 ⟨hp, hs, by rw [hwhole, hv], hk⟩
  rw [number, run_bind_ok hn, hx]
  rfl

end Reader

end SqlRender.Json
