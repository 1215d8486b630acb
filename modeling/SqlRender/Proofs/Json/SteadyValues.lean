import SqlRender.Proofs.Json.Ignored
import SqlRender.Proofs.Json.Steadiness

/-!
# Texts, numbers and ignored values on a longer text

A text shows where it ends, and so does everything between brackets. A number goes on as long as it
can, so here what is appended begins with a gap.
-/
namespace SqlRender.Json.Reader

variable {α β : Type} {w : List Char}

section Texts

/-- The four digits of a unit have one byte each. -/
theorem utf8Size_of_hexEscape {u : List Char} {n : Nat} (h : HexEscape ('\\' :: 'u' :: u) n) :
    u.length = 4 ∧ ∀ c ∈ u, c.utf8Size = 1 := by
  have hlow : ∀ c ∈ "0123456789abcdef".toList, c.utf8Size = 1 :=
    List.forall_iff_forall_mem.1 (by decide)
  have hhigh : ∀ c ∈ "0123456789ABCDEF".toList, c.utf8Size = 1 :=
    List.forall_iff_forall_mem.1 (by decide)
  have hsize : ∀ {c k}, IsHex c k → c.utf8Size = 1 := by
    rintro c k (h | h)
    · exact hlow c (List.mem_of_getElem? h)
    · exact hhigh c (List.mem_of_getElem? h)
  obtain ⟨a, b, c, d, i, j, k, l, ha, hb, hc, hd, hu, -⟩ := h
  cases hu
  simp [hsize ha, hsize hb, hsize hc, hsize hd]

theorem utf8ByteSize_eq_length {cs : List Char} (h : ∀ c ∈ cs, c.utf8Size = 1) :
    (String.ofList cs).utf8ByteSize = cs.length := by
  induction cs with
  | nil => rfl
  | cons c cs ih =>
    rw [List.forall_mem_cons] at h
    rw [String.ofList_cons, String.utf8ByteSize_append, String.utf8ByteSize_singleton, h.1, ih h.2,
      List.length_cons, Nat.add_comm]

/-- The number of bytes that are left tells a unit that ends too early from any other. -/
theorem hexUnit_eq_error {cs : List Char} {e : Fault} (h : hexUnit.run cs = .error e) :
    e = if (String.ofList cs).utf8ByteSize < 4 then .truncated else .malformed := by
  have hg : (get : Reader (List Char)).run cs = .ok (cs, cs) := rfl
  rw [hexUnit, run_bind_ok hg] at h
  split at h
  · next a b c d tail =>
    have ha := a.utf8Size_pos
    have hb := b.utf8Size_pos
    have hc := c.utf8Size_pos
    have hd := d.utf8Size_pos
    have hlen : ¬(String.ofList (a :: b :: c :: d :: tail)).utf8ByteSize < 4 := by
      simp only [String.ofList_cons, String.utf8ByteSize_append, String.utf8ByteSize_singleton]
      omega
    rw [if_neg hlen]
    split at h <;> cases h
    rfl
  · split at h <;> cases h <;> simp [*]

/-- A unit that only the longer text completes has lost its end in the text. -/
theorem utf8ByteSize_lt_of_hexUnit {cs : List Char} {e : Fault} {p : Nat × List Char}
    (h : hexUnit.run cs = .error e) (h' : hexUnit.run (cs ++ w) = .ok p) :
    (String.ofList cs).utf8ByteSize < 4 := by
  obtain ⟨u, hu, hcs⟩ := hexUnit_eq_ok.1 h'
  obtain ⟨hlen, hsize⟩ := utf8Size_of_hexEscape hu
  obtain ⟨v, rfl, -⟩ | ⟨v, rfl, -⟩ := List.append_eq_append_iff.1 hcs
  · rw [List.forall_mem_append] at hsize
    rw [utf8ByteSize_eq_length hsize.1]
    by_contra hn
    rw [List.length_append] at hlen
    obtain rfl : v = [] := List.eq_nil_of_length_eq_zero (by omega)
    rw [hexUnit_eq_ok.2 ⟨cs, by simpa using hu, (List.append_nil cs).symm⟩] at h
    cases h
  · rw [hexUnit_eq_ok.2 ⟨u, hu, rfl⟩] at h
    cases h

theorem steady_hexUnit : Steady (Continues w) hexUnit := by
  intro cs cs' h
  cases h with
  | after => exact .truncated _
  | within c cs =>
    generalize c :: cs = cs
    cases hrun : hexUnit.run cs with
    | ok p =>
      obtain ⟨u, hu, hcs⟩ := hexUnit_eq_ok.1 hrun
      rw [hexUnit_eq_ok.2 ⟨u, hu, by rw [hcs, List.append_assoc]⟩]
      exact .value p.1 (continues_append w p.2)
    | error e =>
      by_cases hbytes : (String.ofList cs).utf8ByteSize < 4
      · rw [hexUnit_eq_error hrun, if_pos hbytes]
        exact .truncated _
      cases hrun' : hexUnit.run (cs ++ w) with
      | error e' =>
        have hbytes' : ¬(String.ofList (cs ++ w)).utf8ByteSize < 4 := by
          rw [String.ofList_append, String.utf8ByteSize_append]
          omega
        rw [hexUnit_eq_error hrun, hexUnit_eq_error hrun', if_neg hbytes, if_neg hbytes']
        exact .fault _
      | ok p => exact absurd (utf8ByteSize_lt_of_hexUnit hrun hrun') hbytes

theorem consumes_hexUnit : Consumes hexUnit := by
  intro cs n rest h
  obtain ⟨u, hu, rfl⟩ := hexUnit_eq_ok.1 h
  have hlen := (utf8Size_of_hexEscape hu).1
  rw [List.length_append]
  omega

theorem not_spelling_backslash {c : Char} : ¬Spelling ['\\'] c := by
  generalize hu : ['\\'] = u
  intro h
  cases h with
  | plain h => exact h.2.1 (List.cons_eq_cons.1 hu).1.symm
  | letter => cases hu
  | units h =>
    obtain ⟨v, hv⟩ := units_eq_cons h
    rw [hv] at hu
    cases hu

theorem consumes_escape : Consumes escape := by
  intro cs c rest h
  obtain ⟨u, hu, rfl⟩ := escape_eq_ok.1 h
  have hpos : 0 < u.length := List.length_pos_of_ne_nil fun hn => not_spelling_backslash (hn ▸ hu)
  rw [List.length_append]
  omega

theorem steady_unicodeEscape : Steady (Continues w) unicodeEscape := by
  refine steady_hexUnit.bind fun n => steady_guard (steady_ite ?_ (steady_pure _))
  exact (steady_word _).bind fun _ => steady_hexUnit.bind fun m =>
    steady_ite (steady_pure _) (steady_throw _)

theorem steady_escape : Steady (Continues w) escape := by
  refine steady_next.bind fun c => steady_ite steady_unicodeEscape ?_
  cases letterEscape c with
  | none => exact steady_throw _
  | some x => exact steady_pure x

theorem textBody_alike {n m : Nat} {cs cs' : List Char} (hn : cs.length < n) (hm : cs'.length < m)
    (h : Continues w cs cs') :
    Alike (Continues w) ((textBody n).run cs) ((textBody m).run cs') := by
  induction n generalizing m cs cs' with
  | zero => exact absurd hn (Nat.not_lt_zero _)
  | succ n ih =>
    obtain ⟨m, rfl⟩ : ∃ k, m = k + 1 := ⟨m - 1, by omega⟩
    refine alike_consume consumes_next consumes_next (steady_next _ _ h) fun c _ _ _ _ h => ?_
    split
    · exact steady_pure _ _ _ h
    split
    · refine alike_consume consumes_escape consumes_escape (steady_escape _ _ h)
        fun x _ _ _ _ h => ?_
      exact (ih (by omega) (by omega) h).bind fun _ _ _ _ _ h => steady_pure _ _ _ h
    split
    · exact .fault _
    · exact (ih (by omega) (by omega) h).bind fun _ _ _ _ _ h => steady_pure _ _ _ h

theorem steady_text : Steady (Continues w) text := by
  refine (steady_word _).bind fun _ cs cs' h => ?_
  rw [run_bind_ok (run_remaining cs), run_bind_ok (run_remaining cs')]
  exact (textBody_alike (Nat.lt_succ_self _) (Nat.lt_succ_self _) h).bind fun _ _ _ _ _ h =>
    steady_pure _ _ _ h

theorem steady_key : Steady (Continues w) key := steady_gap.bind fun _ => steady_text

end Texts

section Numbers

/-- A row of digits is split from what follows it. -/
theorem digits_split {c : Char} (hc : c.isDigit) (cs : List Char) :
    ∃ ds rest, Digits ds ∧ c :: cs = ds ++ rest ∧ ∀ d ∈ rest.head?, d.isDigit = false := by
  refine ⟨(c :: cs).takeWhile Char.isDigit, (c :: cs).dropWhile Char.isDigit, ⟨?_, fun d hd => ?_⟩,
    List.takeWhile_append_dropWhile.symm, fun d hd => ?_⟩
  · simp [hc]
  · exact List.mem_takeWhile_imp hd
  · have hf := List.head?_dropWhile_not Char.isDigit (c :: cs)
    rwa [Option.mem_def.1 hd] at hf

theorem run_digits_cons {c : Char} (hc : c.isDigit = false) (e : Fault) (cs : List Char) :
    (digits e).run (c :: cs) = .error .malformed := by
  have hg : (get : Reader (List Char)).run (c :: cs) = .ok (c :: cs, c :: cs) := rfl
  rw [digits, run_bind_ok hg, List.takeWhile_cons_of_neg (by simp [hc]),
    List.dropWhile_cons_of_neg (by simp [hc])]
  rfl

-- The end of the text ends a number, and so does a gap.
variable (hw : GapFirst w)

include hw

theorem not_of_mem_head {p : Char → Bool} (hp : [' ', '\t', '\n', '\r'].Forall (p · = false)) :
    ∀ c ∈ w.head?, p c = false :=
  fun c hc => List.forall_iff_forall_mem.1 hp c (isGap_iff.1 (hw c hc))

theorem steady_accept {p : Char → Bool} (hp : [' ', '\t', '\n', '\r'].Forall (p · = false)) :
    Steady (Appended w) (accept p) := by
  rintro cs _ rfl
  cases cs with
  | nil =>
    have hrun : (accept p).run w = .ok (none, w) :=
      accept_eq_ok.2 (.inr ⟨rfl, rfl, not_of_mem_head hw hp⟩)
    rw [List.nil_append, hrun]
    exact .value none rfl
  | cons c cs =>
    cases hc : p c with
    | true =>
      have hrun : ∀ t, (accept p).run (c :: t) = .ok (some c, t) := fun t =>
        accept_eq_ok.2 (.inl ⟨c, rfl, hc, rfl⟩)
      rw [List.cons_append, hrun, hrun]
      exact .value (some c) rfl
    | false =>
      have hrun : ∀ t, (accept p).run (c :: t) = .ok (none, c :: t) := fun t =>
        accept_eq_ok.2 (.inr ⟨rfl, rfl, by simpa using hc⟩)
      rw [List.cons_append, hrun, hrun]
      exact .value none rfl

variable {e : Fault} (he : e = .truncated ∨ e = .malformed)

include he

theorem steady_digits : Steady (Appended w) (digits e) := by
  have hdigit := not_of_mem_head hw (p := Char.isDigit) (by decide)
  rintro cs _ rfl
  cases cs with
  | nil =>
    cases w with
    | nil => exact .fault e
    | cons c w =>
      rw [List.nil_append, run_digits_cons (hdigit c rfl)]
      obtain rfl | rfl := he
      · exact .truncated _
      · exact .fault _
  | cons c cs =>
    by_cases hc : c.isDigit
    · obtain ⟨ds, rest, hd, hcs, hr⟩ := digits_split hc cs
      have hr' : ∀ d ∈ (rest ++ w).head?, d.isDigit = false := by
        cases rest with
        | nil => exact hdigit
        | cons _ _ => exact hr
      rw [hcs, digits_eq_ok.2 ⟨hd, rfl, hr⟩, digits_eq_ok.2 ⟨hd, List.append_assoc .., hr'⟩]
      exact .value ds rfl
    · rw [Bool.not_eq_true] at hc
      rw [List.cons_append, run_digits_cons hc, run_digits_cons hc]
      exact .fault _

theorem steady_fraction : Steady (Appended w) (fraction e) := by
  refine (steady_accept hw (by decide)).bind fun o => ?_
  cases o with
  | none => exact steady_pure _
  | some _ => exact steady_digits hw he

theorem steady_exponent : Steady (Appended w) (exponent e) := by
  refine (steady_accept hw (by decide)).bind fun o => ?_
  cases o with
  | none => exact steady_pure _
  | some _ =>
    exact (steady_accept hw (by decide)).bind fun _ => (steady_digits hw he).bind fun _ =>
      steady_pure _

theorem steady_numeral : Steady (Appended w) (numeral e) :=
  (steady_accept hw (by decide)).bind fun _ => (steady_digits hw he).bind fun _ =>
    steady_guard <| (steady_fraction hw he).bind fun _ => (steady_exponent hw he).bind fun _ =>
      steady_pure _

end Numbers

theorem steady_number (hw : GapFirst w) : Steady (Appended w) number := by
  refine (steady_numeral hw (.inl rfl)).bind fun n cs cs' h => ?_
  cases n.value with
  | error e => exact .fault e
  | ok x => exact .value x h

section Skip

theorem consumes_skipValue (n : Nat) : Consumes (skipValue n) := by
  intro cs u rest hr
  obtain ⟨body, hb, rfl⟩ := skipValue_sound hr
  have hpos := Opens.length_pos hb.skips.opens
  rw [List.length_append]
  omega

theorem consumes_skipText (n : Nat) : Consumes (skipText n) := by
  intro cs u rest h
  obtain ⟨us, -, rfl⟩ := skipText_sound h
  simp only [List.length_append, List.length_cons]
  omega

theorem skipText_alike {n m : Nat} {cs cs' : List Char} (hn : cs.length < n) (hm : cs'.length < m)
    (h : Continues w cs cs') :
    Alike (Continues w) ((skipText n).run cs) ((skipText m).run cs') := by
  induction n generalizing m cs cs' with
  | zero => exact absurd hn (Nat.not_lt_zero _)
  | succ n ih =>
    obtain ⟨m, rfl⟩ : ∃ k, m = k + 1 := ⟨m - 1, by omega⟩
    refine alike_consume consumes_next consumes_next (steady_next _ _ h) fun c _ _ _ _ h => ?_
    split
    · exact steady_pure _ _ _ h
    split
    · refine alike_consume consumes_next consumes_next (steady_next _ _ h) fun e _ _ _ _ h => ?_
      dsimp only
      split
      · exact alike_consume consumes_hexUnit consumes_hexUnit (steady_hexUnit _ _ h)
          fun _ _ _ _ _ h => ih (by omega) (by omega) h
      split
      · exact .fault _
      · exact ih (by omega) (by omega) h
    split
    · exact .fault _
    · exact ih (by omega) (by omega) h

mutual

theorem skipValue_alike (hw : GapFirst w) {cs cs' : List Char} : ∀ {n m : Nat},
    2 * cs.length < n → 2 * cs'.length < m → Continues w cs cs' →
    Alike (Continues w) ((skipValue n).run cs) ((skipValue m).run cs')
  | 0, _, hn, _, _ => absurd hn (Nat.not_lt_zero _)
  | n + 1, m, hn, hm, h => by
    obtain ⟨m, rfl⟩ : ∃ k, m = k + 1 := ⟨m - 1, by omega⟩
    rw [skipValue, skipValue]
    refine (ahead_alike h).bind fun c rest rest' hr hr' ha => ?_
    have := length_of_ahead hr
    have := length_of_ahead hr'
    have hc := ha.continues
    split
    · exact steady_word _ _ _ hc
    · exact steady_word _ _ _ hc
    · exact steady_word _ _ _ hc
    · refine (steady_next _ _ hc).bind fun _ _ _ _ _ h => ?_
      rw [run_bind_ok (run_remaining _), run_bind_ok (run_remaining _)]
      exact skipText_alike (Nat.lt_succ_self _) (Nat.lt_succ_self _) h
    · exact alike_inside hc fun _ _ _ _ h => skipElements_alike hw (by omega) (by omega) h
    · exact alike_inside hc fun _ _ _ _ h => skipMembers_alike hw (by omega) (by omega) h
    · refine (steady_ite ?_ (steady_throw _) _ _ ha).mono fun _ _ => Appended.continues
      exact (steady_numeral hw (.inr rfl)).bind fun _ => steady_pure _

theorem skipElements_alike (hw : GapFirst w) {cs cs' : List Char} : ∀ {n m : Nat},
    2 * cs.length + 1 < n → 2 * cs'.length + 1 < m → Continues w cs cs' →
    Alike (Continues w) ((skipElements n).run cs) ((skipElements m).run cs')
  | 0, _, hn, _, _ => absurd hn (Nat.not_lt_zero _)
  | n + 1, m, hn, hm, h => by
    obtain ⟨m, rfl⟩ : ∃ k, m = k + 1 := ⟨m - 1, by omega⟩
    rw [skipElements, skipElements]
    refine alike_to_mark (consumes_skipValue n) (consumes_skipValue m)
      (skipValue_alike hw (by omega) (by omega) h) fun _ c rest rest' hl hl' h => ?_
    split
    · exact skipElements_alike hw (by omega) (by omega) h
    · exact steady_ite (steady_pure _) (steady_throw _) _ _ h

theorem skipMembers_alike (hw : GapFirst w) {cs cs' : List Char} : ∀ {n m : Nat},
    2 * cs.length + 1 < n → 2 * cs'.length + 1 < m → Continues w cs cs' →
    Alike (Continues w) ((skipMembers n).run cs) ((skipMembers m).run cs')
  | 0, _, hn, _, _ => absurd hn (Nat.not_lt_zero _)
  | n + 1, m, hn, hm, h => by
    obtain ⟨m, rfl⟩ : ∃ k, m = k + 1 := ⟨m - 1, by omega⟩
    rw [skipMembers, skipMembers]
    refine alike_consume (consumes_mark _) (consumes_mark _) (steady_mark _ _ _ h)
      fun _ _ _ _ _ h => ?_
    rw [run_bind_ok (run_remaining _), run_bind_ok (run_remaining _)]
    refine alike_consume (consumes_skipText _) (consumes_skipText _)
      (skipText_alike (Nat.lt_succ_self _) (Nat.lt_succ_self _) h) fun _ _ _ _ _ h => ?_
    refine alike_consume (consumes_mark _) (consumes_mark _) (steady_mark _ _ _ h)
      fun _ _ _ _ _ h => ?_
    refine alike_to_mark (consumes_skipValue n) (consumes_skipValue m)
      (skipValue_alike hw (by omega) (by omega) h) fun _ c rest rest' hl hl' h => ?_
    split
    · exact skipMembers_alike hw (by omega) (by omega) h
    · exact steady_ite (steady_pure _) (steady_throw _) _ _ h

end

theorem steady_skip (hw : GapFirst w) : Steady (Continues w) skip := by
  intro cs cs' h
  rw [skip, run_bind_ok (run_remaining cs), run_bind_ok (run_remaining cs')]
  exact skipValue_alike hw (by omega) (by omega) h

end Skip

end SqlRender.Json.Reader
