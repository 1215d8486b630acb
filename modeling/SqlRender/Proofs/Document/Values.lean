import SqlRender.Document.Decode
import SqlRender.Proofs.Document.Grammar
import SqlRender.Proofs.Json.Items
import SqlRender.Proofs.Json.Numbers
import SqlRender.Proofs.Json.Texts
import Mathlib.Data.Option.Basic

/-!
# Reading plain values

Texts, truth values, numbers, values that may be absent, and lists. A value of another type always
ends the reading, whatever it is.
-/
namespace SqlRender.Document

open Json Reader

variable {α : Type} {cs rest : List Char}

theorem unexpected_ne_ok {expected : String} {p : α × List Char} :
    (unexpected expected).run cs ≠ .ok p :=
  bind_refuse_ne_ok

/-- Unlike a number, a text shows its own end, so anything may follow it. -/
theorem readText_eq_ok {expected s : String} : (readText expected).run cs = .ok (s, rest) ↔
    ∃ g body, Gap g ∧ Quoted body s ∧ cs = g ++ body ++ rest := by
  constructor
  · intro h
    rw [readText, bind_eq_ok] at h
    obtain ⟨c, _, ha, h⟩ := h
    obtain ⟨g, t, hg, rfl, rfl⟩ := ahead_split ha
    split at h
    · obtain ⟨body, hb, ht⟩ := text_eq_ok.1 h
      exact ⟨g, body, hg, hb, by rw [ht, List.append_assoc]⟩
    · exact absurd h unexpected_ne_ok
  · rintro ⟨g, body, hg, hb, rfl⟩
    have hr : text.run (body ++ rest) = .ok (s, rest) := text_eq_ok.2 ⟨body, hb, rfl⟩
    obtain ⟨us, -, rfl⟩ := hb
    rw [List.append_assoc]
    exact (run_bind_congr (ahead_gap hg _)).trans hr

/-- A tag that is a text is the same under either rule. -/
theorem readTag_eq_ok {rule : TagRule} {s : String} : (readTag rule).run cs = .ok (s, rest) ↔
    ∃ g body, Gap g ∧ Quoted body s ∧ cs = g ++ body ++ rest := by
  cases rule with
  | asKey => exact key_eq_ok
  | asValue => exact readText_eq_ok

theorem reads_text (expected : String) : Reads (readText expected) Quoted where
  begins := Quoted.begins
  gap hg cs := run_bind_congr (ahead_gap hg cs)
  sound := readText_eq_ok.1
  complete hb _ := readText_eq_ok.2 ⟨[], _, gap_nil, hb, rfl⟩

theorem reads_flag :
    Reads readFlag fun cs b => cs = (if b then "true" else "false").toList where
  begins := by
    rintro _ b rfl
    cases b
    · exact ⟨'f', _, rfl, by decide, by decide, by decide⟩
    · exact ⟨'t', _, rfl, by decide, by decide, by decide⟩
  gap hg cs := run_bind_congr (ahead_gap hg cs)
  sound h := by
    rw [readFlag, bind_eq_ok] at h
    obtain ⟨c, _, ha, h⟩ := h
    obtain ⟨g, t, hg, rfl, rfl⟩ := ahead_split ha
    split at h
    · simp only [bind_eq_ok, word_eq_ok, pure_eq_ok] at h
      obtain ⟨_, _, ht, rfl, rfl⟩ := h
      exact ⟨g, _, hg, rfl, by rw [ht, List.append_assoc]; rfl⟩
    · simp only [bind_eq_ok, word_eq_ok, pure_eq_ok] at h
      obtain ⟨_, _, ht, rfl, rfl⟩ := h
      exact ⟨g, _, hg, rfl, by rw [ht, List.append_assoc]; rfl⟩
    · exact absurd h unexpected_ne_ok
  complete {_ b _} hb _ := by
    subst hb
    cases b <;> rfl

/-- A natural number is read from its digits alone, and only below the bound. -/
theorem reads_nat {bound : Nat} (hb : bound ≤ UInt64.size) (expected : String) :
    Reads (readNat bound expected) fun cs n => n < bound ∧ cs = n.repr.toList where
  begins := by
    rintro _ n ⟨-, rfl⟩
    obtain ⟨c, t, ht, hc⟩ := (Number.written_repr n).start
    obtain ⟨hg, hm, hl, -⟩ := start_facts c hc
    exact ⟨c, t, ht, hg, hm, by rintro rfl; exact absurd (by decide) hl⟩
  gap hg cs := run_bind_congr (ahead_gap hg cs)
  sound h := by
    rw [readNat, bind_eq_ok] at h
    obtain ⟨c, _, ha, h⟩ := h
    obtain ⟨g, t, hg, rfl, rfl⟩ := ahead_split ha
    split at h
    · rw [bind_eq_ok] at h
      obtain ⟨x, _, hx, h⟩ := h
      split at h
      · next i =>
        split at h
        · next hi =>
          obtain ⟨k, rfl⟩ := Int.eq_ofNat_of_zero_le hi.1
          obtain ⟨rfl, rfl⟩ := pure_eq_ok.1 h
          rw [number_natural hx]
          exact ⟨g, _, hg, ⟨Int.ofNat_lt.1 hi.2, rfl⟩, by simp⟩
        · cases h
      · cases h
    · exact absurd h unexpected_ne_ok
  complete := by
    rintro _ n rest ⟨hn, rfl⟩ hr
    have hnum := run_number (lt_of_lt_of_le hn hb) hr
    obtain ⟨c, t, ht, hc⟩ := (Number.written_repr n).start
    obtain ⟨hg, -, -, hs⟩ := start_facts c hc
    rw [ht, List.cons_append] at hnum ⊢
    rw [readNat, run_bind_ok (run_ahead_cons hg), if_pos hs, run_bind_ok hnum]
    dsimp only
    rw [if_pos ⟨Int.natCast_nonneg n, Int.ofNat_lt.2 hn⟩]
    rfl

theorem reads_word (expected : String) :
    Reads (do return UInt64.ofNat (← readNat UInt64.size expected))
      fun cs n => cs = n.toNat.repr.toList :=
  (reads_nat le_rfl expected).map UInt64.ofNat fun {body n} => by
    constructor
    · rintro rfl
      exact ⟨n.toNat, ⟨n.toNat_lt_size, rfl⟩, UInt64.ofNat_toNat⟩
    · rintro ⟨k, ⟨hk, rfl⟩, rfl⟩
      rw [UInt64.toNat_ofNat_of_lt' hk]

theorem reads_halfWord (expected : String) :
    Reads (do return UInt32.ofNat (← readNat UInt32.size expected))
      fun cs n => cs = n.toNat.repr.toList :=
  (reads_nat (by decide) expected).map UInt32.ofNat fun {body n} => by
    constructor
    · rintro rfl
      exact ⟨n.toNat, ⟨n.toNat_lt_size, rfl⟩, UInt32.ofNat_toNat⟩
    · rintro ⟨k, ⟨hk, rfl⟩, rfl⟩
      rw [UInt32.toNat_ofNat_of_lt' hk]

def Optional (phrase : List Char → α → Prop) (cs : List Char) : Option α → Prop
  | none => cs = "null".toList
  | some a => cs ≠ "null".toList ∧ phrase cs a

theorem reads_optional {r : Reader α} {phrase : List Char → α → Prop} (h : Reads r phrase) :
    Reads (readOptional r) (Optional phrase) where
  begins {body o} hb := by
    cases o with
    | none => exact ⟨'n', _, hb, by decide, by decide, fun _ => hb⟩
    | some a => exact h.begins hb.2
  gap hg cs := run_bind_congr (ahead_gap hg cs)
  sound {cs o rest} hr := by
    rw [readOptional, bind_eq_ok] at hr
    obtain ⟨c, _, hc₀, hr⟩ := hr
    obtain ⟨g, t, hg, rfl, rfl⟩ := ahead_split hc₀
    split at hr
    · simp only [bind_eq_ok, word_eq_ok, pure_eq_ok] at hr
      obtain ⟨_, _, ht, rfl, rfl⟩ := hr
      exact ⟨g, _, hg, rfl, by rw [ht, List.append_assoc]⟩
    · next hc =>
      obtain ⟨a, ha, rfl⟩ := map_eq_ok.1 hr
      obtain ⟨k, body, hk, hb, ht⟩ := h.sound ha
      -- The gap is taken already, so the value itself begins with the character ahead.
      obtain rfl := hk.eq_nil (isGap_of_ahead hc₀) (ht.trans (List.append_assoc ..))
      refine ⟨g, body, hg, ⟨?_, hb⟩, by rw [ht, List.nil_append, List.append_assoc]⟩
      rintro rfl
      exact hc (List.cons_eq_cons.1 ht).1
  complete {body o rest} hb hr := by
    cases o with
    | none =>
      obtain rfl : body = "null".toList := hb
      rfl
    | some a =>
      obtain ⟨hn, ha⟩ := hb
      have hrun := h.complete ha hr
      obtain ⟨c, t, rfl, hc, -, hnull⟩ := h.begins ha
      rw [List.cons_append] at hrun ⊢
      rw [readOptional, run_bind_ok (run_ahead_cons hc), if_neg fun hcn => hn (hnull hcn)]
      exact run_bind_ok hrun

/-- What stands between brackets is read as its grammar has it, and both have the same room. -/
def Follows : Option Reading → Option Grammar → Prop :=
  Option.Rel fun inner g => ∀ s, Reads (inner s) (g s)

theorem descend_eq_ok {room : Option Reading} {body : Reading → Reader α} {c : Char} {a : α} :
    (descend room body).run (c :: cs) = .ok (a, rest) ↔
      ∃ inner, room = some inner ∧ (body inner).run cs = .ok (a, rest) := by
  cases room with
  | none => exact iff_of_false (fun h => nomatch h) (by rintro ⟨_, h, -⟩; cases h)
  | some inner =>
    constructor
    · intro h
      exact ⟨inner, rfl, h⟩
    · rintro ⟨_, ⟨⟩, h⟩
      exact h

theorem reads_list {room : Option Reading} {g : Option Grammar} (h : Follows room g) (s : Shape) :
    Reads (readList room s) (Elements g s) where
  begins := by
    rintro _ vs ⟨_, ts, -, ⟨inner, -, rfl⟩, -⟩
    exact ⟨'[', _, rfl, by decide, by decide, fun h => absurd h (by decide)⟩
  gap hg cs := run_bind_congr (ahead_gap hg cs)
  sound {cs vs rest} hr := by
    rw [readList, bind_eq_ok] at hr
    obtain ⟨c, _, ha, hr⟩ := hr
    obtain ⟨k, t, hk, rfl, rfl⟩ := ahead_split ha
    split at hr
    · next hc =>
      rw [descend_eq_ok] at hr
      obtain ⟨inner, rfl, hr⟩ := hr
      cases h with
      | @some _ g h =>
        obtain ⟨ts, body, hts, hl, rfl⟩ := items_sound (h s).takes (h s).gap hr
        exact ⟨k, _, hk, ⟨g, ts, rfl, ⟨body, hl, rfl⟩, hts⟩, by simp [hc]⟩
    · exact absurd hr unexpected_ne_ok
  complete := by
    rintro _ vs rest ⟨g, ts, rfl, ⟨body, hl, rfl⟩, hts⟩ -
    cases h with
    | @some inner _ h =>
      rw [List.append_assoc, List.cons_append, readList, run_bind_ok (run_ahead_cons (by decide)),
        if_pos rfl, descend_eq_ok]
      exact ⟨inner, rfl, items_complete (h s).takes (h s).gap (by simp) hts hl rest⟩

end SqlRender.Document
