import SqlRender.Proofs.Json.Items
import SqlRender.Proofs.Json.Numbers
import SqlRender.Proofs.Json.Texts

/-!
# Reading ignored values

A value that nobody asks for is taken if it is well-formed, whatever its brackets hold. The turns of
the reader are bounded by the length of the text, so the bound ends no value.
-/
namespace SqlRender.Json

theorem WellFormed.append_gap {cs h : List Char} (hv : WellFormed cs) (hh : Gap h) :
    WellFormed (cs ++ h) :=
  .spaced gap_nil hv hh

theorem WellFormed.gap_append {g cs : List Char} (hg : Gap g) (hv : WellFormed cs) :
    WellFormed (g ++ cs) := by
  simpa using WellFormed.spaced hg hv gap_nil

namespace Reader

variable {cs rest : List Char}

section Gap

variable {g : List Char} (hg : Gap g) (cs : List Char)

include hg

theorem mark_gap (c : Char) : (mark c).run (g ++ cs) = (mark c).run cs := by
  rw [mark, run_bind_ok (run_gap _), run_bind_ok (run_gap _), hg.dropWhile]

theorem skipValue_gap (n : Nat) : (skipValue n).run (g ++ cs) = (skipValue n).run cs := by
  cases n with
  | zero => rfl
  | succ n =>
    rw [skipValue]
    exact run_bind_congr (ahead_gap hg cs)

theorem skipElements_gap (n : Nat) : (skipElements n).run (g ++ cs) = (skipElements n).run cs := by
  cases n with
  | zero => rfl
  | succ n =>
    rw [skipElements]
    exact run_bind_congr (skipValue_gap hg cs n)

theorem skipMembers_gap (n : Nat) : (skipMembers n).run (g ++ cs) = (skipMembers n).run cs := by
  cases n with
  | zero => rfl
  | succ n =>
    rw [skipMembers]
    exact run_bind_congr (mark_gap hg cs '"')

end Gap

mutual

theorem skipValue_sound {cs rest : List Char} {u : Unit} : ∀ {n : Nat},
    (skipValue n).run cs = .ok (u, rest) → ∃ body, WellFormed body ∧ cs = body ++ rest
  | 0, h => nomatch h
  | n + 1, h => by
    rw [skipValue, bind_eq_ok] at h
    obtain ⟨c, _, ha, h⟩ := h
    obtain ⟨g, t, hg, rfl, rfl⟩ := ahead_split ha
    -- The gap before the value belongs to the ignored text.
    suffices h : ∃ body, WellFormed body ∧ c :: t = body ++ rest by
      obtain ⟨body, hb, hc⟩ := h
      exact ⟨g ++ body, hb.gap_append hg, by rw [hc, List.append_assoc]⟩
    split at h
    · exact ⟨_, .null, word_eq_ok.1 h⟩
    · exact ⟨_, .true, word_eq_ok.1 h⟩
    · exact ⟨_, .false, word_eq_ok.1 h⟩
    · rw [run_bind_ok (run_next _ _), run_bind_ok (run_remaining _), skipText_eq_ok] at h
      obtain ⟨us, hus, rfl⟩ := h
      exact ⟨_, .text ⟨us, hus, rfl⟩, by simp⟩
    · rw [run_bind_ok (run_next _ _), bind_eq_ok] at h
      obtain ⟨d, _, hd, h⟩ := h
      obtain ⟨k, t, hk, rfl, rfl⟩ := ahead_split hd
      split at h
      · next hd =>
        subst hd
        cases h
        exact ⟨'[' :: k ++ [']'], @WellFormed.array [] k (by simp) hk, by simp⟩
      · rw [← skipElements_gap hk] at h
        obtain ⟨ts, hne, hts, hc⟩ := skipElements_sound h
        exact ⟨_, .array hts ((listed_of_ne_nil hne).2 rfl), by simp [hc]⟩
    · rw [run_bind_ok (run_next _ _), bind_eq_ok] at h
      obtain ⟨d, _, hd, h⟩ := h
      obtain ⟨k, t, hk, rfl, rfl⟩ := ahead_split hd
      split at h
      · next hd =>
        subst hd
        cases h
        exact ⟨'{' :: k ++ ['}'], @WellFormed.object [] k (by simp) (by simp) hk, by simp⟩
      · rw [← skipMembers_gap hk] at h
        obtain ⟨ms, hne, hks, hvs, hc⟩ := skipMembers_sound h
        exact ⟨_, .object hks hvs ((listed_of_ne_nil (by simpa using hne)).2 rfl), by simp [hc]⟩
    · split at h
      · rw [map_eq_ok] at h
        obtain ⟨m, hm, -⟩ := h
        obtain ⟨body, hb, hc⟩ := numeral_sound hm
        exact ⟨body, .number hb.written, hc⟩
      · cases h

theorem skipElements_sound {cs rest : List Char} {u : Unit} : ∀ {n : Nat},
    (skipElements n).run cs = .ok (u, rest) → ∃ ts : List (List Char), ts ≠ [] ∧
      (∀ t ∈ ts, WellFormed t) ∧ cs = [','].intercalate ts ++ ']' :: rest
  | 0, h => nomatch h
  | n + 1, h => by
    simp only [skipElements, bind_eq_ok, gap_eq_ok, next_eq_ok] at h
    obtain ⟨_, _, hv, _, _, hg, c, _, rfl, h⟩ := h
    obtain ⟨body, hb, rfl⟩ := skipValue_sound hv
    obtain ⟨k, hk, rfl⟩ := gap_append_dropWhile hg
    split at h
    · next hc =>
      subst hc
      obtain ⟨ts, hne, hts, rfl⟩ := skipElements_sound h
      refine ⟨(body ++ k) :: ts, by simp, List.forall_mem_cons.2 ⟨hb.append_gap hk, hts⟩, ?_⟩
      rw [intercalate_cons hne, List.append_assoc]
    · split at h
      · next hc =>
        subst hc
        cases h
        exact ⟨[body ++ k], by simp, by simpa using hb.append_gap hk, by simp⟩
      · cases h

theorem skipMembers_sound {cs rest : List Char} {u : Unit} : ∀ {n : Nat},
    (skipMembers n).run cs = .ok (u, rest) → ∃ ms : List (List Char × List Char), ms ≠ [] ∧
      (∀ m ∈ ms, Spaced LooseQuoted m.1) ∧ (∀ m ∈ ms, WellFormed m.2) ∧
      cs = [','].intercalate (ms.map fun m => m.1 ++ ':' :: m.2) ++ '}' :: rest
  | 0, h => nomatch h
  | n + 1, h => by
    simp only [skipMembers, bind_eq_ok, remaining_eq_ok, gap_eq_ok, next_eq_ok] at h
    obtain ⟨_, _, hq, _, _, ⟨rfl, rfl⟩, _, _, hk, _, _, hm, _, _, hv, _, _, hg, c, _, rfl, h⟩ := h
    obtain ⟨g, hg₁, rfl⟩ := mark_split hq
    rw [skipText_eq_ok] at hk
    obtain ⟨us, hus, rfl⟩ := hk
    obtain ⟨k, hk, rfl⟩ := mark_split hm
    obtain ⟨body, hb, rfl⟩ := skipValue_sound hv
    obtain ⟨j, hj, rfl⟩ := gap_append_dropWhile hg
    have hkey : Spaced LooseQuoted (g ++ ('"' :: us.flatten ++ ['"']) ++ k) :=
      ⟨g, _, k, hg₁, ⟨us, hus, rfl⟩, hk, rfl⟩
    split at h
    · next hc =>
      subst hc
      obtain ⟨ms, hne, hks, hvs, rfl⟩ := skipMembers_sound h
      refine ⟨(_, body ++ j) :: ms, by simp, List.forall_mem_cons.2 ⟨hkey, hks⟩,
        List.forall_mem_cons.2 ⟨hb.append_gap hj, hvs⟩, ?_⟩
      rw [List.map_cons, intercalate_cons (by simpa using hne)]
      simp
    · split at h
      · next hc =>
        subst hc
        cases h
        exact ⟨[(_, body ++ j)], by simp, by simpa using hkey, by simpa using hb.append_gap hj,
          by simp⟩
      · cases h

end

/-- The ignored value with the gaps around it. Twice its length bounds the turns, since an element
takes one turn for itself and one for its value. -/
structure Skips (t : List Char) : Prop where
  opens : Opens t
  run : ∀ {n : Nat} {rest : List Char}, 2 * t.length < n → Stops rest →
    ∃ h, Gap h ∧ (skipValue n).run (t ++ rest) = .ok ((), h ++ rest)

theorem Skips.gap_append {g t : List Char} (hg : Gap g) (h : Skips t) : Skips (g ++ t) where
  opens := h.opens.gap_append hg
  run hn hr := by
    rw [List.append_assoc, skipValue_gap hg]
    exact h.run (by rw [List.length_append] at hn; omega) hr

theorem Skips.append_gap {t h : List Char} (hs : Skips t) (hh : Gap h) : Skips (t ++ h) where
  opens := hs.opens.append h
  run {n _} hn hr := by
    have hl : 2 * t.length < n := by rw [List.length_append] at hn; omega
    obtain ⟨k, hk, hrun⟩ := hs.run hl (hh.stops hr)
    rw [List.append_assoc]
    exact ⟨k ++ h, hk.append hh, by rw [hrun, List.append_assoc]⟩

/-- A value up to and with the mark after it. -/
theorem Skips.run_mark {α : Type} {t : List Char} (h : Skips t) {n : Nat} (hn : 2 * t.length < n)
    {c : Char} (hc : c ∈ [',', ']', '}']) {f : Char → Reader α} :
    (skipValue n >>= fun _ => gap >>= fun _ => next >>= f).run (t ++ c :: rest) =
      (f c).run rest := by
  obtain ⟨k, hk, hr⟩ := h.run hn (stops_cons hc rest)
  exact run_to_mark hr hk hc

theorem skipElements_complete {ts : List (List Char)} (hne : ts ≠ []) (h : ∀ t ∈ ts, Skips t)
    {n : Nat} (hn : 2 * ([','].intercalate ts).length + 1 < n) (rest : List Char) :
    (skipElements n).run ([','].intercalate ts ++ ']' :: rest) = .ok ((), rest) := by
  induction ts generalizing n with
  | nil => exact absurd rfl hne
  | cons t ts ih =>
    obtain ⟨n, rfl⟩ : ∃ m, n = m + 1 := ⟨n - 1, by omega⟩
    rw [List.forall_mem_cons] at h
    rw [skipElements]
    by_cases hts : ts = []
    · subst hts
      rw [List.intercalate_singleton] at hn ⊢
      rw [h.1.run_mark (by omega) (by simp), if_neg (by decide), if_pos rfl]
      rfl
    · have hl := congrArg List.length (intercalate_cons hts (t := t) [])
      simp only [List.length_append, List.length_cons, List.length_nil] at hl
      rw [intercalate_cons hts, h.1.run_mark (by omega) (by simp), if_pos rfl]
      exact ih hts h.2 (by omega)

theorem skipMembers_complete {ms : List (List Char × List Char)} (hne : ms ≠ [])
    (hk : ∀ m ∈ ms, Spaced LooseQuoted m.1) (hv : ∀ m ∈ ms, Skips m.2) {n : Nat}
    (hn : 2 * ([','].intercalate (ms.map fun m => m.1 ++ ':' :: m.2)).length + 1 < n)
    (rest : List Char) :
    (skipMembers n).run ([','].intercalate (ms.map fun m => m.1 ++ ':' :: m.2) ++ '}' :: rest) =
      .ok ((), rest) := by
  induction ms generalizing n with
  | nil => exact absurd rfl hne
  | cons m ms ih =>
    obtain ⟨n, rfl⟩ : ∃ m, n = m + 1 := ⟨n - 1, by omega⟩
    rw [List.forall_mem_cons] at hk hv
    obtain ⟨⟨g, _, h, hg, ⟨us, hus, rfl⟩, hh, hm⟩, hk⟩ := hk
    have hkey : ∀ tail, (m.1 ++ ':' :: m.2) ++ tail =
        g ++ '"' :: (us.flatten ++ '"' :: (h ++ ':' :: (m.2 ++ tail))) := by simp [hm]
    have hl := congrArg List.length (hkey [])
    simp only [List.length_append, List.length_cons, List.length_nil] at hl
    have hopen := Reader.run_mark hg (c := '"') (by decide)
    have htext : ∀ tail, (skipText ((us.flatten ++ '"' :: tail).length + 1)).run
        (us.flatten ++ '"' :: tail) = .ok ((), tail) := fun _ => skipText_eq_ok.2 ⟨us, hus, rfl⟩
    have hcolon := Reader.run_mark hh (c := ':') (by decide)
    rw [skipMembers, List.map_cons]
    by_cases hms : ms = []
    · subst hms
      rw [List.map_cons, List.map_nil, List.intercalate_singleton] at hn
      simp only [List.length_append, List.length_cons] at hn
      rw [List.map_nil, List.intercalate_singleton, hkey, run_bind_ok (hopen _),
        run_bind_ok (run_remaining _), run_bind_ok (htext _), run_bind_ok (hcolon _),
        hv.1.run_mark (by omega) (by simp), if_neg (by decide), if_pos rfl]
      rfl
    · have hms' : (ms.map fun m => m.1 ++ ':' :: m.2) ≠ [] := by simpa using hms
      have hi := congrArg List.length (intercalate_cons hms' (t := m.1 ++ ':' :: m.2) [])
      simp only [List.length_append, List.length_cons, List.length_nil] at hi
      rw [List.map_cons] at hn
      rw [intercalate_cons hms', hkey, run_bind_ok (hopen _),
        run_bind_ok (run_remaining _), run_bind_ok (htext _), run_bind_ok (hcolon _),
        hv.1.run_mark (by omega) (by simp), if_pos rfl]
      exact ih hms hk hv.2 (by omega)

theorem run_skipValue_quote (n : Nat) (cs : List Char) :
    (skipValue (n + 1)).run ('"' :: cs) = (skipText (cs.length + 1)).run cs := rfl

theorem run_skipValue_bracket (n : Nat) (cs : List Char) :
    (skipValue (n + 1)).run ('[' :: cs) =
      (do if (← ahead) = ']' then let _ ← next else skipElements n).run cs := rfl

theorem run_skipValue_brace (n : Nat) (cs : List Char) :
    (skipValue (n + 1)).run ('{' :: cs) =
      (do if (← ahead) = '}' then let _ ← next else skipMembers n).run cs := rfl

/-- A value that is one word. -/
theorem skips_of_word {c : Char} {w : List Char} (hc : isGap c = false ∧ c ∉ [']', '}'])
    (h : ∀ n tail, (skipValue (n + 1)).run (c :: tail) = (word (c :: w)).run (c :: tail)) :
    Skips (c :: w) where
  opens := ⟨[], c, w, rfl, gap_nil, hc⟩
  run {n rest} hn _ := by
    obtain ⟨n, rfl⟩ : ∃ m, n = m + 1 := ⟨n - 1, by omega⟩
    exact ⟨[], gap_nil, (h n _).trans (run_word (c :: w) rest)⟩

theorem skips_number {cs : List Char} (h : Number.Written cs) : Skips cs := by
  obtain ⟨c, t, rfl, hc⟩ := h.start
  obtain ⟨hg, hb, hl, hn⟩ := start_facts c hc
  refine ⟨⟨[], c, t, rfl, gap_nil, hg, hb⟩, fun {n rest} hn' hr => ?_⟩
  obtain ⟨n, rfl⟩ : ∃ m, n = m + 1 := ⟨n - 1, by omega⟩
  obtain ⟨sign, whole, fraction, exponent, hs, hw, hf, he, hcs⟩ := h
  obtain ⟨m, hm, -⟩ := numeral_complete (e := .malformed) hs hw hf he hr
  rw [← hcs] at hm
  refine ⟨[], gap_nil, ?_⟩
  rw [List.cons_append] at hm ⊢
  rw [skipValue, run_bind_ok (run_ahead_cons hg)]
  split <;> try exact absurd (by decide) hl
  rw [if_pos hn, run_bind_ok hm]
  rfl

theorem skips_text {cs : List Char} (h : LooseQuoted cs) : Skips cs := by
  obtain ⟨us, hus, rfl⟩ := h
  refine ⟨⟨[], '"', us.flatten ++ ['"'], rfl, gap_nil, by decide⟩, fun {n rest} hn _ => ?_⟩
  obtain ⟨n, rfl⟩ : ∃ m, n = m + 1 := ⟨n - 1, by omega⟩
  refine ⟨[], gap_nil, ?_⟩
  have he : '"' :: us.flatten ++ ['"'] ++ rest = '"' :: (us.flatten ++ '"' :: rest) := by simp
  rw [he, run_skipValue_quote, skipText_eq_ok.2 ⟨us, hus, rfl⟩]
  rfl

theorem skips_array {ts : List (List Char)} {inner : List Char} (h : ∀ t ∈ ts, Skips t)
    (listed : Listed ts inner) : Skips ('[' :: inner ++ [']']) := by
  refine ⟨⟨[], '[', inner ++ [']'], rfl, gap_nil, by decide⟩, fun {n rest} hn _ => ?_⟩
  obtain ⟨n, rfl⟩ : ∃ m, n = m + 1 := ⟨n - 1, by omega⟩
  refine ⟨[], gap_nil, ?_⟩
  have he : '[' :: inner ++ [']'] ++ rest = '[' :: (inner ++ ']' :: rest) := by simp
  rw [he, run_skipValue_bracket]
  by_cases hts : ts = []
  · subst hts
    rw [run_bind_ok (run_ahead listed (by decide)), if_pos rfl]
    rfl
  · obtain ⟨g, c, v, hg, hi, hcg, hcb, -⟩ := listed.split hts fun t ht =>
      (h t (List.mem_of_mem_head? ht)).opens
    rw [listed_of_ne_nil hts] at listed
    have hc := skipElements_complete hts h (n := n) (by simp [listed] at hn; omega) rest
    rw [← listed, hi, List.append_assoc, skipElements_gap hg] at hc
    rw [hi, List.append_assoc, List.cons_append, run_bind_ok (run_ahead hg hcg),
      if_neg (by rintro rfl; simp at hcb)]
    exact hc

theorem opens_member {key : List Char} (h : Spaced LooseQuoted key) (value : List Char) :
    Opens (key ++ ':' :: value) := by
  obtain ⟨g, _, k, hg, ⟨us, -, rfl⟩, -, rfl⟩ := h
  rw [List.append_assoc g]
  exact (Opens.gap_append hg ⟨[], '"', _, rfl, gap_nil, by decide⟩).append _

theorem skips_object {ms : List (List Char × List Char)} {inner : List Char}
    (hk : ∀ m ∈ ms, Spaced LooseQuoted m.1) (hv : ∀ m ∈ ms, Skips m.2)
    (listed : Listed (ms.map fun m => m.1 ++ ':' :: m.2) inner) :
    Skips ('{' :: inner ++ ['}']) := by
  refine ⟨⟨[], '{', inner ++ ['}'], rfl, gap_nil, by decide⟩, fun {n rest} hn _ => ?_⟩
  obtain ⟨n, rfl⟩ : ∃ m, n = m + 1 := ⟨n - 1, by omega⟩
  refine ⟨[], gap_nil, ?_⟩
  have he : '{' :: inner ++ ['}'] ++ rest = '{' :: (inner ++ '}' :: rest) := by simp
  rw [he, run_skipValue_brace]
  by_cases hms : ms = []
  · subst hms
    rw [run_bind_ok (run_ahead listed (by decide)), if_pos rfl]
    rfl
  · have hms' : (ms.map fun m => m.1 ++ ':' :: m.2) ≠ [] := by simpa using hms
    obtain ⟨g, c, v, hg, hi, hcg, hcb, -⟩ := listed.split hms' fun t ht => by
      obtain ⟨m, hm, rfl⟩ := List.mem_map.1 (List.mem_of_mem_head? ht)
      exact opens_member (hk m hm) m.2
    rw [listed_of_ne_nil hms'] at listed
    have hc := skipMembers_complete hms hk hv (n := n) (by simp [listed] at hn; omega) rest
    rw [← listed, hi, List.append_assoc, skipMembers_gap hg] at hc
    rw [hi, List.append_assoc, List.cons_append, run_bind_ok (run_ahead hg hcg),
      if_neg (by rintro rfl; simp at hcb)]
    exact hc

end Reader

open Reader

theorem WellFormed.skips {cs : List Char} (h : WellFormed cs) : Skips cs := by
  induction h with
  | null => exact skips_of_word (by decide) fun _ _ => rfl
  | true => exact skips_of_word (by decide) fun _ _ => rfl
  | false => exact skips_of_word (by decide) fun _ _ => rfl
  | number h => exact skips_number h
  | text h => exact skips_text h
  | array _ listed ih => exact skips_array ih listed
  | object keys _ listed ih => exact skips_object keys ih listed
  | spaced hg _ hh ih => exact (ih.gap_append hg).append_gap hh

/-- Skipping takes a well-formed value and nothing else. -/
theorem takes_skip : Takes skip fun t _ => WellFormed t where
  opens h := h.skips.opens
  append_gap := WellFormed.append_gap
  sound {cs _ _} h := by
    rw [skip, run_bind_ok (run_remaining cs)] at h
    exact skipValue_sound h
  complete h hr := by
    rw [skip, run_bind_ok (run_remaining _)]
    exact h.skips.run (by rw [List.length_append]; omega) hr

end SqlRender.Json
