import SqlRender.Document.Decode
import SqlRender.Proofs.Document.Fields
import SqlRender.Proofs.Json.Ignored

/-!
# Reading members by name

A record by name is read member by member into a draft, and what one member does to the draft
depends on its own place alone. So each place sees just the members with its key, whatever stands
between them.
-/
namespace SqlRender.Document

open Json Reader

variable {cs rest : List Char}

/-- What one member of an object does to the draft: it fills the empty place with its key, or it is
ignored if no place has its key. -/
def Absorbs (phrase : Grammar) (ignored : List Char → Prop) :
    (ms : List Member) → Draft ms → String × List Char → Draft ms → Prop
  | [], _, e, _ => ignored e.2
  | m :: ms, (o, d), e, (o', d') =>
    if m.key = e.1 then (o = none ∧ ∃ x, o' = some x ∧ phrase m.shape e.2 x) ∧ d' = d
    else o' = o ∧ Absorbs phrase ignored ms d e d'

def AbsorbsAll (phrase : Grammar) (ignored : List Char → Prop) (ms : List Member) :
    Draft ms → List (String × List Char) → Draft ms → Prop
  | d, [], d' => d' = d
  | d, e :: es, d'' =>
    ∃ d', Absorbs phrase ignored ms d e d' ∧ AbsorbsAll phrase ignored ms d' es d''

def Completes : (ms : List Member) → Draft ms → Values ms → Prop
  | [], _, _ => True
  | m :: ms, (o, d), (x, xs) => (o <|> m.default) = some x ∧ Completes ms d xs

/-- What several members do to one place of the draft. -/
def Fills (phrase : Grammar) (m : Member) :
    Option m.shape.Value → List (String × List Char) → Option m.shape.Value → Prop
  | o, [], o' => o' = o
  | o, e :: es, o' => o = none ∧ ∃ x, phrase m.shape e.2 x ∧ Fills phrase m (some x) es o'

section Drafts

variable {phrase : Grammar} {ignored : List Char → Prop} {m : Member} {ms : List Member}
  {es : List (String × List Char)}

/-- The place of one member and the rest of the draft do not meet. -/
theorem absorbsAll_cons {o o' : Option m.shape.Value} {d d' : Draft ms} :
    AbsorbsAll phrase ignored (m :: ms) (o, d) es (o', d') ↔
      Fills phrase m o (es.filter (·.1 = m.key)) o' ∧
        AbsorbsAll phrase ignored ms d (es.filter (·.1 ≠ m.key)) d' := by
  induction es generalizing o d with
  | nil => simp [AbsorbsAll, Fills]
  | cons e es ih =>
    by_cases he : m.key = e.1
    -- The member goes to this place, and the rest of the draft stays as it is.
    · have he' : e.1 = m.key := he.symm
      simp only [AbsorbsAll, Prod.exists, Absorbs, ih, he', decide_true,
        List.filter_cons_of_pos, Fills, ne_eq, not_true_eq_false, decide_false, Bool.false_eq_true,
        not_false_eq_true, List.filter_cons_of_neg]
      constructor
      · rintro ⟨_, _, ⟨⟨rfl, x, rfl, hx⟩, rfl⟩, hf, hd⟩
        exact ⟨⟨rfl, x, hx, hf⟩, hd⟩
      · rintro ⟨⟨rfl, x, hx, hf⟩, hd⟩
        exact ⟨_, _, ⟨⟨rfl, x, rfl, hx⟩, rfl⟩, hf, hd⟩
    -- The member passes this place by.
    · have he' : e.1 ≠ m.key := Ne.symm he
      simp only [AbsorbsAll, Prod.exists, Absorbs, if_neg he, ih, he', decide_false,
        Bool.false_eq_true, not_false_eq_true, List.filter_cons_of_neg, ne_eq, decide_true,
        List.filter_cons_of_pos]
      constructor
      · rintro ⟨_, d₁, ⟨rfl, hd⟩, hf, hall⟩
        exact ⟨hf, d₁, hd, hall⟩
      · rintro ⟨hf, d₁, hd, hall⟩
        exact ⟨_, d₁, ⟨rfl, hd⟩, hf, hall⟩

/-- An empty place takes at most one member. -/
theorem slot_iff {x : m.shape.Value} :
    Slot phrase m es x ↔
      ∃ o, Fills phrase m none (es.filter (·.1 = m.key)) o ∧ (o <|> m.default) = some x := by
  unfold Slot
  generalize es.filter (·.1 = m.key) = fs
  match fs with
  | [] => simp [Fills]
  | [e] => simp [Fills]
  | _ :: _ :: _ => simp [Fills]

theorem absorbsAll_nil {d d' : Draft []} :
    AbsorbsAll phrase ignored [] d es d' ↔ ∀ e ∈ es, ignored e.2 := by
  induction es generalizing d with
  | nil => simp [AbsorbsAll]
  | cons e es ih => simp [AbsorbsAll, Absorbs, ih]

/-- The members with another key do not matter to the slots. -/
theorem slots_filter {key : String} (hkey : key ∉ ms.map Member.key) {v : Values ms} :
    Slots phrase ms (es.filter (·.1 ≠ key)) v ↔ Slots phrase ms es v := by
  induction ms with
  | nil => rfl
  | cons m ms ih =>
    obtain ⟨x, xs⟩ := v
    rw [List.map_cons, List.mem_cons, not_or] at hkey
    have hf : (es.filter (·.1 ≠ key)).filter (·.1 = m.key) = es.filter (·.1 = m.key) := by
      rw [List.filter_filter]
      refine List.filter_congr fun e _ => ?_
      by_cases he : e.1 = m.key
      · simp [he, Ne.symm hkey.1]
      · simp [he]
    rw [Slots, Slots, ih hkey.2, Slot, hf, ← Slot]

/-- The values that come of the members of an object: each place takes the members with its key, and
the members that no place takes are as ignored members are. -/
theorem absorbsAll_iff (hkeys : (ms.map Member.key).Nodup) {v : Values ms} :
    (∃ d, AbsorbsAll phrase ignored ms (Draft.empty ms) es d ∧ Completes ms d v) ↔
      Slots phrase ms es v ∧ ∀ e ∈ es, e.1 ∉ ms.map Member.key → ignored e.2 := by
  induction ms generalizing es with
  | nil => simp [absorbsAll_nil, Completes, Slots]
  | cons m ms ih =>
    obtain ⟨x, xs⟩ := v
    rw [List.map_cons, List.nodup_cons] at hkeys
    have hrest : (∃ d, AbsorbsAll phrase ignored ms (Draft.empty ms) (es.filter (·.1 ≠ m.key)) d ∧
        Completes ms d xs) ↔ _ := ih hkeys.2
    rw [slots_filter hkeys.1] at hrest
    constructor
    · rintro ⟨⟨o, d⟩, ha, hx, hxs⟩
      obtain ⟨hf, ha⟩ := absorbsAll_cons.1 ha
      obtain ⟨hs, hw⟩ := hrest.1 ⟨d, ha, hxs⟩
      refine ⟨⟨slot_iff.2 ⟨o, hf, hx⟩, hs⟩, fun e he hn => ?_⟩
      rw [List.map_cons, List.mem_cons, not_or] at hn
      exact hw e (List.mem_filter.2 ⟨he, by simpa using hn.1⟩) hn.2
    · rintro ⟨⟨hslot, hs⟩, hw⟩
      obtain ⟨o, hf, hx⟩ := slot_iff.1 hslot
      obtain ⟨d, ha, hxs⟩ := hrest.2 ⟨hs, fun e he hn => by
        obtain ⟨he, hne⟩ := List.mem_filter.1 he
        refine hw e he ?_
        rw [List.map_cons, List.mem_cons, not_or]
        exact ⟨by simpa using hne, hn⟩⟩
      exact ⟨(o, d), absorbsAll_cons.2 ⟨hf, ha⟩, hx, hxs⟩

end Drafts

section Members

variable {g : Grammar} {inner : Reading} {ms : List Member}

def absorb (inner : Reading) (key : String) (ms : List Member) (d : Draft ms) : Reader (Draft ms) :=
  match d.member? inner key ms with
  | some reader => reader
  | none => do
    mark ':'
    skip
    return d

theorem absorb_cons {m : Member} {key : String} {o : Option m.shape.Value} {d : Draft ms} :
    absorb inner key (m :: ms) (o, d) =
      if m.key = key then do
        if o.isSome then refuse (.repeatedMember key)
        mark ':'
        return (some (← inner m.shape), d)
      else do return (o, ← absorb inner key ms d) := by
  by_cases hkey : m.key = key
  · rw [absorb, Draft.member?, if_pos hkey, if_pos hkey]
  · rw [absorb, absorb, Draft.member?, if_neg hkey, if_neg hkey]
    generalize d.member? inner key ms = reader
    cases reader <;> simp

theorem absorb_sound (hr : ∀ s, Reads (inner s) (g s)) {key : String} {d d' : Draft ms}
    (h : (absorb inner key ms d).run cs = .ok (d', rest)) :
    ∃ k t, Gap k ∧ Absorbs g.spaced WellFormed ms d (key, t) d' ∧ cs = k ++ ':' :: t ++ rest := by
  induction ms with
  | nil =>
    simp only [absorb, Draft.member?, bind_eq_ok, pure_eq_ok] at h
    obtain ⟨_, _, hm, _, _, hs, -, rfl⟩ := h
    obtain ⟨k, hk, rfl⟩ := mark_split hm
    obtain ⟨t, ht, rfl⟩ := takes_skip.sound hs
    exact ⟨k, t, hk, ht, by simp⟩
  | cons m ms ih =>
    obtain ⟨o, d⟩ := d
    rw [absorb_cons] at h
    split at h
    · next hkey =>
      simp only [refuse] at h
      rw [guard_eq_ok, bind_eq_ok] at h
      obtain ⟨ho, _, _, hm, h⟩ := h
      obtain ⟨x, hx, rfl⟩ := map_eq_ok.1 h
      obtain ⟨k, hk, rfl⟩ := mark_split hm
      obtain ⟨t, ht, rfl⟩ := (hr m.shape).takes.sound hx
      refine ⟨k, t, hk, ?_, by simp⟩
      rw [Absorbs, if_pos hkey]
      exact ⟨⟨by simpa using ho, x, rfl, ht⟩, rfl⟩
    · next hkey =>
      obtain ⟨d₁, hd, rfl⟩ := map_eq_ok.1 h
      obtain ⟨k, t, hk, ha, rfl⟩ := ih hd
      exact ⟨k, t, hk, by rw [Absorbs, if_neg hkey]; exact ⟨rfl, ha⟩, rfl⟩

theorem absorb_complete (hr : ∀ s, Reads (inner s) (g s)) {key : String} {d d' : Draft ms}
    {k t : List Char} (hk : Gap k) (h : Absorbs g.spaced WellFormed ms d (key, t) d')
    (hs : Stops rest) :
    ∃ j, Gap j ∧ (absorb inner key ms d).run (k ++ ':' :: t ++ rest) = .ok (d', j ++ rest) := by
  have hm := run_mark hk (c := ':') (by decide) (t ++ rest)
  induction ms with
  | nil =>
    obtain ⟨j, hj, hrun⟩ := takes_skip.complete (a := ()) h hs
    refine ⟨j, hj, ?_⟩
    rw [List.append_assoc, absorb, Draft.member?]
    dsimp only
    rw [List.cons_append, run_bind_ok hm, run_bind_ok hrun]
    rfl
  | cons m ms ih =>
    obtain ⟨o, d⟩ := d
    obtain ⟨o', d'⟩ := d'
    rw [Absorbs] at h
    rw [absorb_cons]
    split at h
    · next hkey =>
      obtain ⟨⟨rfl, x, rfl, ht⟩, rfl⟩ := h
      obtain ⟨j, hj, hrun⟩ := (hr m.shape).takes.complete ht hs
      refine ⟨j, hj, ?_⟩
      rw [if_pos hkey, List.append_assoc, List.cons_append]
      exact (run_bind_ok hm).trans (run_bind_ok hrun)
    · next hkey =>
      obtain ⟨rfl, ha⟩ := h
      obtain ⟨j, hj, hrun⟩ := ih ha
      exact ⟨j, hj, by rw [if_neg hkey, run_bind_ok hrun]; rfl⟩

theorem Absorbs.append_gap {d d' : Draft ms} {key : String} {t j : List Char} (hj : Gap j)
    (h : Absorbs g.spaced WellFormed ms d (key, t) d') :
    Absorbs g.spaced WellFormed ms d (key, t ++ j) d' := by
  induction ms with
  | nil => exact WellFormed.append_gap h hj
  | cons m ms ih =>
    obtain ⟨o, d⟩ := d
    obtain ⟨o', d'⟩ := d'
    rw [Absorbs] at h ⊢
    split at h
    · next hkey =>
      obtain ⟨⟨ho, x, hx, k, body, l, hk, hb, hl, rfl⟩, hd⟩ := h
      rw [if_pos hkey]
      exact ⟨⟨ho, x, hx, k, body, l ++ j, hk, hb, hl.append hj, by simp⟩, hd⟩
    · next hkey =>
      rw [if_neg hkey]
      exact ⟨h.1, ih h.2⟩

def Entry (t : List Char) (e : String × List Char) : Prop :=
  ∃ key, Spaced (Quoted · e.1) key ∧ t = key ++ ':' :: e.2

theorem Entry.opens {t : List Char} {e : String × List Char} (h : Entry t e) : Opens t := by
  obtain ⟨_, ⟨k, body, l, hk, hb, -, rfl⟩, rfl⟩ := h
  exact ((hb.begins.opens.gap_append hk).append l).append _

theorem takes_member (hr : ∀ s, Reads (inner s) (g s)) (d : Draft ms) :
    Takes (readMember inner ms d)
      fun t d' => ∃ e, Entry t e ∧ Absorbs g.spaced WellFormed ms d e d' where
  opens := by
    rintro t d' ⟨e, he, -⟩
    exact he.opens
  append_gap := by
    rintro _ j d' ⟨⟨name, t⟩, ⟨key, hkey, rfl⟩, ha⟩ hj
    exact ⟨(name, t ++ j), ⟨key, hkey, by simp⟩, ha.append_gap hj⟩
  sound {cs d' rest} h := by
    obtain ⟨name, _, hkey, hrun⟩ := bind_eq_ok.1
      (h : (Reader.key >>= fun key => absorb inner key ms d).run cs = .ok (d', rest))
    obtain ⟨k, body, hk, hb, rfl⟩ := key_eq_ok.1 hkey
    obtain ⟨l, t, hl, ha, rfl⟩ := absorb_sound hr hrun
    exact ⟨_, ⟨(name, t), ⟨k ++ body ++ l, ⟨k, body, l, hk, hb, hl, rfl⟩, rfl⟩, ha⟩, by simp⟩
  complete := by
    rintro _ d' rest ⟨⟨name, t⟩, ⟨_, ⟨k, body, l, hk, hb, hl, rfl⟩, rfl⟩, ha⟩ hs
    obtain ⟨j, hj, hrun⟩ := absorb_complete hr hl ha hs
    refine ⟨j, hj, ?_⟩
    have hkey : Reader.key.run (k ++ body ++ (l ++ ':' :: t ++ rest)) =
        .ok (name, l ++ ':' :: t ++ rest) := key_eq_ok.2 ⟨k, body, hk, hb, rfl⟩
    have he : k ++ body ++ l ++ ':' :: t ++ rest = k ++ body ++ (l ++ ':' :: t ++ rest) := by simp
    rw [he]
    exact (run_bind_ok hkey).trans hrun

theorem members_sound (hr : ∀ s, Reads (inner s) (g s)) {n : Nat} {d d' : Draft ms}
    (h : (readMembers inner ms n d).run cs = .ok (d', rest)) :
    ∃ ts es, ts ≠ [] ∧ List.Forall₂ Entry ts es ∧ AbsorbsAll g.spaced WellFormed ms d es d' ∧
      cs = [','].intercalate ts ++ '}' :: rest := by
  induction n generalizing cs d with
  | zero => cases h
  | succ n ih =>
    obtain ⟨t, d₁, c, mid, ⟨e, he, ha⟩, rfl, hf⟩ := (takes_member hr d).mark_sound h
    split at hf
    · next hc =>
      obtain ⟨ts, es, hne, hes, hall, rfl⟩ := ih hf
      exact ⟨t :: ts, e :: es, by simp, .cons he hes, ⟨d₁, ha, hall⟩,
        by rw [intercalate_cons hne, hc]⟩
    · split at hf
      · next hc =>
        obtain ⟨rfl, rfl⟩ := pure_eq_ok.1 hf
        exact ⟨[t], [e], by simp, .cons he .nil, ⟨d₁, ha, rfl⟩,
          by rw [List.intercalate_singleton, hc]⟩
      · cases hf

theorem members_complete (hr : ∀ s, Reads (inner s) (g s)) {ts : List (List Char)}
    {es : List (String × List Char)} (hes : List.Forall₂ Entry ts es) (hne : ts ≠ [])
    {d d' : Draft ms} (h : AbsorbsAll g.spaced WellFormed ms d es d') {n : Nat} (hn : ts.length ≤ n)
    (rest : List Char) :
    (readMembers inner ms n d).run ([','].intercalate ts ++ '}' :: rest) = .ok (d', rest) := by
  induction hes generalizing d n with
  | nil => exact absurd rfl hne
  | @cons t e ts es he hes ih =>
    obtain ⟨n, rfl⟩ : ∃ m, n = m + 1 := ⟨n - 1, by simp at hn; omega⟩
    obtain ⟨d₁, ha, hall⟩ := h
    rw [readMembers]
    by_cases hts : ts = []
    · subst hts
      cases hes
      obtain rfl : d' = d₁ := hall
      rw [List.intercalate_singleton, (takes_member hr d).mark_complete ⟨e, he, ha⟩ (by simp),
        if_neg (by decide), if_pos rfl]
      rfl
    · rw [intercalate_cons hts, (takes_member hr d).mark_complete ⟨e, he, ha⟩ (by simp),
        if_pos rfl]
      exact ih hts hall (by simpa using hn)

end Members

theorem complete_eq_ok {ms : List Member} {d : Draft ms} {v : Values ms} :
    (Draft.complete ms d).run cs = .ok (v, rest) ↔ Completes ms d v ∧ cs = rest := by
  induction ms with
  | nil =>
    rw [Draft.complete, pure_eq_ok]
    simp [Completes]
  | cons m ms ih =>
    obtain ⟨o, d⟩ := d
    obtain ⟨x, xs⟩ := v
    rw [Draft.complete, Completes]
    generalize (o <|> m.default) = w
    cases w with
    | none => exact iff_of_false (fun h => nomatch h) (fun h => nomatch h.1.1)
    | some y =>
      dsimp only
      rw [map_eq_ok]
      constructor
      · rintro ⟨ys, hys, heq⟩
        obtain ⟨rfl, rfl⟩ := Prod.mk.inj heq
        rw [ih] at hys
        exact ⟨⟨rfl, hys.1⟩, hys.2⟩
      · rintro ⟨⟨hy, hxs⟩, hcs⟩
        exact ⟨xs, ih.2 ⟨hxs, hcs⟩, by rw [Option.some.inj hy]⟩

theorem members_gap {inner : Reading} {ms : List Member} {k : List Char} (hk : Gap k)
    (cs : List Char) (n : Nat) (d : Draft ms) :
    (readMembers inner ms n d).run (k ++ cs) = (readMembers inner ms n d).run cs := by
  cases n with
  | zero => rfl
  | succ n =>
    have hkey : Reader.key.run (k ++ cs) = Reader.key.run cs := by
      rw [Reader.key, run_bind_ok (run_gap _), run_bind_ok (run_gap _), hk.dropWhile]
    rw [readMembers]
    exact run_bind_congr (run_bind_congr hkey)

end SqlRender.Document
