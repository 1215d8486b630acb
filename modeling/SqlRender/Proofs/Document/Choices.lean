import SqlRender.Proofs.Document.Values
import Mathlib.Data.List.Nodup

/-!
# Reading choices

A choice is read by its name, which decides how the content is read. Names of alternatives differ,
so the name belongs to one alternative alone.
-/
namespace SqlRender.Document

open Json Reader

variable {α : Type} {cs rest : List Char}

def Alternative.Phrase (room : Option Grammar) (cs : List Char) (a : α) : Alternative α → Prop
  | .plain name value => a = value ∧ Named room name cs
  | .carrying name s wrap => ∃ x, a = wrap x ∧ Tagged room name s cs x

def Choice (room : Option Grammar) (alternatives : List (Alternative α)) (cs : List Char) (a : α) :
    Prop :=
  ∃ alternative ∈ alternatives, alternative.Phrase room cs a

theorem not_choice_nil {room : Option Grammar} {a : α} : ¬Choice room [] cs a := by simp [Choice]

theorem choice_cons {room : Option Grammar} {first : Alternative α}
    {alternatives : List (Alternative α)} {a : α} : Choice room (first :: alternatives) cs a ↔
      first.Phrase room cs a ∨ Choice room alternatives cs a := by
  simp [Choice]

/-- An object with one member. -/
theorem isObject_singleton {name : String} {t cs : List Char} : IsObject [(name, t)] cs ↔
    ∃ key, Spaced (Quoted · name) key ∧ cs = '{' :: key ++ ':' :: t ++ ['}'] := by
  constructor
  · rintro ⟨ts, inner, hts, hl, rfl⟩
    obtain ⟨u, us, ⟨key, hkey, rfl⟩, hus, rfl⟩ := List.forall₂_cons_right_iff.1 hts
    obtain rfl := List.forall₂_nil_right_iff.1 hus
    obtain rfl : inner = key ++ ':' :: t := by simpa [Listed] using hl
    exact ⟨key, hkey, by simp⟩
  · rintro ⟨key, hkey, rfl⟩
    exact ⟨[key ++ ':' :: t], key ++ ':' :: t, .cons ⟨key, hkey, rfl⟩ .nil, by simp [Listed],
      by simp⟩

theorem findAlternative_eq_ok {alternatives : List (Alternative α)} {name : String}
    {a : Alternative α} (h : (findAlternative alternatives name).run cs = .ok (a, rest)) :
    a ∈ alternatives ∧ a.name = name ∧ cs = rest := by
  unfold findAlternative at h
  split at h
  · next hf =>
    cases h
    exact ⟨List.mem_of_find?_eq_some hf, by simpa using List.find?_some hf, rfl⟩
  · cases h

theorem run_findAlternative {alternatives : List (Alternative α)}
    (hnames : (alternatives.map Alternative.name).Nodup) {a : Alternative α}
    (ha : a ∈ alternatives) (cs : List Char) :
    (findAlternative alternatives a.name).run cs = .ok (a, cs) := by
  have hf : alternatives.find? (·.name == a.name) = some a := by
    have hsome : (alternatives.find? (·.name == a.name)).isSome :=
      List.find?_isSome.2 ⟨a, ha, beq_self_eq_true a.name⟩
    obtain ⟨b, hb⟩ := Option.isSome_iff_exists.1 hsome
    rw [hb, List.inj_on_of_nodup_map hnames (List.mem_of_find?_eq_some hb) ha
      (by simpa using List.find?_some hb)]
  rw [findAlternative, hf]
  rfl

/-- The contents of an alternative; one without a content has `null`. -/
def Alternative.Content (g : Grammar) (cs : List Char) (a : α) : Alternative α → Prop
  | .plain _ value => a = value ∧ cs = "null".toList
  | .carrying _ s wrap => ∃ x, a = wrap x ∧ g s cs x

theorem reads_content {inner : Reading} {g : Grammar} (hr : ∀ s, Reads (inner s) (g s))
    (alternative : Alternative α) :
    Reads (readContent inner alternative) fun cs a => alternative.Content g cs a := by
  cases alternative with
  | plain name value =>
    exact {
      begins := by
        rintro _ a ⟨-, rfl⟩
        exact ⟨'n', _, rfl, by decide, by decide, fun _ => rfl⟩
      gap := fun hg cs => run_bind_congr (ahead_gap hg cs)
      sound := by
        intro cs a rest h
        rw [readContent, bind_eq_ok] at h
        obtain ⟨c, _, ha, h⟩ := h
        obtain ⟨g, t, hg, rfl, rfl⟩ := ahead_split ha
        split at h
        · simp only [bind_eq_ok, word_eq_ok, pure_eq_ok] at h
          obtain ⟨_, _, ht, rfl, rfl⟩ := h
          exact ⟨g, _, hg, ⟨rfl, rfl⟩, by rw [ht, List.append_assoc]⟩
        · exact absurd h unexpected_ne_ok
      complete := by
        rintro _ a rest ⟨rfl, rfl⟩ -
        rfl }
  | carrying name s wrap =>
    refine (hr s).map wrap fun {body a} => ?_
    simp only [Alternative.Content, and_comm, eq_comm]

def Alternative.Tags (g : Grammar) (cs : List Char) (a : α) (alternative : Alternative α) : Prop :=
  ∃ t, IsObject [(alternative.name, t)] cs ∧ Spaced (alternative.Content g · a) t

theorem Alternative.phrase_iff {gr : Option Grammar} {a : α} {alternative : Alternative α} :
    alternative.Phrase gr cs a ↔
      (alternative = .plain alternative.name a ∧ Quoted cs alternative.name) ∨
        ∃ g, gr = some g ∧ alternative.Tags g cs a := by
  cases alternative with
  | plain name value =>
    constructor
    · rintro ⟨rfl, hq | ⟨hroom, t, ho, ht⟩⟩
      · exact .inl ⟨rfl, hq⟩
      · obtain ⟨g, rfl⟩ := Option.isSome_iff_exists.1 hroom
        obtain ⟨k, body, l, hk, hb, hl, rfl⟩ := ht
        exact .inr ⟨g, rfl, _, ho, k, body, l, hk, ⟨rfl, hb⟩, hl, rfl⟩
    · rintro (⟨ha, hq⟩ | ⟨g, rfl, t, ho, k, body, l, hk, ⟨rfl, hb⟩, hl, rfl⟩)
      · cases ha
        exact ⟨rfl, .inl hq⟩
      · exact ⟨rfl, .inr ⟨rfl, _, ho, k, body, l, hk, hb, hl, rfl⟩⟩
  | carrying name s wrap =>
    constructor
    · rintro ⟨x, rfl, g, t, rfl, ho, k, body, l, hk, hb, hl, rfl⟩
      exact .inr ⟨g, rfl, _, ho, k, body, l, hk, ⟨x, rfl, hb⟩, hl, rfl⟩
    · rintro (⟨ha, -⟩ | ⟨g, rfl, t, ho, k, body, l, hk, ⟨x, rfl, hb⟩, hl, rfl⟩)
      · cases ha
      · exact ⟨x, rfl, g, _, rfl, ho, k, body, l, hk, hb, hl, rfl⟩

def readTagged (rule : TagRule) (alternatives : List (Alternative α)) (inner : Reading) :
    Reader α := do
  let alternative ← findAlternative alternatives (← readTag rule)
  mark ':'
  let value ← readContent inner alternative
  mark '}'
  return value

theorem run_choice_brace (rule : TagRule) (room : Option Reading)
    (alternatives : List (Alternative α)) (cs : List Char) :
    (readChoice rule room alternatives).run ('{' :: cs) =
      (descend room (readTagged rule alternatives)).run ('{' :: cs) := rfl

section Tagged

variable {inner : Reading} {g : Grammar} {alternatives : List (Alternative α)} {a : α}

theorem tagged_sound {rule : TagRule} (hr : ∀ s, Reads (inner s) (g s))
    (h : (readTagged rule alternatives inner).run cs = .ok (a, rest)) :
    ∃ alternative ∈ alternatives, ∃ body,
      alternative.Tags g ('{' :: body ++ ['}']) a ∧ cs = body ++ '}' :: rest := by
  simp only [readTagged, bind_eq_ok, pure_eq_ok] at h
  obtain ⟨name, _, hkey, alternative, _, hf, _, _, hcolon, x, _, hx, _, _, hclose, rfl, rfl⟩ := h
  obtain ⟨hm, rfl, rfl⟩ := findAlternative_eq_ok hf
  obtain ⟨k, key, hk, hb, rfl⟩ := readTag_eq_ok.1 hkey
  obtain ⟨l, hl, rfl⟩ := mark_split hcolon
  obtain ⟨p, content, hp, hc, rfl⟩ := (reads_content hr alternative).sound hx
  obtain ⟨q, hq, rfl⟩ := mark_split hclose
  have ho : IsObject [(alternative.name, p ++ content ++ q)]
      ('{' :: (k ++ key ++ l) ++ ':' :: (p ++ content ++ q) ++ ['}']) :=
    isObject_singleton.2 ⟨_, ⟨k, key, l, hk, hb, hl, rfl⟩, rfl⟩
  exact ⟨alternative, hm, k ++ key ++ l ++ ':' :: (p ++ content ++ q),
    ⟨_, ho, p, content, q, hp, hc, hq, rfl⟩, by simp⟩

theorem tagged_complete (rule : TagRule) (hr : ∀ s, Reads (inner s) (g s))
    (hnames : (alternatives.map Alternative.name).Nodup) {alternative : Alternative α}
    (hm : alternative ∈ alternatives) {body : List Char}
    (h : alternative.Tags g ('{' :: body ++ ['}']) a) (rest : List Char) :
    (readTagged rule alternatives inner).run (body ++ '}' :: rest) = .ok (a, rest) := by
  obtain ⟨t, ho, p, content, q, hp, hc, hq, rfl⟩ := h
  obtain ⟨_, ⟨k, key, l, hk, hb, hl, rfl⟩, ho⟩ := isObject_singleton.1 ho
  obtain rfl : body = k ++ key ++ l ++ ':' :: (p ++ content ++ q) :=
    List.append_cancel_right (List.tail_eq_of_cons_eq ho)
  have hkey : (readTag rule).run
      (k ++ key ++ (l ++ ':' :: (p ++ (content ++ (q ++ '}' :: rest))))) =
        .ok (alternative.name, _) := readTag_eq_ok.2 ⟨k, key, hk, hb, rfl⟩
  have hcontent := (reads_content hr alternative).complete hc
    (hq.stops (stops_cons (c := '}') (by simp) rest))
  have he : k ++ key ++ l ++ ':' :: (p ++ content ++ q) ++ '}' :: rest =
      k ++ key ++ (l ++ ':' :: (p ++ (content ++ (q ++ '}' :: rest)))) := by simp
  rw [readTagged, he, run_bind_ok hkey, run_bind_ok (run_findAlternative hnames hm _),
    run_bind_ok (run_mark hl (by decide) _),
    run_bind_ok (((reads_content hr alternative).gap hp _).trans hcontent),
    run_bind_ok (run_mark hq (by decide) _)]
  rfl

end Tagged

theorem reads_choice {rule : TagRule} {room : Option Reading} {gr : Option Grammar}
    (hroom : Follows room gr) {alternatives : List (Alternative α)}
    (hnames : (alternatives.map Alternative.name).Nodup) :
    Reads (readChoice rule room alternatives) (Choice gr alternatives) where
  begins := by
    rintro body a ⟨alternative, -, h⟩
    rw [Alternative.phrase_iff] at h
    rcases h with ⟨-, hq⟩ | ⟨g, -, t, ho, -⟩
    · exact hq.begins
    · obtain ⟨key, -, rfl⟩ := isObject_singleton.1 ho
      exact ⟨'{', _, rfl, by decide, by decide, fun h => absurd h (by decide)⟩
  gap hg cs := run_bind_congr (ahead_gap hg cs)
  sound {cs a rest} h := by
    rw [readChoice, bind_eq_ok] at h
    obtain ⟨c, _, ha, h⟩ := h
    obtain ⟨j, t, hj, rfl, rfl⟩ := ahead_split ha
    split at h
    · rw [bind_eq_ok] at h
      obtain ⟨name, _, ht, h⟩ := h
      rw [bind_eq_ok] at h
      obtain ⟨alternative, _, hf, h⟩ := h
      obtain ⟨hm, rfl, rfl⟩ := findAlternative_eq_ok hf
      obtain ⟨body, hb, hbody⟩ := text_eq_ok.1 ht
      split at h
      · obtain ⟨rfl, rfl⟩ := pure_eq_ok.1 h
        exact ⟨j, body, hj, ⟨_, hm, rfl, .inl hb⟩, by rw [hbody, List.append_assoc]⟩
      · cases h
    · rw [descend_eq_ok] at h
      obtain ⟨inner, rfl, h⟩ := h
      cases hroom with
      | @some _ g hr =>
        obtain ⟨alternative, hm, body, ht, rfl⟩ := tagged_sound hr h
        exact ⟨j, _, hj, ⟨alternative, hm, Alternative.phrase_iff.2 (.inr ⟨g, rfl, ht⟩)⟩, by simp⟩
    · cases h
  complete := by
    rintro body a rest ⟨alternative, hm, h⟩ -
    rw [Alternative.phrase_iff] at h
    rcases h with ⟨ha, hq⟩ | ⟨g, rfl, t, ho, ht⟩
    · have ht : text.run (body ++ rest) = .ok (alternative.name, rest) :=
        text_eq_ok.2 ⟨body, hq, rfl⟩
      have hf := run_findAlternative hnames hm rest
      obtain ⟨us, -, rfl⟩ := hq
      rw [readChoice]
      refine (run_bind_ok (run_ahead_cons (c := '"') (by decide))).trans ?_
      refine (run_bind_ok ht).trans ?_
      rw [run_bind_ok hf, ha]
      rfl
    · obtain ⟨key, -, rfl⟩ := isObject_singleton.1 ho
      cases hroom with
      | @some inner _ hr =>
        have htags : alternative.Tags g ('{' :: (key ++ ':' :: t) ++ ['}']) a := ⟨t, ho, ht⟩
        have hrun := tagged_complete rule hr hnames hm htags rest
        have he : '{' :: key ++ ':' :: t ++ ['}'] ++ rest =
            '{' :: (key ++ ':' :: t ++ '}' :: rest) := by simp
        rw [readChoice, he, run_bind_ok (run_ahead_cons (by decide))]
        exact descend_eq_ok.2 ⟨inner, rfl, hrun⟩

end SqlRender.Document
