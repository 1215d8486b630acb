import SqlRender.Document.Encode
import SqlRender.Proofs.Document.Decoding
import SqlRender.Proofs.Json.Nesting
import SqlRender.Proofs.Json.Written

/-!
# Reading what was written

A text undoes to a value if it is read as the value wherever as many brackets may be open as it
opens, and is malformed everywhere else. Arrays and objects undo to what their parts undo to, one
bracket deeper: the first part that is too deep ends the reading, and the parts before it are read.
-/
namespace SqlRender.Document

open Json Reader

section Outcome

variable {α β : Type} {r : Reader α} {f : α → Reader β} {cs mid rest : List Char} {a : α} {b : β}
  {k l depth : Nat}

/-- What comes of reading a text that opens `k` brackets at once: its value if there is room. -/
def outcome (k depth : Nat) (a : α) (rest : List Char) : Except Fault (α × List Char) :=
  if k ≤ depth then .ok (a, rest) else .error .malformed

@[simp] theorem outcome_zero : outcome 0 depth a rest = .ok (a, rest) := if_pos (Nat.zero_le depth)

/-- Where one bracket more stands around the text, one bracket more may be open. -/
theorem outcome_succ : outcome (k + 1) (depth + 1) a rest = outcome k depth a rest := by
  simp only [outcome, Nat.add_le_add_iff_right]

theorem bind_outcome (hr : r.run cs = outcome k depth a mid)
    (hf : (f a).run mid = outcome l depth b rest) :
    (r >>= f).run cs = outcome (max k l) depth b rest := by
  unfold outcome at hr hf ⊢
  split at hr
  · next hk =>
    rw [run_bind_ok hr, hf]
    simp only [max_le_iff, hk, true_and]
  · next hk => rw [run_bind_error hr, if_neg fun hm => hk (le_trans (le_max_left k l) hm)]

/-- The rest of the reading needs no room. -/
theorem bind_outcome_ok (hr : r.run cs = outcome k depth a mid)
    (hf : (f a).run mid = .ok (b, rest)) : (r >>= f).run cs = outcome k depth b rest := by
  have h := bind_outcome hr (hf.trans outcome_zero.symm)
  rwa [Nat.max_zero] at h

/-- A part and the mark after it. -/
theorem mark_outcome {f : α → Char → Reader β} {c : Char} (hc : c ∈ [',', ']', '}'])
    (hr : r.run cs = outcome k depth a (c :: mid))
    (hf : (f a c).run mid = outcome l depth b rest) :
    (r >>= fun a => gap >>= fun _ => next >>= f a).run cs = outcome (max k l) depth b rest := by
  refine bind_outcome hr (Eq.trans ?_ hf)
  rw [run_bind_ok (run_gap _), List.dropWhile_cons_of_neg (by simp [not_gap_of_mark hc]),
    run_bind_ok (run_next _ _)]

end Outcome

/-- The text opens `k` brackets at once and is read as the value where so many may be open. -/
structure Undone (s : Shape) (t : List Char) (x : s.Value) (k : Nat) : Prop where
  begins : Begins t
  balanced : Balanced t k
  run : ∀ depth {rest}, Stops rest →
    (reading .asKey depth s).run (t ++ rest) = outcome k depth x rest

/-- The text is read as the value if there is room for its brackets. -/
def Undoes (s : Shape) (t : List Char) (x : s.Value) : Prop := ∃ k, Undone s t x k

variable {α : Type} {s : Shape} {t : List Char} {x : s.Value}

theorem grammar_eq (depth : Nat) : ∃ room, grammar depth = Shape.Phrase room := by
  cases depth with
  | zero => exact ⟨none, rfl⟩
  | succ depth => exact ⟨some (grammar depth), rfl⟩

/-- A phrase without brackets needs no room. -/
theorem Undoes.of_phrase (h : ∀ room, Shape.Phrase room s t x) (hb : Balanced t 0) :
    Undoes s t x := by
  have hg : ∀ depth, grammar depth s t x := fun depth => by
    obtain ⟨room, hroom⟩ := grammar_eq depth
    rw [hroom]
    exact h room
  refine ⟨0, (reads_depth .asKey 0 s).begins (hg 0), hb, fun depth rest hr => ?_⟩
  rw [outcome_zero]
  exact (reads_depth .asKey depth s).complete (hg depth) hr

theorem undoes_text (s : String) : Undoes .text (writeText s).toList s :=
  .of_phrase (fun _ => quoted_writeText s) (quoted_writeText s).balanced

/-- The name of an alternative without a content. -/
theorem undoes_name {n : Noun} {v : n.Value} (name : String)
    (h : ∀ room cs, Named room name cs → n.Phrase room cs v) :
    Undoes (.noun n) (writeText name).toList v :=
  .of_phrase (fun room => h room _ (.inl (quoted_writeText name))) (quoted_writeText name).balanced

theorem balanced_of_forall {cs : List Char} (h : ∀ c ∈ cs, c ∉ ['"', '[', '{', ']', '}']) :
    Balanced cs 0 := by
  induction cs with
  | nil => exact Balanced.nil
  | cons c cs ih =>
    rw [List.forall_mem_cons] at h
    exact Balanced.cons h.1 (ih h.2)

theorem balanced_flag (b : Bool) : Balanced (writeFlag b).toList 0 := by
  apply balanced_of_forall
  cases b <;> exact List.forall_iff_forall_mem.1 (by decide)

theorem undoes_flag (b : Bool) : Undoes .flag (writeFlag b).toList b :=
  .of_phrase (fun _ => rfl) (balanced_flag b)

theorem balanced_repr (n : Nat) : Balanced n.repr.toList 0 := by
  have hd := (whole_repr n).1.1.2
  have hall : ∀ c ∈ "0123456789".toList, c ∉ ['"', '[', '{', ']', '}'] :=
    List.forall_iff_forall_mem.1 (by decide)
  exact balanced_of_forall fun c hc => hall c (isDigit_iff.1 (hd c hc))

theorem undoes_size (n : UInt64) : Undoes .size (encodeWord n).toList n :=
  .of_phrase (fun _ => rfl) (balanced_repr n.toNat)

theorem undoes_halfWord (n : UInt32) : Undoes .small n.toNat.repr.toList n :=
  .of_phrase (fun _ => rfl) (balanced_repr n.toNat)

/-- A value that is present is written like a value that is always there. -/
theorem Undoes.present (h : ∀ room, Shape.Phrase room s t x) (hb : Balanced t 0)
    (hn : t.head? ≠ some 'n') : Undoes (.optional s) t (some x) :=
  .of_phrase (fun room => ⟨by rintro rfl; exact hn rfl, h room⟩) hb

theorem undoes_presentText (s : String) : Undoes (.optional .text) (writeText s).toList (some s) :=
  .present (fun _ => quoted_writeText s) (quoted_writeText s).balanced (by simp [writeText])

theorem undoes_presentWord (n : UInt64) :
    Undoes (.optional .count) (encodeWord n).toList (some n) := by
  refine .present (fun _ => rfl) (balanced_repr n.toNat) ?_
  obtain ⟨c, u, hc, hd⟩ := (whole_repr n.toNat).1.1.eq_cons
  rw [encodeWord, hc]
  rintro ⟨⟩
  cases hd

/-- What is read between brackets is read with one bracket less to open. -/
theorem Undoes.bracketed {c d : Char} (hcd : (c, d) ∈ [('[', ']'), ('{', '}')]) {body : List Char}
    {k : Nat} (hb : Balanced body k) (between : Reading → Reader s.Value)
    (hbetween : ∀ room cs,
      (readShape .asKey room s).run (c :: cs) = (descend room between).run (c :: cs))
    (hrun : ∀ depth rest, (between (reading .asKey depth)).run (body ++ d :: rest) =
      outcome k depth x rest) : Undoes s (c :: body ++ [d]) x := by
  have hall : ∀ p ∈ [('[', ']'), ('{', '}')],
      isGap p.1 = false ∧ p.1 ∉ [']', '}'] ∧ p.1 ≠ 'n' :=
    List.forall_iff_forall_mem.1 (by decide)
  obtain ⟨hg, hm, hn⟩ := hall _ hcd
  refine ⟨k + 1, ⟨c, body ++ [d], rfl, hg, hm, (absurd · hn)⟩, hb.brackets hcd, ?_⟩
  intro depth rest _
  rw [List.append_assoc, List.cons_append]
  cases depth with
  -- There is no room for the bracket itself.
  | zero => exact hbetween none _
  | succ depth =>
    rw [outcome_succ]
    exact (hbetween (some (reading .asKey depth)) _).trans (hrun depth rest)

/-- The entries of a list nest as deep as the deepest of them. -/
theorem balanced_intercalate_cons {ts : List (List Char)} (hne : ts ≠ []) {k l : Nat}
    (ht : Balanced t k) (hts : Balanced ([','].intercalate ts) l) :
    Balanced ([','].intercalate (t :: ts)) (max k l) := by
  rw [List.intercalate_cons_of_ne_nil hne]
  simpa using ht.append (hts.cons (c := ',') (by decide))

theorem divided_undoes {ts : List (List Char)} {xs : List s.Value}
    (h : List.Forall₂ (Undoes s) ts xs) (hne : ts ≠ []) :
    ∃ k, Balanced ([','].intercalate ts) k ∧ ∀ depth n rest, ts.length ≤ n →
      (divided (reading .asKey depth s) ']' n).run ([','].intercalate ts ++ ']' :: rest) =
        outcome k depth xs rest := by
  induction h with
  | nil => exact absurd rfl hne
  | @cons t x ts xs ht hts ih =>
    obtain ⟨k, hk⟩ := ht
    by_cases hts' : ts = []
    · subst hts'
      cases hts
      refine ⟨k, by simpa using hk.balanced, fun depth n rest hn => ?_⟩
      obtain ⟨n, rfl⟩ : ∃ m, n = m + 1 := ⟨n - 1, by simp at hn; omega⟩
      have hx := hk.run depth (stops_cons (c := ']') (by simp) rest)
      rw [List.intercalate_singleton, divided, ← Nat.max_zero k]
      refine mark_outcome (by simp) hx ?_
      rw [if_neg (by decide), if_pos rfl, outcome_zero]
      rfl
    · obtain ⟨l, hl, hrun⟩ := ih hts'
      refine ⟨max k l, balanced_intercalate_cons hts' hk.balanced hl, fun depth n rest hn => ?_⟩
      obtain ⟨n, rfl⟩ : ∃ m, n = m + 1 := ⟨n - 1, by simp at hn; omega⟩
      have hx := hk.run depth
        (stops_cons (c := ',') (by simp) ([','].intercalate ts ++ ']' :: rest))
      rw [intercalate_cons hts', divided]
      refine mark_outcome (by simp) hx ?_
      rw [if_pos rfl]
      exact bind_outcome_ok (hrun depth n rest (by simpa using hn)) rfl

theorem undoes_array {ts : List String} {xs : List s.Value}
    (h : List.Forall₂ (fun t x => Undoes s t.toList x) ts xs) :
    Undoes (.list s) (writeArray ts).toList xs := by
  rw [toList_writeArray]
  have h : List.Forall₂ (Undoes s) (ts.map String.toList) xs := List.forall₂_map_left_iff.2 h
  generalize ts.map String.toList = us at h
  by_cases hne : us = []
  · subst hne
    cases h
    exact .bracketed (by simp) Balanced.nil (fun inner => items (inner s) ']') (fun _ _ => rfl)
      fun _ _ => rfl
  · obtain ⟨k, hk, hrun⟩ := divided_undoes h hne
    refine .bracketed (by simp) hk (fun inner => items (inner s) ']') (fun _ _ => rfl)
      fun depth rest => ?_
    have hopens : ∀ t ∈ us.head?, Opens t := fun t ht => by
      cases h with
      | nil => cases ht
      | cons hu _ =>
        cases ht
        obtain ⟨_, hu⟩ := hu
        exact hu.begins.opens
    have hclose : ']' ∈ [']', '}'] := List.mem_cons_self
    obtain ⟨n, hn, hitems⟩ := run_items (reads_depth .asKey depth s).gap hclose hne hopens rest
    rw [hitems]
    exact hrun depth n rest hn

/-- Values that are written one by one. -/
theorem undoes_entries (n : Noun) {write : n.Value → String}
    (h : ∀ x, Undoes (.noun n) (write x).toList x) (xs : List n.Value) :
    Undoes (.list (.noun n)) (writeArray (xs.map write)).toList xs := by
  refine undoes_array ?_
  rw [List.forall₂_map_left_iff, List.forall₂_same]
  exact fun x _ => h x

theorem balanced_memberText (name : String) {k : Nat} (h : Balanced t k) :
    Balanced (memberText name t) k := by
  have hb := (quoted_writeText name).balanced.append (h.cons (c := ':') (by decide))
  rwa [Nat.zero_max] at hb

theorem run_key_member (name : String) (rest : List Char) :
    Reader.key.run ((writeText name).toList ++ rest) = .ok (name, rest) :=
  key_eq_ok.2 ⟨[], _, gap_nil, quoted_writeText name, by rw [List.nil_append]⟩

theorem readShape_choice {n : Noun} {alternatives : List (Alternative n.Value)}
    (h : n.layout = .choice alternatives) (room : Option Reading) :
    readShape .asKey room (.noun n) = readChoice .asKey room alternatives := by
  rw [readShape, h]

/-- An alternative with its content. -/
theorem undoes_tagged {n : Noun} {alternatives : List (Alternative n.Value)}
    (hlayout : n.layout = .choice alternatives)
    (hnames : (alternatives.map Alternative.name).Nodup) {name : String} {wrap : s.Value → n.Value}
    (hm : .carrying name s wrap ∈ alternatives) {u : String} (h : Undoes s u.toList x) :
    Undoes (.noun n) (writeTagged name u).toList (wrap x) := by
  obtain ⟨k, hk⟩ := h
  have he : (writeTagged name u).toList = '{' :: memberText name u.toList ++ ['}'] := by
    rw [writeTagged, toList_writeObject, List.map_singleton, List.intercalate_singleton]
  rw [he]
  refine .bracketed (by simp) (balanced_memberText name hk.balanced)
    (readTagged .asKey alternatives)
    (fun room cs => by rw [readShape_choice hlayout, run_choice_brace]) fun depth rest => ?_
  have hfind := run_findAlternative hnames hm (':' :: (u.toList ++ '}' :: rest))
  have hx := hk.run depth (stops_cons (c := '}') (by simp) rest)
  rw [memberText, List.append_assoc, List.cons_append, readTagged, readTag,
    run_bind_ok (run_key_member name _)]
  refine (run_bind_ok hfind).trans ((run_bind_ok (run_mark_cons (by decide) _)).trans ?_)
  refine bind_outcome_ok (bind_outcome_ok hx rfl) ?_
  rw [run_bind_ok (run_mark_cons (by decide) rest)]
  rfl

section Members

variable {ms : List Member} {d d' : Draft ms} {es : List (String × List Char)}

/-- A member of the record after its name. -/
theorem absorb_undoes {key : String} (h : Absorbs Undoes (fun _ => False) ms d (key, t) d') :
    ∃ k, Balanced t k ∧ ∀ depth {rest}, Stops rest →
      (absorb (reading .asKey depth) key ms d).run (':' :: (t ++ rest)) =
        outcome k depth d' rest := by
  induction ms with
  | nil => exact h.elim
  | cons m ms ih =>
    obtain ⟨o, d⟩ := d
    obtain ⟨o', d'⟩ := d'
    rw [Absorbs] at h
    split at h
    · next hkey =>
      obtain ⟨⟨rfl, x, rfl, k, hk⟩, rfl⟩ := h
      refine ⟨k, hk.balanced, fun depth {rest} hr => ?_⟩
      rw [absorb_cons, if_pos hkey]
      refine (run_bind_ok (run_mark_cons (by decide) _)).trans ?_
      exact bind_outcome_ok (hk.run depth hr) rfl
    · next hkey =>
      obtain ⟨rfl, ha⟩ := h
      obtain ⟨k, hk, hrun⟩ := ih ha
      refine ⟨k, hk, fun depth {rest} hr => ?_⟩
      rw [absorb_cons, if_neg hkey]
      exact bind_outcome_ok (hrun depth hr) rfl

theorem member_undoes {e : String × List Char} (h : Absorbs Undoes (fun _ => False) ms d e d') :
    ∃ k, Balanced (memberText e.1 e.2) k ∧ ∀ depth {rest}, Stops rest →
      (readMember (reading .asKey depth) ms d).run (memberText e.1 e.2 ++ rest) =
        outcome k depth d' rest := by
  obtain ⟨k, hk, hrun⟩ := absorb_undoes h
  refine ⟨k, balanced_memberText e.1 hk, fun depth {rest} hr => ?_⟩
  rw [memberText, List.append_assoc, List.cons_append]
  exact (run_bind_ok (run_key_member e.1 _)).trans (hrun depth hr)

theorem members_undoes (h : AbsorbsAll Undoes (fun _ => False) ms d es d') (hne : es ≠ []) :
    ∃ k, Balanced ([','].intercalate (es.map fun e => memberText e.1 e.2)) k ∧
      ∀ depth n rest, es.length ≤ n → (readMembers (reading .asKey depth) ms n d).run
        ([','].intercalate (es.map fun e => memberText e.1 e.2) ++ '}' :: rest) =
          outcome k depth d' rest := by
  induction es generalizing d with
  | nil => exact absurd rfl hne
  | cons e es ih =>
    obtain ⟨d₁, ha, hall⟩ := h
    obtain ⟨k, hk, hmember⟩ := member_undoes ha
    rw [List.map_cons]
    by_cases hes : es = []
    · subst hes
      obtain rfl : d' = d₁ := hall
      refine ⟨k, by simpa using hk, fun depth n rest hn => ?_⟩
      obtain ⟨n, rfl⟩ : ∃ m, n = m + 1 := ⟨n - 1, by simp at hn; omega⟩
      have hx := hmember depth (stops_cons (c := '}') (by simp) rest)
      rw [List.map_nil, List.intercalate_singleton, readMembers, ← Nat.max_zero k]
      refine mark_outcome (by simp) hx ?_
      rw [if_neg (by decide), if_pos rfl, outcome_zero]
      rfl
    · have hes' : (es.map fun e => memberText e.1 e.2) ≠ [] := by simpa using hes
      obtain ⟨l, hl, hrun⟩ := ih hall hes
      refine ⟨max k l, balanced_intercalate_cons hes' hk hl, fun depth n rest hn => ?_⟩
      obtain ⟨n, rfl⟩ : ∃ m, n = m + 1 := ⟨n - 1, by simp at hn; omega⟩
      have hx := hmember depth (stops_cons (c := ',') (by simp)
        ([','].intercalate (es.map fun e => memberText e.1 e.2) ++ '}' :: rest))
      rw [intercalate_cons hes', readMembers]
      refine mark_outcome (by simp) hx ?_
      rw [if_pos rfl]
      exact hrun depth n rest (by simpa using hn)

end Members

/-- The written members of a record: each undoes to its value, or is left out because its value is
the default. -/
inductive Writes : (ms : List Member) → List (String × String) → Values ms → Prop
  | nil : Writes [] [] ()
  | omitted {m : Member} {ms : List Member} {ws : List (String × String)} {x : m.shape.Value}
      {xs : Values ms} (h : m.default = some x) (rest : Writes ms ws xs) :
      Writes (m :: ms) ws (x, xs)
  | written {m : Member} {ms : List Member} {ws : List (String × String)} {x : m.shape.Value}
      {xs : Values ms} {t : String} (h : Undoes m.shape t.toList x) (rest : Writes ms ws xs) :
      Writes (m :: ms) ((m.key, t) :: ws) (x, xs)

namespace Writes

variable {ms : List Member} {ws : List (String × String)} {xs : Values ms} {t : String}

theorem required (key : String) (h : Undoes s t.toList x) (rest : Writes ms ws xs) :
    Writes (.required key s :: ms) ((key, t) :: ws) (x, xs) :=
  .written (m := .required key s) h rest

/-- A member with a default is written all the same. -/
theorem defaulted (key : String) (default : s.Value) (h : Undoes s t.toList x)
    (rest : Writes ms ws xs) : Writes (⟨key, s, some default⟩ :: ms) ((key, t) :: ws) (x, xs) :=
  .written (m := ⟨key, s, some default⟩) h rest

theorem optional (key : String) {write : s.Value → String} (o : Option s.Value)
    (h : ∀ x, Undoes (.optional s) (write x).toList (some x)) (rest : Writes ms ws xs) :
    Writes (.optional key s :: ms) (presentMember key write o ++ ws) (o, xs) := by
  cases o with
  | none => exact .omitted rfl rest
  | some x => exact .written (m := .optional key s) (h x) rest

end Writes

theorem Writes.key_mem {ms : List Member} {ws : List (String × String)} {v : Values ms}
    (h : Writes ms ws v) : ∀ w ∈ ws, w.1 ∈ ms.map Member.key := by
  induction h with
  | nil => simp
  | omitted _ _ ih => exact fun w hw => List.mem_cons_of_mem _ (ih w hw)
  | written _ _ ih =>
    rw [List.forall_mem_cons]
    exact ⟨List.mem_cons_self, fun w hw => List.mem_cons_of_mem _ (ih w hw)⟩

theorem Writes.filter_eq_nil {ms : List Member} {ws : List (String × String)} {v : Values ms}
    (h : Writes ms ws v) {key : String} (hkey : key ∉ ms.map Member.key) :
    (ws.map fun w => (w.1, w.2.toList)).filter (·.1 = key) = [] := by
  rw [List.filter_eq_nil_iff]
  intro e he
  obtain ⟨w, hmem, rfl⟩ := List.mem_map.1 he
  simp only [decide_eq_true_eq]
  rintro rfl
  exact hkey (h.key_mem w hmem)

/-- Each slot finds its written member. -/
theorem Writes.slots {ms : List Member} {ws : List (String × String)} {v : Values ms}
    (h : Writes ms ws v) (hkeys : (ms.map Member.key).Nodup) :
    Slots Undoes ms (ws.map fun w => (w.1, w.2.toList)) v := by
  induction h with
  | nil => trivial
  | omitted hd hrest ih =>
    rw [List.map_cons, List.nodup_cons] at hkeys
    refine ⟨?_, ih hkeys.2⟩
    rw [Slot, hrest.filter_eq_nil hkeys.1]
    exact hd
  | @written m ms ws x xs t ht hrest ih =>
    rw [List.map_cons, List.nodup_cons] at hkeys
    refine ⟨?_, ?_⟩
    · rw [Slot, List.map_cons, List.filter_cons_of_pos (by simp), hrest.filter_eq_nil hkeys.1]
      exact ht
    · rw [← slots_filter hkeys.1, List.map_cons, List.filter_cons_of_neg (by simp),
        slots_filter hkeys.1]
      exact ih hkeys.2

theorem readShape_record {n : Noun} {name : String} {ms : List Member}
    {build : Values ms → n.Value} (h : n.layout = .record name ms build) (room : Option Reading) :
    readShape .asKey room (.noun n) = readRecord room name ms build := by
  rw [readShape, h]

/-- A record by name. -/
theorem undoes_record {n : Noun} {name : String} {ms : List Member} {build : Values ms → n.Value}
    (hlayout : n.layout = .record name ms build) (hkeys : (ms.map Member.key).Nodup)
    {ws : List (String × String)} {v : Values ms} (h : Writes ms ws v) :
    Undoes (.noun n) (writeObject ws).toList (build v) := by
  obtain ⟨d, hall, hv⟩ : ∃ d, AbsorbsAll Undoes (fun _ => False) ms (Draft.empty ms)
      (ws.map fun w => (w.1, w.2.toList)) d ∧ Completes ms d v :=
    (absorbsAll_iff hkeys).2 ⟨h.slots hkeys, fun e he hne => by
      obtain ⟨w, hw, rfl⟩ := List.mem_map.1 he
      exact hne (h.key_mem w hw)⟩
  have hbrace : ∀ room cs, (readShape .asKey room (.noun n)).run ('{' :: cs) =
      (descend room fun inner => readNamed inner ms build).run ('{' :: cs) := fun room cs => by
    rw [readShape_record hlayout, run_record_brace]
  have he : (writeObject ws).toList = '{' :: [','].intercalate
      ((ws.map fun w => (w.1, w.2.toList)).map fun e => memberText e.1 e.2) ++ ['}'] := by
    rw [toList_writeObject, List.map_map]
    rfl
  rw [he]
  -- From here on only the texts of the members count, not how they came about.
  generalize (ws.map fun w => (w.1, w.2.toList)) = es at hall
  by_cases hne : es = []
  · subst hne
    obtain rfl : d = Draft.empty ms := hall
    refine .bracketed (by simp) Balanced.nil _ hbrace fun depth rest => ?_
    rw [outcome_zero, readNamed]
    refine (run_bind_ok (run_ahead_cons (by decide))).trans ?_
    rw [if_pos rfl, run_bind_ok (complete_eq_ok.2 ⟨hv, rfl⟩), run_bind_ok (run_next _ _)]
    rfl
  · obtain ⟨k, hk, hrun⟩ := members_undoes hall hne
    refine .bracketed (by simp) hk _ hbrace fun depth rest => ?_
    have hne' : (es.map fun e => memberText e.1 e.2) ≠ [] := by simpa using hne
    have hopens : ∀ t ∈ (es.map fun e => memberText e.1 e.2).head?, Opens t := fun t ht => by
      obtain ⟨e, -, rfl⟩ := List.mem_map.1 (List.mem_of_mem_head? ht)
      exact (quoted_writeText e.1).begins.opens.append _
    obtain ⟨n, hn, hnamed⟩ := run_named (reading .asKey depth) build hne' hopens rest
    rw [hnamed]
    refine bind_outcome_ok (hrun depth n rest (by simpa using hn)) ?_
    rw [run_bind_ok (complete_eq_ok.2 ⟨hv, rfl⟩)]
    rfl

end SqlRender.Document
