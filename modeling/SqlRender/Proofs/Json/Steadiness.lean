import SqlRender.Proofs.Json.Reads

/-!
# Readers on a longer text

A reader goes through a text once and never looks past the place where it stands. So on a longer
text it does what it did before: it takes the same value, or ends with the same fault, unless the
only fault was that the text ended too early. The end of a number shows only in what follows it, so
what the text goes on with begins with a gap.
-/
namespace SqlRender.Json

/-- What is left of the text that goes on with `w`, next to what is left of the text itself. If
nothing is left of that, some gap of `w` may be gone too. -/
inductive Continues (w : List Char) : List Char → List Char → Prop
  | within (c : Char) (cs : List Char) : Continues w (c :: cs) (c :: cs ++ w)
  | after {g rest : List Char} (hg : Gap g) (h : w = g ++ rest) : Continues w [] rest

/-- What is left of the text that goes on with `w`, of which nothing is gone. -/
def Appended (w cs cs' : List Char) : Prop := cs' = cs ++ w

theorem Appended.continues {w cs cs' : List Char} (h : Appended w cs cs') : Continues w cs cs' := by
  cases cs with
  | nil => exact .after gap_nil h.symm
  | cons c cs =>
    rw [h]
    exact .within c cs

theorem continues_append (w cs : List Char) : Continues w cs (cs ++ w) :=
  Appended.continues rfl

def GapFirst (w : List Char) : Prop := ∀ c ∈ w.head?, isGap c = true

/-- What comes of a text and of a longer one, where `R` relates what is left of them: the same value
or the same fault, unless the text ended too early. -/
inductive Alike {α : Type} (R : List Char → List Char → Prop) :
    Except Fault (α × List Char) → Except Fault (α × List Char) → Prop
  | value (a : α) {rest rest' : List Char} (h : R rest rest') :
      Alike R (.ok (a, rest)) (.ok (a, rest'))
  | fault (e : Fault) : Alike R (.error e) (.error e)
  | truncated (o : Except Fault (α × List Char)) : Alike R (.error .truncated) o

/-- The reader does the same on the longer text. -/
def Steady {α : Type} (R : List Char → List Char → Prop) (r : Reader α) : Prop :=
  ∀ cs cs', R cs cs' → Alike R (r.run cs) (r.run cs')

section Compose

variable {α β : Type} {R S : List Char → List Char → Prop}

theorem Alike.mono (hRS : ∀ cs cs', R cs cs' → S cs cs') {o o' : Except Fault (α × List Char)}
    (h : Alike R o o') : Alike S o o' := by
  cases h with
  | value a h => exact .value a (hRS _ _ h)
  | fault e => exact .fault e
  | truncated _ => exact .truncated _

/-- A reader that goes on where another has stopped. -/
theorem Alike.bind {x x' : Reader α} {f f' : α → Reader β} {cs cs' : List Char}
    (hx : Alike R (x.run cs) (x'.run cs'))
    (hf : ∀ a rest rest', x.run cs = .ok (a, rest) → x'.run cs' = .ok (a, rest') → R rest rest' →
      Alike S ((f a).run rest) ((f' a).run rest')) :
    Alike S ((x >>= f).run cs) ((x' >>= f').run cs') := by
  rw [StateT.run_bind, StateT.run_bind]
  generalize x.run cs = o, x'.run cs' = o' at hx hf
  cases hx with
  | value a h => exact hf a _ _ rfl rfl h
  | fault e => exact .fault e
  | truncated _ => exact .truncated _

theorem Steady.bind {x : Reader α} {f : α → Reader β} (hx : Steady R x)
    (hf : ∀ a, Steady R (f a)) : Steady R (x >>= f) := fun cs cs' h =>
  (hx cs cs' h).bind fun a _ _ _ _ h => hf a _ _ h

theorem steady_pure (a : α) : Steady R (pure a) := fun _ _ h => .value a h

theorem steady_throw (e : Fault) : Steady R (throw e : Reader α) := fun _ _ _ => .fault e

theorem steady_ite {p : Prop} [Decidable p] {x y : Reader α} (hx : Steady R x) (hy : Steady R y) :
    Steady R (if p then x else y) := by
  split
  · exact hx
  · exact hy

theorem steady_guard {p : Prop} [Decidable p] {e : Fault} {k : PUnit → Reader α} {x : Reader α}
    (hx : Steady R x) : Steady R (if p then throw e >>= k else x) :=
  steady_ite (fun _ _ _ => .fault e) hx

end Compose

section Consume

variable {α : Type}

def Consumes (r : Reader α) : Prop :=
  ∀ cs a rest, r.run cs = .ok (a, rest) → rest.length < cs.length

theorem Opens.length_pos {cs : List Char} (h : Opens cs) : 0 < cs.length := by
  obtain ⟨g, c, u, rfl, -⟩ := h
  simp only [List.length_append, List.length_cons]
  omega

theorem Takes.consumes {r : Reader α} {entry : List Char → α → Prop} (h : Takes r entry) :
    Consumes r := by
  intro cs a rest hr
  obtain ⟨t, ht, rfl⟩ := h.sound hr
  have hpos := Opens.length_pos (h.opens ht)
  rw [List.length_append]
  omega

end Consume

namespace Reader

variable {α β : Type} {w : List Char}

section Tokens

theorem steady_next : Steady (Continues w) next := by
  intro cs cs' h
  cases h with
  | within c cs => exact .value c (continues_append w cs)
  | after => exact .truncated _

theorem dropWhile_append_of_ne_nil {p : Char → Bool} {cs : List Char} (h : cs.dropWhile p ≠ []) :
    (cs ++ w).dropWhile p = cs.dropWhile p ++ w := by
  rw [List.dropWhile_append, if_neg (by simpa using h)]

theorem steady_gap : Steady (Continues w) gap := by
  intro cs cs' h
  rw [run_gap, run_gap]
  refine .value () ?_
  by_cases hd : cs.dropWhile isGap = []
  · rw [hd]
    cases h with
    | within c cs =>
      -- All that is left of the text is a gap.
      rw [List.dropWhile_append, if_pos (by simpa using hd)]
      exact .after (gap_takeWhile w) List.takeWhile_append_dropWhile.symm
    | @after g _ hg hw =>
      refine .after (hg.append (gap_takeWhile cs')) ?_
      rw [List.append_assoc, List.takeWhile_append_dropWhile, hw]
  · cases h with
    | within c cs =>
      rw [dropWhile_append_of_ne_nil hd]
      exact continues_append w _
    | after => exact absurd rfl hd

/-- If only a gap is left, the text ended too early; a token stands before all that is appended. -/
theorem ahead_alike {cs cs' : List Char} (h : Continues w cs cs') :
    Alike (Appended w) (ahead.run cs) (ahead.run cs') := by
  cases hd : cs.dropWhile isGap with
  | nil =>
    have hrun : ahead.run cs = .error .truncated := by
      rw [ahead, run_bind_ok (run_gap cs), hd]
      rfl
    rw [hrun]
    exact .truncated _
  | cons c t =>
    cases h with
    | within d ds =>
      have hd' : (d :: ds ++ w).dropWhile isGap = c :: t ++ w := by
        rw [dropWhile_append_of_ne_nil (by simp [hd]), hd]
      rw [ahead_eq_ok.2 ⟨hd, t, rfl⟩, ahead_eq_ok.2 ⟨hd', t ++ w, rfl⟩]
      exact .value c rfl
    | after => cases hd

theorem steady_ahead {f : Char → Reader α} (hf : ∀ c cs,
    Alike (Continues w) ((f c).run (c :: cs)) ((f c).run (c :: cs ++ w))) :
    Steady (Continues w) (ahead >>= f) := by
  refine fun cs cs' h => (ahead_alike h).bind fun c rest rest' hr _ ha => ?_
  obtain ⟨-, t, rfl⟩ := ahead_eq_ok.1 hr
  rw [ha]
  exact hf c t

theorem steady_after_ahead {f : Char → Reader α} (hf : ∀ c, Steady (Continues w) (f c)) :
    Steady (Continues w) (ahead >>= f) :=
  steady_ahead fun c cs => hf c _ _ (continues_append w (c :: cs))

theorem steady_mark (c : Char) : Steady (Continues w) (mark c) :=
  steady_gap.bind fun _ => steady_next.bind fun _ => steady_ite (steady_throw _) (steady_pure _)

theorem steady_word (cs : List Char) : Steady (Continues w) (word cs) := by
  induction cs with
  | nil => exact steady_pure _
  | cons c cs ih => exact steady_next.bind fun _ => steady_guard ih

end Tokens

section Loops

variable {R S : List Char → List Char → Prop}

theorem consumes_next : Consumes next := by
  intro cs c rest h
  rw [next_eq_ok.1 h]
  exact Nat.lt_succ_self _

theorem length_of_gap {cs rest : List Char} {u : Unit} (h : gap.run cs = .ok (u, rest)) :
    rest.length ≤ cs.length := by
  rw [← gap_eq_ok.1 h]
  exact (List.dropWhile_sublist _).length_le

theorem length_of_ahead {cs rest : List Char} {c : Char} (h : ahead.run cs = .ok (c, rest)) :
    rest.length ≤ cs.length := by
  rw [← (ahead_eq_ok.1 h).1]
  exact (List.dropWhile_sublist _).length_le

theorem consumes_mark (c : Char) : Consumes (mark c) := by
  intro cs u rest h
  obtain ⟨g, -, rfl⟩ := mark_split h
  simp only [List.length_append, List.length_cons]
  omega

/-- What follows a reader that takes something has less of the text left. -/
theorem alike_consume {x x' : Reader α} (hc : Consumes x) (hc' : Consumes x')
    {f f' : α → Reader β} {cs cs' : List Char}
    (hx : Alike R (x.run cs) (x'.run cs'))
    (hf : ∀ a rest rest', rest.length < cs.length → rest'.length < cs'.length → R rest rest' →
      Alike S ((f a).run rest) ((f' a).run rest')) :
    Alike S ((x >>= f).run cs) ((x' >>= f').run cs') :=
  hx.bind fun a rest rest' hr hr' h => hf a rest rest' (hc _ _ _ hr) (hc' _ _ _ hr') h

/-- An item and the mark after it. -/
theorem alike_to_mark {x x' : Reader α} (hc : Consumes x) (hc' : Consumes x')
    {f f' : α → Char → Reader β} {cs cs' : List Char}
    (hx : Alike (Continues w) (x.run cs) (x'.run cs'))
    (hf : ∀ a c rest rest', rest.length + 1 < cs.length → rest'.length + 1 < cs'.length →
      Continues w rest rest' → Alike S ((f a c).run rest) ((f' a c).run rest')) :
    Alike S ((x >>= fun a => gap >>= fun _ => next >>= f a).run cs)
      ((x' >>= fun a => gap >>= fun _ => next >>= f' a).run cs') := by
  refine alike_consume hc hc' hx fun a mid mid' hl hl' h => ?_
  refine (steady_gap _ _ h).bind fun _ _ _ hg hg' h => ?_
  have := length_of_gap hg
  have := length_of_gap hg'
  exact alike_consume consumes_next consumes_next (steady_next _ _ h)
    fun c rest rest' _ _ h => hf a c rest rest' (by omega) (by omega) h

/-- What stands behind an opening bracket, up to the closing one that may follow at once. -/
theorem alike_inside {f f' : Reader Unit} {close : Char} {cs cs' : List Char}
    (h : Continues w cs cs')
    (hf : ∀ rest rest', rest.length < cs.length → rest'.length < cs'.length →
      Continues w rest rest' → Alike (Continues w) (f.run rest) (f'.run rest')) :
    Alike (Continues w)
      (StateT.run (do
        let _ ← next
        if (← ahead) = close then let _ ← next else f) cs)
      (StateT.run (do
        let _ ← next
        if (← ahead) = close then let _ ← next else f') cs') := by
  refine alike_consume consumes_next consumes_next (steady_next _ _ h) fun _ _ _ hl hl' h => ?_
  refine (ahead_alike h).bind fun _ rest rest' hd hd' ha => ?_
  have := length_of_ahead hd
  have := length_of_ahead hd'
  split
  · exact (steady_next.bind fun _ => steady_pure _) _ _ ha.continues
  · exact hf rest rest' (by omega) (by omega) ha.continues

variable {item : Reader α} {close : Char} (hi : Steady (Continues w) item) (hc : Consumes item)

include hi hc

/-- The turns are bounded by what is left, of which the longer text has more; neither bound is ever
reached. -/
theorem divided_alike {n m : Nat} {cs cs' : List Char} (hn : 0 < n) (hl : cs.length ≤ n)
    (hm : 0 < m) (hl' : cs'.length ≤ m) (h : Continues w cs cs') :
    Alike (Continues w) ((divided item close n).run cs) ((divided item close m).run cs') := by
  induction n generalizing m cs cs' with
  | zero => exact absurd hn (Nat.lt_irrefl 0)
  | succ n ih =>
    obtain ⟨m, rfl⟩ : ∃ k, m = k + 1 := ⟨m - 1, by omega⟩
    rw [divided, divided]
    refine alike_to_mark hc hc (hi _ _ h) fun x c rest rest' hs hs' h => ?_
    split
    · exact (ih (by omega) (by omega) (by omega) (by omega) h).bind fun _ _ _ _ _ h =>
        steady_pure _ _ _ h
    · exact steady_ite (steady_pure _) (steady_throw _) _ _ h

theorem steady_items : Steady (Continues w) (items item close) := by
  refine steady_ahead fun c cs => ?_
  have h := continues_append w (c :: cs)
  split
  · exact (steady_next.bind fun _ => steady_pure _) _ _ h
  · rw [run_bind_ok (run_remaining _), run_bind_ok (run_remaining _)]
    exact divided_alike hi hc (by simp) le_rfl (by simp) le_rfl h

end Loops

end Reader

end SqlRender.Json
