import SqlRender.Proofs.Erasure
import SqlRender.Proofs.Rows

/-!
# Reading projections

The rows of columns and calls determine them, up to the labels that erasure takes away, and so does
the row of a whole projection. The names of functions are taken to be words here, so that a
parenthesis ends them.
-/
namespace SqlRender

open Text (Atom chars Ends Reads listed clash)
open Piece (row trail separated)

def Text.Undotted (r : List Atom) : Prop := r.head? ≠ some (.char '.')

open Text (isWordChar Undotted)

theorem Text.Ends.undotted {words : List String} {r : List Atom} (h : Ends words r)
    (hp : words.all fun w => w.toList.head?.any (· != '.')) : Undotted r := by
  intro hd
  obtain ⟨c, hc, hne⟩ := h.head hp _ hd
  cases hc
  cases hne

theorem Column.row_outline (c : Column) : ∃ s t, row c.outline = .name s :: t := by
  rcases c with ⟨_ | table, name⟩
  · exact ⟨_, _, rfl⟩
  · exact ⟨_, _, rfl⟩

theorem Column.reads (c : Column) :
    Reads (fun _ => True) Undotted (fun c => row (Column.outline c)) id c := by
  rcases c with ⟨table, name⟩
  rintro ⟨table', name'⟩ r s - hr hs h
  cases table with
  | none =>
    cases table' with
    | none => simpa [Column.outline] using h
    | some t =>
      obtain ⟨-, rfl⟩ : name = t ∧ r = .char '.' :: .name name' :: s := by
        simpa [Column.outline, chars] using h
      exact absurd rfl hr
  | some t =>
    cases table' with
    | none =>
      obtain ⟨-, rfl⟩ : t = name' ∧ .char '.' :: .name name :: r = s := by
        simpa [Column.outline, chars] using h
      exact absurd rfl hs
    | some t' => simpa [Column.outline, chars, and_assoc] using h

theorem Argument.outlineAll_eq_map (as : List Argument) :
    Argument.outlineAll as = as.map Argument.outline := by
  induction as with
  | nil => rfl
  | cons a as ih => rw [Argument.outlineAll, ih, List.map_cons]

theorem Argument.forall_verbatimsAll {P : Verbatim → Prop} {as : List Argument} :
    (∀ v ∈ Argument.verbatimsAll as, P v) ↔ ∀ a ∈ as, ∀ v ∈ a.verbatims, P v := by
  induction as with
  | nil => simp [Argument.verbatimsAll]
  | cons a as ih =>
    rw [Argument.verbatimsAll, List.forall_mem_append, ih, List.forall_mem_cons]

theorem Call.row_outlineBody (function : String) (arguments : List Argument)
    (label : Option String) : row (Call.outlineBody ⟨function, arguments, label⟩) =
      chars function ++ .char '(' ::
        (listed (chars ", ") (fun a => row (Argument.outline a)) arguments ++ [.char ')']) := by
  simp [Call.outlineBody, Argument.outlineAll_eq_map, Piece.row_separated, chars]

theorem Call.row_outline (function : String) (arguments : List Argument)
    (label : Option String) :
    ∃ t, row (Call.outline ⟨function, arguments, label⟩) = chars function ++ .char '(' :: t := by
  rw [Call.outline, Piece.row_append, Call.row_outlineBody, List.append_assoc]
  exact ⟨_, rfl⟩

/-- The name of a function ends at the first parenthesis. -/
theorem Text.word_injective {f g : String} {r s : List Atom} {a b : Char}
    (hf : ∀ c ∈ f.toList, isWordChar c) (hg : ∀ c ∈ g.toList, isWordChar c)
    (ha : isWordChar a = false) (hb : isWordChar b = false)
    (h : chars f ++ .char a :: r = chars g ++ .char b :: s) : f = g ∧ a = b ∧ r = s := by
  have hw : ∀ {t : String}, (∀ c ∈ t.toList, isWordChar c) →
      ∀ x ∈ chars t, ∃ c, x = .char c ∧ isWordChar c := by
    intro t ht x hx
    obtain ⟨c, hc, rfl⟩ := List.mem_map.1 hx
    exact ⟨c, rfl, ht c hc⟩
  rcases Text.run_injective (hw hf) (hw hg) (by simp [ha]) (by simp [hb]) h with ⟨hfg, hrs⟩
  exact ⟨Text.chars_injective hfg, by simpa using hrs⟩

theorem Call.head_row {c : Call} (h : ∀ v ∈ c.verbatims, v.IsWord) :
    ∃ x t, row c.outlineBody = .char x :: t ∧ isWordChar x := by
  rcases c with ⟨function, arguments, label⟩
  obtain ⟨-, hne, hw⟩ : (⟨.function, function⟩ : Verbatim).IsWord :=
    h _ (by simp [Call.verbatims])
  rw [Call.row_outlineBody]
  cases hf : function.toList with
  | nil => exact absurd (String.toList_eq_nil_iff.1 hf) hne
  | cons x xs => exact ⟨x, _, by simp only [chars, hf]; rfl, hw x (by simp [hf])⟩

theorem Argument.row_call (c : Call) : row (Argument.outline (.call c)) = row c.outlineBody := rfl

theorem Argument.row_wildcard : row (Argument.outline .wildcard) = [.char '*'] := by
  simp [Argument.outline, chars]

/-- No argument begins with a parenthesis. -/
theorem Argument.row_ne {a : Argument} (h : ∀ v ∈ a.verbatims, v.IsWord) (r s : List Atom) :
    .char ')' :: r ≠ row a.outline ++ s := by
  cases a with
  | column c =>
    obtain ⟨_, _, he⟩ := c.row_outline
    rw [Argument.outline, he]
    simp
  | call c =>
    rcases Call.head_row (c := c) (by simpa [Argument.verbatims] using h) with ⟨x, _, he, hx⟩
    rw [Argument.row_call, he]
    rintro ⟨⟩
    cases hx
  | wildcard =>
    rw [Argument.row_wildcard]
    simp

mutual

theorem Call.reads_body : ∀ c : Call, (∀ v ∈ c.verbatims, v.IsWord) →
    Reads (fun c => ∀ v ∈ c.verbatims, v.IsWord) (fun _ => True) (fun c => row c.outlineBody)
      Call.unlabelled c
  | ⟨function, arguments, label⟩, hw => by
    rintro ⟨function', arguments', label'⟩ r s hw' - - h
    simp only [Call.verbatims, List.forall_mem_cons] at hw hw'
    have h : chars function ++ .char '(' :: (listed (chars ", ")
          (fun a => row (Argument.outline a)) arguments ++ .char ')' :: r) =
        chars function' ++ .char '(' :: (listed (chars ", ")
          (fun a => row (Argument.outline a)) arguments' ++ .char ')' :: s) := by
      simpa [Call.row_outlineBody] using h
    rcases Text.word_injective hw.1.2.2 hw'.1.2.2 rfl rfl h with ⟨rfl, -, h⟩
    have hc : ∀ r : List Atom, Ends [", ", ")"] (.char ')' :: r) :=
      fun r => Ends.word (w := ")") (by simp) r
    obtain ⟨ha, hrs⟩ := Reads.listed (F := fun r => ∃ t, r = .char ')' :: t)
      (Argument.readsAll arguments hw.2) (Argument.forall_verbatimsAll.1 hw.2) (Ends.word (by simp))
      (by rintro _ ⟨t, rfl⟩; exact hc t) (by rintro _ s ⟨t, rfl⟩; simp [chars])
      (by rintro b _ s hb ⟨t, rfl⟩; exact Argument.row_ne hb t s)
      (Argument.forall_verbatimsAll.1 hw'.2) ⟨_, rfl⟩ ⟨_, rfl⟩ h
    exact ⟨by simp [Call.unlabelled, Argument.eraseAll_eq_map, ha], by simpa using hrs⟩

theorem Argument.reads : ∀ a : Argument, (∀ v ∈ a.verbatims, v.IsWord) →
    Reads (fun a => ∀ v ∈ a.verbatims, v.IsWord) (Ends [", ", ")"]) (fun a => row a.outline)
      Argument.erase a
  | .column c, _ => by
    obtain ⟨_, _, he⟩ := c.row_outline
    rintro (c' | c' | _) r s hw' hr hs h
    · obtain ⟨rfl, hrs⟩ := c.reads c' r s trivial (hr.undotted (by decide))
        (hs.undotted (by decide)) h
      exact ⟨rfl, hrs⟩
    · rcases Call.head_row (c := c') (by simpa [Argument.verbatims] using hw') with ⟨_, _, he', -⟩
      simp [Argument.outline, he, he'] at h
    · simp [Argument.outline, he, chars] at h
  | .call c, hw => by
    have hw : ∀ v ∈ c.verbatims, v.IsWord := by simpa [Argument.verbatims] using hw
    rcases Call.head_row hw with ⟨x, _, he, hx⟩
    rintro (c' | c' | _) r s hw' hr hs h
    · obtain ⟨_, _, he'⟩ := c'.row_outline
      simp [Argument.outline, he, he'] at h
    · obtain ⟨hc, hrs⟩ := Call.reads_body c hw c' r s (by simpa [Argument.verbatims] using hw')
        trivial trivial h
      exact ⟨by simp [Argument.erase, hc], hrs⟩
    · obtain ⟨rfl, -⟩ : x = '*' ∧ _ := by simpa [Argument.outline, he, chars] using h
      cases hx
  | .wildcard, _ => by
    rintro (c' | c' | _) r s hw' hr hs h
    · rcases c'.row_outline with ⟨_, _, he'⟩
      simp [Argument.outline, he', chars] at h
    · rcases Call.head_row (c := c') (by simpa [Argument.verbatims] using hw') with ⟨x, _, he', hx⟩
      obtain ⟨rfl, -⟩ : '*' = x ∧ _ := by simpa [Argument.outline, he', chars] using h
      cases hx
    · exact ⟨rfl, by simpa using h⟩

theorem Argument.readsAll : ∀ as : List Argument, (∀ v ∈ Argument.verbatimsAll as, v.IsWord) →
    ∀ a ∈ as, Reads (fun a => ∀ v ∈ a.verbatims, v.IsWord) (Ends [", ", ")"])
      (fun a => row a.outline) Argument.erase a
  | [], _ => by simp
  | a :: as, h => by
    simp only [Argument.verbatimsAll, List.forall_mem_append] at h
    simp only [List.forall_mem_cons]
    exact ⟨Argument.reads a h.1, Argument.readsAll as h.2⟩

end

theorem Call.reads {c : Call} (hw : ∀ v ∈ c.verbatims, v.IsWord) :
    Reads (fun c => ∀ v ∈ c.verbatims, v.IsWord) (Ends [", ", " FROM "])
      (fun c => row (Call.outline c)) Call.erase c := by
  intro c' r s hw' hr hs h
  have hrow : ∀ c : Call, row c.outline =
      row c.outlineBody ++ c.label.elim [] fun label => chars " AS " ++ [.name label] := by
    intro c
    unfold Call.outline
    cases c.label <;> simp
  simp only [hrow, List.append_assoc] at h
  obtain ⟨hu, h⟩ := Call.reads_body c hw c' _ _ hw' trivial trivial h
  have hne : ∀ {r}, Ends [", ", " FROM "] r → ∀ s, r ≠ chars " AS " ++ s :=
    fun hr => hr.ne_append (by decide) (by decide)
  have hl : c.label = c'.label ∧ r = s := by
    cases hl : c.label with
    | none =>
      cases hl' : c'.label with
      | none => simpa [hl, hl'] using h
      | some label => exact absurd (by simpa [hl, hl'] using h) (hne hr (.name label :: s))
    | some label =>
      cases hl' : c'.label with
      | none => exact absurd (by simpa [hl, hl'] using h.symm) (hne hs (.name label :: r))
      | some label' => simpa [hl, hl'] using h
  exact ⟨by simp [Call.erase, hu, hl.1], hl.2⟩

abbrev Entry := Column ⊕ Call

namespace Entry

def outline : Entry → List (Piece String) := Sum.elim Column.outline Call.outline

def verbatims : Entry → List Verbatim := Sum.elim (fun _ => []) Call.verbatims

theorem reads {e : Entry} (hw : ∀ v ∈ e.verbatims, v.IsWord) :
    Reads (fun e : Entry => ∀ v ∈ e.verbatims, v.IsWord) (Ends [", ", " FROM "])
      (fun e => row e.outline) (Sum.map id Call.erase) e := by
  have hne : ∀ (c : Column) (c' : Call) (r s : List Atom), (∀ v ∈ c'.verbatims, v.IsWord) →
      row c.outline ++ r ≠ row c'.outline ++ s := by
    intro c c' r s hw
    rcases c.row_outline with ⟨_, _, he⟩
    rcases Call.head_row hw with ⟨x, _, he', -⟩
    simp [Call.outline, he, he']
  rintro e' r s hw' hr hs h
  cases e with
  | inl c =>
    cases e' with
    | inl c' =>
      obtain ⟨rfl, hrs⟩ := c.reads c' r s trivial (hr.undotted (by decide))
        (hs.undotted (by decide)) h
      exact ⟨rfl, hrs⟩
    | inr c' => exact absurd h (hne c c' r s hw')
  | inr c =>
    cases e' with
    | inl c' => exact absurd h.symm (hne c' c s r hw)
    | inr c' =>
      obtain ⟨hc, hrs⟩ := Call.reads hw c' r s hw' hr hs h
      exact ⟨congrArg Sum.inr hc, hrs⟩

/-- No entry begins like the projection of all columns, or of all columns of one table. -/
theorem row_ne {e : Entry} (hw : ∀ v ∈ e.verbatims, v.IsWord) {r : List Atom} (hr : Undotted r)
    (table : String) (s : List Atom) : row e.outline ++ r ≠ .char '*' :: s ∧
      row e.outline ++ r ≠ .name table :: .char '.' :: .char '*' :: s := by
  cases e with
  | inl c =>
    rcases c with ⟨_ | t, name⟩
    · constructor
      · simp [outline, Column.outline]
      · rintro h
        obtain ⟨-, rfl⟩ : name = table ∧ r = .char '.' :: .char '*' :: s := by
          simpa [outline, Column.outline] using h
        exact hr rfl
    · simp [outline, Column.outline, chars]
  | inr c =>
    rcases Call.head_row hw with ⟨x, _, he, hx⟩
    constructor
    · intro h
      obtain ⟨rfl, -⟩ : x = '*' ∧ _ := by simpa [outline, Call.outline, he] using h
      cases hx
    · simp [outline, Call.outline, he]

theorem listed_ne {es : List Entry} (hne : es ≠ []) (hw : ∀ e ∈ es, ∀ v ∈ e.verbatims, v.IsWord)
    {r : List Atom} (hr : Undotted r) (table : String) (s : List Atom) :
    listed (chars ", ") (fun e => row (outline e)) es ++ r ≠ .char '*' :: s ∧
      listed (chars ", ") (fun e => row (outline e)) es ++ r ≠
        .name table :: .char '.' :: .char '*' :: s := by
  obtain ⟨e, es, rfl⟩ := List.exists_cons_of_ne_nil hne
  rw [listed, List.append_assoc]
  apply row_ne (hw e (by simp))
  cases es with
  | nil => exact hr
  | cons e es => simp [Undotted, chars]

end Entry

namespace Query

def entries (q : Query) : List Entry := q.columns.map .inl ++ q.calls.map .inr

theorem forall_entries {q : Query} (h : ∀ c ∈ q.calls, ∀ v ∈ c.verbatims, v.IsWord) :
    ∀ e ∈ q.entries, ∀ v ∈ e.verbatims, v.IsWord := by
  simp only [entries, List.forall_mem_append, List.forall_mem_map]
  exact ⟨fun c _ => by simp [Entry.verbatims], h⟩

theorem entries_injective {q q' : Query}
    (h : q.entries.map (Sum.map id Call.erase) = q'.entries.map (Sum.map id Call.erase)) :
    q.columns = q'.columns ∧ q.calls.map Call.erase = q'.calls.map Call.erase := by
  constructor
  · simpa [entries, List.filterMap_append, Function.comp_def] using
      congrArg (List.filterMap Sum.getLeft?) h
  · simpa [entries, List.filterMap_append, Function.comp_def] using
      congrArg (List.filterMap Sum.getRight?) h

/-- Without entries a projection is a wildcard, possibly after the name of the table. -/
theorem row_projection (q : Query) :
    (q.entries = [] ∧ (row q.projectionOutline = [.char '*'] ∨
      row q.projectionOutline = [.name q.table, .char '.', .char '*'])) ∨
    (q.entries ≠ [] ∧ row q.projectionOutline =
      listed (chars ", ") (fun e => row (Entry.outline e)) q.entries) := by
  have hm : q.columns.map Column.outline ++ q.calls.map Call.outline =
      q.entries.map Entry.outline := by simp [entries, Entry.outline, Function.comp_def]
  unfold projectionOutline
  rw [hm]
  cases he : q.entries with
  | nil =>
    left
    refine ⟨rfl, ?_⟩
    rw [List.map_nil]
    by_cases hj : q.joins.isEmpty <;> simp [hj, chars]
  | cons e es =>
    right
    exact ⟨by simp, Piece.row_separated _ _ (e :: es)⟩

theorem reads_projection {q q' : Query} (hw : ∀ c ∈ q.calls, ∀ v ∈ c.verbatims, v.IsWord)
    (hw' : ∀ c ∈ q'.calls, ∀ v ∈ c.verbatims, v.IsWord) {r s : List Atom}
    (h : row q.projectionOutline ++ (chars " FROM " ++ r) =
      row q'.projectionOutline ++ (chars " FROM " ++ s)) :
    q.columns = q'.columns ∧ q.calls.map Call.erase = q'.calls.map Call.erase ∧ r = s := by
  have hE : ∀ r, Ends [", ", " FROM "] (chars " FROM " ++ r) := Ends.word (by simp)
  have hu : ∀ r, Undotted (chars " FROM " ++ r) := fun r => (hE r).undotted (by decide)
  have hk : q.entries.map (Sum.map id Call.erase) = q'.entries.map (Sum.map id Call.erase) ∧
      chars " FROM " ++ r = chars " FROM " ++ s := by
    rcases q.row_projection with ⟨he, hp⟩ | ⟨he, hp⟩
    · rcases q'.row_projection with ⟨he', hp'⟩ | ⟨he', hp'⟩
      · rw [he, he']
        rcases hp with hp | hp <;> rcases hp' with hp' | hp' <;> simp_all
      · have hn := fun t u => Entry.listed_ne he' (forall_entries hw') (hu s) t u
        rw [hp'] at h
        rcases hp with hp | hp
        · exact absurd (by simpa [hp] using h.symm) (hn "" _).1
        · exact absurd (by simpa [hp] using h.symm) (hn q.table _).2
    · rcases q'.row_projection with ⟨he', hp'⟩ | ⟨he', hp'⟩
      · have hn := fun t u => Entry.listed_ne he (forall_entries hw) (hu r) t u
        rw [hp] at h
        rcases hp' with hp' | hp'
        · exact absurd (by simpa [hp'] using h) (hn "" _).1
        · exact absurd (by simpa [hp'] using h) (hn q'.table _).2
      · rw [hp, hp'] at h
        have hv := forall_entries hw
        have hv' := forall_entries hw'
        rcases List.exists_cons_of_ne_nil he with ⟨e, es, hes⟩
        rcases List.exists_cons_of_ne_nil he' with ⟨e', es', hes'⟩
        rw [hes] at h hv
        rw [hes'] at h hv'
        rw [hes, hes']
        exact Reads.listed_cons (F := fun r => ∃ t, r = chars " FROM " ++ t)
          (fun e he => Entry.reads (hv e he)) hv (Ends.word (by simp))
          (by rintro _ ⟨t, rfl⟩; exact hE t) (by rintro _ s ⟨t, rfl⟩; simp [chars]) hv'
          ⟨r, rfl⟩ ⟨s, rfl⟩ h
  obtain ⟨hc, hd⟩ := entries_injective hk.1
  exact ⟨hc, hd, List.append_cancel_left hk.2⟩

end Query

end SqlRender
