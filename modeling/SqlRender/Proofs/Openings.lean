import SqlRender.Proofs.Clauses

/-!
# Reading openings

The opening of a statement determines its kind, its table and its columns. Erasure takes the table
from written columns, and of those the opening shows the names alone.
-/
namespace SqlRender

open Text (Atom chars Ends Reads listed clash Undotted)
open Piece (row trail separated)

namespace Query

def openingRow (q : Query) : List Atom :=
  match q.verb with
  | .select => (if q.distinct then chars "DISTINCT " else []) ++
      (row q.projectionOutline ++ (chars " FROM " ++ [.name q.table]))
  | .insert => .name q.table :: (chars " (" ++
      (listed (chars ", ") (fun c => [.name (Column.name c)]) q.columns ++ (chars ") VALUES (" ++
        (listed (chars ", ") (fun _ => [.char '?']) q.columns ++ [.char ')']))))
  | .update => .name q.table :: (chars " SET " ++ listed (chars ", ")
      (fun c => .name (Column.name c) :: (chars " = " ++ [.char '?'])) q.columns)
  | .delete => [.name q.table]

theorem row_opening (q : Query) :
    row (separated " " q.openingParts) = chars (q.verb.keyword ++ " ") ++ q.openingRow := by
  unfold openingParts openingRow
  cases q.verb with
  | select =>
    cases q.distinct <;> simp [Piece.separated_cons, chars, Verb.keyword]
  | insert =>
    simp [Piece.separated_cons, Piece.row_separated, chars, Verb.keyword]
  | update => simp [Piece.separated_cons, Piece.row_separated, chars, Verb.keyword]
  | delete => simp [Piece.separated_cons, chars, Verb.keyword]

theorem reads_verb {v v' : Verb} {r s : List Atom}
    (he : chars (v.keyword ++ " ") ++ r = chars (v'.keyword ++ " ") ++ s) : v = v' ∧ r = s := by
  have hm : ∀ v : Verb, v ∈ [Verb.select, .insert, .update, .delete] := by
    intro v
    cases v <;> decide
  exact Text.eq_of_clash (f := fun v => Verb.keyword v ++ " ") (by decide) (hm v) (hm v') he

/-- No projection begins with the word `DISTINCT` and a blank. -/
theorem projection_ne_distinct {q : Query} (hw : ∀ c ∈ q.calls, ∀ v ∈ c.verbatims, v.IsWord)
    (r s : List Atom) : row q.projectionOutline ++ r ≠ chars "DISTINCT " ++ s := by
  rcases q.row_projection with ⟨-, hp | hp⟩ | ⟨hne, hp⟩
  · simp [hp, chars]
  · simp [hp, chars]
  · obtain ⟨e, es, he⟩ := List.exists_cons_of_ne_nil hne
    have hv := forall_entries hw e (by simp [he])
    rw [hp, he, listed]
    cases e with
    | inl c =>
      rcases c.row_outline with ⟨_, _, hc⟩
      simp [Entry.outline, hc, chars]
    | inr c =>
      rcases c with ⟨function, arguments, label⟩
      have hf : (⟨.function, function⟩ : Verbatim).IsWord :=
        hv _ (by simp [Entry.verbatims, Call.verbatims])
      obtain ⟨t, ht⟩ := Call.row_outline function arguments label
      intro h
      have h : chars function ++ .char '(' :: (t ++ (es.flatMap (fun e => chars ", " ++
          row e.outline) ++ r)) = chars "DISTINCT" ++ .char ' ' :: s := by
        simpa [Entry.outline, ht, chars] using h
      have hd : "DISTINCT".toList.all Text.isWordChar := by decide
      rcases Text.word_injective hf.2.2 (List.all_eq_true.1 hd) rfl rfl h with ⟨-, hc, -⟩
      cases hc

theorem reads_select {q q' : Query} (hv : q.verb = .select) (hv' : q'.verb = .select)
    (hw : ∀ c ∈ q.calls, ∀ v ∈ c.verbatims, v.IsWord)
    (hw' : ∀ c ∈ q'.calls, ∀ v ∈ c.verbatims, v.IsWord) {r s : List Atom}
    (he : q.openingRow ++ r = q'.openingRow ++ s) :
    q.table = q'.table ∧ q.distinct = q'.distinct ∧ q.columns = q'.columns ∧
      q.calls.map Call.erase = q'.calls.map Call.erase ∧ r = s := by
  have hp : ∀ {q q' : Query} (_ : ∀ c ∈ q.calls, ∀ v ∈ c.verbatims, v.IsWord)
      (_ : ∀ c ∈ q'.calls, ∀ v ∈ c.verbatims, v.IsWord) {r s : List Atom},
      row q.projectionOutline ++ (chars " FROM " ++ .name q.table :: r) =
        row q'.projectionOutline ++ (chars " FROM " ++ .name q'.table :: s) →
      q.table = q'.table ∧ q.columns = q'.columns ∧
        q.calls.map Call.erase = q'.calls.map Call.erase ∧ r = s := by
    intro q q' hw hw' r s he
    rcases reads_projection hw hw' he with ⟨hc, hl, ht⟩
    obtain ⟨ht, hrs⟩ := List.cons.inj ht
    exact ⟨Atom.name.inj ht, hc, hl, hrs⟩
  simp only [openingRow, hv, hv', List.append_assoc, List.singleton_append] at he
  cases hd : q.distinct with
  | false =>
    cases hd' : q'.distinct with
    | false =>
      rcases hp hw hw' (by simpa [hd, hd'] using he) with ⟨ht, hc, hl, hrs⟩
      exact ⟨ht, rfl, hc, hl, hrs⟩
    | true => exact absurd (by simpa [hd, hd'] using he) (projection_ne_distinct hw _ _)
  | true =>
    cases hd' : q'.distinct with
    | false => exact absurd (by simpa [hd, hd'] using he.symm) (projection_ne_distinct hw' _ _)
    | true =>
      rcases hp hw hw' (by simpa [hd, hd'] using he) with ⟨ht, hc, hl, hrs⟩
      exact ⟨ht, rfl, hc, hl, hrs⟩

theorem reads_insert {q q' : Query} (hv : q.verb = .insert) (hv' : q'.verb = .insert)
    {r s : List Atom} (he : q.openingRow ++ r = q'.openingRow ++ s) :
    q.table = q'.table ∧ q.columns.map Column.name = q'.columns.map Column.name ∧ r = s := by
  simp only [openingRow, hv, hv', List.append_assoc, List.cons_append, List.nil_append] at he
  obtain ⟨ht, he⟩ := List.cons.inj he
  obtain ⟨hc, he⟩ := Reads.listed (V := fun _ => True) (E := fun _ => True)
    (F := fun r => ∃ t, r = chars ") VALUES (" ++ t) (k := Column.name)
    (fun c _ d r s _ _ _ h => by simpa using h) (fun _ _ => trivial) (fun _ => trivial)
    (fun _ _ => trivial) (by rintro _ s ⟨t, rfl⟩; simp [chars])
    (by rintro b _ s - ⟨t, rfl⟩; simp [chars]) (fun _ _ => trivial) ⟨_, rfl⟩ ⟨_, rfl⟩
    (List.append_cancel_left he)
  obtain ⟨-, he⟩ := Reads.listed (V := fun _ => True) (E := fun _ => True)
    (F := fun r => ∃ t, r = .char ')' :: t) (k := fun _ : Column => ())
    (fun c _ d r s _ _ _ h => by simpa using h) (fun _ _ => trivial) (fun _ => trivial)
    (fun _ _ => trivial) (by rintro _ s ⟨t, rfl⟩; simp [chars])
    (by rintro b _ s - ⟨t, rfl⟩; simp) (fun _ _ => trivial) ⟨_, rfl⟩ ⟨_, rfl⟩
    (List.append_cancel_left he)
  exact ⟨Atom.name.inj ht, hc, (List.cons.inj he).2⟩

theorem reads_update {q q' : Query} (hv : q.verb = .update) (hv' : q'.verb = .update)
    {r s : List Atom} (hr : Ends (joining ++ " WHERE (" :: closing) r)
    (hs : Ends (joining ++ " WHERE (" :: closing) s)
    (he : q.openingRow ++ r = q'.openingRow ++ s) :
    q.table = q'.table ∧ q.columns.map Column.name = q'.columns.map Column.name ∧ r = s := by
  have hname : ∀ (c : Column) r s, Ends (joining ++ " WHERE (" :: closing) r →
      r ≠ (.name c.name :: (chars " = " ++ [.char '?'])) ++ s := by
    rintro c r s hr rfl
    rcases hr.head (p := fun _ => true) (by decide) _ rfl with ⟨_, h, -⟩
    cases h
  simp only [openingRow, hv, hv', List.append_assoc, List.cons_append] at he
  rcases List.cons.inj he with ⟨ht, he⟩
  obtain ⟨hc, hrs⟩ := Reads.listed (V := fun _ => True) (E := fun _ => True) (k := Column.name)
    (fun c _ d r s _ _ _ h => by simpa using h) (fun _ _ => trivial) (fun _ => trivial)
    (fun _ _ => trivial) (fun _ s hr => hr.ne_append (by decide) (by decide) s)
    (fun c r s _ hr => hname c r s hr) (fun _ _ => trivial) hr hs (List.append_cancel_left he)
  exact ⟨Atom.name.inj ht, hc, hrs⟩

theorem reads_delete {q q' : Query} (hv : q.verb = .delete) (hv' : q'.verb = .delete)
    {r s : List Atom} (he : q.openingRow ++ r = q'.openingRow ++ s) :
    q.table = q'.table ∧ r = s := by
  simpa [openingRow, hv, hv'] using he

theorem eraseColumns_of_names {v : Verb} (hv : v.writesColumns) {cs ds : List Column}
    (h : cs.map Column.name = ds.map Column.name) : v.eraseColumns cs = v.eraseColumns ds := by
  have hm := congrArg (List.map Column.bare) h
  simpa [Verb.eraseColumns, hv, Function.comp_def] using hm

theorem reads_opening {q q' : Query} (hd : q.partDefects = []) (hd' : q'.partDefects = [])
    (hw : ∀ c ∈ q.calls, ∀ v ∈ c.verbatims, v.IsWord)
    (hw' : ∀ c ∈ q'.calls, ∀ v ∈ c.verbatims, v.IsWord) {r s : List Atom}
    (hr : Ends (joining ++ " WHERE (" :: closing) r)
    (hs : Ends (joining ++ " WHERE (" :: closing) s)
    (he : row (separated " " q.openingParts) ++ r = row (separated " " q'.openingParts) ++ s) :
    q.verb = q'.verb ∧ q.table = q'.table ∧ q.distinct = q'.distinct ∧
      q.verb.eraseColumns q.columns = q'.verb.eraseColumns q'.columns ∧
      q.calls.map Call.erase = q'.calls.map Call.erase ∧ r = s := by
  rw [row_opening, row_opening, List.append_assoc, List.append_assoc] at he
  obtain ⟨hv, he⟩ := reads_verb he
  have hselect : q.verb ≠ .select → q.distinct = q'.distinct ∧ q.calls = q'.calls := by
    intro hs
    rcases selectOnly_of_partDefects hd hs with ⟨hf, hl, -⟩
    rcases selectOnly_of_partDefects hd' (hv ▸ hs) with ⟨hf', hl', -⟩
    exact ⟨by rw [hf, hf'], by rw [hl, hl']⟩
  cases hq : q.verb with
  | select =>
    rw [hq] at hv
    obtain ⟨ht, hf, hc, hl, hrs⟩ := reads_select hq hv.symm hw hw' he
    exact ⟨hv, ht, hf, by rw [← hv, hc], hl, hrs⟩
  | insert =>
    rcases hselect (by simp [hq]) with ⟨hf, hl⟩
    rw [hq] at hv
    rcases reads_insert hq hv.symm he with ⟨ht, hc, hrs⟩
    exact ⟨hv, ht, hf, by rw [← hv, eraseColumns_of_names rfl hc], by rw [hl], hrs⟩
  | update =>
    obtain ⟨hf, hl⟩ := hselect (by simp [hq])
    rw [hq] at hv
    rcases reads_update hq hv.symm hr hs he with ⟨ht, hc, hrs⟩
    exact ⟨hv, ht, hf, by rw [← hv, eraseColumns_of_names rfl hc], by rw [hl], hrs⟩
  | delete =>
    rcases hselect (by simp [hq]) with ⟨hf, hl⟩
    have hc : q.columns = q'.columns := by
      rw [columns_of_partDefects hd hq, columns_of_partDefects hd' (by rw [← hv, hq])]
    rw [hq] at hv
    obtain ⟨ht, hrs⟩ := reads_delete hq hv.symm he
    exact ⟨hv, ht, hf, by rw [← hv, hc], by rw [hl], hrs⟩

end Query

end SqlRender
