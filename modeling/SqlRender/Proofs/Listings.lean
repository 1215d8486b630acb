import SqlRender.Proofs.Slots
import SqlRender.Proofs.Verbatim
import SqlRender.Render.Listing

/-!
# Reading a listing of binds

A listing has a line for each bind after the statement. Nothing is escaped in it, and a name may
hold line breaks; so a bind takes as many lines as its own text has, and a name that goes on after a
line break as the next line would begin is taken for two binds. No other name is misread.
-/
namespace SqlRender

/-- What stands before the name in the line of the bind at the position. -/
def Bind.opening (position : Nat) : List Char := '\n' :: (position.repr.toList ++ [' '])

/-- The name goes on as if the next bind began inside it. -/
def Bind.Feigns (b : Bind) : Prop := opening (b.position + 1) <:+: b.name.toList

instance (b : Bind) : Decidable b.Feigns := inferInstanceAs (Decidable (_ <:+: _))

def Bind.rows (binds : List Bind) : List Char := binds.flatMap fun b => '\n' :: b.line.toList

theorem Rendered.toList_listing (r : Rendered) :
    (r.listing true).toList = r.sql.toList ++ Bind.rows r.binds := by
  simp [listing, Bind.rows, List.flatMap_map]

namespace Bind

/-- A text before the lines of the binds is divided at its own line breaks and at theirs. -/
theorem splitOn_rows (before : List Char) (binds : List Bind) :
    (before ++ rows binds).splitOn '\n' =
      before.splitOn '\n' ++ binds.flatMap fun b => b.line.toList.splitOn '\n' := by
  induction binds generalizing before with
  | nil => simp [rows]
  | cons b binds ih =>
    have hbreak : ('\n' == '\n') = true := by decide
    have hs := List.splitOnP_append_cons (p := (· == '\n')) before (b.line.toList ++ rows binds)
      hbreak
    rw [rows, List.flatMap_cons, List.cons_append]
    exact hs.trans (congrArg (before.splitOn '\n' ++ ·) (ih b.line.toList))

theorem line_eq (name : String) (position : Nat) :
    '\n' :: (Bind.mk name position).line.toList = opening position ++ name.toList := by
  simp [line, opening]

theorem splitOn_line {b : Bind} (h : '\n' ∉ b.name.toList) :
    b.line.toList.splitOn '\n' = [b.line.toList] := by
  apply List.splitOnP_eq_singleton
  intro c hc
  rw [line, String.toList_append, String.toList_append, List.mem_append, List.mem_append] at hc
  rcases hc with (hc | hc) | hc
  · have hd := Text.isDigit_of_mem_repr hc
    simpa using ne_of_apply_ne Char.isDigit (by rw [hd]; decide)
  · rw [List.mem_singleton.1 hc]
    decide
  · simpa using ne_of_mem_of_not_mem hc h

theorem rows_numbered (n : Nat) (name : String) (names : List String) :
    rows (numbered n (name :: names)) =
      opening (n + 1) ++ name.toList ++ rows (numbered (n + 1) names) := by
  rw [numbered_cons, rows, List.flatMap_cons, line_eq]
  rfl

/-- After the name the text ends, or the line of the next bind begins. -/
theorem rows_eq (n : Nat) (names : List String) :
    rows (numbered n names) = [] ∨ ∃ t, rows (numbered n names) = opening (n + 1) ++ t := by
  cases names with
  | nil => exact .inl rfl
  | cons name names => exact .inr ⟨_, by rw [rows_numbered, List.append_assoc]⟩

/-- The line break of an opening is its only one, so an opening cannot begin inside another. -/
theorem opening_of_overlap {position : Nat} {a c t u : List Char} (ha : a ≠ [])
    (h : opening position = a ++ c) (hu : c ++ t = opening position ++ u) : c = [] := by
  cases c with
  | nil => rfl
  | cons d c =>
    obtain ⟨e, a, rfl⟩ := List.exists_cons_of_ne_nil ha
    have hd : d = '\n' := (List.cons_eq_cons.1 hu).1
    have hm : d ∈ position.repr.toList ++ [' '] := by
      rw [List.tail_eq_of_cons_eq h]
      simp
    rw [List.mem_append, List.mem_singleton] at hm
    rcases hm with hm | hm
    · exact absurd (Text.isDigit_of_mem_repr hm) (by rw [hd]; decide)
    · exact absurd (hd.symm.trans hm) (by decide)

/-- What the one name has before the next line, and the other has not, is nothing, unless the longer
name feigns that line. -/
theorem eq_nil_of_rows {b : Bind} {names more : List String} {name a : List Char}
    (h : rows (numbered b.position names) = a ++ rows (numbered b.position more))
    (hb : b.name.toList = name ++ a) (hf : ¬b.Feigns) : a = [] := by
  by_contra ha
  have hprefix : ¬opening (b.position + 1) <+: a := by
    intro hp
    rw [Feigns, hb] at hf
    exact hf (hp.isInfix.trans (List.suffix_append name a).isInfix)
  rcases rows_eq b.position names with hr | ⟨t, hr⟩
  · rw [hr] at h
    exact ha (List.append_eq_nil_iff.1 h.symm).1
  rw [hr] at h
  rcases List.append_eq_append_iff.1 h with ⟨c, hc, -⟩ | ⟨c, hc, hu⟩
  · exact hprefix ⟨c, hc.symm⟩
  have hnil : c = [] := by
    rcases rows_eq b.position more with hm | ⟨u, hm⟩
    · rw [hm] at hu
      exact (List.append_eq_nil_iff.1 hu.symm).1
    · exact opening_of_overlap ha hc (hu.symm.trans hm)
  rw [hnil, List.append_nil] at hc
  exact hprefix ⟨[], by rw [hc, List.append_nil]⟩

/-- The lines of numbered binds can be told apart if no name feigns the next line. -/
theorem eq_of_rows {n : Nat} {names names' : List String}
    (h : rows (numbered n names) = rows (numbered n names'))
    (hf : ∀ b ∈ numbered n names, ¬b.Feigns) (hf' : ∀ b ∈ numbered n names', ¬b.Feigns) :
    names = names' := by
  induction names generalizing n names' with
  | nil =>
    cases names' with
    | nil => rfl
    | cons name' names' =>
      rw [rows_numbered] at h
      cases h
  | cons name names ih =>
    cases names' with
    | nil =>
      rw [rows_numbered] at h
      cases h
    | cons name' names' =>
      rw [numbered_cons, List.forall_mem_cons] at hf hf'
      rw [rows_numbered, rows_numbered, List.append_assoc, List.append_assoc,
        List.append_cancel_left_eq] at h
      -- One of the names is the beginning of the other, and nothing is left over.
      obtain ⟨hname, hrows⟩ : name.toList = name'.toList ∧
          rows (numbered (n + 1) names) = rows (numbered (n + 1) names') := by
        rcases List.append_eq_append_iff.1 h with ⟨a, ha, hr⟩ | ⟨a, ha, hr⟩
        · have hnil := eq_nil_of_rows (b := ⟨name', n + 1⟩) hr ha hf'.1
          rw [hnil] at ha hr
          exact ⟨by rw [ha, List.append_nil], hr⟩
        · have hnil := eq_nil_of_rows (b := ⟨name, n + 1⟩) hr ha hf.1
          rw [hnil] at ha hr
          exact ⟨by rw [ha, List.append_nil], hr.symm⟩
      rw [String.toList_inj.1 hname, ih hrows hf.2 hf'.2]

end Bind

/-- The binds of a rendering are numbered from 1. -/
theorem Query.binds_of_render {q : Query} {d : Dialect} {r : Rendered} (h : q.render d = .ok r) :
    r.binds = Bind.numbered 0 q.slots := by
  obtain ⟨-, rfl⟩ := Query.render_eq_ok.1 h
  exact q.slots_pieces

theorem Query.lines_of_render {q : Query} {d : Dialect} {r : Rendered} (h : q.render d = .ok r) :
    r.binds.map Bind.line = r.binds.mapIdx fun i b => (i + 1).repr ++ " " ++ b.name := by
  rw [Query.binds_of_render h]
  apply List.ext_getElem
  · simp
  · intro i _ _
    simp [Bind.numbered, Bind.line]

/-- After the statement a listing has the binds in order, each on a line of its own with its
position and its name; a bind whose name holds line breaks goes on over as many further lines. Two
listings of the same statement have the same binds, unless a name goes on after a line break as the
line of the next bind begins. -/
theorem Query.render_listing {q : Query} {d : Dialect} {r : Rendered} (h : q.render d = .ok r) :
    (∃ rest, r.listing true = r.sql ++ rest ∧
      rest.toList.splitOn '\n' = [] :: (r.binds.mapIdx fun i b =>
        (i + 1).repr ++ " " ++ b.name).flatMap (·.toList.splitOn '\n') ∧
      ((∀ b ∈ r.binds, '\n' ∉ b.name.toList) → rest.toList.splitOn '\n' =
        [] :: (r.binds.mapIdx fun i b => (i + 1).repr ++ " " ++ b.name).map String.toList)) ∧
    ∀ {q' : Query} {d' : Dialect} {r' : Rendered}, q'.render d' = .ok r' → r'.sql = r.sql →
      r'.listing true = r.listing true → (∀ b ∈ r'.binds ++ r.binds, ¬b.Feigns) →
      r'.binds = r.binds := by
  have hsplit := Bind.splitOn_rows [] r.binds
  constructor
  · refine ⟨String.ofList (Bind.rows r.binds), ?_, ?_, fun hn => ?_⟩
    · apply String.toList_inj.1
      rw [r.toList_listing, String.toList_append, String.toList_ofList]
    · rw [← Query.lines_of_render h, String.toList_ofList, List.flatMap_map]
      exact hsplit
    · rw [← Query.lines_of_render h, String.toList_ofList, List.map_map]
      refine hsplit.trans (congrArg ([] :: ·) ?_)
      rw [List.map_eq_flatMap]
      exact List.flatMap_congr fun b hb => Bind.splitOn_line (hn b hb)
  · intro q' d' r' h' hsql hlisting hf
    have hrows := congrArg String.toList hlisting
    rw [Rendered.toList_listing, Rendered.toList_listing, hsql, List.append_cancel_left_eq] at hrows
    rw [Query.binds_of_render h, Query.binds_of_render h', List.forall_mem_append] at *
    rw [Bind.eq_of_rows hrows hf.1 hf.2]

namespace Query

def broken (ignored : Operand) : Query :=
  ((select "t").filter (.predicate (.between (.bare "a\n2")))).filter
    (.predicate ⟨.bare "b", .isNull, ignored⟩)

theorem render_broken (ignored : Operand) : (broken ignored).render .general =
    .ok ⟨"SELECT * FROM `t` WHERE (`a\n2` BETWEEN ? AND ? AND `b` IS NULL)",
      [⟨"a\n2.min", 1⟩, ⟨"a\n2.max", 2⟩]⟩ := by
  have hp : (broken ignored).pieces = (broken .absent).pieces := rfl
  rw [Query.render_eq_ok, hp]
  exact ⟨rfl, by decide⟩

/-- Each bind takes two lines. None is misread, since the line after the break is not that of the
next bind. -/
theorem render_listing_broken : ∃ r r', (broken .absent).render .general = .ok r ∧
    (broken (.placeholders 3)).render .general = .ok r' ∧ r'.listing true = r.listing true ∧
    (∃ rest, r.listing true = r.sql ++ rest ∧ rest.toList.splitOn '\n' =
      [[], "1 a".toList, "2.min".toList, "2 a".toList, "2.max".toList]) ∧ r'.binds = r.binds := by
  refine ⟨_, _, render_broken _, render_broken _, rfl, ?_, ?_⟩
  · obtain ⟨rest, hl, hs, -⟩ := (render_listing (render_broken .absent)).1
    exact ⟨rest, hl, hs.trans (by decide)⟩
  · exact (render_listing (render_broken .absent)).2 (render_broken (.placeholders 3)) rfl rfl
      (by decide +kernel)

/-- One bind, whose name goes on after a line break as a second bind would. -/
def feigning : Query :=
  (((select "t").filter (.predicate (.placeholder (.bare "a\n2 b") .equal))).filter
    (.predicate ⟨.bare "a", .verbatim "= ?", .absent⟩)).filter
      (.predicate ⟨.bare "b", .verbatim "= ?", .absent⟩)

def feigned : Query :=
  (((select "t").filter (.predicate ⟨.bare "a\n2 b", .verbatim "= ?", .absent⟩)).filter
    (.predicate (.placeholder (.bare "a") .equal))).filter
      (.predicate (.placeholder (.bare "b") .equal))

theorem render_feigning : feigning.render .general =
    .ok ⟨"SELECT * FROM `t` WHERE (`a\n2 b` = ? AND `a` = ? AND `b` = ?)", [⟨"a\n2 b", 1⟩]⟩ := by
  rw [Query.render_eq_ok]
  exact ⟨rfl, by decide⟩

theorem render_feigned : feigned.render .general =
    .ok ⟨"SELECT * FROM `t` WHERE (`a\n2 b` = ? AND `a` = ? AND `b` = ?)",
      [⟨"a", 1⟩, ⟨"b", 2⟩]⟩ := by
  rw [Query.render_eq_ok]
  exact ⟨rfl, by decide⟩

/-- A listing does not tell the binds, and a bind may have more than one line. -/
theorem not_render_listing_readable :
    (¬∀ {q q' : Query} {d d' : Dialect} {r r' : Rendered}, q.render d = .ok r →
      q'.render d' = .ok r' → r.sql = r'.sql → r.listing true = r'.listing true →
      r.binds = r'.binds) ∧
    ¬∀ {q : Query} {d : Dialect} {r : Rendered}, q.render d = .ok r → ∃ rest,
      r.listing true = r.sql ++ rest ∧ rest.toList.splitOn '\n' =
        [] :: (r.binds.mapIdx fun i b => (i + 1).repr ++ " " ++ b.name).map String.toList := by
  constructor
  · intro h
    exact absurd (h render_feigning render_feigned rfl rfl) (by decide)
  · intro h
    obtain ⟨rest, hl, hs⟩ := h render_feigning
    have ht := congrArg String.toList hl
    rw [Rendered.toList_listing, String.toList_append, List.append_cancel_left_eq] at ht
    rw [← ht] at hs
    exact absurd hs (by decide)

end Query

end SqlRender
