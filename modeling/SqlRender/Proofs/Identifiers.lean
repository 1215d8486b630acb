import SqlRender.Proofs.Quoting
import SqlRender.Proofs.Writing

/-!
# Identifiers end where they say

A spelled identifier shows its own end: a reader that takes one quoted name from the front of a text
stops just behind it, whatever the name is made of and whatever follows. So the spelling of a name
determines the name, and the text of a column reference determines the column.
-/
namespace SqlRender

namespace Text

/-- Takes a quoted name from the front of a text, and gives the name and what follows it. -/
def readQuoted (q : Char) : List Char → Option (String × List Char)
  | [] => none
  | c :: cs => if c = q then (unquote q cs).map (Prod.map String.ofList id) else none

theorem readQuoted_quoted (q : Char) (s : String) {rest : List Char} (h : rest.head? ≠ some q) :
    readQuoted q ((quoted q s).toList ++ rest) = some (s, rest) := by
  rw [quoted, String.toList_ofList, List.cons_append, List.append_assoc, List.singleton_append,
    readQuoted, if_pos rfl, unquote_doubled q s.toList h]
  simp

theorem readQuoted_whole (q : Char) (s : String) :
    readQuoted q (quoted q s).toList = some (s, []) := by
  have h : ([] : List Char).head? ≠ some q := by simp
  simpa using readQuoted_quoted q s h

theorem quoted_injective (q : Char) : Function.Injective (quoted q) := by
  intro s t h
  have hs := readQuoted_whole q s
  rw [h, readQuoted_whole q t] at hs
  simpa [eq_comm] using hs

end Text

namespace Column

open Text (quoted readQuoted)

def spelled (q : Char) (c : Column) : List Char :=
  match c.table with
  | none => (quoted q c.name).toList
  | some table => (quoted q table).toList ++ '.' :: (quoted q c.name).toList

theorem toList_of_render {d : Dialect} (hd : d.escape = quoted d.quote) {c : Column} {text : String}
    (h : c.render d = .ok text) : text.toList = c.spelled d.quote := by
  rw [c.render_eq d 0, Defect.barring_eq_ok] at h
  obtain ⟨-, rfl⟩ := h
  rcases c with ⟨_ | table, name⟩ <;> simp [outline, spelled, hd]

/-- The first name of a column is its table, if it is qualified, and a dot follows only then. -/
theorem readQuoted_spelled {q : Char} (hq : q ≠ '.') (c : Column) :
    readQuoted q (c.spelled q) = match c.table with
      | none => some (c.name, [])
      | some table => some (table, '.' :: (quoted q c.name).toList) := by
  rcases c with ⟨_ | table, name⟩
  · exact Text.readQuoted_whole q name
  · exact Text.readQuoted_quoted q table (by simpa using hq.symm)

theorem spelled_injective {q : Char} (hq : q ≠ '.') : Function.Injective (spelled q) := by
  intro c c' h
  have hr := readQuoted_spelled hq c
  rw [h, readQuoted_spelled hq c'] at hr
  rcases c with ⟨_ | table, name⟩ <;> rcases c' with ⟨_ | table', name'⟩
  · simpa [eq_comm] using hr
  · simp at hr
  · simp at hr
  · simp only [Option.some.injEq, Prod.mk.injEq, List.cons.injEq, true_and] at hr
    obtain ⟨rfl, hn⟩ := hr
    rw [Text.quoted_injective q (String.toList_inj.1 hn)]

end Column

/-- In a dialect that doubles quote characters, whichever its quote character is, reading one quoted
name from a spelled name and any text that does not begin with the quote character takes just the
spelling, and gives the name back. So two names are never spelled alike; and if the quote character
is not the dot that divides a table from a column, two columns never have the same text. -/
theorem Dialect.escape_delimits {d : Dialect} (hd : d.escape = Text.quoted d.quote) :
    (∀ s rest, rest.head? ≠ some d.quote →
      Text.readQuoted d.quote ((d.escape s).toList ++ rest) = some (s, rest)) ∧
    Function.Injective d.escape ∧
    (d.quote ≠ '.' → ∀ (c c' : Column) (text : String),
      c.render d = .ok text → c'.render d = .ok text → c = c') := by
  rw [hd]
  refine ⟨fun s rest => Text.readQuoted_quoted d.quote s, Text.quoted_injective d.quote,
    fun hq c c' text h h' => Column.spelled_injective hq ?_⟩
  rw [← Column.toList_of_render hd h, ← Column.toList_of_render hd h']

/-- A name of three quote characters next to a dot, and the two columns that it may belong to. -/
theorem Dialect.escape_delimits_quotes :
    Text.readQuoted '"' ((Dialect.postgres.escape "\"\"\"").toList ++ ".\"a\"".toList) =
      some ("\"\"\"", ".\"a\"".toList) ∧
    (∀ c : Column, c.render Dialect.postgres = .ok "\"\"\"\".\"\"\"\"" →
      c = .qualified "\"" "\"") := by
  have h := Dialect.escape_delimits (d := Dialect.postgres) rfl
  exact ⟨h.1 _ _ (by decide), fun c hc => h.2.2 (by decide) c (.qualified "\"" "\"") _ hc rfl⟩

/-- With a dot as the quote character the end of a table and the beginning of a column run together.
-/
example :
    let d : Dialect := { name := "dotted", quote := '.' }
    (Column.qualified "a" ".b").render d = (Column.qualified "a." "b").render d := by decide

end SqlRender
