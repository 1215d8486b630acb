import SqlRender.Proofs.Document.Choices
import SqlRender.Proofs.Document.Records

/-!
# Decoding follows the grammar

Every layout reads the phrases of its type, so by induction on the number of brackets that may be
open every shape is read as the grammar has it, and the decoder accepts exactly the texts that
describe a value.
-/
namespace SqlRender.Document

open Json Reader

variable {α : Type} {rule : TagRule} {room : Option Reading} {gr : Option Grammar}

theorem Choice.reads (hroom : Follows room gr) {alternatives : List (Alternative α)}
    (hnames : (alternatives.map Alternative.name).Nodup) {phrase : List Char → α → Prop}
    (h : ∀ cs a, phrase cs a ↔ Choice gr alternatives cs a) :
    Reads (readChoice rule room alternatives) phrase := by
  have hphrase : phrase = Choice gr alternatives := by
    funext cs a
    exact propext (h cs a)
  rw [hphrase]
  exact reads_choice hroom hnames

/-- A record with the fields of its members, in their order. -/
theorem Record.reads (hroom : Follows room gr) {name : String} {ms : List Member}
    {build : Values ms → α} (get : α → Values ms) (hkeys : (ms.map Member.key).Nodup)
    (hget : ∀ a, build (get a) = a) (hbuild : ∀ v, get (build v) = v) {fields : List (Field α)}
    (h : fields = fieldsOf ms get) :
    Reads (readRecord room name ms build) (Record gr fields) := by
  rw [h]
  exact reads_record hroom hkeys hget hbuild

/-- Every layout reads the phrases of its type. -/
theorem reads_noun (hroom : Follows room gr) (n : Noun) :
    Reads (readShape rule room (.noun n)) (n.Phrase gr) := by
  cases n <;> dsimp only [readShape, Noun.layout]
  case column =>
    exact Record.reads hroom (fun c => (c.table, c.name, ())) (by decide) (fun _ => rfl)
      (fun _ => rfl) rfl
  case call =>
    exact Record.reads hroom (fun c => (c.function, c.arguments, c.label, ())) (by decide)
      (fun ⟨_, _, _⟩ => rfl) (fun _ => rfl) rfl
  case join =>
    exact Record.reads hroom (fun j => (j.method, j.own, j.foreign, ())) (by decide)
      (fun _ => rfl) (fun _ => rfl) rfl
  case sortKey =>
    exact Record.reads hroom (fun k => (k.column, k.direction, ())) (by decide) (fun _ => rfl)
      (fun _ => rfl) rfl
  case predicate =>
    exact Record.reads hroom (fun p => (p.column, p.comparison, p.operand, ())) (by decide)
      (fun ⟨_, _, _⟩ => rfl) (fun _ => rfl) rfl
  case junction =>
    exact Record.reads hroom (fun j => (j.connective, j.members, ())) (by decide)
      (fun ⟨_, _⟩ => rfl) (fun _ => rfl) rfl
  case query =>
    exact Record.reads hroom
      (fun q => (q.verb, q.table, q.distinct, q.columns, q.calls, q.joins, q.conditions,
        q.groupings, q.sortKeys, q.limit, q.offset, ()))
      (by decide) (fun ⟨_, _, _, _, _, _, _, _, _, _, _⟩ => rfl) (fun _ => rfl) rfl
  case pool =>
    exact Record.reads hroom (fun p => (p.maxConnections, ())) (by decide) (fun _ => rfl)
      (fun _ => rfl) rfl
  all_goals
    refine Choice.reads hroom (by decide) fun cs v => ?_
    cases v <;> simp [choice_cons, not_choice_nil, Alternative.Phrase, Noun.Phrase]

theorem reads_shape (hroom : Follows room gr) (s : Shape) :
    Reads (readShape rule room s) (Shape.Phrase gr s) := by
  induction s with
  | text => exact reads_text _
  | flag => exact reads_flag
  | count => exact reads_word "u64"
  | size => exact reads_word "usize"
  | small => exact reads_halfWord "u32"
  | optional s ih =>
    have hphrase : Shape.Phrase gr (.optional s) = Optional (Shape.Phrase gr s) := by
      funext cs o
      cases o <;> rfl
    rw [hphrase]
    exact reads_optional ih
  | list s => exact reads_list hroom s
  | noun n => exact reads_noun hroom n

/-- Readers and grammar allow the same number of open brackets. -/
theorem reads_depth (rule : TagRule) (depth : Nat) (s : Shape) :
    Reads (reading rule depth s) (grammar depth s) := by
  induction depth generalizing s with
  | zero => exact reads_shape .none s
  | succ depth ih => exact reads_shape (.some ih) s

/-- A document is a value between two gaps, and nothing else. -/
theorem readDocument_eq_ok {n : Noun} {v : n.Value} {cs : List Char} :
    (readDocument rule n).run cs = .ok (v, []) ↔ Spaced (grammar maxDepth (.noun n) · v) cs := by
  have hr := reads_depth rule maxDepth (.noun n)
  constructor
  · intro h
    rw [readDocument, bind_eq_ok] at h
    obtain ⟨x, mid, hx, h⟩ := h
    rw [bind_eq_ok] at h
    obtain ⟨_, _, hg, h⟩ := h
    obtain ⟨rfl, rfl⟩ := pure_eq_ok.1 h
    obtain ⟨g, body, hg', hb, hs⟩ := hr.sound hx
    -- Nothing is left after the value and a gap, so all the rest is the gap.
    rw [gap_eq_ok] at hg
    obtain ⟨k, hk, rfl⟩ := gap_append_dropWhile hg
    exact ⟨g, body, k, hg', hb, hk, by rw [hs, List.append_nil]⟩
  · rintro ⟨g, body, k, hg, hb, hk, rfl⟩
    have hx : (reading rule maxDepth (.noun n)).run (g ++ (body ++ k)) = .ok (v, k) := by
      rw [hr.gap hg]
      exact hr.complete hb (by simpa using hk.stops stops_nil)
    have hend : k.dropWhile isGap = [] := by simpa using hk.dropWhile []
    rw [readDocument, List.append_assoc, run_bind_ok hx, run_bind_ok (run_gap _), hend]
    rfl

theorem decodeBy_eq_ok {n : Noun} {s : String} {v : n.Value} :
    decodeBy rule n s = .ok v ↔ (readDocument rule n).run s.toList = .ok (v, []) := by
  rw [decodeBy]
  split
  · next hrun => simp [hrun]
  · next hrun => simp [hrun]
  · next hrun => simp [hrun]

/-- The decoder accepts exactly the texts that the grammar of documents derives, and answers with
the value that the text describes: members in any order or in their places, defaults for members
that are left out, names of alternatives alone or in an object, any spelling of a text, plain
decimals for numbers, and at most 127 open brackets. -/
theorem decode_eq_ok_iff (n : Noun) (s : String) (v : n.Value) :
    decode n s = .ok v ↔ Describes n s v := by
  rw [decode, decodeBy_eq_ok, readDocument_eq_ok]
  exact Iff.rfl

end SqlRender.Document
