import SqlRender.Proofs.Document.Decoding
import SqlRender.Proofs.Json.SteadyValues

/-!
# The first problem of a document decides

A document that goes on is read as it was before. So a fault that is not the early end of the text
stays the answer, whatever follows it: a missing member, a second one, an unknown name or a value of
the wrong type is neither hidden nor replaced by anything later in the text.
-/
namespace SqlRender.Document

open Json Reader

variable {α : Type} {w : List Char}

section Plain

variable (hw : GapFirst w)

include hw

theorem steady_found : Steady (Continues w) found := by
  refine steady_ahead fun c cs => ?_
  have hc := continues_append w (c :: cs)
  split
  · exact ((steady_word _).bind fun _ => steady_pure _) _ _ hc
  · exact ((steady_word _).bind fun _ => steady_pure _) _ _ hc
  · exact ((steady_word _).bind fun _ => steady_pure _) _ _ hc
  · exact (steady_text.bind fun _ => steady_pure _) _ _ hc
  · exact steady_pure _ _ _ hc
  · exact steady_pure _ _ _ hc
  · refine Alike.mono (fun _ _ => Appended.continues) (steady_ite ?_ (steady_throw _) _ _ rfl)
    refine (steady_number hw).bind fun x => ?_
    cases x with
    | integer n => exact steady_pure _
    | float x => exact steady_pure _

theorem steady_unexpected (expected : String) :
    Steady (Continues w) (unexpected expected : Reader α) :=
  (steady_found hw).bind fun _ => steady_throw _

theorem steady_readText (expected : String) : Steady (Continues w) (readText expected) :=
  steady_after_ahead fun _ => steady_ite steady_text (steady_unexpected hw _)

theorem steady_readTag (rule : TagRule) : Steady (Continues w) (readTag rule) := by
  cases rule with
  | asKey => exact steady_key
  | asValue => exact steady_readText hw _

theorem steady_readFlag : Steady (Continues w) readFlag := by
  refine steady_after_ahead fun c => ?_
  split
  · exact (steady_word _).bind fun _ => steady_pure _
  · exact (steady_word _).bind fun _ => steady_pure _
  · exact steady_unexpected hw _

theorem steady_readNat (bound : Nat) (expected : String) :
    Steady (Continues w) (readNat bound expected) := by
  refine steady_ahead fun c cs => ?_
  split
  · refine Alike.mono (fun _ _ => Appended.continues) (Steady.bind (steady_number hw) ?_ _ _ rfl)
    intro x
    cases x with
    | integer n => exact steady_ite (steady_pure _) (steady_throw _)
    | float x => exact steady_throw _
  · exact steady_unexpected hw _ _ _ (continues_append w (c :: cs))

end Plain

theorem steady_readOptional {value : Reader α} (hv : Steady (Continues w) value) :
    Steady (Continues w) (readOptional value) :=
  steady_after_ahead fun _ =>
    steady_ite ((steady_word _).bind fun _ => steady_pure _) (hv.bind fun _ => steady_pure _)

/-- A reader of every shape that does the same on a longer text and takes only phrases of a
grammar. -/
structure SteadyReading (w : List Char) (inner : Reading) : Prop where
  steady : ∀ s, Steady (Continues w) (inner s)
  reads : ∃ g : Grammar, ∀ s, Reads (inner s) (g s)

theorem SteadyReading.consumes {inner : Reading} (h : SteadyReading w inner) (s : Shape) :
    Consumes (inner s) := by
  obtain ⟨g, hg⟩ := h.reads
  exact (hg s).takes.consumes

section Brackets

variable {room : Option Reading} (hroom : ∀ inner ∈ room, SteadyReading w inner)

include hroom

theorem steady_descend {body : Reading → Reader α}
    (hb : ∀ inner, SteadyReading w inner → Steady (Continues w) (body inner)) :
    Steady (Continues w) (descend room body) := by
  cases room with
  | none => exact steady_throw _
  | some inner => exact steady_next.bind fun _ => hb inner (hroom inner rfl)

theorem steady_readList (hw : GapFirst w) (s : Shape) :
    Steady (Continues w) (readList room s) :=
  steady_after_ahead fun _ => steady_ite
    (steady_descend hroom fun _ hi => steady_items (hi.steady s) (hi.consumes s))
    (steady_unexpected hw _)

end Brackets

section Members

variable {inner : Reading} (hi : SteadyReading w inner)

include hi

/-- A repeated member ends the reading at its key, before its value is looked at. -/
theorem steady_absorb (hw : GapFirst w) (key : String) (ms : List Member) (d : Draft ms) :
    Steady (Continues w) (absorb inner key ms d) := by
  induction ms with
  | nil => exact (steady_mark _).bind fun _ => (steady_skip hw).bind fun _ => steady_pure _
  | cons m ms ih =>
    obtain ⟨o, d⟩ := d
    rw [absorb_cons]
    refine steady_ite ?_ ((ih d).bind fun _ => steady_pure _)
    exact steady_guard <| (steady_mark _).bind fun _ => (hi.steady _).bind fun _ => steady_pure _

theorem steady_readMember (hw : GapFirst w) (ms : List Member) (d : Draft ms) :
    Steady (Continues w) (readMember inner ms d) :=
  steady_key.bind fun key => steady_absorb hi hw key ms d

theorem consumes_readMember (ms : List Member) (d : Draft ms) :
    Consumes (readMember inner ms d) := by
  obtain ⟨g, hg⟩ := hi.reads
  exact (takes_member hg d).consumes

theorem readMembers_alike (hw : GapFirst w) (ms : List Member) {n m : Nat} {cs cs' : List Char}
    (hn : 0 < n) (hl : cs.length ≤ n) (hm : 0 < m) (hl' : cs'.length ≤ m)
    (h : Continues w cs cs') (d : Draft ms) :
    Alike (Continues w) ((readMembers inner ms n d).run cs)
      ((readMembers inner ms m d).run cs') := by
  induction n generalizing m cs cs' d with
  | zero => exact absurd hn (Nat.lt_irrefl 0)
  | succ n ih =>
    obtain ⟨m, rfl⟩ : ∃ k, m = k + 1 := ⟨m - 1, by omega⟩
    rw [readMembers, readMembers]
    have hc := consumes_readMember hi ms d
    refine alike_to_mark hc hc (steady_readMember hi hw ms d _ _ h) fun d c _ _ hs hs' h => ?_
    split
    · exact ih (by omega) (by omega) (by omega) (by omega) h d
    · exact steady_ite (steady_pure _) (steady_throw _) _ _ h

end Members

/-- A missing member ends the reading where the record ends. -/
theorem steady_complete (ms : List Member) (d : Draft ms) : Steady (Continues w) d.complete := by
  induction ms with
  | nil => exact steady_pure _
  | cons m ms ih =>
    obtain ⟨o, d⟩ := d
    rw [Draft.complete]
    split
    · exact steady_throw _
    · exact (ih d).bind fun _ => steady_pure _

section Places

theorem steady_readElement (first : Bool) {value : Reader α} (hv : Steady (Continues w) value) :
    Steady (Continues w) (readElement first value) := by
  refine steady_after_ahead fun c => steady_ite (steady_pure _) (steady_ite ?_ (steady_ite ?_ ?_))
  · exact hv.bind fun _ => steady_pure _
  · exact steady_next.bind fun _ => hv.bind fun _ => steady_pure _
  · exact steady_throw _

theorem steady_readPlaces {inner : Reading} (hi : SteadyReading w inner) (name : String)
    (size : Nat) (ms : List Member) (i : Nat) :
    Steady (Continues w) (readPlaces inner name size ms i) := by
  induction ms generalizing i with
  | nil => exact steady_pure _
  | cons m ms ih =>
    refine (steady_readElement _ (hi.steady _)).bind fun o => ?_
    split
    · exact steady_throw _
    · exact (ih (i + 1)).bind fun _ => steady_pure _

end Places

section Layouts

theorem steady_findAlternative (alternatives : List (Alternative α)) (name : String) :
    Steady (Continues w) (findAlternative alternatives name) := by
  unfold findAlternative
  split
  · exact steady_pure _
  · exact steady_throw _

theorem steady_readContent (hw : GapFirst w) {inner : Reading} (hi : SteadyReading w inner)
    (alternative : Alternative α) : Steady (Continues w) (readContent inner alternative) := by
  cases alternative with
  | plain name value =>
    exact steady_after_ahead fun _ =>
      steady_ite ((steady_word _).bind fun _ => steady_pure _) (steady_unexpected hw _)
  | carrying name shape wrap => exact (hi.steady shape).bind fun _ => steady_pure _

variable {rule : TagRule} {room : Option Reading} (hroom : ∀ inner ∈ room, SteadyReading w inner)

include hroom

theorem steady_readRecord (hw : GapFirst w) (name : String) (ms : List Member)
    (build : Values ms → α) : Steady (Continues w) (readRecord room name ms build) := by
  refine steady_after_ahead fun c => ?_
  split
  · refine steady_descend hroom fun inner hi => steady_ahead fun d cs => ?_
    have hc := continues_append w (d :: cs)
    split
    · exact ((steady_complete ms _).bind fun _ => steady_next.bind fun _ => steady_pure _) _ _ hc
    · rw [run_bind_ok (run_remaining _), run_bind_ok (run_remaining _)]
      have hm := readMembers_alike hi hw ms (by simp) le_rfl (by simp) le_rfl hc (Draft.empty ms)
      exact hm.bind fun d _ _ _ _ h => ((steady_complete ms d).bind fun _ => steady_pure _) _ _ h
  · exact steady_descend hroom fun inner hi => (steady_readPlaces hi name _ ms 0).bind fun _ =>
      (steady_mark _).bind fun _ => steady_pure _
  · exact steady_unexpected hw _

theorem steady_readChoice (hw : GapFirst w) (alternatives : List (Alternative α)) :
    Steady (Continues w) (readChoice rule room alternatives) := by
  refine steady_after_ahead fun c => ?_
  split
  · refine steady_text.bind fun name => (steady_findAlternative alternatives name).bind fun a => ?_
    cases a with
    | plain name value => exact steady_pure _
    | carrying name shape wrap => exact steady_throw _
  · refine steady_descend hroom fun inner hi => (steady_readTag hw rule).bind fun name => ?_
    exact (steady_findAlternative alternatives name).bind fun a => (steady_mark _).bind fun _ =>
      (steady_readContent hw hi a).bind fun _ => (steady_mark _).bind fun _ => steady_pure _
  · exact steady_throw _

theorem steady_readShape (hw : GapFirst w) (s : Shape) :
    Steady (Continues w) (readShape rule room s) := by
  induction s with
  | text => exact steady_readText hw _
  | flag => exact steady_readFlag hw
  | count => exact (steady_readNat hw _ _).bind fun _ => steady_pure _
  | size => exact (steady_readNat hw _ _).bind fun _ => steady_pure _
  | small => exact (steady_readNat hw _ _).bind fun _ => steady_pure _
  | optional s ih => exact steady_readOptional ih
  | list s => exact steady_readList hroom hw s
  | noun n =>
    rw [readShape]
    cases n.layout with
    | record name ms build => exact steady_readRecord hroom hw name ms build
    | choice alternatives => exact steady_readChoice hroom hw alternatives

end Layouts

theorem steadyReading (hw : GapFirst w) (rule : TagRule) (depth : Nat) :
    SteadyReading w (reading rule depth) := by
  refine ⟨?_, _, reads_depth rule depth⟩
  induction depth with
  | zero => exact steady_readShape (by simp) hw
  | succ depth ih =>
    refine steady_readShape (fun inner hi => ?_) hw
    obtain rfl := Option.some.inj hi
    exact ⟨ih, _, reads_depth rule depth⟩

theorem steady_readDocument (hw : GapFirst w) (rule : TagRule) (n : Noun) :
    Steady (Continues w) (readDocument rule n) :=
  ((steadyReading hw rule maxDepth).steady _).bind fun _ => steady_gap.bind fun _ => steady_pure _

/-- A text that is rejected for anything but its early end is rejected with the same fault whatever
it goes on with, for every type of document and under either rule for tags. So nothing later in the
text hides or replaces the first problem, be it a value of the wrong type, an unknown name, a second
member, a missing one or no JSON at all, and no continuation makes a document of the text. What the
text goes on with begins with a gap, so that it does not go on with the last token. -/
theorem decode_append (rule : TagRule) {n : Noun} {s w : String} {e : Fault}
    (hw : GapFirst w.toList) (h : decodeBy rule n s = .error e) (he : e ≠ .truncated) :
    decodeBy rule n (s ++ w) = .error e := by
  have ha := steady_readDocument hw rule n s.toList _ (continues_append w.toList s.toList)
  rw [← String.toList_append] at ha
  unfold decodeBy at h ⊢
  generalize (readDocument rule n).run s.toList = o,
    (readDocument rule n).run (s ++ w).toList = o' at ha h
  cases ha with
  | value a h' =>
    cases h' with
    | within c cs => exact h
    | after => cases h
  | fault e => exact h
  | truncated => exact absurd (Except.error.inj h).symm he

/-- A second name of a column ends the reading at its key, before the rest of the member is there.
The brace in the rest closes the object, and yet there is no column. -/
theorem decode_append_repeated :
    let s := "\x7b\"name\":\"a\",\"name\""
    let w := "\n:\"b\"\x7d"
    let e : Fault := .mismatch (.repeatedMember "name")
    GapFirst w.toList ∧ decode .column s = .error e ∧ e ≠ .truncated ∧
      decode .column (s ++ w) = .error e := by
  have hw : GapFirst "\n:\"b\"\x7d".toList := by simp [GapFirst, isGap]
  have h : decode .column "\x7b\"name\":\"a\",\"name\"" =
      .error (.mismatch (.repeatedMember "name")) := by decide +kernel
  exact ⟨hw, h, by decide, decode_append .asKey hw h (by decide)⟩

/-- The rules differ in a tag that is no text. -/
example : decode .verb "\x7b5:null\x7d" = .error .malformed ∧
    decodeBy .asValue .verb "\x7b5:null\x7d" =
      .error (.mismatch (.wrongType (.integer 5) "variant identifier")) := by
  decide +kernel

/-- Without the gap the number goes on, and the fault shows another one. -/
example : decode .column "1" = .error (.mismatch (.wrongType (.integer 1) "struct Column")) ∧
    decode .column ("1" ++ "2") =
      .error (.mismatch (.wrongType (.integer 12) "struct Column")) := by
  decide +kernel

end SqlRender.Document
