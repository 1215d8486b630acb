import SqlRender.Proofs.Document.Members
import SqlRender.Proofs.Document.Places
import SqlRender.Proofs.Document.Values

/-!
# Reading records

What the first bracket of a record tells: a brace begins its members by name, a square bracket its
members by place.
-/
namespace SqlRender.Document

open Json Reader

variable {α : Type} {cs rest : List Char}

section Record

variable {room : Option Reading} {gr : Option Grammar} {name : String} {ms : List Member}
  {build : Values ms → α} {get : α → Values ms}

def readNamed (inner : Reading) (ms : List Member) (build : Values ms → α) : Reader α := do
  if (← ahead) = '}' then
    let values ← (Draft.empty ms).complete
    let _ ← next
    return build values
  else
    let draft ← readMembers inner ms (← remaining) (Draft.empty ms)
    return build (← draft.complete)

theorem run_record_brace (cs : List Char) : (readRecord room name ms build).run ('{' :: cs) =
    (descend room fun inner => readNamed inner ms build).run ('{' :: cs) := rfl

theorem named_sound {inner : Reading} {g : Grammar} (hr : ∀ s, Reads (inner s) (g s))
    (hkeys : (ms.map Member.key).Nodup) (hbuild : ∀ v, get (build v) = v) {a : α}
    (h : (readNamed inner ms build).run cs = .ok (a, rest)) :
    ∃ es body, ByName g (fieldsOf ms get) es a ∧ IsObject es ('{' :: body ++ ['}']) ∧
      cs = body ++ '}' :: rest := by
  rw [readNamed, bind_eq_ok] at h
  obtain ⟨c, _, ha, h⟩ := h
  obtain ⟨k, t, hk, rfl, rfl⟩ := ahead_split ha
  split at h
  · next hc =>
    subst hc
    simp only [bind_eq_ok, next_eq_ok, pure_eq_ok, complete_eq_ok] at h
    obtain ⟨v, _, ⟨hv, rfl⟩, _, _, ht, rfl, rfl⟩ := h
    obtain rfl := List.tail_eq_of_cons_eq ht
    refine ⟨[], k, ?_, ⟨[], k, .nil, hk, rfl⟩, rfl⟩
    rw [byName_fieldsOf, hbuild]
    exact (absorbsAll_iff hkeys).1 ⟨_, rfl, hv⟩
  · rw [run_bind_ok (run_remaining _), bind_eq_ok] at h
    obtain ⟨d, _, hd, h⟩ := h
    obtain ⟨v, hv, rfl⟩ := map_eq_ok.1 h
    rw [complete_eq_ok] at hv
    obtain ⟨hv, rfl⟩ := hv
    rw [← members_gap hk] at hd
    obtain ⟨ts, es, hne, hes, hall, hcs⟩ := members_sound hr hd
    refine ⟨es, _, ?_, ⟨ts, _, hes, (listed_of_ne_nil hne).2 rfl, rfl⟩, hcs⟩
    rw [byName_fieldsOf, hbuild]
    exact (absorbsAll_iff hkeys).1 ⟨d, hall, hv⟩

/-- Several members are read one by one, in as many turns as there are members. -/
theorem run_named (inner : Reading) (build : Values ms → α) {ts : List (List Char)} (hne : ts ≠ [])
    (ho : ∀ t ∈ ts.head?, Opens t) (rest : List Char) :
    ∃ n, ts.length ≤ n ∧
      (readNamed inner ms build).run ([','].intercalate ts ++ '}' :: rest) =
        (readMembers inner ms n (Draft.empty ms) >>= fun d => do return build (← d.complete)).run
          ([','].intercalate ts ++ '}' :: rest) := by
  obtain ⟨k, c, v, hk, hi, hcg, hcb, hn⟩ := ((listed_of_ne_nil hne).2 rfl).split hne ho
  refine ⟨(c :: v ++ '}' :: rest).length, by rw [List.length_append]; simp at hn ⊢; omega, ?_⟩
  rw [hi, List.append_assoc, run_bind_congr (members_gap hk _ _ _), List.cons_append, readNamed,
    run_bind_ok (run_ahead hk hcg), if_neg (by rintro rfl; exact hcb (by simp)),
    run_bind_ok (run_remaining _)]

theorem named_complete {inner : Reading} {g : Grammar} (hr : ∀ s, Reads (inner s) (g s))
    (hkeys : (ms.map Member.key).Nodup) (hget : ∀ a, build (get a) = a) {a : α}
    {es : List (String × List Char)} {ts : List (List Char)} {body : List Char}
    (ha : ByName g (fieldsOf ms get) es a) (hes : List.Forall₂ Entry ts es)
    (hl : Listed ts body) (rest : List Char) :
    (readNamed inner ms build).run (body ++ '}' :: rest) = .ok (a, rest) := by
  rw [byName_fieldsOf] at ha
  obtain ⟨d, hall, hv⟩ := (absorbsAll_iff hkeys).2 ha
  by_cases hne : ts = []
  · subst hne
    cases hes
    obtain rfl : d = Draft.empty ms := hall
    rw [readNamed, run_bind_ok (run_ahead hl (by decide)), if_pos rfl,
      run_bind_ok (complete_eq_ok.2 ⟨hv, rfl⟩), run_bind_ok (run_next _ _), hget]
    rfl
  · rw [listed_of_ne_nil hne] at hl
    obtain ⟨n, hn, hrun⟩ := run_named inner build hne (fun t ht => by
      cases hes with
      | nil => cases ht
      | cons he _ =>
        cases ht
        exact he.opens) rest
    rw [hl, hrun, run_bind_ok (members_complete hr hes hne hall hn rest),
      run_bind_ok (complete_eq_ok.2 ⟨hv, rfl⟩), hget]
    rfl

theorem reads_record (hroom : Follows room gr) (hkeys : (ms.map Member.key).Nodup)
    (hget : ∀ a, build (get a) = a) (hbuild : ∀ v, get (build v) = v) :
    Reads (readRecord room name ms build) (Record gr (fieldsOf ms get)) where
  begins := by
    rintro _ a ⟨g, -, ⟨es, ⟨ts, body, -, -, rfl⟩, -⟩ | ⟨ts, ⟨body, -, rfl⟩, -⟩⟩
    · exact ⟨'{', _, rfl, by decide, by decide, fun h => absurd h (by decide)⟩
    · exact ⟨'[', _, rfl, by decide, by decide, fun h => absurd h (by decide)⟩
  gap hg cs := run_bind_congr (ahead_gap hg cs)
  sound {cs a rest} h := by
    rw [readRecord, bind_eq_ok] at h
    obtain ⟨c, _, ha, h⟩ := h
    obtain ⟨j, t, hj, rfl, rfl⟩ := ahead_split ha
    split at h
    · rw [descend_eq_ok] at h
      obtain ⟨inner, rfl, h⟩ := h
      cases hroom with
      | @some _ g hr =>
        obtain ⟨es, body, hby, hobj, rfl⟩ := named_sound hr hkeys hbuild h
        exact ⟨j, _, hj, ⟨g, rfl, .inl ⟨es, hobj, hby⟩⟩, by simp⟩
    · rw [descend_eq_ok] at h
      obtain ⟨inner, rfl, h⟩ := h
      cases hroom with
      | @some _ g hr =>
        rw [bind_eq_ok] at h
        obtain ⟨v, _, hv, h⟩ := h
        rw [bind_eq_ok] at h
        obtain ⟨_, _, hm, h⟩ := h
        obtain ⟨rfl, rfl⟩ := pure_eq_ok.1 h
        obtain ⟨k, hk, rfl⟩ := mark_split hm
        obtain ⟨ts, body, hts, hl, rfl⟩ := places_sound_first hr hk hv
        refine ⟨j, _, hj, ⟨g, rfl, .inr ⟨ts, ⟨body, hl, rfl⟩, ?_⟩⟩, by simp⟩
        rw [byPlace_fieldsOf, hbuild]
        exact hts
    · exact absurd h unexpected_ne_ok
  complete := by
    rintro _ a rest ⟨g, rfl, ⟨es, ⟨ts, body, hes, hl, rfl⟩, hby⟩ | ⟨ts, ⟨body, hl, rfl⟩, hby⟩⟩ -
    · cases hroom with
      | @some inner _ hr =>
        rw [List.append_assoc, List.cons_append, readRecord,
          run_bind_ok (run_ahead_cons (by decide))]
        exact descend_eq_ok.2 ⟨inner, rfl, named_complete hr hkeys hget hby hes hl rest⟩
    · cases hroom with
      | @some inner _ hr =>
        rw [byPlace_fieldsOf] at hby
        obtain ⟨k, hk, hrun⟩ := places_complete_first hr hby hl rest
        rw [List.append_assoc, List.cons_append, readRecord,
          run_bind_ok (run_ahead_cons (by decide))]
        refine descend_eq_ok.2 ⟨inner, rfl, (run_bind_ok hrun).trans ?_⟩
        rw [run_bind_ok (run_mark hk (by decide) rest), hget]
        rfl

end Record

end SqlRender.Document
