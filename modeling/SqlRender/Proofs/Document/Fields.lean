import SqlRender.Proofs.Document.Grammar

/-!
# Fields from members

The grammar speaks of the fields of a record, the readers of its members. A record by name has a
value for each member, from the one member of the object with its key or from its default; a record
by place has one from each element, until the elements end.
-/
namespace SqlRender.Document

open Json

variable {α : Type}

/-- The member as a field of the record that it belongs to. -/
def Member.field (m : Member) (get : α → m.shape.Value) : Field α :=
  match m.default with
  | none => .required m.key m.shape get
  | some x => .defaulted m.key m.shape x get

def fieldsOf : (ms : List Member) → (α → Values ms) → List (Field α)
  | [], _ => []
  | m :: ms, get => m.field (fun a => (get a).1) :: fieldsOf ms fun a => (get a).2

namespace Member

variable {g : Grammar} {m : Member} {get : α → m.shape.Value} {a : α}

@[simp] theorem field_key : (m.field get).key = m.key := by
  unfold field
  split <;> rfl

theorem field_given {t : List Char} :
    (m.field get).given g t a ↔ Spaced (g m.shape · (get a)) t := by
  unfold field
  split <;> rfl

theorem field_omitted : (m.field get).omitted a ↔ m.default = some (get a) := by
  unfold field
  split
  · next h => simp [Field.required, h]
  · next x h => simp [Field.defaulted, h, eq_comm]

end Member

def Grammar.spaced (g : Grammar) : Grammar := fun s t x => Spaced (g s · x) t

/-- The value of one member among those of an object. -/
def Slot (phrase : Grammar) (m : Member) (es : List (String × List Char)) (x : m.shape.Value) :
    Prop :=
  match es.filter (·.1 = m.key) with
  | [] => m.default = some x
  | [e] => phrase m.shape e.2 x
  | _ => False

def Slots (phrase : Grammar) : (ms : List Member) → List (String × List Char) → Values ms → Prop
  | [], _, _ => True
  | m :: ms, es, (x, xs) => Slot phrase m es x ∧ Slots phrase ms es xs

def Places (g : Grammar) : (ms : List Member) → List (List Char) → Values ms → Prop
  | [], ts, _ => ts = []
  | m :: ms, [], (x, xs) => m.default = some x ∧ Places g ms [] xs
  | m :: ms, t :: ts, (x, xs) => Spaced (g m.shape · x) t ∧ Places g ms ts xs

section Fields

variable {g : Grammar} {a : α}

theorem field_holds {m : Member} {get : α → m.shape.Value} {es : List (String × List Char)} :
    (m.field get).Holds g es a ↔ Slot g.spaced m es (get a) := by
  unfold Field.Holds Slot
  rw [Member.field_key]
  generalize es.filter (·.1 = m.key) = fs
  match fs with
  | [] => exact Member.field_omitted
  | [e] => exact Member.field_given
  | _ :: _ :: _ => rfl

theorem byName_fieldsOf {ms : List Member} {get : α → Values ms}
    {es : List (String × List Char)} : ByName g (fieldsOf ms get) es a ↔
      Slots g.spaced ms es (get a) ∧ ∀ e ∈ es, e.1 ∉ ms.map Member.key → WellFormed e.2 := by
  have hkeys : (fieldsOf ms get).map Field.key = ms.map Member.key := by
    induction ms with
    | nil => rfl
    | cons m ms ih => simp [fieldsOf, ih]
  have hslots : (∀ f ∈ fieldsOf ms get, f.Holds g es a) ↔ Slots g.spaced ms es (get a) := by
    clear hkeys
    induction ms with
    | nil => simp [fieldsOf, Slots]
    | cons m ms ih => rw [fieldsOf, List.forall_mem_cons, field_holds, ih, Slots]
  rw [ByName, hkeys, hslots]

theorem byPlace_fieldsOf {ms : List Member} {get : α → Values ms} {ts : List (List Char)} :
    ByPlace g (fieldsOf ms get) ts a ↔ Places g ms ts (get a) := by
  induction ms generalizing ts with
  | nil => rfl
  | cons m ms ih =>
    cases ts with
    | nil => rw [fieldsOf, ByPlace, Places, Member.field_omitted, ih]
    | cons t ts => rw [fieldsOf, ByPlace, Places, Member.field_given, ih]

end Fields

end SqlRender.Document
