import SqlRender.Document.Layout
import SqlRender.Json.Skip

/-!
# Decoding

The value that a document describes. A text is read once, from left to right, and the first problem
decides the answer. At most 127 brackets may be open at once, not counting those of ignored members.
-/
namespace SqlRender.Document

open Json

/-- A reader for every shape. -/
abbrev Reading := (s : Shape) → Reader s.Value

/-- The kind of the value at the front, which is of the wrong type. Its bracket is left alone;
anything else is read to its end first. -/
def found : Reader Found := do
  match ← Reader.ahead with
  | 'n' => Reader.word "null".toList; return .null
  | 't' => Reader.word "true".toList; return .flag true
  | 'f' => Reader.word "false".toList; return .flag false
  | '"' => return .text (← Reader.text)
  | '[' => return .sequence
  | '{' => return .map
  | c =>
    if c = '-' || c.isDigit then
      match ← Reader.number with
      | .integer n => return .integer n
      | .float x => return .float x
    else throw .malformed

def unexpected {α : Type} (expected : String) : Reader α := do
  Reader.refuse (.wrongType (← found) expected)

/-- A text. -/
def readText (expected : String) : Reader String := do
  if (← Reader.ahead) = '"' then Reader.text else unexpected expected

def readFlag : Reader Bool := do
  match ← Reader.ahead with
  | 't' => Reader.word "true".toList; return true
  | 'f' => Reader.word "false".toList; return false
  | _ => unexpected "a boolean"

def readNat (bound : Nat) (expected : String) : Reader Nat := do
  let c ← Reader.ahead
  if c = '-' || c.isDigit then
    match ← Reader.number with
    | .integer n =>
      if 0 ≤ n ∧ n < bound then return n.toNat else Reader.refuse (.outOfRange n expected)
    | .float x => Reader.refuse (.wrongType (.float x) expected)
  else unexpected expected

def readOptional {α : Type} (value : Reader α) : Reader (Option α) := do
  if (← Reader.ahead) = 'n' then
    Reader.word "null".toList
    return none
  else return some (← value)

/-- Takes the opening bracket at the front, if one more may be open, and reads what follows. -/
def descend {α : Type} (room : Option Reading) (body : Reading → Reader α) : Reader α := do
  match room with
  | none => throw .malformed
  | some inner =>
    let _ ← Reader.next
    body inner

def readList (room : Option Reading) (s : Shape) : Reader (List s.Value) := do
  if (← Reader.ahead) = '[' then descend room fun inner => Reader.items (inner s) ']'
  else unexpected "a sequence"

/-- The members read so far. -/
@[reducible] def Draft : List Member → Type
  | [] => Unit
  | m :: ms => Option m.shape.Value × Draft ms

def Draft.empty : (ms : List Member) → Draft ms
  | [] => ()
  | _ :: ms => (none, empty ms)

/-- The reader of the member with the key, after the key; none if the record has no such member. -/
def Draft.member? (inner : Reading) (key : String) :
    (ms : List Member) → Draft ms → Option (Reader (Draft ms))
  | [], () => none
  | m :: ms, (value, rest) =>
    if m.key = key then some do
      if value.isSome then Reader.refuse (.repeatedMember key)
      Reader.mark ':'
      return (some (← inner m.shape), rest)
    else (member? inner key ms rest).map fun reader => return (value, ← reader)

/-- The values of all members, with the defaults for those that were left out. -/
def Draft.complete : (ms : List Member) → Draft ms → Reader (Values ms)
  | [], () => return ()
  | m :: ms, (value, rest) => do
    match value <|> m.default with
    | none => Reader.refuse (.missingMember m.key)
    | some x => return (x, ← complete ms rest)

/-- The member at the front, by name; a member that the record does not have is ignored. -/
def readMember (inner : Reading) (ms : List Member) (draft : Draft ms) : Reader (Draft ms) := do
  let key ← Reader.key
  match draft.member? inner key ms with
  | some reader => reader
  | none =>
    Reader.mark ':'
    Reader.skip
    return draft

/-- Members by name up to and with the closing brace. -/
def readMembers (inner : Reading) (ms : List Member) : Nat → Draft ms → Reader (Draft ms)
  | 0, _ => throw .malformed
  | n + 1, draft => do
    let draft ← readMember inner ms draft
    Reader.gap
    let c ← Reader.next
    if c = ',' then readMembers inner ms n draft
    else if c = '}' then return draft
    else throw .malformed

/-- The next element of a record by place; none at the closing bracket, which stays in the text. -/
def readElement {α : Type} (first : Bool) (value : Reader α) : Reader (Option α) := do
  let c ← Reader.ahead
  if c = ']' then return none
  else if first then return some (← value)
  else if c = ',' then
    let _ ← Reader.next
    return some (← value)
  else throw .malformed

/-- Members by place; those that are missing at the end take their defaults. -/
def readPlaces (inner : Reading) (name : String) (size : Nat) :
    (ms : List Member) → Nat → Reader (Values ms)
  | [], _ => return ()
  | m :: ms, i => do
    match (← readElement (i == 0) (inner m.shape)) <|> m.default with
    | none => Reader.refuse (.wrongLength i name size)
    | some x => return (x, ← readPlaces inner name size ms (i + 1))

/-- A record, by name or by place. -/
def readRecord {α : Type} (room : Option Reading) (name : String) (ms : List Member)
    (build : Values ms → α) : Reader α := do
  match ← Reader.ahead with
  | '{' => descend room fun inner => do
    if (← Reader.ahead) = '}' then
      let values ← (Draft.empty ms).complete
      let _ ← Reader.next
      return build values
    else
      let draft ← readMembers inner ms (← Reader.remaining) (Draft.empty ms)
      return build (← draft.complete)
  | '[' => descend room fun inner => do
    let values ← readPlaces inner name ms.length ms 0
    Reader.mark ']'
    return build values
  | _ => unexpected ("struct " ++ name)

/-- What the tag of a choice is to the reader: the key of an object, so that a tag that is no text
is ill-formed, or a value that has to be a text, so that another one is of the wrong type. Releases
of the JSON library differ in this. -/
inductive TagRule
  | asKey
  | asValue
  deriving DecidableEq, Repr

def readTag : TagRule → Reader String
  | .asKey => Reader.key
  | .asValue => readText "variant identifier"

def findAlternative {α : Type} (alternatives : List (Alternative α)) (name : String) :
    Reader (Alternative α) :=
  match alternatives.find? (·.name == name) with
  | some a => return a
  | none => Reader.refuse (.unknownVariant name (alternatives.map (·.name)))

/-- The content after the name of an alternative; `null` where none is carried. -/
def readContent {α : Type} (inner : Reading) : Alternative α → Reader α
  | .plain _ value => do
    if (← Reader.ahead) = 'n' then
      Reader.word "null".toList
      return value
    else unexpected "unit"
  | .carrying _ shape wrap => return wrap (← inner shape)

/-- A choice: a name alone, or the one member of an object, whose key is the name. -/
def readChoice {α : Type} (rule : TagRule) (room : Option Reading)
    (alternatives : List (Alternative α)) : Reader α := do
  match ← Reader.ahead with
  | '"' =>
    match ← findAlternative alternatives (← Reader.text) with
    | .plain _ value => return value
    | .carrying .. => Reader.refuse (.wrongType .plainVariant "newtype variant")
  | '{' => descend room fun inner => do
    let alternative ← findAlternative alternatives (← readTag rule)
    Reader.mark ':'
    let value ← readContent inner alternative
    Reader.mark '}'
    return value
  | _ => throw .malformed

/-- One step of reading: `room` reads what lies between brackets, if another bracket may be open. -/
def readShape (rule : TagRule) (room : Option Reading) : Reading
  | .text => readText "a string"
  | .flag => readFlag
  | .count => return UInt64.ofNat (← readNat UInt64.size "u64")
  | .size => return UInt64.ofNat (← readNat UInt64.size "usize")
  | .small => return UInt32.ofNat (← readNat UInt32.size "u32")
  | .optional s => readOptional (readShape rule room s)
  | .list s => readList room s
  | .noun n =>
    match n.layout with
    | .record name members build => readRecord room name members build
    | .choice alternatives => readChoice rule room alternatives

/-- A reader of values whose brackets nest at most `depth` deep. -/
def reading (rule : TagRule) : Nat → Reading
  | 0 => readShape rule none
  | depth + 1 => readShape rule (some (reading rule depth))

/-- How many brackets may be open at once. -/
def maxDepth : Nat := 127

def readDocument (rule : TagRule) (n : Noun) : Reader n.Value := do
  let value ← reading rule maxDepth (.noun n)
  Reader.gap
  return value

/-- The value that the text describes; only a gap may stand around it. -/
def decodeBy (rule : TagRule) (n : Noun) (s : String) : Except Fault n.Value :=
  match (readDocument rule n).run s.toList with
  | .ok (value, []) => .ok value
  | .ok (_, _ :: _) => .error .malformed
  | .error fault => .error fault

/-- Decoding with tags that are keys, so that `{5:null}` is ill-formed. -/
def decode (n : Noun) (s : String) : Except Fault n.Value := decodeBy .asKey n s

end SqlRender.Document
