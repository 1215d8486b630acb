import SqlRender.Json.Reader

/-!
# Texts

A JSON text stands between double quotes. A backslash begins an escape: a single letter, or `u` and
four hexadecimal digits. A character outside the first plane is escaped as two such halves, and a
half alone is no character.
-/
namespace SqlRender.Json

def letterEscape : Char → Option Char
  | '"' => some '"'
  | '\\' => some '\\'
  | '/' => some '/'
  | 'b' => some '\x08'
  | 'f' => some '\x0c'
  | 'n' => some '\n'
  | 'r' => some '\r'
  | 't' => some '\t'
  | _ => none

def hexValue? (c : Char) : Option Nat :=
  if '0' ≤ c ∧ c ≤ '9' then some (c.toNat - '0'.toNat)
  else if 'a' ≤ c ∧ c ≤ 'f' then some (c.toNat - 'a'.toNat + 10)
  else if 'A' ≤ c ∧ c ≤ 'F' then some (c.toNat - 'A'.toNat + 10)
  else none

def hexUnit? (a b c d : Char) : Option Nat := do
  return 4096 * (← hexValue? a) + 256 * (← hexValue? b) + 16 * (← hexValue? c) + (← hexValue? d)

/-- The first half of a pair. -/
def isLeading (n : Nat) : Bool := 0xD800 ≤ n && n < 0xDC00

/-- The second half of a pair. -/
def isTrailing (n : Nat) : Bool := 0xDC00 ≤ n && n < 0xE000

namespace Reader

/-- Four hexadecimal digits. A text of fewer than four bytes ends too early. -/
def hexUnit : Reader Nat := do
  match ← get with
  | a :: b :: c :: d :: rest =>
    match hexUnit? a b c d with
    | some n => set rest; return n
    | none => throw .malformed
  | short => if (String.ofList short).utf8ByteSize < 4 then throw .truncated else throw .malformed

/-- The character of an escape whose backslash and `u` are taken. -/
def unicodeEscape : Reader Char := do
  let n ← hexUnit
  if isTrailing n then throw .malformed
  if isLeading n then
    word ['\\', 'u']
    let m ← hexUnit
    if isTrailing m then return Char.ofNat (0x10000 + (n - 0xD800) * 0x400 + (m - 0xDC00))
    else throw .malformed
  else return Char.ofNat n

def escape : Reader Char := do
  let c ← next
  if c = 'u' then unicodeEscape
  else match letterEscape c with
    | some x => return x
    | none => throw .malformed

/-- The characters up to the closing quote, which is taken too. -/
def textBody : Nat → Reader (List Char)
  | 0 => throw .malformed
  | n + 1 => do
    let c ← next
    if c = '"' then return []
    else if c = '\\' then return (← escape) :: (← textBody n)
    else if c < ' ' then throw .malformed
    else return c :: (← textBody n)

def text : Reader String := do
  word ['"']
  return String.ofList (← textBody ((← remaining) + 1))

def key : Reader String := do gap; text

end Reader

end SqlRender.Json
