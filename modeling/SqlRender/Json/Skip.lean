import SqlRender.Json.Number
import SqlRender.Json.Text

/-!
# Ignored values

A value that nobody asks for is read for its form alone: brackets may nest without bound, numbers
may be out of range, and halves of escaped pairs may stand alone.
-/
namespace SqlRender.Json.Reader

/-- The characters of an ignored text up to and with the closing quote. -/
def skipText : Nat → Reader Unit
  | 0 => throw .malformed
  | n + 1 => do
    let c ← next
    if c = '"' then return
    else if c = '\\' then
      let e ← next
      if e = 'u' then let _ ← hexUnit
      else if (letterEscape e).isNone then throw .malformed
      skipText n
    else if c < ' ' then throw .malformed
    else skipText n

mutual

def skipValue : Nat → Reader Unit
  | 0 => throw .malformed
  | n + 1 => do
    let c ← ahead
    match c with
    | 'n' => word "null".toList
    | 't' => word "true".toList
    | 'f' => word "false".toList
    | '"' => do let _ ← next; skipText ((← remaining) + 1)
    | '[' => do
      let _ ← next
      if (← ahead) = ']' then let _ ← next
      else skipElements n
    | '{' => do
      let _ ← next
      if (← ahead) = '}' then let _ ← next
      else skipMembers n
    | c => if c = '-' || c.isDigit then let _ ← numeral .malformed else throw .malformed

def skipElements : Nat → Reader Unit
  | 0 => throw .malformed
  | n + 1 => do
    skipValue n
    gap
    let c ← next
    if c = ',' then skipElements n
    else if c = ']' then return
    else throw .malformed

def skipMembers : Nat → Reader Unit
  | 0 => throw .malformed
  | n + 1 => do
    mark '"'
    skipText ((← remaining) + 1)
    mark ':'
    skipValue n
    gap
    let c ← next
    if c = ',' then skipMembers n
    else if c = '}' then return
    else throw .malformed

end

/-- An ignored value. Each step below an element or a member takes a character, so the bound is
never reached. -/
def skip : Reader Unit := do skipValue (2 * (← remaining) + 2)

end SqlRender.Json.Reader
