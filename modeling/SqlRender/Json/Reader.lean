import SqlRender.Json.Fault

/-!
# Readers

A reader takes a value from the front of a text and leaves the rest, or ends with the first fault
that it meets on its way from left to right.
-/
namespace SqlRender.Json

/-- A reader of a value from the front of a text. -/
abbrev Reader (α : Type) := StateT (List Char) (Except Fault) α

/-- Blank, tab, line feed and carriage return may stand between any two tokens. -/
def isGap (c : Char) : Bool := c == ' ' || c == '\t' || c == '\n' || c == '\r'

namespace Reader

def refuse {α : Type} (cause : Mismatch) : Reader α := throw (.mismatch cause)

def peek : Reader Char := do
  match ← get with
  | [] => throw .truncated
  | c :: _ => return c

def next : Reader Char := do
  match ← get with
  | [] => throw .truncated
  | c :: rest => set rest; return c

def gap : Reader Unit := modify (·.dropWhile isGap)

/-- The first character of the next token, which stays in the text. -/
def ahead : Reader Char := do gap; peek

/-- Takes a gap and the given character. -/
def mark (c : Char) : Reader Unit := do
  gap
  if (← next) ≠ c then throw .malformed

def word : List Char → Reader Unit
  | [] => return
  | c :: cs => do
    if (← next) ≠ c then throw .malformed
    word cs

/-- The number of characters left, which bounds every loop of a reader. -/
def remaining : Reader Nat := return (← get).length

/-- Items divided by commas, up to and with the closing character. Each turn takes at least one
character, so the bound is never reached when it is the length of the text. -/
def divided {α : Type} (item : Reader α) (close : Char) : Nat → Reader (List α)
  | 0 => throw .malformed
  | n + 1 => do
    let x ← item
    gap
    let c ← next
    if c = ',' then return x :: (← divided item close n)
    else if c = close then return [x]
    else throw .malformed

/-- Items divided by commas up to the closing character, or the closing character alone. -/
def items {α : Type} (item : Reader α) (close : Char) : Reader (List α) := do
  if (← ahead) = close then
    let _ ← next
    return []
  else divided item close (← remaining)

end Reader

end SqlRender.Json
