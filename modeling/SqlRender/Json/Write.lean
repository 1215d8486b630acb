/-!
# Writing JSON

Texts, arrays and objects without any gaps. In a text only quotes, backslashes and the characters
below the blank are escaped.
-/
namespace SqlRender.Json

def hexDigit (n : Nat) : Char := if n < 10 then Char.ofNat (48 + n) else Char.ofNat (87 + n)

def writeChar (c : Char) : List Char :=
  match c with
  | '"' => ['\\', '"']
  | '\\' => ['\\', '\\']
  | '\x08' => ['\\', 'b']
  | '\x0c' => ['\\', 'f']
  | '\n' => ['\\', 'n']
  | '\r' => ['\\', 'r']
  | '\t' => ['\\', 't']
  | c =>
    if c < ' ' then ['\\', 'u', '0', '0', hexDigit (c.toNat / 16), hexDigit (c.toNat % 16)] else [c]

def writeText (s : String) : String := String.ofList ('"' :: (s.toList.flatMap writeChar ++ ['"']))

def writeFlag (b : Bool) : String := if b then "true" else "false"

def writeArray (elements : List String) : String := "[" ++ ",".intercalate elements ++ "]"

def writeMember (key value : String) : String := writeText key ++ ":" ++ value

def writeObject (members : List (String × String)) : String :=
  "\x7b" ++ ",".intercalate (members.map fun (key, value) => writeMember key value) ++ "\x7d"

/-- A member that is written only if it is present. -/
def presentMember {α : Type} (key : String) (write : α → String) : Option α → List (String × String)
  | none => []
  | some value => [(key, write value)]

def writeTagged (name value : String) : String := writeObject [(name, value)]

end SqlRender.Json
