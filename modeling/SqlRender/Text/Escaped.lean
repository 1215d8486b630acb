import SqlRender.Text.Hidden

/-!
# Escaped text

The form in which a message shows a text that it found: between double quotes, with a backslash
before quotes and backslashes, and with an escape for every character that cannot be seen by itself.
-/
namespace SqlRender.Text

def codeEscape (c : Char) : String :=
  "\\u\x7b" ++ String.ofList (Nat.toDigits 16 c.toNat) ++ "\x7d"

def escapedChar (c : Char) : String :=
  match c with
  | '"' => "\\\""
  | '\\' => "\\\\"
  | '\n' => "\\n"
  | '\r' => "\\r"
  | '\t' => "\\t"
  | '\x00' => "\\0"
  | c => if isHidden c then codeEscape c else c.toString

/-- The text as a message shows it. -/
def escaped (s : String) : String := "\"" ++ String.join (s.toList.map escapedChar) ++ "\""

end SqlRender.Text
