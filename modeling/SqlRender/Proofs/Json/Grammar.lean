import Mathlib.Data.List.Forall2

/-!
# The grammar of JSON

What a JSON text is, said about lists of characters and without a reader: gaps between tokens, the
spellings of a text, numbers as they are written, and what stands between brackets. Of a value that
nobody asks for only the form matters, so there the number of brackets, the size of a number and
halves of escaped pairs are free.
-/
namespace SqlRender.Json

def Gap (cs : List Char) : Prop := ∀ c ∈ cs, c ∈ [' ', '\t', '\n', '\r']

def Spaced (phrase : List Char → Prop) (cs : List Char) : Prop :=
  ∃ g body h, Gap g ∧ phrase body ∧ Gap h ∧ cs = g ++ body ++ h

def escapes : List (Char × Char) :=
  [('"', '"'), ('\\', '\\'), ('/', '/'), ('b', '\x08'), ('f', '\x0c'), ('n', '\n'), ('r', '\r'),
    ('t', '\t')]

/-- A hexadecimal digit with its value; case does not matter. -/
def IsHex (c : Char) (k : Nat) : Prop :=
  "0123456789abcdef".toList[k]? = some c ∨ "0123456789ABCDEF".toList[k]? = some c

def HexEscape (cs : List Char) (n : Nat) : Prop :=
  ∃ a b c d i j k l, IsHex a i ∧ IsHex b j ∧ IsHex c k ∧ IsHex d l ∧
    cs = ['\\', 'u', a, b, c, d] ∧ n = 4096 * i + 256 * j + 16 * k + l

/-- A character in 16-bit units: one in the first plane, and a pair beyond it. -/
def utf16 (c : Char) : List Nat :=
  if c.toNat < 0x10000 then [c.toNat]
  else [0xD800 + (c.toNat - 0x10000) / 0x400, 0xDC00 + (c.toNat - 0x10000) % 0x400]

def IsPlain (c : Char) : Prop := c ≠ '"' ∧ c ≠ '\\' ∧ ' ' ≤ c

/-- The ways to write one character of a text. -/
inductive Spelling : List Char → Char → Prop
  | plain {c : Char} (h : IsPlain c) : Spelling [c] c
  | letter {e c : Char} (h : (e, c) ∈ escapes) : Spelling ['\\', e] c
  | units {c : Char} {us : List (List Char)} (h : List.Forall₂ HexEscape us (utf16 c)) :
      Spelling us.flatten c

def Quoted (cs : List Char) (s : String) : Prop :=
  ∃ us, List.Forall₂ Spelling us s.toList ∧ cs = '"' :: us.flatten ++ ['"']

def Digits (cs : List Char) : Prop := cs ≠ [] ∧ ∀ c ∈ cs, c.isDigit

/-- The whole part of a number has no leading zero. -/
def Whole (cs : List Char) : Prop := Digits cs ∧ (cs.head? = some '0' → cs = ['0'])

def Fraction (cs : List Char) : Prop := cs = [] ∨ ∃ ds, Digits ds ∧ cs = '.' :: ds

def Exponent (cs : List Char) : Prop :=
  cs = [] ∨ ∃ e sign ds, (e = 'e' ∨ e = 'E') ∧ sign ∈ [[], ['+'], ['-']] ∧ Digits ds ∧
    cs = e :: sign ++ ds

def Number.Written (cs : List Char) : Prop :=
  ∃ sign whole fraction exponent, sign ∈ [[], ['-']] ∧ Whole whole ∧ Fraction fraction ∧
    Exponent exponent ∧ cs = sign ++ whole ++ fraction ++ exponent

/-- What stands between brackets: entries with commas between them, or a gap. -/
def Listed : List (List Char) → List Char → Prop
  | [], cs => Gap cs
  | ts, cs => cs = [','].intercalate ts

def IsArray (ts : List (List Char)) (cs : List Char) : Prop :=
  ∃ inner, Listed ts inner ∧ cs = '[' :: inner ++ [']']

/-- Members in braces: their names, and the texts of their values with the gaps around them. -/
def IsObject (ms : List (String × List Char)) (cs : List Char) : Prop :=
  ∃ ts inner,
    List.Forall₂ (fun t m => ∃ key, Spaced (Quoted · m.1) key ∧ t = key ++ ':' :: m.2) ts ms ∧
    Listed ts inner ∧ cs = '{' :: inner ++ ['}']

/-- One character of an ignored text; a half of a pair may stand alone. -/
inductive LooseSpelling : List Char → Prop
  | plain {c : Char} (h : IsPlain c) : LooseSpelling [c]
  | letter {e c : Char} (h : (e, c) ∈ escapes) : LooseSpelling ['\\', e]
  | unit {cs : List Char} {n : Nat} (h : HexEscape cs n) : LooseSpelling cs

def LooseQuoted (cs : List Char) : Prop :=
  ∃ us : List (List Char), (∀ u ∈ us, LooseSpelling u) ∧ cs = '"' :: us.flatten ++ ['"']

/-- A well-formed value of any kind. -/
inductive WellFormed : List Char → Prop
  | null : WellFormed "null".toList
  | true : WellFormed "true".toList
  | false : WellFormed "false".toList
  | number {cs : List Char} (h : Number.Written cs) : WellFormed cs
  | text {cs : List Char} (h : LooseQuoted cs) : WellFormed cs
  | array {ts : List (List Char)} {inner : List Char} (elements : ∀ t ∈ ts, WellFormed t)
      (listed : Listed ts inner) : WellFormed ('[' :: inner ++ [']'])
  | object {ms : List (List Char × List Char)} {inner : List Char}
      (keys : ∀ m ∈ ms, Spaced LooseQuoted m.1) (values : ∀ m ∈ ms, WellFormed m.2)
      (listed : Listed (ms.map fun m => m.1 ++ ':' :: m.2) inner) :
      WellFormed ('{' :: inner ++ ['}'])
  | spaced {g cs h : List Char} (left : Gap g) (value : WellFormed cs) (right : Gap h) :
      WellFormed (g ++ cs ++ h)

end SqlRender.Json
