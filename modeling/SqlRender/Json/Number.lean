import SqlRender.Json.Reader

/-!
# Numbers

A number has an optional minus sign, a whole part without leading zeros, and optionally a fraction
and an exponent. It is an integer if it has neither and fits in a 64-bit word, signed or not; every
other number is a double.
-/
namespace SqlRender.Json

/-- The parts of a number as they are written. -/
structure Numeral where
  negative : Bool
  whole : List Char
  fraction : List Char
  power : Option Int
  plain : Bool

/-- The value of a number. -/
inductive Number where
  | integer (value : Int)
  | float (value : Decimal)
deriving DecidableEq

def digitValue (c : Char) : Nat := c.toNat - '0'.toNat

def digitsValue (cs : List Char) : Nat := cs.foldl (fun n c => 10 * n + digitValue c) 0

namespace Reader

/-- The digits at the front, at least one. -/
def digits (atEnd : Fault) : Reader (List Char) := do
  let text ← get
  match text.takeWhile Char.isDigit, text.dropWhile Char.isDigit with
  | [], [] => throw atEnd
  | [], _ :: _ => throw .malformed
  | cs, rest => set rest; return cs

/-- Whether the given character stands at the front; if so it is taken. -/
def accept (p : Char → Bool) : Reader (Option Char) := do
  match ← get with
  | [] => return none
  | c :: rest => if p c then set rest; return some c else return none

def fraction (atEnd : Fault) : Reader (List Char) := do
  match ← accept (· == '.') with
  | some _ => digits atEnd
  | none => return []

def exponent (atEnd : Fault) : Reader (Option Int) := do
  match ← accept (fun c => c == 'e' || c == 'E') with
  | some _ =>
    let sign ← accept (fun c => c == '+' || c == '-')
    let n : Int := digitsValue (← digits atEnd)
    return some (if sign = some '-' then -n else n)
  | none => return none

/-- A number. `atEnd` is the fault when the text ends where a digit must follow. -/
def numeral (atEnd : Fault) : Reader Numeral := do
  let sign ← accept (· == '-')
  let whole ← digits atEnd
  if whole.head? = some '0' ∧ whole.length ≠ 1 then throw .malformed
  let fraction ← fraction atEnd
  let power ← exponent atEnd
  return ⟨sign.isSome, whole, fraction, power, fraction.isEmpty && power.isNone⟩

end Reader

namespace Numeral

/-- The significand takes digits as long as it fits in a 64-bit word. -/
def fits (n : Nat) : Bool := n < UInt64.size

/-- Digits of the whole part that no longer fit raise the exponent. -/
def wholePart (n : Nat) : List Char → Nat × Int
  | [] => (n, 0)
  | c :: cs =>
    let n' := 10 * n + digitValue c
    if fits n' then wholePart n' cs else (n, cs.length + 1)

/-- Digits of the fraction lower the exponent; from the first that does not fit they are dropped. -/
def fractionPart (n : Nat) (e : Int) : List Char → Nat × Int
  | [] => (n, e)
  | c :: cs =>
    let n' := 10 * n + digitValue c
    if fits n' then fractionPart n' (e - 1) cs else (n, e)

def tenTo (n : Nat) : Float := Float.ofScientific 1 false n

/-- The double times `10 ^ e`, in steps of at most `10 ^ 308`; nothing if it is out of range. -/
def scaled (x : Float) (e : Int) : Nat → Option Float
  | 0 => some x
  | n + 1 =>
    if e.natAbs ≤ 308 then
      if 0 ≤ e then
        let y := x * tenTo e.toNat
        if y.isInf then none else some y
      else some (x / tenTo e.natAbs)
    else if x == 0 then some x
    else if 0 ≤ e then none
    else scaled (x / tenTo 308) (e + 308) n

def toFloat? (n : Numeral) : Option Float :=
  let (s, e) := wholePart 0 n.whole
  let (s, e) := fractionPart s e n.fraction
  let x := scaled (UInt64.ofNat s).toFloat (e + n.power.getD 0) 8
  x.map fun x => if n.negative then -x else x

def minWord : Int := -0x8000000000000000

/-- The value of the number; a double out of range has none. -/
def value (n : Numeral) : Except Fault Number :=
  let size := digitsValue n.whole
  let integer : Int := if n.negative then -size else size
  if n.plain && minWord ≤ integer && integer < UInt64.size && !(n.negative && size == 0) then
    return .integer integer
  else match n.toFloat? with
    | some x => return .float (Decimal.ofBits x.toBits)
    | none => throw .malformed

end Numeral

def Reader.number : Reader Number := do
  let n ← Reader.numeral .truncated
  n.value

end SqlRender.Json
