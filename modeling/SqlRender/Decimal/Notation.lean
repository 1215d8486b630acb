import SqlRender.Decimal.Shortest

/-!
# Decimal notation

Where the point of a decimal is written, and when an exponent is.
-/
namespace SqlRender.Decimal

/-- The decimal in positional notation when its first digit stands at a place from `10 ^ -5` to `10
^ 15`, with at least one digit on both sides of the point. Beyond that one digit stands before the
point, the point is left out if nothing follows it, and the exponent always has a sign. -/
def text (d : Decimal) : String :=
  let digits := d.digits.repr
  let count := digits.length
  let place : Int := d.exponent + count - 1
  let zeros (n : Int) := String.ofList (List.replicate n.toNat '0')
  let body :=
    if d.digits = 0 then "0.0"
    else if 0 ≤ d.exponent ∧ place ≤ 15 then digits ++ zeros d.exponent ++ ".0"
    else if 0 ≤ place ∧ place ≤ 15 then split digits (place.toNat + 1)
    else if -5 ≤ place ∧ place < 0 then "0." ++ zeros (-place - 1) ++ digits
    else
      let sign := if place < 0 then "-" else "+"
      (if count = 1 then digits else split digits 1) ++ "e" ++ sign ++ place.natAbs.repr
  if d.negative then "-" ++ body else body
where
  split (digits : String) (n : Nat) : String :=
    let cs := digits.toList
    String.ofList (cs.take n) ++ "." ++ String.ofList (cs.drop n)

end SqlRender.Decimal
