import SqlRender.Decimal.Notation
import SqlRender.Text.Escaped

/-!
# Faults

Why a text is no document. A text may end too early, be no JSON at all, or be JSON that does not
describe a value of the wanted type; only the last has more to say.
-/
namespace SqlRender.Json

/-- What stood where a value of another type was wanted. -/
inductive Found where
  | null
  | flag (value : Bool)
  | integer (value : Int)
  | float (value : Decimal)
  | text (value : String)
  | sequence
  | map
  | plainVariant
deriving DecidableEq

def Found.words : Found → String
  | null => "null"
  | flag b => s!"boolean `{b}`"
  | integer n => s!"integer `{n}`"
  | float x => s!"floating point `{x.text}`"
  | text s => s!"string {Text.escaped s}"
  | sequence => "sequence"
  | map => "map"
  | plainVariant => "unit variant"

/-- Why well-formed JSON describes no value of the wanted type. -/
inductive Mismatch where
  | wrongType (found : Found) (expected : String)
  | outOfRange (value : Int) (expected : String)
  | missingMember (key : String)
  | repeatedMember (key : String)
  | unknownVariant (name : String) (known : List String)
  | wrongLength (length : Nat) (record : String) (size : Nat)
deriving DecidableEq

/-- A choice of names: `a`, `a` or `b`, one of `a`, `b`, `c`. -/
def choiceOf : List String → String
  | [a, b] => ticked a ++ " or " ++ ticked b
  | [a] => ticked a
  | names => "one of " ++ ", ".intercalate (names.map ticked)
where
  ticked (name : String) : String := "`" ++ name ++ "`"

def Mismatch.message : Mismatch → String
  | wrongType found expected => s!"invalid type: {found.words}, expected {expected}"
  | outOfRange n expected => s!"invalid value: integer `{n}`, expected {expected}"
  | missingMember key => s!"missing field `{key}`"
  | repeatedMember key => s!"duplicate field `{key}`"
  | unknownVariant name known => s!"unknown variant `{name}`, expected {choiceOf known}"
  | wrongLength n record size =>
    s!"invalid length {n}, expected struct {record} with {size} elements"

/-- Why a text is no document. -/
inductive Fault where
  | truncated
  | malformed
  | mismatch (cause : Mismatch)
deriving DecidableEq

def Fault.message : Fault → String
  | truncated => "unexpected end of JSON text"
  | malformed => "invalid JSON text"
  | mismatch cause => cause.message

end SqlRender.Json
