import SqlRender.Render.Statement

/-!
# Listings

What the command line prints: a statement, with a line for each bind if they are asked for, and a
line that describes a dialect.
-/
namespace SqlRender

def Bind.line (b : Bind) : String := b.position.repr ++ " " ++ b.name

/-- The statement, followed by its binds if they are wanted. -/
def Rendered.listing (r : Rendered) (binds : Bool) : String :=
  if binds then r.sql ++ String.join (r.binds.map fun b => "\n" ++ b.line) else r.sql

def padded (width : Nat) (s : String) : String :=
  s ++ String.ofList (List.replicate (width - s.length) ' ')

/-- The name, the quote character and the placeholder style in columns. -/
def Dialect.describe (d : Dialect) : String :=
  padded 12 d.name ++ padded 6 d.quote.toString ++ d.style.word

end SqlRender
