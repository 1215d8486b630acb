/-!
# Quoted text

A quoted text stands between two copies of a quote character, and every quote character inside it is
written twice. So the first single quote character after the opening one closes the text.
-/
namespace SqlRender.Text

def doubled (q : Char) : List Char → List Char
  | [] => []
  | c :: r => if c = q then q :: q :: doubled q r else c :: doubled q r

/-- The text between two quote characters `q`, with every `q` inside it doubled. -/
def quoted (q : Char) (s : String) : String := String.ofList (q :: (doubled q s.toList ++ [q]))

end SqlRender.Text
