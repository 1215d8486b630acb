import SqlRender.Command.Arguments
import SqlRender.Command.Render
import SqlRender.Render.Listing

/-!
# The command

What the command prints and with which status it ends, as a function of its request and its input.
-/
namespace SqlRender.Command

/-- The end of a run. -/
structure Exit where
  status : UInt32
  output : String := ""
  errors : String := ""
deriving DecidableEq

def versionLine : String := "sqlkit 0.1.0\n"

def helpText : String :=
  "Usage: sqlkit [-d DIALECT] [-v] render [-b] [FILE]\n       sqlkit [-d DIALECT] [-v] dialects\n"

/-- A text whose further lines stand under its first. -/
def indented (s : String) : String := "    " ++ s.replace "\n" "\n    "

def Failure.report (e : Failure) : String :=
  "Error: " ++ e.message ++ "\n\nCaused by:\n" ++ indented e.cause ++ "\n"

/-- The lines of the events that a verbose run shows. -/
def logText (verbose : Bool) (events : List Event) : String :=
  let shown := events.filter fun e => verbose && e.level == .debug
  String.join (shown.map fun e => e.line ++ "\n")

def renderedEvent (r : Rendered) : Event :=
  ⟨.debug, "Rendered query", [("binds", .count r.binds.length)]⟩

def runRender (verbose : Bool) (s : Shipped) (binds : Bool) (path : String)
    (input : Except ReadFailure String) : Exit :=
  match input with
  | .error cause => { status := 1, errors := (Failure.read path cause).report }
  | .ok document =>
    match render s document with
    | .ok r => {
        status := 0
        output := r.listing binds ++ "\n"
        errors := logText verbose (events s document ++ [renderedEvent r]) }
    | .error e => { status := 1, errors := logText verbose (events s document) ++ e.report }

def runDialects : Exit :=
  { status := 0, output := String.join (Shipped.all.map fun s => s.dialect.describe ++ "\n") }

/-- The run of a request. `read` gives the contents of a file, or of the standard input. -/
def run {m : Type → Type} [Monad m] (read : Option String → m (Except ReadFailure String)) :
    Except Halt Request → m Exit
  | .error .usage => return { status := 2, errors := helpText }
  | .error .help => return { status := 0, output := helpText }
  | .error .version => return { status := 0, output := versionLine }
  | .ok .dialects => return runDialects
  | .ok (.render verbose s binds file) =>
    return runRender verbose s binds (file.getD "-") (← read file)

end SqlRender.Command
