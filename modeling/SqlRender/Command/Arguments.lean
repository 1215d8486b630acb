import SqlRender.Dialect.Shipped

/-!
# Arguments

The command line is read word by word. The dialect and the verbosity may be given before and after
the subcommand, at most once in each place; the later place wins. The environment names a dialect
for a place where none is given.
-/
namespace SqlRender.Command

/-- What the options of one place say. -/
structure Options where
  dialect : Option Shipped := none
  verbose : Bool := false
  binds : Bool := false
  file : Option String := none

/-- What the words so far have chosen. Help may be asked for on one subcommand. -/
inductive Place where
  | root
  | render
  | dialects
  | help (topic : Option String)
deriving DecidableEq

/-- The state of reading the words. -/
structure Progress where
  place : Place := .root
  /-- An option waits for its value. -/
  pending : Bool := false
  /-- No further word is an option. -/
  plain : Bool := false
  outer : Options := {}
  inner : Options := {}

/-- Why the words ask for no work. -/
inductive Halt where
  | usage
  | help
  | version
deriving DecidableEq

/-- The work that the command line asks for. -/
inductive Request where
  | dialects
  | render (verbose : Bool) (dialect : Shipped) (binds : Bool) (file : Option String)
deriving DecidableEq

namespace Progress

def options (p : Progress) : Options := if p.place = .root then p.outer else p.inner

def withOptions (p : Progress) (o : Options) : Progress :=
  if p.place = .root then { p with outer := o } else { p with inner := o }

def setDialect (p : Progress) (value : String) : Except Halt Progress :=
  match p.options.dialect, Shipped.ofWord? value with
  | none, some s =>
    return { p.withOptions { p.options with dialect := some s } with pending := false }
  | _, _ => throw .usage

def setFlag (p : Progress) (c : Char) : Except Halt Progress :=
  if c = 'v' ∧ !p.options.verbose then return p.withOptions { p.options with verbose := true }
  else if c = 'b' ∧ p.place = .render ∧ !p.options.binds then
    return p.withOptions { p.options with binds := true }
  else if c = 'h' then throw .help
  else if c = 'V' ∧ p.place = .root then throw .version
  else throw .usage

/-- A word of short options after its dash. The dialect takes the rest of the word as its value, or
the next word if nothing is left. -/
def short (p : Progress) : List Char → Except Halt Progress
  | [] => return p
  | 'd' :: [] => return { p with pending := true }
  | 'd' :: '=' :: value => p.setDialect (String.ofList value)
  | 'd' :: value => p.setDialect (String.ofList value)
  | c :: cs => do (← p.setFlag c).short cs

/-- A long option, and its value if an equals sign follows the name. -/
def long (p : Progress) (name : String) (value : Option String) : Except Halt Progress :=
  match name, value with
  | "dialect", some value => p.setDialect value
  | "dialect", none => return { p with pending := true }
  | "verbose", none => p.setFlag 'v'
  | "binds", none => p.setFlag 'b'
  | "help", none => p.setFlag 'h'
  | "version", none => p.setFlag 'V'
  | _, _ => throw .usage

def subcommand? : String → Option Place
  | "render" => some .render
  | "dialects" => some .dialects
  | "help" => some (.help none)
  | _ => none

/-- A word that is no option: the subcommand, or the file of the subcommand that takes one. -/
def positional (p : Progress) (word : String) : Except Halt Progress :=
  match p.place with
  | .root =>
    match subcommand? word with
    | some place => if p.plain then throw .usage else return { p with place }
    | none => throw .usage
  | .render =>
    if p.inner.file.isSome || word.isEmpty then throw .usage
    else return { p with inner := { p.inner with file := some word } }
  | .dialects => throw .usage
  | .help none =>
    if (subcommand? word).isSome then return { p with place := .help (some word) } else throw .usage
  | .help (some _) => throw .usage

def splitAtEquals : List Char → List Char × Option (List Char)
  | [] => ([], none)
  | '=' :: value => ([], some value)
  | c :: cs => let (name, value) := splitAtEquals cs; (c :: name, value)

def step (p : Progress) (word : String) : Except Halt Progress :=
  if let .help _ := p.place then p.positional word
  else match word.toList with
    | '-' :: c :: cs =>
      if p.pending then throw .usage
      else if p.plain then p.positional word
      else if c = '-' then
        if cs.isEmpty then return { p with plain := true }
        else
          let (name, value) := splitAtEquals cs
          p.long (String.ofList name) (value.map String.ofList)
      else p.short (c :: cs)
    | _ => if p.pending then p.setDialect word else p.positional word

/-- The dialect that the environment names. It must be a shipped one unless both places have an
option of their own, whichever of them decides. -/
def environment (p : Progress) : Option String → Except Halt (Option Shipped)
  | none => return none
  | some word =>
    match Shipped.ofWord? word with
    | some s => return some s
    | none => if p.outer.dialect.isSome && p.inner.dialect.isSome then return none else throw .usage

def finish (p : Progress) (env : Option String) : Except Halt Request := do
  if p.pending then throw .usage
  match p.place with
  | .root => throw .usage
  | .help _ => throw .help
  | .dialects =>
    let _ ← p.environment env
    return .dialects
  | .render =>
    let named ← p.environment env
    return .render (p.outer.verbose || p.inner.verbose)
      (((p.inner.dialect <|> p.outer.dialect) <|> named).getD .general) p.inner.binds p.inner.file

end Progress

/-- The work that the command line asks for. -/
def Request.ofWords (env : Option String) (words : List String) : Except Halt Request := do
  (← words.foldlM Progress.step {}).finish env

end SqlRender.Command
