import SqlRender.Dialect.Shipped
import SqlRender.Document.Decode
import SqlRender.Log

/-!
# Rendering documents

A document is decoded and its query rendered in a shipped dialect. Each of the two steps may fail.
-/
namespace SqlRender.Command

/-- Why an input could not be read. What the system refuses has a number and a description. -/
inductive ReadFailure where
  | refused (number : Nat) (description : String)
  | notUnicode
deriving DecidableEq

namespace ReadFailure

def missing : ReadFailure := refused 2 "No such file or directory"

/-- A name is looked up in a file. -/
def notFolder : ReadFailure := refused 20 "Not a directory"

def folder : ReadFailure := refused 21 "Is a directory"

/-- A name or the whole path has too many bytes. -/
def nameTooLong : ReadFailure := refused 36 "File name too long"

def message : ReadFailure → String
  | refused number description => s!"{description} (os error {number})"
  | notUnicode => "stream did not contain valid UTF-8"

end ReadFailure

/-- Why no statement was rendered. -/
inductive Failure where
  | read (path : String) (cause : ReadFailure)
  | document (cause : Json.Fault)
  | query (cause : Defect)
deriving DecidableEq

def Failure.cause : Failure → String
  | read _ cause => cause.message
  | document cause => cause.message
  | query cause => cause.message

def Failure.message (e : Failure) : String :=
  match e with
  | read path _ => s!"Failed to read '{path}': {e.cause}"
  | document _ => s!"Invalid query document: {e.cause}"
  | query _ => s!"Invalid query: {e.cause}"

def decodeQuery (document : String) : Except Failure Query :=
  (Document.decode .query document).mapError .document

/-- The statement of a document. -/
def render (s : Shipped) (document : String) : Except Failure Rendered := do
  let q ← decodeQuery document
  (q.render s.dialect).mapError .query

def decodedEvent (s : Shipped) (q : Query) : Event :=
  ⟨.debug, "Decoded query document",
    [("dialect", .text s.label), ("statement", .text q.verb.keyword), ("table", .text q.table)]⟩

/-- The events of rendering a document; one that is not decoded has none. -/
def events (s : Shipped) (document : String) : List Event :=
  match decodeQuery document with
  | .ok q => [decodedEvent s q, q.event s.dialect]
  | .error _ => []

end SqlRender.Command
