import SqlRender.Command.Render

/-!
# Files

What reading a path gives when all files are known. A path is walked name by name, and a name is
looked up in a folder only. With this in place of the outside world a run of the command is a
function of its words and its files.
-/
namespace SqlRender.Command

/-- The names that lead to a file or a folder from the root. -/
abbrev Trail := List String

/-- Files, each at the end of its trail with what reading it gives, and the folder where a path
begins. The folders are those on the way to a file, that one and those on the way to it. -/
structure Files where
  entries : List (Trail × Except ReadFailure String)
  origin : Trail := []

namespace Files

def isFolder (fs : Files) (t : Trail) : Bool :=
  t.isPrefixOf fs.origin || fs.entries.any fun entry => t != entry.1 && t.isPrefixOf entry.1

def isFile (fs : Files) (t : Trail) : Bool := (fs.entries.lookup t).isSome

def maxNameSize : Nat := 255

def maxPathSize : Nat := 4095

/-- One name further. An empty name and a dot stay, and two dots lead to the folder around. -/
def step (fs : Files) (t : Trail) (name : String) : Except ReadFailure Trail :=
  let next := t ++ [name]
  if !fs.isFolder t then .error .notFolder
  else if name = "" ∨ name = "." then .ok t
  else if name = ".." then .ok t.dropLast
  else if maxNameSize < name.utf8ByteSize then .error .nameTooLong
  else if fs.isFolder next || fs.isFile next then .ok next
  else .error .missing

/-- The trail of a path. A path that begins with a slash begins at the root. -/
def trail (fs : Files) (path : String) : Except ReadFailure Trail :=
  if path.isEmpty then .error .missing
  else if maxPathSize < path.utf8ByteSize then .error .nameTooLong
  else (path.splitOn "/").foldlM fs.step (if path.startsWith "/" then [] else fs.origin)

def read (fs : Files) (path : String) : Except ReadFailure String := do
  (fs.entries.lookup (← fs.trail path)).getD (.error .folder)

end Files

end SqlRender.Command
