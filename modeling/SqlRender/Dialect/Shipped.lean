import SqlRender.Dialect

/-!
# Shipped dialects

The dialects that the command line knows by name.
-/
namespace SqlRender

/-- A dialect of the command line. -/
inductive Shipped where
  | general
  | postgres
  | sqlite
deriving DecidableEq

namespace Shipped

def all : List Shipped := [general, postgres, sqlite]

def word : Shipped → String
  | general => "general"
  | postgres => "postgres"
  | sqlite => "sqlite"

/-- The name under which the dialect is logged. -/
def label : Shipped → String
  | general => "General"
  | postgres => "Postgres"
  | sqlite => "Sqlite"

def dialect : Shipped → Dialect
  | general => Dialect.general
  | postgres => Dialect.postgres
  | sqlite => Dialect.sqlite

def ofWord? (s : String) : Option Shipped := all.find? (·.word == s)

theorem mem_all (s : Shipped) : s ∈ all := by cases s <;> simp [all]

theorem ofWord?_word (s : Shipped) : ofWord? s.word = some s := by cases s <;> rfl

end Shipped

end SqlRender
