/-!
# Connection pools

The configuration of the pool that runs the rendered statements. A pool without connections runs
none.
-/
namespace SqlRender

/-- The configuration of a pool. -/
structure Pool where
  maxConnections : UInt32 := 2
deriving DecidableEq

namespace Pool

/-- A pool must have a connection. -/
structure Defect where
  maxConnections : UInt32
deriving DecidableEq

def Defect.message (e : Defect) : String :=
  s!"max_connections must be at least 1, got {e.maxConnections.toNat}"

/-- The configuration, if it has a connection. -/
def validate (p : Pool) : Except Defect Pool :=
  if p.maxConnections = 0 then throw ⟨p.maxConnections⟩ else return p

def ofMax (n : UInt32) : Except Defect Pool := validate ⟨n⟩

end Pool

end SqlRender
