import Stencil.Json.Value

/-!
# Contexts

What a caller supplies for one render, and what nobody has looked at yet: values for variables, lists to loop over, and
which regions to leave out. The entries of the three maps come in whatever order the caller's maps have.
-/

namespace Stencil

/-- The untrusted input of a render. -/
structure Context where
  values : List (Text × Json.Value)
  regions : List (Text × Bool)
  lists : List (Text × List Json.Value)
deriving BEq, Repr

/-- A context that supplies nothing. -/
def Context.empty : Context := ⟨[], [], []⟩

end Stencil
