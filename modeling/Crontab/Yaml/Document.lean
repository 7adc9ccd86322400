import Crontab.Yaml.Node

/-! The value of a document. Of several errors in its nodes the outermost one counts, and of errors
with the same number of collections around them the first. -/
namespace Crontab.Yaml

/-- An error, and the number of collections around it. -/
structure Fault where
  depth : Nat
  cause : DocumentError
deriving DecidableEq, Repr

namespace Fault

def nested (f : Fault) : Fault :=
  { f with depth := f.depth + 1 }

/-- The outer one of two faults; of two at one depth the first. -/
def outer (f g : Fault) : Fault :=
  if g.depth < f.depth then g else f

def both {α β : Type} : Except Fault α → Except Fault β → Except Fault (α × β)
  | .ok a, .ok b => .ok (a, b)
  | .ok _, .error g => .error g
  | .error f, .ok _ => .error f
  | .error f, .error g => .error (f.outer g)

end Fault

namespace Node

mutual

def toValue : Node → Except Fault Value
  | plain text => (Scalar.plain text).mapError (⟨0, ·⟩)
  | quoted points => .ok (.ofPoints points)
  | sequence items => ((itemValues items).map .list).mapError Fault.nested
  | mapping pairs =>
    ((pairValues pairs).map (.mapping ∘ Value.mappingOf)).mapError Fault.nested

def itemValues : List Node → Except Fault (List Value)
  | [] => .ok []
  | node :: rest =>
    (Fault.both (toValue node) (itemValues rest)).map fun (value, others) => value :: others

/-- A collection cannot be a key, whatever is in it. -/
def pairValues : List (Node × Node) → Except Fault (List (Value × Value))
  | [] => .ok []
  | (k, v) :: rest =>
    let key := if k.isCollection then .error ⟨0, .malformed⟩ else toValue k
    (Fault.both (Fault.both key (toValue v)) (pairValues rest)).map
      fun (pair, others) => pair :: others

end

end Node

def read (text : List Char) : Except DocumentError Value := do
  let node ← Node.ofDocument (Token.ofText text)
  node.toValue.mapError Fault.cause

end Crontab.Yaml
