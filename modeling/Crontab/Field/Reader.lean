import Crontab.Atom.Reader
import Crontab.Field
import Crontab.Text.Segments

/-! Reading a field: the entries of its list from left to right, up to the first fault. -/
namespace Crontab.Field

variable {ε : Type} {m : Type → Type} [Monad m]

/-- One entry of the list `text`: a blank one is refused, any other goes to the reader of atoms. -/
def readSegment (refuse : Refusal → ε) (readAtom : String → ExceptT ε m Atom) (text : String)
    (segment : List Char) : ExceptT ε m Atom :=
  if segment.all Text.isBlank then throw (refuse ⟨.emptyListEntry text, text, none⟩)
  else readAtom (.ofList segment)

/-- The field that a list of entries denotes, by any reader of atoms in any monad. -/
def readWith (refuse : Refusal → ε) (readAtom : String → ExceptT ε m Atom) (text : String) :
    ExceptT ε m Field := do
  let (first, others) := Text.segments ',' text.toList
  let head ← readSegment refuse readAtom text first
  let tail ← others.mapM (readSegment refuse readAtom text)
  return ⟨head, tail⟩

def read (d : Domain) (text : String) : Except ReadError Field :=
  readWith (m := Id) .refused (fun segment => ExceptT.mk (Atom.read d segment)) text

end Crontab.Field
