import Crontab.Domain
import Crontab.Text.Quoted

/-! What can be wrong with the text of an atom, a field or an entry. -/
namespace Crontab

inductive Defect where
  | malformedAtom (text : String)
  | atomOutOfRange (text range : String)
  | emptyListEntry (text : String)
  | tooFewFields (count : Nat)
deriving DecidableEq, Repr

namespace Defect

def message : Defect → String
  | malformedAtom text => "Expression " ++ Text.quoted text ++ " is not valid"
  | atomOutOfRange text range =>
    "Expression " ++ Text.quoted (Text.strip text) ++ " is not valid for range " ++ range
  | emptyListEntry text => "Empty entry in list " ++ Text.quoted text
  | tooFewFields count =>
    "Invalid number of fields: " ++ Text.decimal count ++ ". Expected at least 5 fields."

end Defect

/-- A fault, the whole text that was read, and the field of an entry that holds the fault. -/
structure Refusal where
  defect : Defect
  expression : String
  field : Option FieldKind := none
deriving DecidableEq, Repr

namespace Refusal

/-- The same fault, found in a field of a longer text. -/
def inField (r : Refusal) (kind : FieldKind) (expression : String) : Refusal :=
  ⟨r.defect, expression, some kind⟩

def message (r : Refusal) : String :=
  match r.field with
  | none => r.defect.message
  | some kind => kind.label ++ ": " ++ r.defect.message

/-- The place of the faulty field on the line, -1 when no field is to blame. -/
def position (r : Refusal) : Int :=
  match r.field with
  | none => -1
  | some kind => kind.position

end Refusal

inductive Subject where
  | atom
  | field
  | entry
deriving DecidableEq, Repr

/-- Why reading gave no result. A numeral or a bound of a domain beyond the digit limit is no fault
of the expression. -/
inductive ReadError where
  | missing (subject : Subject)
  | refused (refusal : Refusal)
  | overlong (digits : Nat)
  | unwritable
deriving DecidableEq, Repr

namespace ReadError

def message : ReadError → String
  | missing .atom => "Atom text must not be None"
  | missing .field => "Field text must not be None"
  | missing .entry => "Cron expression must not be None"
  | refused refusal => refusal.message
  | overlong digits => Text.overlongMessage digits
  | unwritable => Text.unwritableMessage

def outOfRange (d : Domain) (text : String) : ReadError :=
  match d.text? with
  | some range => refused ⟨.atomOutOfRange text range, text, none⟩
  | none => unwritable

end ReadError

def present (subject : Subject) (text? : Option String) : Except ReadError String :=
  match text? with
  | some text => .ok text
  | none => .error (.missing subject)

end Crontab
