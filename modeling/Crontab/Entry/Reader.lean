import Crontab.Entry
import Crontab.Field.Reader

/-! Reading an entry: five fields between spaces and tabs, then free text. -/
namespace Crontab.Entry

/-- The words before the first `n` runs of separators, and the text after the last of those. -/
def words : Nat → List Char → List (List Char)
  | 0, s => [s]
  | n + 1, s =>
    let word := s.takeWhile fun c => !Text.isSeparator c
    match s.dropWhile fun c => !Text.isSeparator c with
    | [] => [word]
    | rest => word :: words n (rest.dropWhile Text.isSeparator)

def parts (line : List Char) : List (List Char) :=
  match Text.trim Text.isSeparator line with
  | [] => []
  | s => words 5 s

/-- A field of the line `line`; a fault in it is blamed on that field. -/
def readField (line : String) (kind : FieldKind) (part : List Char) : Except ReadError Field :=
  match Field.read kind.domain (.ofList part) with
  | .ok f => .ok f
  | .error (.refused r) => .error (.refused (r.inField kind line))
  | .error e => .error e

def read (line : String) : Except ReadError Entry :=
  match parts line.toList with
  | minute :: hour :: day :: month :: weekday :: rest => do
    let minutes ← readField line .minute minute
    let hours ← readField line .hour hour
    let daysOfMonth ← readField line .dayOfMonth day
    let months ← readField line .month month
    let daysOfWeek ← readField line .dayOfWeek weekday
    let context := String.ofList (Text.trimEnd Text.isBlank rest.flatten)
    return ⟨minutes, hours, daysOfMonth, months, daysOfWeek, context, Text.strip line⟩
  | tooFew => .error (.refused ⟨.tooFewFields tooFew.length, line, none⟩)

def faults (line : String) : Except ReadError (List String) :=
  match read line with
  | .ok _ => .ok []
  | .error (.refused r) => .ok [r.message]
  | .error e => .error e

def isValid (line : String) : Except ReadError Bool :=
  match read line with
  | .ok _ => .ok true
  | .error (.refused _) => .ok false
  | .error e => .error e

end Crontab.Entry
