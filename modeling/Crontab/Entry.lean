import Crontab.Field
import Crontab.Text.Quoted

/-! Entries: the five fields of a schedule, the text after them, and the line as it was written. -/
namespace Crontab

structure Entry where
  minutes : Field
  hours : Field
  daysOfMonth : Field
  months : Field
  daysOfWeek : Field
  context : String
  expression : String
deriving Repr

namespace Entry

def field (e : Entry) : FieldKind → Field
  | .minute => e.minutes
  | .hour => e.hours
  | .dayOfMonth => e.daysOfMonth
  | .month => e.months
  | .dayOfWeek => e.daysOfWeek

def fields (e : Entry) : List Field :=
  FieldKind.all.map e.field

/-- Entries are the same if their fields and contexts are, however they were written. -/
def same (e f : Entry) : Bool :=
  e.fields = f.fields && e.context = f.context

/-- The explicit form of the entry: canonical fields, single spaces, and the context. -/
def canonicalText (e : Entry) : String :=
  String.intercalate " " (e.fields.map Field.text) ++ " " ++ e.context

def debugText (e : Entry) : String :=
  "CronSpec(" ++ Text.quoted e.expression ++ ")"

end Entry

end Crontab
