import Crontab.Dial
import Crontab.Moment

/-! The odometer of a schedule: four dials below a year counter, read as one number. -/
namespace Crontab

inductive Wheel where
  | minute
  | hour
  | day
  | month
  | year
deriving DecidableEq, Repr

structure Odometer where
  year : Counter
  month : Dial
  day : Dial
  hour : Dial
  minute : Dial
deriving DecidableEq

namespace Odometer

def reading (o : Odometer) : List Int :=
  [o.year.value, o.month.value, o.day.value, o.hour.value, o.minute.value]

def turnYear (o : Odometer) : Odometer :=
  { o with year := o.year.advance }

/-- Advances a wheel; if it wraps it carries into the next slower one. -/
def turnMonth (o : Odometer) : Odometer :=
  let o' := { o with month := o.month.advance }
  if o.month.wraps then o'.turnYear else o'

@[inherit_doc turnMonth]
def turnDay (o : Odometer) : Odometer :=
  let o' := { o with day := o.day.advance }
  if o.day.wraps then o'.turnMonth else o'

@[inherit_doc turnMonth]
def turnHour (o : Odometer) : Odometer :=
  let o' := { o with hour := o.hour.advance }
  if o.hour.wraps then o'.turnDay else o'

@[inherit_doc turnMonth]
def turnMinute (o : Odometer) : Odometer :=
  let o' := { o with minute := o.minute.advance }
  if o.minute.wraps then o'.turnHour else o'

def turn : Wheel → Odometer → Odometer
  | .minute => turnMinute
  | .hour => turnHour
  | .day => turnDay
  | .month => turnMonth
  | .year => turnYear

def lowerBelow (o : Odometer) : Wheel → Odometer
  | .minute => o
  | .hour => { o with minute := o.minute.seek 0 }
  | .day => { o with minute := o.minute.seek 0, hour := o.hour.seek 0 }
  | .month => { o with minute := o.minute.seek 0, hour := o.hour.seek 0, day := o.day.seek 0 }
  | .year =>
    { o with
      minute := o.minute.seek 0
      hour := o.hour.seek 0
      day := o.day.seek 0
      month := o.month.seek 0 }

def advance (o : Odometer) (w : Wheel) : Odometer :=
  (o.lowerBelow w).turn w

/-- Seeks the minute of a reference; beyond the last legal one the hour advances. -/
def seekMinute (t : Moment) (o : Odometer) : Odometer :=
  let minute := o.minute.seek t.minute
  let o' := { o with minute }
  if minute.value < t.minute then o'.advance .hour else o'

/-- Seeks the hour of a reference, and its minute only if the hour itself is legal. -/
def seekHour (t : Moment) (o : Odometer) : Odometer :=
  let hour := o.hour.seek t.hour
  let o' := { o with hour }
  if hour.value < t.hour then o'.advance .day
  else if o.hour.passes t.hour then o'.lowerBelow .hour
  else o'.seekMinute t

def seekDay (t : Moment) (o : Odometer) : Odometer :=
  let day := o.day.seek t.date.day
  let o' := { o with day }
  if day.value < t.date.day then o'.advance .month
  else if o.day.passes t.date.day then o'.lowerBelow .day
  else o'.seekHour t

def seekMonth (t : Moment) (o : Odometer) : Odometer :=
  let month := o.month.seek t.date.month
  let o' := { o with month }
  if month.value < t.date.month then o'.advance .year
  else if o.month.passes t.date.month then o'.lowerBelow .month
  else o'.seekDay t

/-- Seeks a reference: the least legal reading from it on, and not before `minYear`. -/
def seek (o : Odometer) (minYear : Int) (t : Moment) : Odometer :=
  if t.date.year < minYear then { o with year := o.year.seek minYear }.lowerBelow .year
  else { o with year := o.year.seek t.date.year }.seekMonth t

end Odometer

end Crontab
