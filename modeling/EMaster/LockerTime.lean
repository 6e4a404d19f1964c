import EMaster.Text

/-!
# Dates of the locker application

The date parser accepts epoch seconds, a date, and a date with a time and an
optional zone. Calendar conversion belongs to the platform and is supplied by
the clock. `os.time` raises an error for a date that the platform cannot represent;
a call that ends in that error is left out, so the conversion is total.
-/

set_option autoImplicit false

namespace EMaster.LockerTime
open Text

structure DateFields where
  (year month day hour min sec : ℕ)
  deriving DecidableEq, Repr

structure Clock where
  now : ℤ
  osTime : DateFields → ℤ
  utcFields : ℤ → DateFields
  (dateText stampText : ℤ → Text)
  hourMinute : ℤ → ℕ × ℕ

def secondsPerDay : ℤ := 86400

variable (clock : Clock)

def date (time : ℤ) : Text := clock.dateText time

def stamp (time : ℤ) : Text := clock.stampText time

def localUtcOffset : ℤ := clock.now-clock.osTime (clock.utcFields clock.now)

def allDigits (text : Text) : Bool := !text.isEmpty && text.all Char.isDigit

def integerText : Text → Option ℤ
  | '-'::digits => if allDigits digits then some (-(digitsValue digits : ℤ)) else none
  | digits => if allDigits digits then some (digitsValue digits : ℤ) else none

/-- A literal outside the 64-bit range is read as a float; only those that
round to the smallest integer come back as one. -/
def toInteger (n : ℤ) : Option ℤ :=
  if -2^63 ≤ n ∧ n < 2^63 then some n
  else if -2^63-1024 ≤ n ∧ n < 0 then some (-2^63)
  else none

def datePart : Text → Option (ℕ × ℕ × ℕ × Text)
  | y1::y2::y3::y4:: '-'::m1::m2:: '-'::d1::d2::rest =>
    if allDigits [y1,y2,y3,y4,m1,m2,d1,d2] then
      some (digitsValue [y1,y2,y3,y4],digitsValue [m1,m2],digitsValue [d1,d2],rest)
    else none
  | _ => none

def secondsPart : Text → ℕ
  | ':'::rest => digitsValue (rest.takeWhile Char.isDigit)
  | rest => digitsValue (rest.takeWhile Char.isDigit)

def timePart : Text → Option (ℕ × ℕ × ℕ)
  | mark::h1::h2:: ':'::m1::m2::rest =>
    if (mark = 'T' || mark = ' ') && allDigits [h1,h2,m1,m2] then
      some (digitsValue [h1,h2],digitsValue [m1,m2],secondsPart rest)
    else none
  | _ => none

def signedZone (sign h1 h2 m1 m2 : Char) : Option ℤ :=
  if allDigits [h1,h2,m1,m2] then
    let seconds : ℤ := digitsValue [h1,h2]*3600+digitsValue [m1,m2]*60
    if sign = '+' then some seconds else if sign = '-' then some (-seconds) else none
  else none

def zonePart : Text → Option ℤ
  | 'Z'::_ => some 0
  | 'z'::_ => some 0
  | m2::m1:: ':'::h2::h1::sign::_ => signedZone sign h1 h2 m1 m2
  | m2::m1::h2::h1::sign::_ => signedZone sign h1 h2 m1 m2
  | _ => none

def zoned (text : Text) (epoch : ℤ) : ℤ :=
  match zonePart text.reverse with
  | none => epoch
  | some offset => epoch+localUtcOffset clock-offset

/-- Epoch seconds, and whether the text carried no time of day. -/
def parse (value : Text) : Option (ℤ × Bool) :=
  let text := trim value
  match integerText text with
  | some n => (toInteger n).map (fun epoch => (epoch,false))
  | none =>
    match datePart text with
    | none => none
    | some (year,month,day,rest) =>
      match timePart rest with
      | none => some (clock.osTime ⟨year,month,day,0,0,0⟩,true)
      | some (hour,min,sec) =>
        some (zoned clock text (clock.osTime ⟨year,month,day,hour,min,sec⟩),false)

def expiryEpoch (value : Text) (endOfDay : Bool) : Option ℤ :=
  (parse clock value).map (fun parsed =>
    if parsed.2 && endOfDay then parsed.1+secondsPerDay-1 else parsed.1)

/-- No date is never expired; a date nobody can read is. -/
def isExpired (value : Option Text) (endOfDay : Bool) : Bool :=
  match value with
  | none => false
  | some text =>
    if text = [] then false
    else match expiryEpoch clock text endOfDay with
      | none => true
      | some epoch => decide (epoch < clock.now)

def cabinetClock : Clock where
  now := 0
  osTime := fun _ => 0
  utcFields := fun _ => ⟨1970,1,1,0,0,0⟩
  dateText := fun _ => "1970-01-01"
  stampText := fun _ => "1970-01-01 00:00:00"
  hourMinute := fun _ => (0,0)

end EMaster.LockerTime
