import CodeIndex.Text.Integer

/-!
# Dates and times

A moment is a date, a time, or both, and only with both an offset. Fractions of a second are kept
to nine digits.

* `Moment.read?` : the moment a text writes;
* `Moment.text` : the moment written out, with the letters `T` and `Z` as capitals.
-/

namespace CodeIndex

/-- A day of the calendar. -/
structure Date where
  year : Nat
  month : Nat
  day : Nat
  deriving Repr, DecidableEq

/-- A time of the day; seconds and their fraction may be left out. -/
structure TimeOfDay where
  hour : Nat
  minute : Nat
  second : Option Nat
  nanosecond : Option Nat
  deriving Repr, DecidableEq

/-- The distance from universal time, in minutes. -/
inductive Offset
  | universal
  | minutes (n : Int)
  deriving Repr, DecidableEq

/-- A date, a time or both. -/
inductive Moment
  | date (d : Date)
  | time (t : TimeOfDay)
  | both (d : Date) (t : TimeOfDay) (offset : Option Offset)
  deriving Repr, DecidableEq

namespace Date

def isLeap (year : Nat) : Bool := year % 4 == 0 && (year % 100 != 0 || year % 400 == 0)

/-- The number of days in a month. -/
def daysIn (year month : Nat) : Nat :=
  if month = 2 then (if isLeap year then 29 else 28)
  else if month = 4 ∨ month = 6 ∨ month = 9 ∨ month = 11 then 30
  else 31

def isValid (d : Date) : Bool :=
  1 ≤ d.month && d.month ≤ 12 && 1 ≤ d.day && d.day ≤ daysIn d.year d.month

end Date

namespace TimeOfDay

/-- Sixty seconds are allowed for leap seconds. -/
def isValid (t : TimeOfDay) : Bool :=
  t.hour ≤ 23 && t.minute ≤ 59 && t.second.getD 0 ≤ 60

end TimeOfDay

namespace Moment

/-! ## Reading -/

/-- The digits in front of a text, as many as `count`, as a number. -/
def digits? (count : Nat) (cs : List Char) : Option (Nat × List Char) :=
  let ds := cs.take count
  if ds.length = count && ds.all Char.isDigit then
    some (ds.foldl (fun n c => n * 10 + (c.toNat - '0'.toNat)) 0, cs.drop count)
  else none

/-- A given character in front of a text. -/
def expect? (c : Char) : List Char → Option (List Char)
  | d :: ds => if c = d then some ds else none
  | [] => none

/-- A date in front of a text. -/
def date? (cs : List Char) : Option (Date × List Char) := do
  let (year, cs) ← digits? 4 cs
  let (month, cs) ← digits? 2 (← expect? '-' cs)
  let (day, cs) ← digits? 2 (← expect? '-' cs)
  let d : Date := ⟨year, month, day⟩
  if d.isValid then some (d, cs) else none

/-- The nanoseconds that the digits after the point stand for. -/
def nanoseconds (ds : List Char) : Nat :=
  ((ds ++ List.replicate 9 '0').take 9).foldl (fun n c => n * 10 + (c.toNat - '0'.toNat)) 0

/-- Seconds and their fraction in front of a text, if they are there. -/
def seconds? (cs : List Char) : Option ((Option Nat × Option Nat) × List Char) :=
  match cs with
  | ':' :: rest => do
    let (second, rest) ← digits? 2 rest
    match rest with
    | '.' :: more =>
      let ds := more.takeWhile Char.isDigit
      if ds.isEmpty then none
      else some ((some second, some (nanoseconds ds)), more.dropWhile Char.isDigit)
    | rest => some ((some second, none), rest)
  | cs => some ((none, none), cs)

/-- A time in front of a text. -/
def time? (cs : List Char) : Option (TimeOfDay × List Char) := do
  let (hour, cs) ← digits? 2 cs
  let (minute, cs) ← digits? 2 (← expect? ':' cs)
  let ((second, nanosecond), cs) ← seconds? cs
  let t : TimeOfDay := ⟨hour, minute, second, nanosecond⟩
  if t.isValid then some (t, cs) else none

/-- An offset, or nothing, as the whole of a text. -/
def offset? : List Char → Option (Option Offset)
  | [] => some none
  | ['Z'] | ['z'] => some (some .universal)
  | sign :: cs => do
    let (hours, cs) ← digits? 2 cs
    let (minutes, cs) ← digits? 2 (← expect? ':' cs)
    if !cs.isEmpty || hours > 23 || minutes > 59 then none
    else
      let total := Int.ofNat (hours * 60 + minutes)
      if sign = '+' then some (some (.minutes total))
      else if sign = '-' then some (some (.minutes (-total)))
      else none

/-- The moment that a text writes. Between date and time stands a `T`, in either case, or a
space. -/
def read? (cs : List Char) : Option Moment :=
  match date? cs with
  | some (d, []) => some (.date d)
  | some (d, c :: rest) =>
    if c = 'T' ∨ c = 't' ∨ c = ' ' then do
      let (t, rest) ← time? rest
      some (.both d t (← offset? rest))
    else none
  | none =>
    match time? cs with
    | some (t, []) => some (.time t)
    | _ => none

/-! ## Writing -/

/-- A number with zeros in front up to `width` digits. -/
def padded (width n : Nat) : List Char :=
  let ds := Nat.toDigits 10 n
  List.replicate (width - ds.length) '0' ++ ds

def dateText (d : Date) : List Char :=
  padded 4 d.year ++ '-' :: padded 2 d.month ++ '-' :: padded 2 d.day

/-- A fraction of a second without the zeros at its end, but with one digit at least. -/
def fractionText (nanosecond : Nat) : List Char :=
  let ds := ((padded 9 nanosecond).reverse.dropWhile (· == '0')).reverse
  if ds.isEmpty then ['0'] else ds

def timeText (t : TimeOfDay) : List Char :=
  padded 2 t.hour ++ ':' :: padded 2 t.minute ++
    (match t.second with
     | some s => ':' :: padded 2 s
     | none => []) ++
    (match t.nanosecond with
     | some n => '.' :: fractionText n
     | none => [])

def offsetText : Offset → List Char
  | .universal => ['Z']
  | .minutes n =>
    (if n < 0 then '-' else '+') :: padded 2 (n.natAbs / 60) ++ ':' :: padded 2 (n.natAbs % 60)

/-- The moment written out. -/
def text : Moment → String
  | .date d => String.ofList (dateText d)
  | .time t => String.ofList (timeText t)
  | .both d t offset =>
    String.ofList (dateText d ++ 'T' :: timeText t ++
      (match offset with
       | some o => offsetText o
       | none => []))

end Moment

end CodeIndex
