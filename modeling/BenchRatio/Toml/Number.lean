import BenchRatio.Decimal.Numeral
import BenchRatio.Toml.Lexeme
import BenchRatio.Toml.Value

/-!
# Numbers, dates and times in TOML

A value that starts with a digit or a sign is a date or a time if it can be read as one, else a
floating-point number if it has a fraction, an exponent or a word for a number that is not finite,
else an integer.

* `moment?`: a date, a time or both, with the days that the month has.
* `real?`: a floating-point number; one too large is refused.
* `integer?`: an integer of 64 bits, also in base 16, 8 or 2.
-/

namespace BenchRatio.Toml

/-! ## Dates and times -/

/-- A given character. -/
def char? (c : Char) : Reader Unit
  | d :: cs => if d = c then some ((), cs) else none
  | [] => none

/-- The number of days in a month. -/
def daysInMonth (year month : Nat) : Nat :=
  if month = 2 then
    if year % 4 = 0 ∧ (year % 100 ≠ 0 ∨ year % 400 = 0) then 29 else 28
  else if month ∈ [4, 6, 9, 11] then 30
  else 31

/-- A date: year, month and day. -/
def date? (cs : List Char) : Option (List Char) := do
  let (year, cs) ← exactDigits? 4 cs
  let (_, cs) ← char? '-' cs
  let (month, cs) ← exactDigits? 2 cs
  let (_, cs) ← char? '-' cs
  let (day, cs) ← exactDigits? 2 cs
  if 1 ≤ month ∧ month ≤ 12 ∧ 1 ≤ day ∧ day ≤ daysInMonth year month then some cs else none

/-- Hours and minutes. -/
def minutes? (cs : List Char) : Option (List Char) := do
  let (hour, cs) ← exactDigits? 2 cs
  let (_, cs) ← char? ':' cs
  let (minute, cs) ← exactDigits? 2 cs
  if hour ≤ 23 ∧ minute ≤ 59 then some cs else none

/-- A time: hours, minutes, seconds, of which there may be sixty, and perhaps a fraction. -/
def time? (cs : List Char) : Option (List Char) := do
  let cs ← minutes? cs
  let (_, cs) ← char? ':' cs
  let (second, cs) ← exactDigits? 2 cs
  if 60 < second then none
  else
    match cs with
    | '.' :: d :: ds =>
      if d.isDigit then some (ds.dropWhile Char.isDigit) else some ('.' :: d :: ds)
    | cs => some cs

/-- What follows the distance to universal time, if one is there. -/
def skipOffset? : List Char → Option (List Char)
  | 'Z' :: cs | 'z' :: cs => some cs
  | '+' :: cs | '-' :: cs => minutes? cs
  | cs => some cs

/-- What follows a time and its distance to universal time after a date, if they are there. -/
def skipTime? : List Char → Option (List Char)
  | c :: cs =>
    if c = 'T' ∨ c = 't' ∨ c = ' ' then
      match time? cs with
      | some rest => skipOffset? rest
      | none => some (c :: cs)
    else some (c :: cs)
  | [] => some []

/-- A date, a time or both. -/
def moment? (cs : List Char) : Option (Value × List Char) :=
  match date? cs with
  | some rest => (skipTime? rest).map (Value.moment, ·)
  | none => (time? cs).map (Value.moment, ·)

/-! ## Numbers -/

/-- An optional sign. -/
def sign : List Char → List Char × List Char
  | '-' :: cs => (['-'], cs)
  | '+' :: cs => (['+'], cs)
  | cs => ([], cs)

/-- The digits of a decimal integer, which starts with a zero only if it is zero. -/
def wholeDigits? : Reader (List Char)
  | '0' :: cs => some (['0'], cs)
  | cs => digits? Char.isDigit cs

/-- The fraction of a number, with its point. -/
def fraction? : Reader (List Char)
  | '.' :: cs => (digits? Char.isDigit cs).map fun (ds, rest) => ('.' :: ds, rest)
  | _ => none

/-- The exponent of a number, with its letter. -/
def exponent? : Reader (List Char)
  | c :: cs =>
    if c = 'e' ∨ c = 'E' then
      let (s, cs) := sign cs
      (digits? Char.isDigit cs).map fun (ds, rest) => ('e' :: (s ++ ds), rest)
    else none
  | [] => none

/-- A fraction, an exponent or both. -/
def tail? (cs : List Char) : Option (List Char × List Char) :=
  match fraction? cs with
  | none => exponent? cs
  | some (f, rest) =>
    match rest with
    | c :: _ =>
      if c = 'e' ∨ c = 'E' then (exponent? rest).map fun (e, rest) => (f ++ e, rest)
      else some (f, rest)
    | [] => some (f, [])

/-- A word for a number that is not finite. -/
def word? : Reader (List Char)
  | 'i' :: 'n' :: 'f' :: cs => some (['i', 'n', 'f'], cs)
  | 'n' :: 'a' :: 'n' :: cs => some (['n', 'a', 'n'], cs)
  | _ => none

/-- The number that a numeral stands for. -/
def numeral? (cs : List Char) : Option Float := (Numeral.readList cs).toOption

/-- A floating-point number. One that is too large for a finite number is refused, unless it is
negative. -/
def real? (cs : List Char) : Option (Value × List Char) :=
  let (s, body) := sign cs
  match word? body with
  | some (w, rest) => (numeral? (s ++ w)).map fun x => (.real x, rest)
  | none => do
    let (whole, cs) ← wholeDigits? body
    let (more, rest) ← tail? cs
    let x ← numeral? (s ++ whole ++ more)
    if x == Binary64.ofFields false Binary64.infinityBits then none else some (.real x, rest)

/-- An integer that fits 64 bits. -/
def inRange? (n : Int) : Option Value :=
  if -0x8000000000000000 ≤ n ∧ n < 0x8000000000000000 then some (.integer n) else none

/-- An unsigned integer in a base other than ten, after its two-character mark. -/
def based? (base : Nat) (isDigit : Char → Bool) (cs : List Char) : Option (Value × List Char) := do
  let (ds, rest) ← digits? isDigit cs
  let value ← inRange? (Digits.number base ds)
  some (value, rest)

/-- A decimal integer. -/
def decimalInteger? (cs : List Char) : Option (Value × List Char) := do
  let (s, cs) := sign cs
  let (ds, rest) ← wholeDigits? cs
  let n : Int := Digits.number 10 ds
  let value ← inRange? (if s = ['-'] then -n else n)
  some (value, rest)

/-- An integer. -/
def integer? : List Char → Option (Value × List Char)
  | '0' :: 'x' :: cs => based? 16 isHexDigit cs
  | '0' :: 'o' :: cs => based? 8 (fun c => '0' ≤ c ∧ c ≤ '7') cs
  | '0' :: 'b' :: cs => based? 2 (fun c => c = '0' ∨ c = '1') cs
  | cs => decimalInteger? cs

/-- A date, a time or a number. -/
def number? (cs : List Char) : Option (Value × List Char) :=
  (moment? cs).orElse fun _ => (real? cs).orElse fun _ => integer? cs

end BenchRatio.Toml
