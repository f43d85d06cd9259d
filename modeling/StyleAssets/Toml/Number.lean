import StyleAssets.Toml.Lexical

/-!
# Numbers, dates and times of TOML

* `Toml.readDatetime` — dates and times, whose ranges are checked.
* `Toml.readNumber` — integers in four bases and floating point numbers.
-/

namespace StyleAssets.Toml

/-- A number of exactly `n` decimal digits, within bounds. -/
def readDigits (n low high : Nat) : Reader Nat := fun t =>
  let digits := t.take n
  let value := digits.foldl (fun v c => v * 10 + (c.toNat - '0'.toNat)) 0
  if digits.length = n ∧ digits.all Char.isDigit ∧ low ≤ value ∧ value ≤ high then
    some (value, t.drop n)
  else none

def expect (c : Char) : Text → Option Text
  | d :: rest => if c = d then some rest else none
  | [] => none

def isLeapYear (year : Nat) : Bool := year % 4 = 0 ∧ (year % 100 ≠ 0 ∨ year % 400 = 0)

def daysIn (year month : Nat) : Nat :=
  if month = 2 then (if isLeapYear year then 29 else 28)
  else if month ∈ [4, 6, 9, 11] then 30
  else 31

def skipDate (t : Text) : Option Text := do
  let (year, t) ← readDigits 4 0 9999 t
  let (month, t) ← readDigits 2 1 12 (← expect '-' t)
  let (_, t) ← readDigits 2 1 (daysIn year month) (← expect '-' t)
  return t

/-- The text after a fraction of a second, if one is there. -/
def skipFraction (t : Text) : Text :=
  match t with
  | '.' :: c :: rest => if c.isDigit then rest.dropWhile Char.isDigit else t
  | _ => t

def skipTime (t : Text) : Option Text := do
  let (_, t) ← readDigits 2 0 23 t
  let (_, t) ← readDigits 2 0 59 (← expect ':' t)
  let (_, t) ← readDigits 2 0 60 (← expect ':' t)
  return skipFraction t

/-- The text after an offset from universal time. -/
def skipOffset (t : Text) : Option Text :=
  match t with
  | c :: rest =>
    if c = 'Z' ∨ c = 'z' then some rest
    else if c = '+' ∨ c = '-' then do
      let (_, t) ← readDigits 2 0 23 rest
      let (_, t) ← readDigits 2 0 59 (← expect ':' t)
      return t
    else none
  | [] => none

/-- The text after the time that may follow a date. -/
def skipTimeAfterDate (t : Text) : Option Text :=
  match t with
  | c :: rest =>
    if c = 'T' ∨ c = 't' ∨ c = ' ' then (skipTime rest).map fun t => (skipOffset t).getD t
    else none
  | [] => none

/-- A date with or without a time, or a time. -/
def readDatetime : Reader TomlValue := fun t =>
  match skipDate t with
  | some rest => some (.datetime, (skipTimeAfterDate rest).getD rest)
  | none => (skipTime t).map (.datetime, ·)

/-- Further digits; a `_` may stand between two of them. -/
def moreDigits (isDigit : Char → Bool) : Text → Text × Text
  | [] => ([], [])
  | [c] => if isDigit c then ([c], []) else ([], [c])
  | c :: d :: rest =>
    if isDigit c then
      let (digits, after) := moreDigits isDigit (d :: rest)
      (c :: digits, after)
    else if c = '_' ∧ isDigit d then
      let (digits, after) := moreDigits isDigit rest
      (d :: digits, after)
    else ([], c :: d :: rest)

def readDigitRun (isDigit : Char → Bool) : Reader Text
  | c :: rest =>
    if isDigit c then
      let (digits, after) := moreDigits isDigit rest
      some (c :: digits, after)
    else none
  | [] => none

/-- Decimal digits without a leading zero. -/
def readWhole : Reader Text
  | '0' :: rest => some (['0'], rest)
  | t => readDigitRun Char.isDigit t

/-- A sign, if one is there: is it a minus? -/
def readSign : Text → Bool × Text
  | '+' :: rest => (false, rest)
  | '-' :: rest => (true, rest)
  | t => (false, t)

def numeral (base : Nat) (digits : Text) : Nat :=
  digits.foldl (fun n c => n * base + (hexDigit? c).getD 0) 0

/-- Integers fit into 64 bits with a sign. -/
def fits (n : Int) : Bool := -9223372036854775808 ≤ n ∧ n ≤ 9223372036854775807

/-- An integer in another base, after what announces the base. -/
def readBased (base : Nat) : Reader TomlValue := fun t => do
  let isDigit (c : Char) : Bool := ((hexDigit? c).map fun d => decide (d < base)).getD false
  let (digits, rest) ← readDigitRun isDigit t
  let n : Int := numeral base digits
  if fits n then some (.integer n, rest) else none

/-- The floating point number nearest to `m · 10 ^ e`; far beyond their range it is zero or
infinite. -/
def nearestFloat (m : Nat) (e : Int) : Float :=
  let size : Int := (Nat.toDigits 10 m).length + e
  if m = 0 ∨ size < -400 then 0.0
  else if 400 < size then 1.0 / 0.0
  else Float.ofScientific m (e < 0) e.natAbs

/-- The part of a number after its point, if one is there. -/
def readFraction : Reader Text
  | '.' :: rest => readDigitRun Char.isDigit rest
  | t => some ([], t)

def readExponent : Reader (Option Int)
  | c :: rest =>
    if c = 'e' ∨ c = 'E' then do
      let (negative, t) := readSign rest
      let (digits, t) ← readDigitRun Char.isDigit t
      let n : Int := numeral 10 digits
      some (some (if negative then -n else n), t)
    else some (none, c :: rest)
  | [] => some (none, [])

/-- A decimal number after its sign. No finite number may be too large; only one below zero may
turn infinite. -/
def readDecimal (negative : Bool) : Reader TomlValue := fun t => do
  let (whole, t) ← readWhole t
  let (fraction, t') ← readFraction t
  let (exponent, rest) ← readExponent t'
  if fraction.isEmpty ∧ exponent.isNone then
    let n : Int := numeral 10 whole
    let n := if negative then -n else n
    if fits n then some (.integer n, rest) else none
  else
    let x := nearestFloat (numeral 10 (whole ++ fraction)) (exponent.getD 0 - fraction.length)
    if negative then some (.float (-x), rest)
    else if x.isInf then none
    else some (.float x, rest)

/-- A number: an integer in one of four bases, a decimal fraction, an infinity or not a number. -/
def readNumber : Reader TomlValue := fun t =>
  match t with
  | '0' :: 'x' :: rest => readBased 16 rest
  | '0' :: 'o' :: rest => readBased 8 rest
  | '0' :: 'b' :: rest => readBased 2 rest
  | _ =>
    let (negative, unsigned) := readSign t
    match unsigned with
    | 'i' :: 'n' :: 'f' :: rest =>
      some (.float (if negative then -1.0 / 0.0 else 1.0 / 0.0), rest)
    | 'n' :: 'a' :: 'n' :: rest => some (.float (0.0 / 0.0), rest)
    | _ => readDecimal negative unsigned

end StyleAssets.Toml
