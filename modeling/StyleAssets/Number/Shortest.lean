import StyleAssets.Text.Basic

/-!
# Shortest decimals

The decimal with the fewest digits among those that round to a given floating point number, and of
several with that many digits the nearest, the upper one of two that are equally near.

* `Shortest.decimal?` — digits and exponent of a finite number.
* `Shortest.text` — a number written without an exponent and with a point.
-/

namespace StyleAssets.Shortest

structure Decimal where
  digits : Nat
  exponent : Int
  deriving DecidableEq, Repr

/-- A finite number `mantissa · 2 ^ exponent` and whether the gap below it is half the gap above. -/
structure Binary where
  mantissa : Nat
  exponent : Int
  narrowBelow : Bool
  deriving DecidableEq, Repr

/-- The parts of a finite floating point number, its sign aside. -/
def binary (bits : UInt64) : Binary :=
  let fraction : Nat := bits.toNat % Nat.pow 2 52
  let biased : Nat := bits.toNat / Nat.pow 2 52 % Nat.pow 2 11
  if biased = 0 then ⟨fraction, -1074, false⟩
  else ⟨Nat.pow 2 52 + fraction, (biased : Int) - 1075, fraction = 0 ∧ 1 < biased⟩

/-- Everything is counted in units of `10 ^ -1076`, small enough to make whole numbers of all that
is compared. -/
def places : Nat := 1076

/-- `m · 2 ^ e` in units, for `e` from -1076 on. -/
def scaled (m : Nat) (e : Int) : Nat := m * Nat.pow 2 (e + places).toNat * Nat.pow 5 places

/-- The decimal with `n` digits that rounds to the number, if there is one. -/
def withDigits? (b : Binary) (n : Nat) : Option Decimal :=
  let value := scaled b.mantissa b.exponent
  let high := scaled (2 * b.mantissa + 1) (b.exponent - 1)
  let low :=
    if b.narrowBelow then scaled (4 * b.mantissa - 1) (b.exponent - 2)
    else scaled (2 * b.mantissa - 1) (b.exponent - 1)
  let rounds (x : Nat) : Bool :=
    if b.mantissa % 2 = 0 then low ≤ x ∧ x ≤ high else low < x ∧ x < high
  let exponent : Int := (Nat.toDigits 10 value).length - places - n
  let step := Nat.pow 10 (exponent + places).toNat
  let below := value / step
  let candidates := [below, below + 1].filter fun digits => rounds (digits * step)
  let decimal (digits : Nat) : Decimal :=
    if digits = Nat.pow 10 n then ⟨1, exponent + n⟩ else ⟨digits, exponent⟩
  match candidates with
  | [] => none
  | [digits] => some (decimal digits)
  | digits :: _ =>
    if value - digits * step < (digits + 1) * step - value then some (decimal digits)
    else some (decimal (digits + 1))

def decimal? (b : Binary) : Option Decimal :=
  (List.range' 1 17).findSome? (withDigits? b)

/-- A decimal without an exponent; whole numbers get a point and a zero. -/
def Decimal.positional (d : Decimal) : Text :=
  let digits := Nat.toDigits 10 d.digits
  if 0 ≤ d.exponent then digits ++ List.replicate d.exponent.toNat '0' ++ ['.', '0']
  else
    let places := d.exponent.natAbs
    let padded := List.replicate (places + 1 - digits.length) '0' ++ digits
    padded.take (padded.length - places) ++ '.' :: padded.drop (padded.length - places)

/-- A floating point number by its shortest decimal. -/
def text (x : Float) : Text :=
  let negative := x.toBits.toNat / Nat.pow 2 63 % 2 = 1
  let sign : Text := if negative then ['-'] else []
  if x.isNaN then ['N', 'a', 'N']
  else if x.isInf then sign ++ ['i', 'n', 'f']
  else
    let b := binary x.toBits
    if b.mantissa = 0 then sign ++ ['0', '.', '0']
    else sign ++ ((decimal? b).map Decimal.positional).getD []

end StyleAssets.Shortest
