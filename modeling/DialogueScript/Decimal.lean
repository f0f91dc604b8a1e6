import DialogueScript.Double

namespace DialogueScript

/-- The number `mantissa * 10 ^ exponent`. -/
structure Decimal where
  mantissa : Nat
  exponent : Int
deriving DecidableEq, Repr

namespace Decimal

/-- The nearest double. An exponent far outside the range is decided without computing its power. -/
def toDouble (negative : Bool) (d : Decimal) : Double :=
  if d.mantissa = 0 then .ofRatio negative 0 1
  else if 0 ≤ d.exponent then
    if 400 < d.exponent then .infinity negative
    else .ofRatio negative (d.mantissa * 10 ^ d.exponent.toNat) 1
  else if d.mantissa.log2 + 401 < (-d.exponent).toNat then .ofRatio negative 0 1
  else .ofRatio negative d.mantissa (10 ^ (-d.exponent).toNat)

def digitsValue (digits : List Char) : Nat :=
  digits.foldl (fun n c => 10 * n + (c.toNat - '0'.toNat)) 0

def takeSign : List Char → Bool × List Char
  | '-' :: rest => (true, rest)
  | '+' :: rest => (false, rest)
  | text => (false, text)

/-- An exponent part, which may be missing but has at least one digit if it is there. -/
def exponent? : List Char → Option Int
  | [] => some 0
  | c :: rest =>
    let (negative, digits) := takeSign rest
    if (c = 'e' ∨ c = 'E') ∧ digits ≠ [] ∧ digits.all Char.isDigit then
      some (if negative then -(digitsValue digits : Int) else digitsValue digits)
    else none

/-- An unsigned decimal: digits with at most one point among them, at least one digit in all, then
an optional exponent part. -/
def parse? (text : List Char) : Option Decimal :=
  let whole := text.takeWhile Char.isDigit
  let afterWhole := text.dropWhile Char.isDigit
  let (fraction, afterFraction) := match afterWhole with
    | '.' :: rest => (rest.takeWhile Char.isDigit, rest.dropWhile Char.isDigit)
    | rest => ([], rest)
  if whole = [] ∧ fraction = [] then none
  else (exponent? afterFraction).map fun e => ⟨digitsValue (whole ++ fraction), e - fraction.length⟩

end Decimal

namespace Double

/-- Reads an optional sign and then a decimal or, in any mix of cases, `inf`, `infinity` or `nan`. -/
def parse? (text : List Char) : Option Double :=
  let (negative, body) := Decimal.takeSign text
  let name := String.ofList (body.map Char.toLower)
  if name = "inf" ∨ name = "infinity" then some (.infinity negative)
  else if name = "nan" then some .nan
  else (Decimal.parse? body).map (Decimal.toDouble negative)

/-- Whether `scaled / 10 ^ 1074` is read as the double of that many units. -/
def readsAs (units scaled : Nat) : Bool := nearestUnits scaled (5 ^ 1074) = units

/-- Of the two neighbours of the value with `digits` significant digits, both scaled by `10 ^ 1074`,
the nearer one that reads back; at equal distance the larger one. -/
def shortened? (units digits : Nat) : Option Nat :=
  let exact := units * 5 ^ 1074
  let step := 10 ^ ((Nat.toDigits 10 exact).length - digits)
  let below := exact / step * step
  let above := below + step
  if readsAs units below && (!readsAs units above || exact - below < above - exact) then some below
  else if readsAs units above then some above
  else none

/-- The value with the fewest significant digits that reads back, scaled by `10 ^ 1074`. Seventeen
digits are always enough. -/
def shortest (units : Nat) : Nat :=
  ((List.range 17).findSome? fun n => shortened? units (n + 1)).getD (units * 5 ^ 1074)

def trimZeros (digits : List Char) : List Char := (digits.reverse.dropWhile (· = '0')).reverse

/-- The digits of `scaled / 10 ^ 1074`, with a point only before a fraction. -/
def positional (scaled : Nat) : List Char :=
  let fraction := scaled % 10 ^ 1074
  let digits := Nat.toDigits 10 fraction
  Nat.toDigits 10 (scaled / 10 ^ 1074) ++
    if fraction = 0 then [] else '.' :: trimZeros (List.replicate (1074 - digits.length) '0' ++ digits)

def print : Double → List Char
  | nan => "NaN".toList
  | infinity negative => if negative then "-inf".toList else "inf".toList
  | finite negative units _ =>
    let digits := positional (shortest units)
    if negative then '-' :: digits else digits

instance : ToString Double := ⟨fun d => String.ofList d.print⟩

end Double

end DialogueScript
