import SqlComposer.Number.Binary64
import SqlComposer.Text.Blank
import SqlComposer.Text.Hex

/-!
# Decimal text

* `natText`, `intText` : whole numbers;
* `plainText?` : a finite number to ten decimal places, without exponent and without trailing zeros;
* `wholeText` : the whole part of a finite number, by the fewest digits that read back;
* `integerText?` : the texts taken for integers, with the text that is printed for them;
* `readDecimal?` : decimal notation; `numericText?` : the texts taken for numbers;
* `unsigned?`, `signed?` : bounded whole numbers.
-/

namespace SqlComposer.Decimal

/-- The decimal digits of a number. -/
def natText (n : Nat) : List Char :=
  Nat.toDigits 10 n

/-- The decimal digits of a number, after a minus sign if it is negative. -/
def intText : Int → List Char
  | .ofNat n => natText n
  | .negSucc n => '-' :: natText (n + 1)

/-- The digits of a number, filled with zeros on the left up to `width`. -/
def padded (width n : Nat) : List Char :=
  List.replicate (width - (natText n).length) '0' ++ natText n

/-- The number that decimal digits spell. -/
def natOf (digits : List Char) : Nat :=
  digits.foldl (fun n c => 10 * n + (c.toNat - 48)) 0

/-- Not empty, and nothing but ASCII digits. -/
def isDigits (cs : List Char) : Bool :=
  !cs.isEmpty && cs.all Char.isDigit

/-! ## Floating point numbers -/

/-- The text without the zeros at its end. -/
def dropZeros (cs : List Char) : List Char :=
  (cs.reverse.dropWhile (· == '0')).reverse

/-- A finite number rounded to ten decimal places, without zeros at the end and without the sign of
zero. -/
def plainText? (x : Binary64) : Option (List Char) :=
  if x.isFinite then
    let units := Binary64.roundHalfEven (x.numerator * Nat.pow 10 10) x.denominator
    let places := dropZeros (padded 10 (units % Nat.pow 10 10))
    let magnitude := natText (units / Nat.pow 10 10) ++ (if places.isEmpty then [] else '.' :: places)
    some (if x.isNegative && units != 0 then '-' :: magnitude else magnitude)
  else
    none

/-- The name of a number that is not finite. -/
def specialText (x : Binary64) : List Char :=
  if x.isNaN then ['N', 'a', 'N']
  else if x.isNegative then ['-', 'i', 'n', 'f'] else ['i', 'n', 'f']

/-- Whether the whole number `n` reads back as `x`, a finite number of at least `2 ^ 53`: it lies
between the midpoints to the neighbours, which count when the significand is even. -/
def readsBack (x : Binary64) (n : Nat) : Bool :=
  let gap := Nat.pow 2 (x.scaleField - 1075)
  let low := 4 * x.numerator - (if x.fractionField = 0 then gap else 2 * gap)
  let high := 4 * x.numerator + 2 * gap
  if x.significand % 2 = 0 then low ≤ 4 * n && 4 * n ≤ high else low < 4 * n && 4 * n < high

/-- The whole number with the fewest leading digits that reads back as `x`, nearest to `x` of those,
a tie going up. The digits left to try are counted down, so that the last try is `x` itself. -/
def shortest (x : Binary64) : Nat → Nat
  | 0 => x.numerator
  | spare + 1 =>
    let unit := Nat.pow 10 (spare + 1)
    let below := x.numerator / unit * unit
    let above := below + unit
    if readsBack x below && (!readsBack x above || x.numerator - below < above - x.numerator) then below
    else if readsBack x above then above
    else shortest x spare

/-- The whole part of a finite number. From `2 ^ 53` on only as many leading digits are written as
are needed to read the number back; zeros stand for the others. -/
def wholeText (x : Binary64) : List Char :=
  let whole := x.wholePart
  let shown := if whole < Nat.pow 2 53 then whole else shortest x ((natText whole).length - 1)
  if x.isNegative then '-' :: natText shown else natText shown

/-! ## Reading -/

/-- The text without a leading plus sign. -/
def dropPlus : List Char → List Char
  | '+' :: cs => cs
  | cs => cs

/-- A number below `limit`: digits, which a plus sign may precede. -/
def unsigned? (limit : Nat) (cs : List Char) : Option Nat :=
  let digits := dropPlus cs
  if isDigits digits then some (natOf digits) |>.filter (· < limit) else none

/-- A number of `-limit` or more and below `limit`: digits, which a sign may precede. -/
def signed? (limit : Nat) : List Char → Option Int
  | '-' :: digits =>
    if isDigits digits && natOf digits ≤ limit then some (-(natOf digits : Int)) else none
  | cs => (unsigned? limit cs).map Int.ofNat

/-- The sign that is kept and the text behind it: a plus sign is dropped. -/
def splitSign : List Char → List Char × List Char
  | '-' :: cs => (['-'], cs)
  | cs => ([], dropPlus cs)

/-- Digits, optionally followed by `e` or `E` and digits. -/
def isScaled (cs : List Char) : Bool :=
  let mantissa := cs.takeWhile fun c => c != 'e' && c != 'E'
  match cs.dropWhile fun c => c != 'e' && c != 'E' with
  | [] => isDigits mantissa
  | _ :: exponent => isDigits mantissa && isDigits exponent

/-- Integer text as it is written into a statement: decimal digits with an optional exponent stay as
they are, hexadecimal digits below `2 ^ 128` become decimal. -/
def integerText? (text : List Char) : Option (List Char) :=
  let (sign, digits) := splitSign (Text.strip text)
  match digits with
  | '0' :: 'x' :: hex => (Text.Hex.below? (Nat.pow 2 128) hex).map fun n => sign ++ natText n
  | '0' :: 'X' :: hex => (Text.Hex.below? (Nat.pow 2 128) hex).map fun n => sign ++ natText n
  | digits => if isScaled digits then some (sign ++ digits) else none

/-- A number in decimal notation: `(-1) ^ negative · digits · 10 ^ exponent`. -/
structure Numeral where
  negative : Bool
  digits : Nat
  exponent : Int

/-- The double precision number nearest to a number in decimal notation. -/
def Numeral.toBinary64 (d : Numeral) : Binary64 :=
  .ofDecimal d.negative d.digits d.exponent

/-- The exponent behind a mantissa: nothing, or `e` or `E`, an optional sign and digits. -/
def readExponent? : List Char → Option Int
  | [] => some 0
  | c :: cs =>
    if c = 'e' || c = 'E' then
      match cs with
      | '-' :: digits => if isDigits digits then some (-(natOf digits : Int)) else none
      | cs => if isDigits (dropPlus cs) then some (natOf (dropPlus cs)) else none
    else none

/-- The digits after a decimal point, and the text behind them. -/
def splitPlaces : List Char → List Char × List Char
  | '.' :: cs => (cs.takeWhile Char.isDigit, cs.dropWhile Char.isDigit)
  | cs => ([], cs)

/-- Decimal notation: an optional sign, digits with an optional point before, among or after them, and
an optional exponent. -/
def readDecimal? (text : List Char) : Option Numeral :=
  let (negative, cs) := match text with
    | '-' :: cs => (true, cs)
    | cs => (false, dropPlus cs)
  let whole := cs.takeWhile Char.isDigit
  let (places, rest) := splitPlaces (cs.dropWhile Char.isDigit)
  if whole.isEmpty && places.isEmpty then none
  else (readExponent? rest).map fun e => ⟨negative, natOf (whole ++ places), e - places.length⟩

/-- Text taken for a number, without the white space around it: decimal notation of a number within
the double precision range. -/
def numericText? (text : List Char) : Option (List Char) :=
  let text := Text.strip text
  if (readDecimal? text).any fun d => d.toBinary64.isFinite then some text else none

end SqlComposer.Decimal
