/-!
# Hexadecimal digits

* `digitValue?` : the value of a digit of either case;
* `ofBytes` : two digits for every byte;
* `toBytes?` : the bytes that pairs of digits spell;
* `natOf?` : the number that digits spell.
-/

namespace SqlComposer.Text.Hex

/-- The value of a hexadecimal digit. -/
def digitValue? (c : Char) : Option Nat :=
  if '0' ≤ c && c ≤ '9' then some (c.toNat - 48)
  else if 'a' ≤ c && c ≤ 'f' then some (c.toNat - 87)
  else if 'A' ≤ c && c ≤ 'F' then some (c.toNat - 55)
  else none

/-- The digit of a value below sixteen, in lower case. -/
def lowerDigit (n : Nat) : Char :=
  if n < 10 then Char.ofNat (48 + n) else Char.ofNat (87 + n)

/-- The digit of a value below sixteen, in upper case. -/
def upperDigit (n : Nat) : Char :=
  if n < 10 then Char.ofNat (48 + n) else Char.ofNat (55 + n)

/-- Two digits for every byte. -/
def ofBytes (digit : Nat → Char) : List UInt8 → List Char
  | [] => []
  | b :: bs => digit (b.toNat / 16) :: digit (b.toNat % 16) :: ofBytes digit bs

/-- The number spelled by digits, none if one of the characters is no digit. -/
def natOf? (cs : List Char) : Option Nat :=
  cs.foldl (fun n c => n.bind fun n => (digitValue? c).map fun d => 16 * n + d) (some 0)

/-- The number below `limit` spelled by at least one digit, which a plus sign may precede. -/
def below? (limit : Nat) (cs : List Char) : Option Nat :=
  let digits := match cs with
    | '+' :: r => r
    | cs => cs
  if digits.isEmpty then none else (natOf? digits).filter (· < limit)

/-- The bytes spelled by pairs of characters, each a number below 256. -/
def toBytes? : List Char → Option (List UInt8)
  | [] => some []
  | [_] => none
  | a :: b :: r => do
    let byte ← below? 256 [a, b]
    let bytes ← toBytes? r
    some (UInt8.ofNat byte :: bytes)

end SqlComposer.Text.Hex
