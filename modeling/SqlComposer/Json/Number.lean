import SqlComposer.Json.Basic

/-!
# Numbers in JSON text

A number that is no 64-bit integer is read as a whole significand of up to 64 bits, scaled by a power of
ten. Digits for which the significand has no room are dropped. The significand is rounded once, and the
scaling once more, so the result may differ from the nearest number in its last bit.

* `Number.ofInteger?` : a number of digits alone;
* `Number.ofDecimal?` : a number with decimal places or an exponent, none if it is out of range.
-/

namespace SqlComposer.Json.Number

/-- The value of a decimal digit. -/
def digitValue (c : Char) : Nat :=
  c.toNat - 48

/-- The significand with as many of the digits as 64 bits hold, and how many those are. -/
def absorb (significand : Nat) : List Char → Nat × Nat
  | [] => (significand, 0)
  | c :: cs =>
    let longer := 10 * significand + digitValue c
    if longer < Nat.pow 2 64 then
      let r := absorb longer cs
      (r.1, r.2 + 1)
    else (significand, 0)

/-- The number nearest to a power of ten. -/
def power (k : Nat) : Binary64 :=
  .nearest false (Nat.pow 10 k) 1

/-- The largest power of ten in the double precision range. -/
def maxPower : Nat :=
  308

/-- The number divided by `10 ^ k`, in steps of the largest power of ten. -/
def scaleDown (negative : Bool) (x : Binary64) (k : Nat) : Binary64 :=
  if k ≤ maxPower then .quotient negative x (power k)
  else if x.isZero then .zero negative
  else scaleDown negative (.quotient false x (power maxPower)) (k - maxPower)
  termination_by k
  decreasing_by simp only [maxPower] at *; omega

/-- The significand times `10 ^ e`, none beyond the largest number. -/
def scale? (negative : Bool) (significand : Nat) (e : Int) : Option Binary64 :=
  let x := Binary64.nearest false significand 1
  if e < 0 then some (scaleDown negative x e.natAbs)
  else if significand = 0 then some (.zero negative)
  else if maxPower < e.toNat then none
  else some (Binary64.product negative x (power e.toNat)) |>.filter Binary64.isFinite

/-- A number of digits with decimal places and an exponent, none if it is out of range. -/
def ofDecimal? (negative : Bool) (whole places : List Char) (e : Int) : Option Binary64 :=
  let a := absorb 0 whole
  let b := absorb a.1 places
  scale? negative b.1 ((whole.length : Int) - a.2 - b.2 + e)

/-- A number of digits alone: an integer if 64 bits hold it. Minus zero is no integer. -/
def ofInteger? (negative : Bool) (digits : List Char) : Option Json :=
  let n := digits.foldl (fun n c => 10 * n + digitValue c) 0
  if !negative && n < Nat.pow 2 63 then some (.int n)
  else if negative && n ≠ 0 && n ≤ Nat.pow 2 63 then some (.int (-(n : Int)))
  else (ofDecimal? negative digits [] 0).map .float

end SqlComposer.Json.Number
