import SqlComposer.Dialect.Kind
import SqlComposer.Number.Decimal

/-!
# Row limits and offsets

* `RowBounds` : how many rows are wanted and how many are left out before them;
* `Kind.bounded` : a statement with its bounds, in each dialect's way.
-/

namespace SqlComposer

/-- How many rows are wanted, and how many are left out before them. -/
structure RowBounds where
  limit : Option Nat
  offset : Option Nat
  deriving DecidableEq

namespace RowBounds

/-- All rows. -/
def unbounded : RowBounds :=
  ⟨none, none⟩

def isUnbounded (b : RowBounds) : Bool :=
  b.limit.isNone && b.offset.isNone

/-- One more than the largest count of rows. -/
def countLimit : Nat :=
  Nat.pow 2 64

end RowBounds

namespace Dialect

/-- A clause that holds a count, nothing without one. -/
def countClause (before after : String) : Option Nat → List Char
  | none => []
  | some n => before.toList ++ Decimal.natText n ++ after.toList

/-- The statement with its bounds. Where an offset needs a limit, the largest one is written. -/
def Kind.bounded (k : Kind) (b : RowBounds) (sql : List Char) : List Char :=
  let noLimit := b.limit.isNone && b.offset.isSome
  match k with
  | generic =>
    sql ++ countClause " OFFSET " " ROWS" b.offset ++ countClause " FETCH FIRST " " ROWS ONLY" b.limit
  | sqlite =>
    sql ++ (if noLimit then " LIMIT -1".toList else countClause " LIMIT " "" b.limit) ++
      countClause " OFFSET " "" b.offset
  | postgres => sql ++ countClause " LIMIT " "" b.limit ++ countClause " OFFSET " "" b.offset
  | mysql =>
    sql ++ countClause " LIMIT " "" (if noLimit then some (RowBounds.countLimit - 1) else b.limit) ++
      countClause " OFFSET " "" b.offset
  | sqlserver =>
    match b.limit, b.offset with
    | some n, none =>
      "SELECT TOP (".toList ++ Decimal.natText n ++ ") * FROM (".toList ++ sql ++ ") t".toList
    | limit, offset =>
      sql ++ countClause " OFFSET " " ROWS" offset ++ countClause " FETCH NEXT " " ROWS ONLY" limit

end Dialect

end SqlComposer
