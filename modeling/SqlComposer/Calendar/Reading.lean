import SqlComposer.Calendar.Date
import SqlComposer.Number.Decimal
import SqlComposer.Text.Blank

/-!
# Dates and times read from text

* `Layout` : an order of fields and marks; `Layout.read?` : what a text gives for the fields;
* `Date.read?`, `DateTime.read?` : a text in one layout;
* `DateTime.readOffset?` : date, time and offset from universal time in fixed widths;
* `Moment.read?` : a moment named by a word, by seconds since 1970, or in one of the known layouts.
-/

namespace SqlComposer

/-- A part of a layout. -/
inductive Field
  /-- Four digits, or a sign and any number of digits. -/
  | year
  | month
  | day
  | hour
  | minute
  | second
  /-- A point and a fraction of the second, or nothing. -/
  | fraction
  /-- Any white space, or none. -/
  | space
  /-- This character. -/
  | mark (c : Char)

/-- The fields of a text in their order. -/
abbrev Layout := List Field

/-- What has been read so far; a field that has not been read counts as zero. -/
structure Readings where
  year : Int
  month : Nat
  day : Nat
  hour : Nat
  minute : Nat
  second : Nat
  nanosecond : Nat

namespace Readings

def empty : Readings :=
  ⟨0, 0, 0, 0, 0, 0, 0⟩

def date? (r : Readings) : Option Date :=
  Date.of? r.year r.month r.day

/-- Second 60 is the leap second after second 59. -/
def time? (r : Readings) : Option Time :=
  if r.second = 60 then Time.of? r.hour r.minute 59 (1000000000 + r.nanosecond)
  else Time.of? r.hour r.minute r.second r.nanosecond

def dateTime? (r : Readings) : Option DateTime := do
  let date ← r.date?
  let time ← r.time?
  some ⟨date, time⟩

end Readings

/-! ## Numbers -/

/-- A number of one to `width` digits, and the text behind it. -/
def readUpTo? (width : Nat) (cs : List Char) : Option (Nat × List Char) :=
  let digits := (cs.take width).takeWhile Char.isDigit
  if digits.isEmpty then none else some (Decimal.natOf digits, cs.drop digits.length)

/-- A number of exactly `width` digits, and the text behind it. -/
def readExactly? (width : Nat) (cs : List Char) : Option (Nat × List Char) :=
  let digits := cs.take width
  if digits.length = width && Decimal.isDigits digits then
    some (Decimal.natOf digits, cs.drop width)
  else none

/-- A number of any positive number of digits, and the text behind it. -/
def readAll? (cs : List Char) : Option (Nat × List Char) :=
  let digits := cs.takeWhile Char.isDigit
  if digits.isEmpty then none else some (Decimal.natOf digits, cs.dropWhile Char.isDigit)

/-- A year, and the text behind it. -/
def readYear? : List Char → Option (Int × List Char)
  | '-' :: cs => (readAll? cs).map fun r => (-(r.1 : Int), r.2)
  | '+' :: cs => (readAll? cs).map fun r => ((r.1 : Int), r.2)
  | cs => (readUpTo? 4 cs).map fun r => ((r.1 : Int), r.2)

/-- Nanoseconds from the digits after the point, of which the first nine count. -/
def nanoseconds (digits : List Char) : Nat :=
  let kept := digits.take 9
  Decimal.natOf kept * Nat.pow 10 (9 - kept.length)

/-- A point and digits as nanoseconds, zero without a point, and the text behind them. -/
def readFraction? : List Char → Option (Nat × List Char)
  | '.' :: cs =>
    let digits := cs.takeWhile Char.isDigit
    if digits.isEmpty then none else some (nanoseconds digits, cs.dropWhile Char.isDigit)
  | cs => some (0, cs)

/-! ## Layouts -/

namespace Layout

/-- Reads a number of up to two digits behind any white space. -/
def readPair? (cs : List Char) (set : Nat → Readings) : Option (Readings × List Char) :=
  (readUpTo? 2 (Text.dropBlank cs)).map fun r => (set r.1, r.2)

/-- Reads one field into `r`. -/
def readField? (f : Field) (r : Readings) (cs : List Char) : Option (Readings × List Char) :=
  match f with
  | .year => (readYear? (Text.dropBlank cs)).map fun p => ({ r with year := p.1 }, p.2)
  | .month => readPair? cs fun n => { r with month := n }
  | .day => readPair? cs fun n => { r with day := n }
  | .hour => readPair? cs fun n => { r with hour := n }
  | .minute => readPair? cs fun n => { r with minute := n }
  | .second => readPair? cs fun n => { r with second := n }
  | .fraction => (readFraction? cs).map fun p => ({ r with nanosecond := p.1 }, p.2)
  | .space => some (r, Text.dropBlank cs)
  | .mark c => match cs with
    | [] => none
    | d :: cs => if d = c then some (r, cs) else none

/-- Reads the fields in order; nothing may follow the last. -/
def readFrom? (r : Readings) : Layout → List Char → Option Readings
  | [], cs => if cs.isEmpty then some r else none
  | f :: fs, cs => do
    let (r, cs) ← readField? f r cs
    readFrom? r fs cs

/-- What the text gives for the fields of the layout. -/
def read? (layout : Layout) (text : List Char) : Option Readings :=
  readFrom? .empty layout text

/-- Year, month and day joined by hyphens. -/
def isoDate : Layout :=
  [.year, .mark '-', .month, .mark '-', .day]

/-- Year, month and day joined by slashes. -/
def slashDate : Layout :=
  [.year, .mark '/', .month, .mark '/', .day]

/-- Day, month and year joined by points. -/
def pointDate : Layout :=
  [.day, .mark '.', .month, .mark '.', .year]

def clockMinutes : Layout :=
  [.hour, .mark ':', .minute]

def clockSeconds : Layout :=
  [.hour, .mark ':', .minute, .mark ':', .second]

def clockFraction : Layout :=
  clockSeconds ++ [.fraction]

/-- Date and time to the second, joined by a space or a `T`. -/
def isoDateTimes : List Layout :=
  [isoDate ++ .space :: clockFraction, isoDate ++ .mark 'T' :: clockFraction]

/-- All layouts of a date with a time. -/
def dateTimes : List Layout :=
  isoDateTimes ++
    [isoDate ++ .space :: clockMinutes, isoDate ++ .mark 'T' :: clockMinutes,
      slashDate ++ .space :: clockSeconds, pointDate ++ .space :: clockSeconds]

/-- All layouts of a date. -/
def dates : List Layout :=
  [isoDate, slashDate, pointDate]

end Layout

/-- The date that a text gives in a layout. -/
def Date.read? (layout : Layout) (text : List Char) : Option Date :=
  (layout.read? text).bind Readings.date?

/-- The date and time that a text gives in a layout. -/
def DateTime.read? (layout : Layout) (text : List Char) : Option DateTime :=
  (layout.read? text).bind Readings.dateTime?

/-! ## Offsets -/

/-- The text behind one of the marks. -/
def readMark? (isMark : Char → Bool) : List Char → Option (List Char)
  | [] => none
  | c :: cs => if isMark c then some cs else none

/-- An offset from universal time in seconds: `Z`, or a sign, hours and minutes. The minus sign may be
the typographic one. -/
def readOffset? : List Char → Option (Int × List Char)
  | [] => none
  | c :: cs =>
    if c = 'Z' || c = 'z' then some (0, cs)
    else if c = '+' || c = '-' || c = '\u2212' then do
      let (hours, cs) ← readExactly? 2 cs
      let cs ← readMark? (· == ':') cs
      let (minutes, cs) ← readExactly? 2 cs
      if hours < 24 && minutes < 60 then
        let seconds : Int := hours * 3600 + minutes * 60
        some (if c = '+' then seconds else -seconds, cs)
      else none
    else none

/-- A date, a time and an offset in fixed widths, as a moment of universal time. -/
def DateTime.readOffset? (text : List Char) : Option DateTime := do
  let (year, cs) ← readExactly? 4 text
  let cs ← readMark? (· == '-') cs
  let (month, cs) ← readExactly? 2 cs
  let cs ← readMark? (· == '-') cs
  let (day, cs) ← readExactly? 2 cs
  let cs ← readMark? (fun c => c == 'T' || c == 't' || c == ' ') cs
  let (hour, cs) ← readExactly? 2 cs
  let cs ← readMark? (· == ':') cs
  let (minute, cs) ← readExactly? 2 cs
  let cs ← readMark? (· == ':') cs
  let (second, cs) ← readExactly? 2 cs
  let (nanosecond, cs) ← readFraction? cs
  let (offset, cs) ← SqlComposer.readOffset? cs
  if cs.isEmpty then
    let t ← Readings.dateTime? ⟨year, month, day, hour, minute, second, nanosecond⟩
    t.later? (-offset)
  else none

/-! ## Moments -/

namespace Moment

/-- A moment relative to `now`. -/
inductive Word
  | now
  | today
  | yesterday
  | tomorrow

/-- The word that a text is, in any case. -/
def Word.read? (text : List Char) : Option Word :=
  match String.ofList (text.map Char.toLower) with
  | "now" => some .now
  | "today" => some .today
  | "yesterday" => some .yesterday
  | "tomorrow" => some .tomorrow
  | _ => none

/-- The moment that a word names. The days start at midnight. -/
def Word.moment? (now : DateTime) : Word → Option DateTime
  | .now => some now
  | .today => some (.ofDate now.date)
  | .yesterday => now.date.pred?.map .ofDate
  | .tomorrow => now.date.succ?.map .ofDate

/-- The moment in one of the known layouts. -/
def inLayouts? (text : List Char) : Option DateTime :=
  (Layout.dateTimes.findSome? fun l => DateTime.read? l text) <|>
    (Layout.dates.findSome? fun l => Date.read? l text).map .ofDate

/-- The moment that a text names: a word, seconds since 1970, a date and time with offset, or a date
with or without time. The first form that a text has decides. -/
def read? (now : DateTime) (text : List Char) : Option DateTime :=
  let text := Text.strip text
  match Word.read? text with
  | some word => word.moment? now
  | none =>
    match Decimal.signed? (Nat.pow 2 63) text with
    | some seconds => DateTime.ofUnix? seconds
    | none => DateTime.readOffset? text <|> inLayouts? text

end Moment

end SqlComposer
