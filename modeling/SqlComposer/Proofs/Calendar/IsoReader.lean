import Mathlib.Data.List.TakeWhile
import SqlComposer.Calendar.Iso
import SqlComposer.Calendar.Reading
import SqlComposer.Proofs.Text.Blank

/-!
# Printed dates and times read back

* `Decimal.natOf_padded`, `length_padded`, `isDigit_of_mem_padded` : digits filled up with zeros;
* `readUpTo?_padded`, `readAll?_padded`, `readYear?_yearText` : numbers at the front of a text;
* `Layout.readFrom?_iso` : a printed date at the front of a text;
* `Date.read?_iso` : a printed date is read back;
* `Time.IsFraction`, `DateTime.read?_space` : so is a printed moment, whatever places of its second are shown, and the
  second of a leap second included;
* `DateTime.isoNanoseconds`, `DateTime.findSome?_isoNanoseconds` : the same with all nine places and either mark.
-/

namespace SqlComposer

open Decimal (natText padded natOf)

/-! ## Digits -/

namespace Decimal

theorem natOf_eq (digits : List Char) : natOf digits = Nat.ofDigitChars 10 digits 0 := rfl

theorem natOf_padded (width n : Nat) : natOf (padded width n) = n := by
  rw [natOf_eq, padded, Nat.ofDigitChars_append, Nat.ofDigitChars_replicate_zero, Nat.mul_zero, natText,
    Nat.ofDigitChars_ten_toDigits]

theorem isDigit_of_mem_padded {width n : Nat} {c : Char} (h : c ∈ padded width n) : c.isDigit = true := by
  rcases List.mem_append.1 h with h | h
  · rw [List.eq_of_mem_replicate h]
    rfl
  · exact Nat.isDigit_of_mem_toDigits (by decide) (by decide) h

theorem length_padded {width n : Nat} (hw : 0 < width) (hn : n < Nat.pow 10 width) : (padded width n).length = width := by
  have hlength : (natText n).length ≤ width := (Nat.length_toDigits_le_iff (by decide) hw).2 hn
  rw [padded, List.length_append, List.length_replicate]
  omega

theorem padded_ne_nil (width n : Nat) : padded width n ≠ [] :=
  List.append_ne_nil_of_right_ne_nil _ Nat.toDigits_ne_nil

end Decimal

open Decimal (natOf_padded isDigit_of_mem_padded length_padded padded_ne_nil)

theorem isBlank_of_isDigit {c : Char} (h : c.isDigit = true) : Text.isBlank c = false := by
  have hrange : 48 ≤ c.toNat ∧ c.toNat ≤ 57 := by
    simpa [Char.isDigit, UInt32.le_iff_toNat_le] using h
  simp only [Text.isBlank, Bool.or_eq_false_iff, Bool.and_eq_false_iff, decide_eq_false_iff_not, beq_eq_false_iff_ne]
  omega

theorem head?_padded (width n : Nat) (rest : List Char) :
    ∃ c, (padded width n ++ rest).head? = some c ∧ c.isDigit = true := by
  cases h : padded width n with
  | nil => exact absurd h (padded_ne_nil width n)
  | cons c cs => exact ⟨c, rfl, isDigit_of_mem_padded (h ▸ List.mem_cons_self)⟩

theorem isTrimmed_padded (width n : Nat) : Text.IsTrimmed (padded width n) where
  head _ hc := isBlank_of_isDigit (isDigit_of_mem_padded (List.mem_of_head? hc))
  last _ hc := isBlank_of_isDigit (isDigit_of_mem_padded (List.mem_of_getLast? hc))

theorem dropBlank_padded (width n : Nat) (rest : List Char) :
    Text.dropBlank (padded width n ++ rest) = padded width n ++ rest :=
  Text.dropBlank_eq_self ((isTrimmed_padded width n).head_append (padded_ne_nil width n) rest)

/-! ## Numbers -/

/-- A number that fills its width is read whole, whatever follows. -/
theorem readUpTo?_padded {width n : Nat} (hw : 0 < width) (hn : n < Nat.pow 10 width) (rest : List Char) :
    readUpTo? width (padded width n ++ rest) = some (n, rest) := by
  have hlength := length_padded hw hn
  have hdigits : (List.take width (padded width n ++ rest)).takeWhile Char.isDigit = padded width n := by
    rw [List.take_left' hlength]
    exact List.takeWhile_eq_self_iff.2 fun c hc => isDigit_of_mem_padded hc
  have hne : (padded width n).isEmpty = false := List.isEmpty_eq_false_iff.2 (padded_ne_nil width n)
  simp only [readUpTo?, hdigits, hne, Bool.false_eq_true, if_false, natOf_padded, hlength, List.drop_left' hlength]

/-- A number of any length is read up to what is no digit. -/
theorem readAll?_padded {rest : List Char} (width n : Nat) (hr : rest.head?.any Char.isDigit = false) :
    readAll? (padded width n ++ rest) = some (n, rest) := by
  have hall : ∀ c ∈ padded width n, c.isDigit = true := fun c hc => isDigit_of_mem_padded hc
  have hrest : rest.takeWhile Char.isDigit = [] ∧ rest.dropWhile Char.isDigit = rest := by
    cases rest with
    | nil => exact ⟨rfl, rfl⟩
    | cons c rest =>
      have hc : c.isDigit = false := by simpa using hr
      simp [hc]
  have hne : (padded width n).isEmpty = false := List.isEmpty_eq_false_iff.2 (padded_ne_nil width n)
  rw [readAll?, List.takeWhile_append_of_pos hall, List.dropWhile_append_of_pos hall, hrest.1, hrest.2, List.append_nil]
  simp only [hne, Bool.false_eq_true, if_false, natOf_padded]

/-- A year without sign is one of four digits. -/
theorem readYear?_padded {n : Nat} (hn : n < 10000) (rest : List Char) :
    readYear? (padded 4 n ++ rest) = some ((n : Int), rest) := by
  obtain ⟨c, hc, hdigit⟩ := head?_padded 4 n rest
  have hread := @readUpTo?_padded 4 n (by decide) hn rest
  generalize padded 4 n ++ rest = cs at hc hread
  unfold readYear?
  split
  · cases hc
    cases hdigit
  · cases hc
    cases hdigit
  · rw [hread]
    rfl

theorem readYear?_yearText {rest : List Char} (year : Int) (hr : rest.head?.any Char.isDigit = false) :
    readYear? (yearText year ++ rest) = some (year, rest) := by
  cases year with
  | ofNat n =>
    rw [yearText]
    split
    · exact readYear?_padded (by omega) rest
    · rw [List.cons_append, readYear?, readAll?_padded 4 n hr]
      rfl
  | negSucc n =>
    rw [yearText, List.cons_append, readYear?, readAll?_padded 4 (n + 1) hr]
    rfl

/-! ## Years -/

/-- A year is printed as digits, or as a sign and digits. -/
theorem yearText_cases (year : Int) :
    (∃ n, n < 10000 ∧ yearText year = padded 4 n) ∨
      ∃ sign n, Char.isDigit sign = false ∧ Text.isBlank sign = false ∧ yearText year = sign :: padded 4 n := by
  cases year with
  | ofNat n =>
    rw [yearText]
    split
    · exact .inl ⟨n, by omega, rfl⟩
    · exact .inr ⟨'+', n, rfl, by decide, rfl⟩
  | negSucc n => exact .inr ⟨'-', n + 1, rfl, by decide, rfl⟩

theorem isTrimmed_yearText (year : Int) : Text.IsTrimmed (yearText year) := by
  obtain ⟨n, -, h⟩ | ⟨sign, n, -, hsign, h⟩ := yearText_cases year
  · rw [h]
    exact isTrimmed_padded 4 n
  · have hs : Text.IsTrimmed [sign] := Text.isTrimmed_iff.2 (by simp [hsign])
    rw [h]
    exact hs.append_append (isTrimmed_padded 4 n) (List.cons_ne_nil _ _) (padded_ne_nil 4 n) []

theorem yearText_ne_nil (year : Int) : yearText year ≠ [] := by
  obtain ⟨n, -, h⟩ | ⟨sign, n, -, -, h⟩ := yearText_cases year
  · rw [h]
    exact padded_ne_nil 4 n
  · rw [h]
    exact List.cons_ne_nil _ _

/-! ## Fields -/

theorem Date.iso_append_eq (d : Date) (rest : List Char) :
    d.iso ++ rest = yearText d.year ++ ('-' :: (padded 2 d.month ++ ('-' :: (padded 2 d.day ++ rest)))) := by
  simp [Date.iso]

theorem Date.month_lt (d : Date) : d.month < 100 := by
  obtain ⟨-, ⟨-, hmonth⟩, -⟩ := d.valid
  omega

theorem Date.day_lt (d : Date) : d.day < 100 := by
  obtain ⟨-, -, -, hday⟩ := d.valid
  have hdays : daysInMonth d.year d.month ≤ 31 := by
    unfold daysInMonth
    split
    · split <;> omega
    · split <;> omega
  omega

theorem Time.shownSecond_lt (t : Time) : t.shownSecond < 100 := by
  obtain ⟨-, -, hsecond, hnano⟩ := t.valid
  unfold Time.shownSecond
  omega

/-- The fields of up to two digits. -/
def Field.isPair : Field → Bool
  | .month | .day | .hour | .minute | .second => true
  | _ => false

/-- The readings with the number of such a field. -/
def Field.put (f : Field) (r : Readings) (n : Nat) : Readings :=
  match f with
  | .month => { r with month := n }
  | .day => { r with day := n }
  | .hour => { r with hour := n }
  | .minute => { r with minute := n }
  | .second => { r with second := n }
  | _ => r

namespace Layout

variable {r r' : Readings} {f : Field} {fs : Layout} {cs rest : List Char}

theorem readFrom?_of_field (h : readField? f r cs = some (r', rest)) :
    readFrom? r (f :: fs) cs = readFrom? r' fs rest := by
  rw [readFrom?, h]
  rfl

theorem readField?_mark (c : Char) (r : Readings) (cs : List Char) : readField? (.mark c) r (c :: cs) = some (r, cs) :=
  if_pos rfl

theorem readFrom?_pair {n : Nat} (hf : f.isPair = true) (hn : n < 100) :
    readFrom? r (f :: fs) (padded 2 n ++ rest) = readFrom? (f.put r n) fs rest := by
  have hfield (cs : List Char) : readField? f r cs = readPair? cs (f.put r) := by
    cases f <;> first | rfl | cases hf
  have hread : readPair? (padded 2 n ++ rest) (f.put r) = some (f.put r n, rest) := by
    rw [readPair?, dropBlank_padded, readUpTo?_padded (by decide) hn]
    rfl
  exact readFrom?_of_field ((hfield _).trans hread)

theorem dropBlank_yearText (year : Int) (rest : List Char) :
    Text.dropBlank (yearText year ++ rest) = yearText year ++ rest :=
  Text.dropBlank_eq_self ((isTrimmed_yearText year).head_append (yearText_ne_nil year) rest)

theorem readField?_year (r : Readings) (year : Int) (hr : rest.head?.any Char.isDigit = false) :
    readField? .year r (yearText year ++ rest) = some ({ r with year := year }, rest) := by
  rw [readField?, dropBlank_yearText, readYear?_yearText year hr]
  rfl

theorem nanoseconds_padded {width n : Nat} (hw : 0 < width) (hnine : width ≤ 9) (hn : n < Nat.pow 10 width) :
    nanoseconds (padded width n) = n * Nat.pow 10 (9 - width) := by
  have hlength := length_padded hw hn
  have hkept : (padded width n).take 9 = padded width n := List.take_of_length_le (by omega)
  simp only [nanoseconds, hkept, natOf_padded, hlength]

theorem readField?_places (r : Readings) {width m n : Nat} (hw : 0 < width) (hnine : width ≤ 9)
    (hm : m < Nat.pow 10 width) (hn : m * Nat.pow 10 (9 - width) = n) :
    readField? .fraction r ('.' :: padded width m) = some ({ r with nanosecond := n }, []) := by
  have hall : ∀ c ∈ padded width m, c.isDigit = true := fun c hc => isDigit_of_mem_padded hc
  have hne : (padded width m).isEmpty = false := List.isEmpty_eq_false_iff.2 (padded_ne_nil width m)
  have hnano : nanoseconds (padded width m) = n := (nanoseconds_padded hw hnine hm).trans hn
  simp [readField?, readFraction?, List.takeWhile_eq_self_iff.2 hall, List.dropWhile_eq_nil_iff.2 hall, hne, hnano]

/-- A printed date at the front of a text. -/
theorem readFrom?_iso (d : Date) (r : Readings) (fs : Layout) (rest : List Char) :
    readFrom? r (isoDate ++ fs) (d.iso ++ rest) =
      readFrom? { r with year := d.year, month := d.month, day := d.day } fs rest := by
  rw [d.iso_append_eq]
  simp only [isoDate, List.cons_append, List.nil_append]
  rw [readFrom?_of_field (readField?_year r d.year rfl), readFrom?_of_field (readField?_mark '-' _ _),
    readFrom?_pair rfl d.month_lt, readFrom?_of_field (readField?_mark '-' _ _),
    readFrom?_pair rfl d.day_lt]
  rfl

end Layout

/-! ## Dates -/

theorem Date.read?_iso (d : Date) : Date.read? Layout.isoDate d.iso = some d := by
  have hread : Layout.isoDate.read? d.iso = some { Readings.empty with year := d.year, month := d.month, day := d.day } := by
    have hfields := Layout.readFrom?_iso d .empty [] []
    rw [List.append_nil, List.append_nil] at hfields
    exact hfields
  rw [Date.read?, hread]
  exact Date.of?_self d

/-! ## Moments -/

/-- Hour, minute and second. -/
def Time.clock (t : Time) : List Char :=
  padded 2 t.hour ++ ':' :: padded 2 t.minute ++ ':' :: padded 2 t.shownSecond

/-- The time of day with all nine places of the second. -/
def Time.isoNanoseconds (t : Time) : List Char :=
  padded 2 t.hour ++ ':' :: padded 2 t.minute ++ ':' :: padded 2 t.shownSecond ++
    '.' :: padded 9 (t.nanosecond % 1000000000)

/-- The date and the time, with all nine places of the second, joined by a mark. -/
def DateTime.isoNanoseconds (mark : Char) (t : DateTime) : List Char :=
  t.date.iso ++ mark :: t.time.isoNanoseconds

/-- The fraction of the second in any number of places that loses nothing. -/
def Time.IsFraction (t : Time) (text : List Char) : Prop :=
  ∀ r : Readings, Layout.readField? .fraction r text = some ({ r with nanosecond := t.nanosecond % 1000000000 }, [])

theorem Time.isoNanoseconds_eq (t : Time) :
    t.isoNanoseconds = t.clock ++ '.' :: padded 9 (t.nanosecond % 1000000000) := rfl

theorem Time.isFraction_nanoseconds (t : Time) : t.IsFraction ('.' :: padded 9 (t.nanosecond % 1000000000)) := by
  intro r
  have hn : t.nanosecond % 1000000000 < Nat.pow 10 9 := Nat.mod_lt _ (by decide)
  exact Layout.readField?_places r (by decide) (by decide) hn (Nat.mul_one _)

theorem Layout.readFrom?_clock (t : Time) (r : Readings) {fraction : List Char} (h : t.IsFraction fraction) :
    readFrom? r clockFraction (t.clock ++ fraction) =
      some ⟨r.year, r.month, r.day, t.hour, t.minute, t.shownSecond, t.nanosecond % 1000000000⟩ := by
  obtain ⟨hhour, hminute, -, -⟩ := t.valid
  have hclock : t.clock ++ fraction =
      padded 2 t.hour ++ (':' :: (padded 2 t.minute ++ (':' :: (padded 2 t.shownSecond ++ fraction)))) := by
    simp [Time.clock]
  rw [hclock]
  simp only [clockFraction, clockSeconds, List.cons_append, List.nil_append]
  rw [readFrom?_pair rfl (by omega), readFrom?_of_field (readField?_mark ':' _ _),
    readFrom?_pair rfl (by omega), readFrom?_of_field (readField?_mark ':' _ _),
    readFrom?_pair rfl t.shownSecond_lt, readFrom?_of_field (h _)]
  rfl

/-- A leap second is shown as second 60 and read back as what comes after second 59. -/
theorem Readings.time?_shown (t : Time) (r : Readings) (hh : r.hour = t.hour) (hm : r.minute = t.minute)
    (hs : r.second = t.shownSecond) (hn : r.nanosecond = t.nanosecond % 1000000000) : r.time? = some t := by
  obtain ⟨-, -, hsecond, hnano⟩ := t.valid
  rw [Readings.time?, hh, hm, hs, hn]
  unfold Time.shownSecond
  split
  · next hleap =>
    have hparts : t.second = 59 ∧ 1000000000 + t.nanosecond % 1000000000 = t.nanosecond := by omega
    rw [← hparts.1, hparts.2, Time.of?_self]
  · next hplain =>
    have hparts : t.second + t.nanosecond / 1000000000 = t.second ∧
        t.nanosecond % 1000000000 = t.nanosecond := by omega
    rw [hparts.1, hparts.2, Time.of?_self]

theorem DateTime.read?_of_mark {mark : Char} {t : DateTime} {f : Field} {fraction : List Char}
    (h : ∀ r, Layout.readField? f r (mark :: (t.time.clock ++ fraction)) = some (r, t.time.clock ++ fraction))
    (hfraction : t.time.IsFraction fraction) :
    DateTime.read? (Layout.isoDate ++ f :: Layout.clockFraction) (t.date.iso ++ mark :: (t.time.clock ++ fraction)) =
      some t := by
  have htime := Readings.time?_shown t.time
    ⟨t.date.year, t.date.month, t.date.day, t.time.hour, t.time.minute, t.time.shownSecond,
      t.time.nanosecond % 1000000000⟩ rfl rfl rfl rfl
  rw [DateTime.read?, Layout.read?, Layout.readFrom?_iso, Layout.readFrom?_of_field (h _),
    Layout.readFrom?_clock t.time _ hfraction]
  simp [Readings.dateTime?, Readings.date?, htime]

theorem Layout.readField?_space (t : Time) (fraction : List Char) (r : Readings) :
    readField? .space r (' ' :: (t.clock ++ fraction)) = some (r, t.clock ++ fraction) := by
  have hdrop : Text.dropBlank (' ' :: (t.clock ++ fraction)) = t.clock ++ fraction := by
    have hblank : Text.isBlank ' ' = true := by decide
    rw [Text.dropBlank_cons, if_pos hblank, Time.clock, List.append_assoc, List.append_assoc]
    exact dropBlank_padded 2 t.hour _
  rw [readField?, hdrop]

/-- A moment joined by a space is read back, whatever places of its second are shown. -/
theorem DateTime.read?_space (t : DateTime) {fraction : List Char} (h : t.time.IsFraction fraction) :
    DateTime.read? (Layout.isoDate ++ .space :: Layout.clockFraction) (t.date.iso ++ ' ' :: (t.time.clock ++ fraction)) =
      some t :=
  DateTime.read?_of_mark (Layout.readField?_space t.time fraction) h

/-- A moment joined by a `T` is none joined by white space. -/
theorem DateTime.read?_space_T (t : DateTime) :
    DateTime.read? (Layout.isoDate ++ .space :: Layout.clockFraction) (t.isoNanoseconds 'T') = none := by
  rw [DateTime.read?, Layout.read?, DateTime.isoNanoseconds, Layout.readFrom?_iso]
  rfl

/-- A printed moment is read back, joined by a space or by a `T`. -/
theorem DateTime.findSome?_isoNanoseconds {mark : Char} (h : mark = ' ' ∨ mark = 'T') (t : DateTime) :
    Layout.isoDateTimes.findSome? (fun l => DateTime.read? l (t.isoNanoseconds mark)) = some t := by
  rcases h with rfl | rfl
  · rw [Layout.isoDateTimes, List.findSome?_cons, DateTime.isoNanoseconds, Time.isoNanoseconds_eq,
      DateTime.read?_space t t.time.isFraction_nanoseconds]
  · have hletter := DateTime.read?_of_mark (fun r => Layout.readField?_mark 'T' r _) t.time.isFraction_nanoseconds
    rw [Layout.isoDateTimes, List.findSome?_cons, DateTime.read?_space_T, List.findSome?_cons, DateTime.isoNanoseconds,
      Time.isoNanoseconds_eq, hletter]

end SqlComposer
