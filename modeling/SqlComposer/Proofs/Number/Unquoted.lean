import SqlComposer.Compose
import SqlComposer.Proofs.Calendar.IsoReader
import SqlComposer.Proofs.Number.Notation

/-!
# Numbers without quotes

* `Decimal.mem_number_of_plainText?`, `Decimal.mem_number_of_numericText?` and their like : what is written for a number is
  in the notation of numbers;
* `Decimal.IsTrimmed` : no exponent, and no zeros behind the last place; `Decimal.isTrimmed_of_plainText?` : so floating point
  numbers are written;
* `number_unquoted` : what is written under the modifiers of numbers.
-/

namespace SqlComposer

/-! ## The parts of a number -/

namespace Pattern

open RegularExpression Decimal

variable {cs : List Char}

theorem mem_star_digit : cs ∈ digit.star.matches' ↔ ∀ c ∈ cs, c.isDigit = true := by
  rw [digit, mem_star_oneOf]
  exact forall₂_congr fun _ _ => mem_digits_iff

theorem mem_mantissa_of_isDigits (h : isDigits cs = true) : cs ∈ mantissa.matches' := by
  rw [mantissa, matches'_add, Language.mem_add, ← List.append_nil cs]
  exact .inl (mem_append (mem_repeated_digit.2 h) nil_mem_maybe)

/-- Digits around a point, of which there is one in front of it or behind it. -/
theorem mem_mantissa_of_places {whole places : List Char} (hw : ∀ c ∈ whole, c.isDigit = true)
    (hp : ∀ c ∈ places, c.isDigit = true) (hne : whole ≠ [] ∨ places ≠ []) :
    whole ++ '.' :: places ∈ mantissa.matches' := by
  rw [mantissa, matches'_add, Language.mem_add]
  by_cases hwhole : whole = []
  · subst hwhole
    exact .inr (mem_append (a := ['.']) rfl (mem_repeated_digit.2 (isDigits_iff.2 ⟨by simpa using hne, hp⟩)))
  · refine .inl (mem_append (mem_repeated_digit.2 (isDigits_iff.2 ⟨hwhole, hw⟩)) (mem_maybe_of_mem ?_))
    exact mem_append (a := ['.']) rfl (mem_star_digit.2 hp)

/-- A number is a mantissa between two parts that may be missing. -/
theorem mem_number {sign mantissa exponent : List Char} (hs : sign ∈ (maybe Pattern.sign).matches')
    (hm : mantissa ∈ Pattern.mantissa.matches')
    (he : exponent ∈ (maybe (exponentMark * maybe Pattern.sign * repeated digit)).matches') :
    sign ++ mantissa ++ exponent ∈ number.matches' :=
  mem_append (mem_append hs hm) he

theorem mem_number_of_mantissa (h : cs ∈ mantissa.matches') : cs ∈ number.matches' := by
  rw [← List.append_nil cs]
  exact @mem_number [] _ _ nil_mem_maybe h nil_mem_maybe

theorem mem_number_of_negative (h : cs ∈ mantissa.matches') : '-' :: cs ∈ number.matches' := by
  rw [← List.append_nil cs]
  exact mem_number hyphen_mem_sign h nil_mem_maybe

theorem mem_number_of_decimalInteger (h : cs ∈ decimalInteger.matches') : cs ∈ number.matches' := by
  obtain ⟨sign, hsign, _, hscaled, rfl⟩ := mem_mul_iff.1 h
  obtain ⟨digits, hdigits, exponent, hexponent, rfl⟩ := mem_mul_iff.1 hscaled
  rw [← List.append_assoc]
  refine mem_number hsign (mem_mantissa_of_isDigits (mem_repeated_digit.1 hdigits)) ?_
  rcases mem_maybe.1 hexponent with rfl | hexponent
  · exact nil_mem_maybe
  · obtain ⟨mark, hmark, power, hpower, rfl⟩ := mem_mul_iff.1 hexponent
    rw [← List.append_nil mark]
    exact mem_maybe_of_mem (mem_append (mem_append hmark nil_mem_maybe) hpower)

end Pattern

namespace Decimal

variable {cs text : List Char}

/-! ## Whole numbers -/

theorem mem_mantissa_natText (n : ℕ) : natText n ∈ Pattern.mantissa.matches' :=
  Pattern.mem_mantissa_of_isDigits (isDigits_natText n)

theorem mem_number_intText (n : ℤ) : intText n ∈ Pattern.number.matches' := by
  cases n with
  | ofNat n => exact Pattern.mem_number_of_mantissa (mem_mantissa_natText n)
  | negSucc n => exact Pattern.mem_number_of_negative (mem_mantissa_natText (n + 1))

theorem mem_number_wholeText (x : Binary64) : wholeText x ∈ Pattern.number.matches' := by
  rw [wholeText]
  split
  · exact Pattern.mem_number_of_negative (mem_mantissa_natText _)
  · exact Pattern.mem_number_of_mantissa (mem_mantissa_natText _)

/-! ## Numbers to ten places -/

/-- The places behind the point of a number of units, ten places each, up to the last that is no zero. -/
def places (units : ℕ) : List Char :=
  dropZeros (padded 10 (units % Nat.pow 10 10))

/-- A number of units, ten places each. -/
def unitText (units : ℕ) : List Char :=
  natText (units / Nat.pow 10 10) ++ if (places units).isEmpty then [] else '.' :: places units

theorem getLast?_dropZeros (cs : List Char) : (dropZeros cs).getLast? ≠ some '0' := by
  intro h
  rw [dropZeros, List.getLast?_reverse] at h
  have hlast := List.head?_dropWhile_not (· == '0') cs.reverse
  rw [h] at hlast
  cases hlast

theorem eq_zero_of_dropZeros_eq_nil (h : dropZeros cs = []) : ∀ c ∈ cs, c = '0' := by
  intro c hc
  rw [dropZeros, List.reverse_eq_nil_iff, List.dropWhile_eq_nil_iff] at h
  exact beq_iff_eq.1 (h c (List.mem_reverse.2 hc))

theorem isDigit_of_mem_places {units : ℕ} {c : Char} (h : c ∈ places units) : c.isDigit = true :=
  isDigit_of_mem_padded (mem_of_mem_dropZeros h)

/-- Nothing behind the point stands for a whole number. -/
theorem mod_eq_zero_of_places_eq_nil {units : ℕ} (h : places units = []) : units % Nat.pow 10 10 = 0 := by
  have hzeros := List.eq_replicate_of_mem (eq_zero_of_dropZeros_eq_nil h)
  rw [← natOf_padded 10 (units % Nat.pow 10 10), hzeros, natOf_eq, Nat.ofDigitChars_replicate_zero, Nat.mul_zero]

theorem mem_mantissa_unitText (units : ℕ) : unitText units ∈ Pattern.mantissa.matches' := by
  have hwhole := isDigits_natText (units / Nat.pow 10 10)
  rw [unitText]
  split
  · rw [List.append_nil]
    exact Pattern.mem_mantissa_of_isDigits hwhole
  · obtain ⟨hne, hdigits⟩ := isDigits_iff.1 hwhole
    exact Pattern.mem_mantissa_of_places hdigits (fun _ => isDigit_of_mem_places) (.inl hne)

/-- The text of a finite number is that of its units, with a sign only if there are any. -/
theorem exists_units {x : Binary64} (h : plainText? x = some cs) :
    ∃ sign units, cs = sign ++ unitText units ∧ (sign = [] ∨ sign = ['-'] ∧ units ≠ 0) := by
  unfold plainText? at h
  split at h
  · simp only [Option.some.injEq] at h
    generalize Binary64.roundHalfEven (x.numerator * Nat.pow 10 10) x.denominator = units at h
    have hcs : (if x.isNegative && units != 0 then '-' :: unitText units else unitText units) = cs := h
    split at hcs
    · next hnegative =>
      rw [Bool.and_eq_true, bne_iff_ne] at hnegative
      exact ⟨['-'], units, by rw [List.singleton_append, hcs], .inr ⟨rfl, hnegative.2⟩⟩
    · exact ⟨[], units, by rw [List.nil_append, hcs], .inl rfl⟩
  · cases h

theorem mem_number_of_plainText? {x : Binary64} (h : plainText? x = some cs) : cs ∈ Pattern.number.matches' := by
  obtain ⟨sign, units, rfl, rfl | ⟨rfl, -⟩⟩ := exists_units h
  · rw [List.nil_append]
    exact Pattern.mem_number_of_mantissa (mem_mantissa_unitText units)
  · rw [List.singleton_append]
    exact Pattern.mem_number_of_negative (mem_mantissa_unitText units)

/-- No exponent, no zero and no point at the end of the places, and no sign in front of zero. -/
structure IsTrimmed (cs : List Char) : Prop where
  noExponent : 'e' ∉ cs ∧ 'E' ∉ cs
  lastPlace : '.' ∈ cs → cs.getLast? ≠ some '0' ∧ cs.getLast? ≠ some '.'
  noMinusZero : cs ≠ ['-', '0']

theorem mem_unitText {units : ℕ} {c : Char} (h : c ∈ unitText units) :
    c.isDigit = true ∨ c = '.' ∧ places units ≠ [] := by
  rcases List.mem_append.1 h with h | h
  · exact .inl ((isDigits_iff.1 (isDigits_natText _)).2 c h)
  · split at h
    · cases h
    · next hne =>
      rcases List.mem_cons.1 h with rfl | h
      · exact .inr ⟨rfl, by simpa using hne⟩
      · exact .inl (isDigit_of_mem_places h)

/-- Behind a point the text ends in the last place. -/
theorem getLast?_unitText {units : ℕ} (h : places units ≠ []) : (unitText units).getLast? = (places units).getLast? := by
  rw [unitText, if_neg (by simpa using h), List.getLast?_append_of_ne_nil _ (List.cons_ne_nil _ _),
    List.getLast?_cons_of_ne_nil h]

theorem unitText_ne_nil (units : ℕ) : unitText units ≠ [] :=
  List.append_ne_nil_of_left_ne_nil (isDigits_iff.1 (isDigits_natText _)).1 _

/-- Only no units at all are written as zero. -/
theorem eq_zero_of_unitText {units : ℕ} (h : unitText units = ['0']) : units = 0 := by
  have hplaces : places units = [] := by
    by_contra hne
    have hlast := getLast?_unitText hne
    rw [h, List.getLast?_singleton] at hlast
    exact getLast?_dropZeros _ hlast.symm
  have hwhole : natText (units / Nat.pow 10 10) = natText 0 := by
    rw [unitText, hplaces] at h
    exact (List.append_nil _).symm.trans h
  have hdiv : units / Nat.pow 10 10 = 0 := by
    rw [← decimalValue_natText (units / Nat.pow 10 10), hwhole, decimalValue_natText]
  rw [← Nat.div_add_mod units (Nat.pow 10 10), hdiv, mod_eq_zero_of_places_eq_nil hplaces, Nat.mul_zero]

theorem isTrimmed_of_plainText? {x : Binary64} (h : plainText? x = some cs) : IsTrimmed cs := by
  obtain ⟨sign, units, rfl, hsign⟩ := exists_units h
  have hmem {c : Char} (hc : c ∈ sign ++ unitText units) :
      c = '-' ∨ c.isDigit = true ∨ c = '.' ∧ places units ≠ [] := by
    rcases List.mem_append.1 hc with hc | hc
    · rcases hsign with rfl | ⟨rfl, -⟩
      · cases hc
      · exact .inl (List.mem_singleton.1 hc)
    · exact .inr (mem_unitText hc)
  constructor
  · exact ⟨fun he => absurd (hmem he) (by simp), fun he => absurd (hmem he) (by simp)⟩
  · intro hpoint
    obtain hc | hc | ⟨-, hne⟩ := hmem hpoint
    · cases hc
    · cases hc
    rw [List.getLast?_append_of_ne_nil _ (unitText_ne_nil units), getLast?_unitText hne]
    refine ⟨getLast?_dropZeros _, fun hlast => ?_⟩
    cases isDigit_of_mem_places (List.mem_of_getLast? hlast)
  · intro hzero
    rcases hsign with rfl | ⟨rfl, hne⟩
    · rw [List.nil_append] at hzero
      obtain hc | ⟨hc, -⟩ := @mem_unitText units '-' (by rw [hzero]; exact List.mem_cons_self)
      · cases hc
      · cases hc
    · rw [List.singleton_append] at hzero
      exact hne (eq_zero_of_unitText (List.cons.inj hzero).2)

/-! ## Decimal notation -/

theorem exists_sign_dropPlus (cs : List Char) :
    ∃ sign ∈ (Pattern.maybe Pattern.sign).matches', cs = sign ++ dropPlus cs := by
  unfold dropPlus
  split
  · exact ⟨['+'], Pattern.plus_mem_sign, rfl⟩
  · exact ⟨[], Pattern.nil_mem_maybe, rfl⟩

theorem mem_of_readExponent? {e : ℤ} (h : readExponent? cs = some e) :
    cs ∈ (Pattern.maybe (Pattern.exponentMark * Pattern.maybe Pattern.sign *
      Pattern.repeated Pattern.digit)).matches' := by
  unfold readExponent? at h
  split at h
  · exact Pattern.nil_mem_maybe
  · next mark power =>
    split at h
    · next hmark =>
      have hm : [mark] ∈ Pattern.exponentMark.matches' := Pattern.singleton_mem_exponentMark.2 (by simpa using hmark)
      have signed {sign digits : List Char} (hs : sign ∈ (Pattern.maybe Pattern.sign).matches')
          (hd : isDigits digits = true) : mark :: (sign ++ digits) ∈ (Pattern.maybe
            (Pattern.exponentMark * Pattern.maybe Pattern.sign * Pattern.repeated Pattern.digit)).matches' :=
        Pattern.mem_maybe_of_mem (Pattern.mem_append (Pattern.mem_append hm hs) (Pattern.mem_repeated_digit.2 hd))
      split at h
      · split at h
        · next hd => exact signed Pattern.hyphen_mem_sign hd
        · cases h
      · split at h
        · next hd =>
          obtain ⟨sign, hs, hcs⟩ := exists_sign_dropPlus power
          rw [hcs]
          exact signed hs hd
        · cases h
    · cases h

/-- The text behind the digits in front of the point: the point and the places, if it starts with a point. -/
theorem splitPlaces_cases (cs : List Char) :
    cs = '.' :: ((splitPlaces cs).1 ++ (splitPlaces cs).2) ∧ (∀ c ∈ (splitPlaces cs).1, c.isDigit = true) ∨
      splitPlaces cs = ([], cs) := by
  unfold splitPlaces
  split
  · next ds =>
    refine .inl ⟨?_, List.all_eq_true.1 List.all_takeWhile⟩
    rw [List.takeWhile_append_dropWhile]
  · exact .inr rfl

/-- Digits with a point and an exponent behind a sign. -/
theorem mem_number_of_parts {sign : List Char} {e : ℤ} (hs : sign ∈ (Pattern.maybe Pattern.sign).matches')
    (hne : ((cs.takeWhile Char.isDigit).isEmpty && (splitPlaces (cs.dropWhile Char.isDigit)).1.isEmpty) = false)
    (he : readExponent? (splitPlaces (cs.dropWhile Char.isDigit)).2 = some e) :
    sign ++ cs ∈ Pattern.number.matches' := by
  have hwhole : ∀ c ∈ cs.takeWhile Char.isDigit, c.isDigit = true := List.all_eq_true.1 List.all_takeWhile
  have hexponent := mem_of_readExponent? he
  rw [Bool.and_eq_false_iff, List.isEmpty_eq_false_iff, List.isEmpty_eq_false_iff] at hne
  rw [← List.takeWhile_append_dropWhile (p := Char.isDigit) (l := cs)]
  rcases splitPlaces_cases (cs.dropWhile Char.isDigit) with ⟨hcs, hplaces⟩ | hcs
  · rw [hcs, ← List.cons_append, ← List.append_assoc (cs.takeWhile Char.isDigit), ← List.append_assoc sign]
    exact Pattern.mem_number hs (Pattern.mem_mantissa_of_places hwhole hplaces hne) hexponent
  · rw [hcs] at hne hexponent
    rw [← List.append_assoc]
    exact Pattern.mem_number hs (Pattern.mem_mantissa_of_isDigits (isDigits_iff.2 ⟨by simpa using hne, hwhole⟩)) hexponent

theorem mem_number_of_readDecimal? {d : Numeral} (h : readDecimal? cs = some d) : cs ∈ Pattern.number.matches' := by
  unfold readDecimal? at h
  simp only at h
  split at h
  · split at h
    · cases h
    · next hne =>
      obtain ⟨e, he, -⟩ := Option.map_eq_some_iff.1 h
      exact mem_number_of_parts Pattern.hyphen_mem_sign (Bool.not_eq_true _ ▸ hne) he
  · split at h
    · cases h
    · next hne =>
      obtain ⟨e, he, -⟩ := Option.map_eq_some_iff.1 h
      obtain ⟨sign, hs, hcs⟩ := exists_sign_dropPlus cs
      rw [hcs]
      exact mem_number_of_parts hs (Bool.not_eq_true _ ▸ hne) he

theorem mem_number_of_numericText? (h : numericText? text = some cs) : cs ∈ Pattern.number.matches' := by
  unfold numericText? at h
  simp only at h
  split at h
  · next hs =>
    obtain rfl := Option.some.inj h
    obtain ⟨d, hd, -⟩ := (Option.any_eq_true _ _).1 hs
    exact mem_number_of_readDecimal? hd
  · cases h

end Decimal

/-! ## Numbers in a statement -/

/-- What is written without quotes as a number: a scalar of any kind under a modifier of numbers, and a number without
modifier. -/
inductive IsUnquoted : Option Modifier → Scalar → Prop
  | under {m : Modifier} (hm : m ∈ [Modifier.int, .unsigned, .intOrNull, .float]) (a : Scalar) : IsUnquoted (some m) a
  | int (n : ℤ) : IsUnquoted none (.int n)
  | float (x : Binary64) : IsUnquoted none (.float x)

/-- Nothing is written as a number: null, or a blank text where it stands for null. -/
def Scalar.IsAbsent (m : Option Modifier) (a : Scalar) : Prop :=
  a = .null ∨ m = some .intOrNull ∧ ∃ s, a = .text s ∧ ∀ c ∈ s.toList, Text.isBlank c = true

/-- A floating point number that is written with its places. -/
def Scalar.KeepsPlaces (m : Option Modifier) (a : Scalar) : Prop :=
  (m = none ∨ m = some .float) ∧ ∃ x, a = .float x

/-- What is written in the place of a number: the mark of an issue, `NULL`, or a number. -/
inductive WrittenUnquoted (m : Option Modifier) (a : Scalar) : Render String → Prop
  | mark (i : Issue) : WrittenUnquoted m a (.note i)
  | null (absent : a.IsAbsent m) : WrittenUnquoted m a (pure "NULL")
  | number {text : String} (numeral : text.toList ∈ Pattern.number.matches')
      (trimmed : a.KeepsPlaces m → Decimal.IsTrimmed text.toList) : WrittenUnquoted m a (pure text)

namespace WrittenUnquoted

variable {m : Option Modifier} {a : Scalar}

/-- A number by itself, or the mark of the issue that there is none. -/
theorem numberOr {given : String} {text : Option (List Char)}
    (numeral : ∀ cs, text = some cs → cs ∈ Pattern.number.matches')
    (trimmed : a.KeepsPlaces m → ∀ cs, text = some cs → Decimal.IsTrimmed cs) :
    WrittenUnquoted m a (.orNote (numberOr given text)) := by
  cases text with
  | none => exact .mark _
  | some cs =>
    refine .number ?_ fun hp => ?_
    · rw [String.toList_ofList]
      exact numeral cs rfl
    · rw [String.toList_ofList]
      exact trimmed hp cs rfl

/-- A number without places. -/
theorem whole {text : String} (numeral : text.toList ∈ Pattern.number.matches') (ha : ¬a.KeepsPlaces m) :
    WrittenUnquoted m a (pure text) :=
  .number numeral fun hp => absurd hp ha

theorem intText (n : ℤ) (ha : ¬a.KeepsPlaces m) : WrittenUnquoted m a (pure (intText n)) := by
  refine .whole ?_ ha
  rw [SqlComposer.intText, String.toList_ofList]
  exact Decimal.mem_number_intText n

theorem bitText (b : Bool) (ha : ¬a.KeepsPlaces m) : WrittenUnquoted m a (pure (bitText b)) := by
  refine .whole (Pattern.mem_number_of_mantissa (Pattern.mem_mantissa_of_isDigits ?_)) ha
  cases b <;> rfl

theorem floatText (x : Binary64) : WrittenUnquoted m a (.orNote (floatText x)) :=
  .numberOr (fun _ => Decimal.mem_number_of_plainText?) fun _ _ => Decimal.isTrimmed_of_plainText?

theorem intScalar {m : Modifier} (hm : m ≠ .float) (a : Scalar) : WrittenUnquoted (some m) a (Context.intScalar m a) := by
  have hplaces : ¬a.KeepsPlaces (some m) := by
    rintro ⟨h | h, -⟩
    · cases h
    · exact hm (Option.some.inj h)
  cases a with
  | int n => exact .intText n hplaces
  | bool b => exact .bitText b hplaces
  | float x =>
    refine .numberOr (fun cs hcs => ?_) fun hp => absurd hp hplaces
    split at hcs
    · obtain rfl := Option.some.inj hcs
      exact Decimal.mem_number_wholeText x
    · cases hcs
  | text s =>
    refine .numberOr (fun cs hcs => ?_) fun hp => absurd hp hplaces
    exact Pattern.mem_number_of_decimalInteger (Decimal.mem_of_integerText? hcs)
  | _ => exact .mark _

theorem floatScalar (a : Scalar) : WrittenUnquoted (some .float) a (Context.floatScalar .float a) := by
  cases a with
  | float x => exact .floatText x
  | int n => exact .intText n (by rintro ⟨-, _, ⟨⟩⟩)
  | bool b => exact .bitText b (by rintro ⟨-, _, ⟨⟩⟩)
  | text s => exact .numberOr (fun _ => Decimal.mem_number_of_numericText?) (by rintro ⟨-, _, ⟨⟩⟩)
  | _ => exact .mark _

end WrittenUnquoted

/-- The mark of an issue, `NULL` or a number is all that is written without quotes. -/
theorem writtenUnquoted_scalar (ctx : Context) {m : Option Modifier} {a : Scalar} (h : IsUnquoted m a) :
    WrittenUnquoted m a (ctx.scalar m a) := by
  cases h with
  | int n => exact .intText n (by rintro ⟨-, _, ⟨⟩⟩)
  | float x => exact .floatText x
  | @under m hm =>
    show WrittenUnquoted (some m) a (ctx.scalarAs m a)
    rw [Context.scalarAs]
    split
    · next hnull => exact .null (.inl hnull.1)
    · simp only [List.mem_cons, List.not_mem_nil, or_false] at hm
      rcases hm with rfl | rfl | rfl | rfl
      · exact .intScalar (by decide) a
      · exact .intScalar (by decide) a
      · cases a with
        | text s =>
          show WrittenUnquoted _ _ (if s.toList.all Text.isBlank then pure "NULL" else Context.intScalar .intOrNull (.text s))
          split
          · next hblank => exact .null (.inr ⟨rfl, s, rfl, List.all_eq_true.1 hblank⟩)
          · exact .intScalar (by decide) _
        | _ => exact .intScalar (by decide) _
      · exact .floatScalar a

/-- What is written without quotes is a number, if nothing is wrong and the number is not absent; a floating point number
is written without exponent and without zeros behind its last place. -/
theorem number_unquoted (ctx : Context) {m : Option Modifier} {a : Scalar} (h : IsUnquoted m a) :
    ∃ text issues, render ctx m (.scalar a) = .done text issues 0 ∧
      (issues ≠ [] ∨ text = "NULL" ∧ a.IsAbsent m ∨
        text.toList ∈ Pattern.number.matches' ∧ (a.KeepsPlaces m → Decimal.IsTrimmed text.toList)) := by
  rw [render]
  have hwritten := writtenUnquoted_scalar ctx h
  generalize ctx.scalar m a = r at hwritten
  cases hwritten with
  | mark i => exact ⟨_, _, rfl, .inl (List.cons_ne_nil _ _)⟩
  | null absent => exact ⟨_, _, rfl, .inr (.inl ⟨rfl, absent⟩)⟩
  | number numeral trimmed => exact ⟨_, _, rfl, .inr (.inr ⟨numeral, trimmed⟩)⟩

/-- A small negative number, which other notations write with an exponent. -/
theorem number_unquoted_small :
    let ctx : Context := .leapDay .generic
    let x : Binary64 := .ofDecimal true 25 (-9)
    IsUnquoted none (.float x) ∧
      ∃ text issues, render ctx none (.scalar (.float x)) = .done text issues 0 ∧
        (issues ≠ [] ∨ text = "NULL" ∧ (Scalar.float x).IsAbsent none ∨
          text.toList ∈ Pattern.number.matches' ∧
            ((Scalar.float x).KeepsPlaces none → Decimal.IsTrimmed text.toList)) := by
  intro ctx x
  exact ⟨.float x, number_unquoted ctx (.float x)⟩

end SqlComposer
