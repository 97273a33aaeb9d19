import SqlComposer.Json.Number
import SqlComposer.Text.Hex

/-!
# Symbols of JSON text

* `Json.Symbol` : a punctuation mark or a value without parts;
* `Json.readSymbol?` : the next symbol and the text behind it (`Json.length_lt_of_readSymbol?`);
* `Json.symbols?` : all symbols of a text, none if a part of it is no symbol.
-/

namespace SqlComposer.Json

/-- A punctuation mark or a value without parts. -/
inductive Symbol
  | openArray
  | closeArray
  | openObject
  | closeObject
  | comma
  | colon
  | scalar (j : Json)

/-- White space between symbols. -/
def isSpace (c : Char) : Bool :=
  c == ' ' || c == '\t' || c == '\n' || c == '\r'

/-! ## Strings -/

/-- The number of four hexadecimal digits, and the text behind them. -/
def readFour? : List Char → Option (Nat × List Char)
  | a :: b :: c :: d :: rest => (Text.Hex.natOf? [a, b, c, d]).map fun n => (n, rest)
  | _ => none

/-- The character of an escape with a number. Characters beyond 16 bits take a pair of numbers. -/
def readUnicode? (cs : List Char) : Option (Char × List Char) :=
  match readFour? cs with
  | none => none
  | some (high, rest) =>
    if high < 0xD800 ∨ 0xDFFF < high then some (Char.ofNat high, rest)
    else if 0xDC00 ≤ high then none
    else
      match rest with
      | '\\' :: 'u' :: cs =>
        match readFour? cs with
        | none => none
        | some (low, rest) =>
          if 0xDC00 ≤ low ∧ low ≤ 0xDFFF then
            some (Char.ofNat (0x10000 + (high - 0xD800) * 0x400 + (low - 0xDC00)), rest)
          else none
      | _ => none

/-- The character of an escape of one letter. -/
def simpleEscape? (c : Char) : Option Char :=
  if c = '"' ∨ c = '\\' ∨ c = '/' then some c
  else if c = 'b' then some '\x08'
  else if c = 'f' then some '\x0c'
  else if c = 'n' then some '\n'
  else if c = 'r' then some '\r'
  else if c = 't' then some '\t'
  else none

/-- The next character of a string, and the text behind it. Control characters have to be escaped. -/
def readChar? : List Char → Option (Char × List Char)
  | [] => none
  | c :: rest =>
    if c = '\\' then
      match rest with
      | [] => none
      | d :: rest => if d = 'u' then readUnicode? rest else (simpleEscape? d).map fun e => (e, rest)
    else if c.toNat < 32 then none
    else some (c, rest)

theorem length_of_readFour? {cs rest : List Char} {n : Nat} (h : readFour? cs = some (n, rest)) :
    rest.length < cs.length := by
  unfold readFour? at h
  split at h
  · obtain ⟨_, _, he⟩ := Option.map_eq_some_iff.1 h
    cases he
    simp only [List.length_cons]
    omega
  · cases h

theorem length_of_readUnicode? {cs rest : List Char} {c : Char} (h : readUnicode? cs = some (c, rest)) :
    rest.length < cs.length := by
  unfold readUnicode? at h
  split at h
  · cases h
  · next h1 =>
    have h1 := length_of_readFour? h1
    split at h
    · rw [← (Prod.mk.inj (Option.some.inj h)).2]; exact h1
    · split at h
      · cases h
      · split at h
        · split at h
          · cases h
          · next h2 =>
            have h2 := length_of_readFour? h2
            simp only [List.length_cons] at h1
            split at h
            · rw [← (Prod.mk.inj (Option.some.inj h)).2]; omega
            · cases h
        · cases h

theorem length_of_readChar? {cs rest : List Char} {c : Char} (h : readChar? cs = some (c, rest)) :
    rest.length < cs.length := by
  unfold readChar? at h
  split at h
  · cases h
  · split at h
    · split at h
      · cases h
      · simp only [List.length_cons]
        split at h
        · have := length_of_readUnicode? h
          omega
        · obtain ⟨_, _, he⟩ := Option.map_eq_some_iff.1 h
          cases he
          omega
    · split at h
      · cases h
      · cases h; simp

/-- The rest of a string up to its closing quote, and the text behind that. -/
def readString? (cs : List Char) : Option (List Char × List Char) :=
  match cs with
  | '"' :: rest => some ([], rest)
  | cs =>
    match _h : readChar? cs with
    | none => none
    | some (c, rest) => (readString? rest).map fun r => (c :: r.1, r.2)
  termination_by cs.length
  decreasing_by exact length_of_readChar? _h

/-! ## Numbers -/

/-- Decimal places behind a point, if there is one, and the text behind them. -/
def readPlaces? : List Char → Option (Option (List Char) × List Char)
  | '.' :: rest =>
    let places := rest.takeWhile Char.isDigit
    if places.isEmpty then none else some (some places, rest.dropWhile Char.isDigit)
  | rest => some (none, rest)

/-- Digits of an exponent, and the text behind them. -/
def readExponentDigits? (negative : Bool) (cs : List Char) : Option (Option Int × List Char) :=
  let digits := cs.takeWhile Char.isDigit
  if digits.isEmpty then none
  else
    let n : Nat := digits.foldl (fun n c => 10 * n + Number.digitValue c) 0
    some (some (if negative then -(n : Int) else n), cs.dropWhile Char.isDigit)

/-- An exponent, if there is one, and the text behind it. -/
def readExponent? : List Char → Option (Option Int × List Char)
  | [] => some (none, [])
  | c :: rest =>
    if c = 'e' ∨ c = 'E' then
      match rest with
      | '-' :: rest => readExponentDigits? true rest
      | '+' :: rest => readExponentDigits? false rest
      | rest => readExponentDigits? false rest
    else some (none, c :: rest)

/-- A number without sign, and the text behind it. It has no needless zero in front. -/
def readUnsigned? (negative : Bool) (cs : List Char) : Option (Json × List Char) := do
  let whole := cs.takeWhile Char.isDigit
  if whole.isEmpty || (whole.head? == some '0' && whole.length != 1) then none
  else
    let (places, rest) ← readPlaces? (cs.dropWhile Char.isDigit)
    let (e, rest) ← readExponent? rest
    if places.isNone && e.isNone then (Number.ofInteger? negative whole).map fun j => (j, rest)
    else
      (Number.ofDecimal? negative whole (places.getD []) (e.getD 0)).map fun x => (.float x, rest)

/-- A number, and the text behind it. -/
def readNumber? : List Char → Option (Json × List Char)
  | '-' :: cs => readUnsigned? true cs
  | cs => readUnsigned? false cs

/-! ## Symbols -/

/-- The text behind a word at its start. -/
def readWord? : List Char → List Char → Option (List Char)
  | [], cs => some cs
  | _ :: _, [] => none
  | w :: ws, c :: cs => if c = w then readWord? ws cs else none

/-- The next symbol, and the text behind it. -/
def readSymbol? (cs : List Char) : Option (Symbol × List Char) :=
  match cs with
  | [] => none
  | '[' :: rest => some (.openArray, rest)
  | ']' :: rest => some (.closeArray, rest)
  | '\x7b' :: rest => some (.openObject, rest)
  | '\x7d' :: rest => some (.closeObject, rest)
  | ',' :: rest => some (.comma, rest)
  | ':' :: rest => some (.colon, rest)
  | '"' :: rest => (readString? rest).map fun r => (.scalar (.string (String.ofList r.1)), r.2)
  | 'n' :: rest => (readWord? ['u', 'l', 'l'] rest).map fun r => (.scalar .null, r)
  | 't' :: rest => (readWord? ['r', 'u', 'e'] rest).map fun r => (.scalar (.bool true), r)
  | 'f' :: rest => (readWord? ['a', 'l', 's', 'e'] rest).map fun r => (.scalar (.bool false), r)
  | cs => (readNumber? cs).map fun r => (.scalar r.1, r.2)

/-! ## Progress -/

theorem length_of_readString? {cs s rest : List Char} (h : readString? cs = some (s, rest)) :
    rest.length < cs.length := by
  fun_induction readString? cs generalizing s with
  | case1 => cases h; simp
  | case2 => cases h
  | case3 cs _ c t hc ih =>
    obtain ⟨⟨_, _⟩, hr, he⟩ := Option.map_eq_some_iff.1 h
    cases he
    exact Nat.lt_trans (ih hr) (length_of_readChar? hc)

theorem length_dropWhile_le (p : Char → Bool) (cs : List Char) : (cs.dropWhile p).length ≤ cs.length :=
  (List.dropWhile_sublist p).length_le

theorem length_dropWhile_lt {p : Char → Bool} {cs : List Char} (h : (cs.takeWhile p).isEmpty = false) :
    (cs.dropWhile p).length < cs.length := by
  have h0 : (cs.takeWhile p).length ≠ 0 := by
    intro h0
    rw [List.length_eq_zero_iff.1 h0] at h
    cases h
  have := congrArg List.length (List.takeWhile_append_dropWhile (p := p) (l := cs))
  rw [List.length_append] at this
  omega

theorem length_of_readPlaces? {cs rest : List Char} {p : Option (List Char)}
    (h : readPlaces? cs = some (p, rest)) : rest.length ≤ cs.length := by
  unfold readPlaces? at h
  split at h
  · simp only at h
    split at h
    · cases h
    · cases h
      exact Nat.le_succ_of_le (length_dropWhile_le _ _)
  · cases h; exact Nat.le_refl _

theorem length_of_readExponentDigits? {negative : Bool} {cs rest : List Char} {e : Option Int}
    (h : readExponentDigits? negative cs = some (e, rest)) : rest.length ≤ cs.length := by
  unfold readExponentDigits? at h
  simp only at h
  split at h
  · cases h
  · rw [← (Prod.mk.inj (Option.some.inj h)).2]
    exact length_dropWhile_le _ _

theorem length_of_readExponent? {cs rest : List Char} {e : Option Int}
    (h : readExponent? cs = some (e, rest)) : rest.length ≤ cs.length := by
  unfold readExponent? at h
  split at h
  · cases h; exact Nat.le_refl _
  · split at h
    · simp only [List.length_cons]
      split at h
      · have := length_of_readExponentDigits? h
        simp only [List.length_cons]; omega
      · have := length_of_readExponentDigits? h
        simp only [List.length_cons]; omega
      · have := length_of_readExponentDigits? h
        omega
    · cases h; exact Nat.le_refl _

theorem length_of_readUnsigned? {negative : Bool} {cs rest : List Char} {j : Json}
    (h : readUnsigned? negative cs = some (j, rest)) : rest.length < cs.length := by
  unfold readUnsigned? at h
  simp only at h
  split at h
  · cases h
  · next hw =>
    have hw : (cs.takeWhile Char.isDigit).isEmpty = false := by
      cases hd : (cs.takeWhile Char.isDigit).isEmpty
      · rfl
      · simp [hd] at hw
    obtain ⟨⟨places, r1⟩, h1, h⟩ := Option.bind_eq_some_iff.1 h
    obtain ⟨⟨e, r2⟩, h2, h⟩ := Option.bind_eq_some_iff.1 h
    have l0 := length_dropWhile_lt hw
    have l1 := length_of_readPlaces? h1
    have l2 : r2.length ≤ r1.length := length_of_readExponent? h2
    simp only at h
    split at h
    · obtain ⟨_, _, he⟩ := Option.map_eq_some_iff.1 h
      rw [← (Prod.mk.inj he).2]; omega
    · obtain ⟨_, _, he⟩ := Option.map_eq_some_iff.1 h
      rw [← (Prod.mk.inj he).2]; omega

theorem length_of_readNumber? {cs rest : List Char} {j : Json} (h : readNumber? cs = some (j, rest)) :
    rest.length < cs.length := by
  unfold readNumber? at h
  split at h
  · exact Nat.lt_succ_of_lt (length_of_readUnsigned? h)
  · exact length_of_readUnsigned? h

theorem length_of_readWord? {w cs rest : List Char} (h : readWord? w cs = some rest) :
    rest.length ≤ cs.length := by
  induction w generalizing cs with
  | nil => cases h; exact Nat.le_refl _
  | cons c w ih =>
    cases cs with
    | nil => cases h
    | cons d cs =>
      simp only [readWord?] at h
      split at h
      · exact Nat.le_succ_of_le (ih h)
      · cases h

/-- A symbol takes at least one character. -/
theorem length_lt_of_readSymbol? {cs rest : List Char} {s : Symbol}
    (h : readSymbol? cs = some (s, rest)) : rest.length < cs.length := by
  unfold readSymbol? at h
  split at h
  · cases h
  · cases h; simp
  · cases h; simp
  · cases h; simp
  · cases h; simp
  · cases h; simp
  · cases h; simp
  · obtain ⟨⟨_, _⟩, hr, he⟩ := Option.map_eq_some_iff.1 h
    cases he
    exact Nat.lt_succ_of_lt (length_of_readString? hr)
  · obtain ⟨_, hr, he⟩ := Option.map_eq_some_iff.1 h
    cases he
    exact Nat.lt_succ_of_le (length_of_readWord? hr)
  · obtain ⟨_, hr, he⟩ := Option.map_eq_some_iff.1 h
    cases he
    exact Nat.lt_succ_of_le (length_of_readWord? hr)
  · obtain ⟨_, hr, he⟩ := Option.map_eq_some_iff.1 h
    cases he
    exact Nat.lt_succ_of_le (length_of_readWord? hr)
  · obtain ⟨⟨_, _⟩, hr, he⟩ := Option.map_eq_some_iff.1 h
    cases he
    exact length_of_readNumber? hr

/-- The symbols of a text with white space between them. -/
def symbols? (cs : List Char) : Option (List Symbol) :=
  match _h : cs.dropWhile isSpace with
  | [] => some []
  | c :: rest =>
    match _hs : readSymbol? (c :: rest) with
    | none => none
    | some (s, rest) => (symbols? rest).map (s :: ·)
  termination_by cs.length
  decreasing_by
    have h1 := length_lt_of_readSymbol? _hs
    have h2 := length_dropWhile_le isSpace cs
    rw [_h] at h2
    omega

end SqlComposer.Json
