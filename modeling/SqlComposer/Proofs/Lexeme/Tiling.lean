import SqlComposer.Proofs.Lexeme.Names

/-!
# Lexemes cover the text

The calls that read a text to its end take all of its characters, in order, each call at least one of them, and each lexeme
is the reading of the characters that its call takes.

* `StartsLexeme` : where a lexeme that is not plain text starts; `Cursor.readSpecial?_eq_none_iff` : there one is read;
* `Lexeme.Covers` : a lexeme is the reading of some characters, between what stands in front of them and behind them;
* `Cursor.Calls` : the calls from a place on, until there is nothing more;
* `Cursor.exists_takes_of_next?` : one call; `Cursor.exists_calls` : all of them;
* `scan_tiles` : the calls for a whole text.
-/

namespace SqlComposer

/-! ## What is read where -/

/-- The quotes around identifiers in a text. -/
def identifierQuotes : List (Char × Char) :=
  [('\x60', '\x60'), ('[', ']')]

/-- The quotes around strings in a text. -/
def stringQuotes : List Char :=
  ['\'', '"']

theorem opening_mem_quoteMarks : ∀ q ∈ identifierQuotes, q.1 ∈ quoteMarks := by
  simp [identifierQuotes, quoteMarks]

theorem stringQuotes_subset : ∀ q ∈ stringQuotes, q ∈ quoteMarks := by
  simp [stringQuotes, quoteMarks]

/-- A name as it stands between colons. -/
def IsName (name : List Char) : Prop :=
  name ≠ [] ∧ ∀ c ∈ name, isNameChar c = true

/-- A lexeme that is not plain text starts here; `before` is the character in front. -/
inductive StartsLexeme (mode : ScanMode) (before : Option Char) : List Char → Prop
  | quote {q : Char} {cs : List Char} (hq : q ∈ quoteMarks) : StartsLexeme mode before (q :: cs)
  | marker {c : Char} {cs : List Char} (read : mode.markers = true) (start : isMarkerStart c = true) :
      StartsLexeme mode before ('%' :: c :: cs)
  | placeholder {cs : List Char} (read : mode.placeholders = true) : StartsLexeme mode before ('?' :: cs)
  | substitution {name rest : List Char} (hname : IsName name) (hbefore : before ≠ some ':')
      (hbehind : rest.head? ≠ some ':') : StartsLexeme mode before (':' :: (name ++ ':' :: rest))

/-- The lexeme is the reading of some characters, where `front` stands in front of them and `rest` behind. -/
inductive Lexeme.Covers (mode : ScanMode) (front rest : List Char) : Lexeme → List Char → Prop
  /-- Plain text, in which no other lexeme starts. -/
  | text {cs : List Char} (ne : cs ≠ [])
      (plain : ∀ a b, cs = a ++ b → b ≠ [] → ¬StartsLexeme mode (front ++ a).getLast? (b ++ rest)) :
      Covers mode front rest (.text (String.ofList cs)) cs
  /-- Quotes of an identifier with nothing between them. -/
  | emptyPair {q : Char × Char} (hq : q ∈ identifierQuotes) :
      Covers mode front rest (.text (String.ofList [q.1, q.2])) [q.1, q.2]
  | identifier {q : Char × Char} {name : List Char} (hq : q ∈ identifierQuotes) (ne : name ≠ []) (inside : q.2 ∉ name) :
      Covers mode front rest (.identifier (String.ofList name)) (q.1 :: (name ++ [q.2]))
  /-- Inside a string its quote is doubled. -/
  | string {q : Char} {s : List Char} (hq : q ∈ stringQuotes) (closed : rest.head? ≠ some q) :
      Covers mode front rest (.string (String.ofList s)) (Text.enclosed q q s)
  /-- A quote behind which no string is closed. -/
  | aloneQuote {q : Char} (hq : q ∈ stringQuotes)
      (alone : ∀ s r, rest = Text.doubled q s ++ q :: r → r.head? = some q) : Covers mode front rest .aloneQuote [q]
  | unterminatedIdentifier {q : Char × Char} (hq : q ∈ identifierQuotes) (alone : q.2 ∉ rest) :
      Covers mode front rest .unterminatedIdentifier [q.1]
  /-- As many marker characters as there are, and no more than a code may have. -/
  | marker {code : List Char} (read : mode.markers = true) (start : code.head?.any isMarkerStart = true)
      (chars : ∀ c ∈ code, isMarkerChar c = true) (short : code.length ≤ maxMarkerLength)
      (longest : code.length = maxMarkerLength ∨ rest.head?.any isMarkerChar = false) :
      Covers mode front rest (.marker (String.ofList code)) ('%' :: code)
  | substitution {name : List Char} (hname : IsName name) (hbefore : front.getLast? ≠ some ':')
      (hbehind : rest.head? ≠ some ':') :
      Covers mode front rest (.substitution (String.ofList name) (rest.head?.any fun c => isNameChar c || c == '.'))
        (':' :: (name ++ [':']))
  | placeholder (read : mode.placeholders = true) : Covers mode front rest .placeholder ['?']

variable {mode : ScanMode} {before : Option Char} {front cs name rest span : List Char} {c d : Cursor} {l : Lexeme}

/-! ## Names -/

theorem isNameChar_colon : isNameChar ':' = false := by decide

theorem nameAt?_eq_some_iff : nameAt? cs = some (name, rest) ↔ IsName name ∧ cs = name ++ ':' :: rest := by
  constructor
  · intro h
    have hcs := eq_of_nameAt? h
    unfold nameAt? at h
    split at h
    · next c n r hn hr =>
      cases h
      have hall : (cs.takeWhile isNameChar).all isNameChar = true := List.all_takeWhile
      rw [hn] at hall
      exact ⟨⟨List.cons_ne_nil _ _, List.all_eq_true.1 hall⟩, hcs⟩
    · cases h
  · rintro ⟨⟨hne, hall⟩, rfl⟩
    obtain ⟨c, n, rfl⟩ := List.exists_cons_of_ne_nil hne
    rw [nameAt?, List.takeWhile_append_of_pos hall, List.dropWhile_append_of_pos hall,
      List.takeWhile_cons_of_neg (by rw [isNameChar_colon]; decide),
      List.dropWhile_cons_of_neg (by rw [isNameChar_colon]; decide), List.append_nil]
    rfl

namespace Cursor

/-! ## Quotes -/

section quotes

variable {opening closing q : Char} {s : List Char}

/-- A name ends at its first closing quote. -/
theorem readIdentifier_closed (h : closing ∉ name) : readIdentifier opening closing (name ++ closing :: rest) =
    (if name.isEmpty then .text (String.ofList [opening, closing]) else .identifier (String.ofList name),
      ⟨some closing, rest⟩) := by
  have hname : ∀ c ∈ name, (c != closing) = true := fun c hc => bne_iff_ne.2 fun hcc => h (hcc ▸ hc)
  simp [readIdentifier, List.takeWhile_append_of_pos hname, List.dropWhile_append_of_pos hname]

theorem readIdentifier_open (h : closing ∉ cs) :
    readIdentifier opening closing cs = (.unterminatedIdentifier, ⟨some opening, cs⟩) := by
  have hdrop : cs.dropWhile (· != closing) = [] :=
    List.dropWhile_eq_nil_iff.2 fun c hc => bne_iff_ne.2 fun hcc => h (hcc ▸ hc)
  rw [readIdentifier, hdrop]

theorem readString_closed (h : rest.head? ≠ some q) :
    readString q (Text.doubled q s ++ q :: rest) = (.string (String.ofList s), ⟨some q, rest⟩) := by
  rw [readString, Text.readQuoted_doubled h]

theorem readString_alone (h : ∀ s r, cs = Text.doubled q s ++ q :: r → r.head? = some q) :
    readString q cs = (.aloneQuote, ⟨some q, cs⟩) := by
  cases hread : Text.readQuoted q cs with
  | none => rw [readString, hread]
  | some r =>
    obtain ⟨hcs, closed⟩ := Text.eq_doubled_of_readQuoted hread
    exact absurd (h r.1 r.2 hcs) closed

/-- Behind a quote stands a text that is closed, or none. -/
theorem closed_or_alone (q : Char) (cs : List Char) :
    (∃ s rest, cs = Text.doubled q s ++ q :: rest ∧ rest.head? ≠ some q) ∨
      ∀ s r, cs = Text.doubled q s ++ q :: r → r.head? = some q := by
  by_cases h : ∃ s rest, cs = Text.doubled q s ++ q :: rest ∧ rest.head? ≠ some q
  · exact .inl h
  · exact .inr fun s r hcs => by_contra fun hr => h ⟨s, r, hcs, hr⟩

end quotes

theorem readSubstitution?_eq_some_iff : readSubstitution? before cs = some (l, d) ↔
    ∃ name rest, IsName name ∧ before ≠ some ':' ∧ rest.head? ≠ some ':' ∧ cs = name ++ ':' :: rest ∧
      l = .substitution (String.ofList name) (rest.head?.any fun c => isNameChar c || c == '.') ∧
      d = ⟨some ':', rest⟩ := by
  constructor
  · intro h
    unfold readSubstitution? at h
    split at h
    · cases h
    · next hb =>
      split at h
      · cases h
      · next name rest hn =>
        split at h
        · cases h
        · next hr =>
          cases h
          obtain ⟨hname, hcs⟩ := nameAt?_eq_some_iff.1 hn
          exact ⟨name, rest, hname, hb, hr, hcs, rfl, rfl⟩
  · rintro ⟨name, rest, hname, hb, hr, hcs, rfl, rfl⟩
    rw [readSubstitution?, if_neg hb, nameAt?_eq_some_iff.2 ⟨hname, hcs⟩]
    simp only [if_neg hr]

/-! ## Where lexemes start -/

/-- What is read where a special character stands. -/
inductive Special (mode : ScanMode) (before : Option Char) : List Char → Lexeme × Cursor → Prop
  | identifier {q : Char × Char} {cs : List Char} (hq : q ∈ identifierQuotes) :
      Special mode before (q.1 :: cs) (readIdentifier q.1 q.2 cs)
  | string {q : Char} {cs : List Char} (hq : q ∈ stringQuotes) : Special mode before (q :: cs) (readString q cs)
  | marker {cs : List Char} (read : mode.markers = true) (start : cs.head?.any isMarkerStart = true) :
      Special mode before ('%' :: cs) (readMarker cs)
  | substitution {cs : List Char} {r : Lexeme × Cursor} (h : readSubstitution? before cs = some r) :
      Special mode before (':' :: cs) r
  | placeholder {cs : List Char} (read : mode.placeholders = true) :
      Special mode before ('?' :: cs) (.placeholder, ⟨some '?', cs⟩)

theorem special_of_readSpecial? {r : Lexeme × Cursor} (h : readSpecial? mode before cs = some r) :
    Special mode before cs r := by
  cases cs with
  | nil => cases h
  | cons c cs =>
    simp only [readSpecial?] at h
    split at h
    · next hc =>
      obtain rfl := Option.some.inj h
      subst hc
      exact .identifier (q := ('\x60', '\x60')) (by decide)
    split at h
    · next hc =>
      obtain rfl := Option.some.inj h
      subst hc
      exact .identifier (q := ('[', ']')) (by decide)
    split at h
    · next hc =>
      obtain rfl := Option.some.inj h
      exact .string (by simpa [stringQuotes] using hc)
    split at h
    · next hc =>
      split at h
      · next hm =>
        obtain rfl := Option.some.inj h
        rw [Bool.and_eq_true] at hm
        subst hc
        exact .marker hm.1 hm.2
      · cases h
    split at h
    · next hc =>
      subst hc
      exact .substitution h
    split at h
    · next hc =>
      split at h
      · next hp =>
        obtain rfl := Option.some.inj h
        subst hc
        exact .placeholder hp
      · cases h
    · cases h

theorem startsLexeme_of_special {r : Lexeme × Cursor} (h : Special mode before cs r) : StartsLexeme mode before cs := by
  cases h with
  | identifier hq => exact .quote (opening_mem_quoteMarks _ hq)
  | string hq => exact .quote (stringQuotes_subset _ hq)
  | @marker cs read start =>
    obtain ⟨c, hc, hstart⟩ := (Option.any_eq_true _ _).1 start
    obtain ⟨tail, rfl⟩ := List.head?_eq_some_iff.1 hc
    exact .marker read hstart
  | substitution h =>
    obtain ⟨l, d⟩ := r
    obtain ⟨name, rest, hname, hb, hr, hcs, -, -⟩ := readSubstitution?_eq_some_iff.1 h
    rw [hcs]
    exact .substitution hname hb hr
  | placeholder read => exact .placeholder read

theorem isSome_of_startsLexeme (h : StartsLexeme mode before cs) : (readSpecial? mode before cs).isSome = true := by
  cases h with
  | @quote q cs hq =>
    simp only [quoteMarks, List.mem_cons, List.not_mem_nil, or_false] at hq
    rcases hq with rfl | rfl | rfl | rfl <;> rfl
  | marker read start => simp [readSpecial?, read, start]
  | placeholder read => simp [readSpecial?, read]
  | @substitution name rest hname hb hr =>
    have hread := readSubstitution?_eq_some_iff.2 ⟨name, rest, hname, hb, hr, rfl, rfl, rfl⟩
    simp [readSpecial?, hread]

/-- Nothing but plain text is read where no lexeme starts, and only there. -/
theorem readSpecial?_eq_none_iff : readSpecial? mode before cs = none ↔ ¬StartsLexeme mode before cs := by
  constructor
  · intro h hs
    have := isSome_of_startsLexeme hs
    rw [h] at this
    cases this
  · intro h
    cases hs : readSpecial? mode before cs with
    | none => rfl
    | some r => exact absurd (startsLexeme_of_special (special_of_readSpecial? hs)) h

/-! ## One call -/

/-- Behind `front` some characters are taken from a text: the lexeme is their reading, and the place behind them knows the
last of them. -/
structure Takes (mode : ScanMode) (front cs span : List Char) (l : Lexeme) (d : Cursor) : Prop where
  ne : span ≠ []
  split : cs = span ++ d.rest
  before : d.before = (front ++ span).getLast?
  covers : l.Covers mode front d.rest span

theorem getLast?_append_concat (front cs : List Char) (c : Char) : (front ++ (cs ++ [c])).getLast? = some c := by
  rw [← List.append_assoc, List.getLast?_concat]

theorem exists_takes_readIdentifier {opening closing : Char} (hq : (opening, closing) ∈ identifierQuotes)
    (mode : ScanMode) (front cs : List Char) :
    ∃ span, Takes mode front (opening :: cs) span (readIdentifier opening closing cs).1
      (readIdentifier opening closing cs).2 := by
  by_cases hmem : closing ∈ cs
  · obtain ⟨name, rest, rfl, inside⟩ := List.eq_append_cons_of_mem hmem
    rw [readIdentifier_closed inside]
    refine ⟨opening :: (name ++ [closing]), List.cons_ne_nil _ _, by simp,
      (getLast?_append_concat front (opening :: name) closing).symm, ?_⟩
    cases name with
    | nil => exact .emptyPair hq
    | cons c name => exact .identifier hq (List.cons_ne_nil _ _) inside
  · rw [readIdentifier_open hmem]
    exact ⟨[opening], List.cons_ne_nil _ _, rfl, List.getLast?_concat.symm, .unterminatedIdentifier hq hmem⟩

theorem exists_takes_readString {quote : Char} (hq : quote ∈ stringQuotes) (mode : ScanMode) (front cs : List Char) :
    ∃ span, Takes mode front (quote :: cs) span (readString quote cs).1 (readString quote cs).2 := by
  obtain ⟨s, rest, rfl, closed⟩ | alone := closed_or_alone quote cs
  · rw [readString_closed closed]
    exact ⟨Text.enclosed quote quote s, List.cons_ne_nil _ _, by simp [Text.enclosed],
      (getLast?_append_concat front (quote :: Text.doubled quote s) quote).symm, .string hq closed⟩
  · rw [readString_alone alone]
    exact ⟨[quote], List.cons_ne_nil _ _, rfl, List.getLast?_concat.symm, .aloneQuote hq alone⟩

theorem isMarkerChar_of_isMarkerStart {c : Char} (h : isMarkerStart c = true) : isMarkerChar c = true := by
  rw [isMarkerStart, Bool.or_eq_true] at h
  rw [isMarkerChar, Char.isAlphanum, Bool.or_eq_true, Bool.or_eq_true]
  exact h.imp_left .inl

/-- The code of a marker ends where there are no more marker characters, or where it is as long as it may be. -/
theorem longest_code (cs : List Char) :
    ((cs.take maxMarkerLength).takeWhile isMarkerChar).length = maxMarkerLength ∨
      (cs.drop ((cs.take maxMarkerLength).takeWhile isMarkerChar).length).head?.any isMarkerChar = false := by
  have hsplit := List.takeWhile_append_dropWhile (p := isMarkerChar) (l := cs.take maxMarkerLength)
  have hcs : cs = (cs.take maxMarkerLength).takeWhile isMarkerChar ++
      ((cs.take maxMarkerLength).dropWhile isMarkerChar ++ cs.drop maxMarkerLength) := by
    rw [← List.append_assoc, hsplit, List.take_append_drop]
  generalize hcode : (cs.take maxMarkerLength).takeWhile isMarkerChar = code at hsplit hcs ⊢
  cases hd : (cs.take maxMarkerLength).dropWhile isMarkerChar with
  | nil =>
    rw [hd, List.append_nil] at hsplit
    by_cases hlong : maxMarkerLength ≤ cs.length
    · left
      rw [hsplit, List.length_take, Nat.min_eq_left hlong]
    · right
      have hall : code = cs := by rw [hsplit, List.take_of_length_le (by omega)]
      rw [hall, List.drop_length]
      rfl
  | cons e tail =>
    right
    have he : isMarkerChar e = false := by
      have := List.head?_dropWhile_not isMarkerChar (cs.take maxMarkerLength)
      simpa [hd] using this
    rw [hd] at hcs
    rw [hcs, List.drop_left]
    exact he

theorem exists_takes_readMarker (read : mode.markers = true) (hstart : cs.head?.any isMarkerStart = true)
    (front : List Char) : ∃ span, Takes mode front ('%' :: cs) span (readMarker cs).1 (readMarker cs).2 := by
  obtain ⟨c, tail, rfl⟩ : ∃ c tail, cs = c :: tail := by
    cases cs with
    | nil => cases hstart
    | cons c tail => exact ⟨c, tail, rfl⟩
  have hchar : isMarkerChar c = true := isMarkerChar_of_isMarkerStart hstart
  have hcode : ∃ code, ((c :: tail).take maxMarkerLength).takeWhile isMarkerChar = c :: code :=
    ⟨_, List.takeWhile_cons_of_pos hchar⟩
  have hprefix := (List.takeWhile_prefix isMarkerChar (l := (c :: tail).take maxMarkerLength)).trans
    (List.take_prefix _ _)
  have hall : (((c :: tail).take maxMarkerLength).takeWhile isMarkerChar).all isMarkerChar = true :=
    List.all_takeWhile
  have hshort : (((c :: tail).take maxMarkerLength).takeWhile isMarkerChar).length ≤ maxMarkerLength :=
    (List.takeWhile_prefix _).length_le.trans (List.length_take_le _ _)
  have hlongest := longest_code (c :: tail)
  unfold readMarker
  generalize ((c :: tail).take maxMarkerLength).takeWhile isMarkerChar = code at *
  obtain ⟨code, rfl⟩ := hcode
  refine ⟨'%' :: c :: code, List.cons_ne_nil _ _, ?_, ?_, .marker read hstart (List.all_eq_true.1 hall) hshort hlongest⟩
  · rw [List.cons_append, List.prefix_iff_eq_append.1 hprefix]
  · simp [List.getLast?_append, List.getLast?_cons]

/-- A special character is read with what belongs to it. -/
theorem Special.exists_takes {r : Lexeme × Cursor} (h : Special mode front.getLast? cs r) :
    ∃ span, Takes mode front cs span r.1 r.2 := by
  cases h with
  | identifier hq => exact exists_takes_readIdentifier hq mode front _
  | string hq => exact exists_takes_readString hq mode front _
  | marker read start => exact exists_takes_readMarker read start front
  | substitution h =>
    obtain ⟨l, d⟩ := r
    obtain ⟨name, rest, hname, hb, hr, rfl, rfl, rfl⟩ := readSubstitution?_eq_some_iff.1 h
    exact ⟨':' :: (name ++ [':']), List.cons_ne_nil _ _, by simp,
      (getLast?_append_concat front (':' :: name) ':').symm, .substitution hname hb hr⟩
  | placeholder read => exact ⟨['?'], List.cons_ne_nil _ _, rfl, List.getLast?_concat.symm, .placeholder read⟩

/-- Plain text is read up to where another lexeme starts. -/
theorem readText_takes (front cs : List Char) :
    cs = (readText mode front.getLast? cs).1 ++ (readText mode front.getLast? cs).2.rest ∧
      (readText mode front.getLast? cs).2.before = (front ++ (readText mode front.getLast? cs).1).getLast? ∧
      ∀ a b, (readText mode front.getLast? cs).1 = a ++ b → b ≠ [] →
        ¬StartsLexeme mode (front ++ a).getLast? (b ++ (readText mode front.getLast? cs).2.rest) := by
  induction cs generalizing front with
  | nil =>
    exact ⟨rfl, by rw [readText, List.append_nil], fun a b hab hb => absurd (List.append_eq_nil_iff.1 hab.symm).2 hb⟩
  | cons c cs ih =>
    cases hs : readSpecial? mode front.getLast? (c :: cs) with
    | some r =>
      rw [readText_special hs]
      exact ⟨rfl, by rw [List.append_nil], fun a b hab hb => absurd (List.append_eq_nil_iff.1 hab.symm).2 hb⟩
    | none =>
      have hrest := ih (front ++ [c])
      rw [List.getLast?_concat] at hrest
      rw [readText_cons hs]
      generalize readText mode (some c) cs = r at hrest
      obtain ⟨hcs, hbefore, hplain⟩ := hrest
      refine ⟨by rw [List.cons_append, ← hcs], by rw [hbefore, List.append_assoc]; rfl, fun a b hab hb => ?_⟩
      cases a with
      | nil =>
        rw [List.nil_append] at hab
        rw [← hab, List.append_nil, List.cons_append, ← hcs]
        exact readSpecial?_eq_none_iff.1 hs
      | cons x a =>
        obtain ⟨rfl, htail⟩ := List.cons.inj hab
        have hlater := hplain a b htail hb
        rwa [List.append_assoc] at hlater

/-- A call takes characters of which its lexeme is the reading. -/
theorem exists_takes_of_next? (hb : c.before = front.getLast?) (h : c.next? mode = some (l, d)) :
    ∃ span, Takes mode front c.rest span l d := by
  obtain ⟨before, cs⟩ := c
  obtain rfl : before = front.getLast? := hb
  cases cs with
  | nil => cases h
  | cons x cs =>
    cases hs : readSpecial? mode front.getLast? (x :: cs) with
    | some r =>
      rw [next?_special hs] at h
      cases h
      exact (special_of_readSpecial? hs).exists_takes
    | none =>
      obtain ⟨hcs, hbefore, hplain⟩ := @readText_takes mode front (x :: cs)
      simp only [next?, hs] at h
      cases h
      rw [readText_cons hs] at hcs hbefore hplain
      exact ⟨_, List.cons_ne_nil _ _, hcs, hbefore, .text (List.cons_ne_nil _ _) hplain⟩

theorem rest_of_next?_eq_none (h : c.next? mode = none) : c.rest = [] := by
  unfold next? at h
  split at h
  · assumption
  · split at h <;> cases h

/-! ## All calls -/

/-- The calls from a place on, each with its lexeme and the characters that it takes, until there is nothing more. -/
inductive Calls (mode : ScanMode) : Cursor → List (Lexeme × List Char) → Prop
  | finished {c : Cursor} (h : c.next? mode = none) : Calls mode c []
  | call {c d : Cursor} {l : Lexeme} {span : List Char} {calls : List (Lexeme × List Char)}
      (h : c.next? mode = some (l, d)) (split : c.rest = span ++ d.rest) (later : Calls mode d calls) :
      Calls mode c ((l, span) :: calls)

end Cursor

/-- The characters that calls take, in order. -/
def taken (calls : List (Lexeme × List Char)) : List Char :=
  calls.flatMap Prod.snd

/-- From any place the calls come to an end. They take all that is left of the text, and each lexeme is the reading of what
its call takes. -/
theorem Cursor.exists_calls (hb : c.before = front.getLast?) :
    ∃ calls, c.Calls mode calls ∧ c.lexemes mode = calls.map Prod.fst ∧ taken calls = c.rest ∧
      ∀ earlier l span later, calls = earlier ++ (l, span) :: later →
        span ≠ [] ∧ l.Covers mode (front ++ taken earlier) (taken later) span := by
  induction c using lexemes.induct mode generalizing front with
  | case1 c hc =>
    refine ⟨[], .finished hc, ?_, (rest_of_next?_eq_none hc).symm, fun earlier l span later h => ?_⟩
    · rw [lexemes, hc]
      rfl
    · simp at h
  | case2 c l d hc ih =>
    obtain ⟨span, htakes⟩ := exists_takes_of_next? hb hc
    obtain ⟨calls, hcalls, hlexemes, htaken, hcovers⟩ := ih htakes.before
    refine ⟨(l, span) :: calls, .call hc htakes.split hcalls, ?_, ?_, fun earlier l' span' later h => ?_⟩
    · rw [lexemes_cons hc, hlexemes, List.map_cons]
    · rw [taken, List.flatMap_cons, htakes.split, ← htaken, taken]
    · cases earlier with
      | nil =>
        obtain ⟨⟨rfl, rfl⟩, rfl⟩ : (l = l' ∧ span = span') ∧ calls = later := by simpa using h
        rw [htaken, taken, List.flatMap_nil, List.append_nil]
        exact ⟨htakes.ne, htakes.covers⟩
      | cons call earlier =>
        obtain ⟨rfl, htail⟩ := List.cons.inj h
        have hlater := hcovers earlier l' span' later htail
        rwa [List.append_assoc] at hlater

/-! ## Whole texts -/

/-- In bytes, the place behind some characters lies further on in the text than the place in front of them, and not inside
a character. -/
structure Advances (text : String) (front span : List Char) : Prop where
  forward : (String.ofList front).rawEndPos < (String.ofList (front ++ span)).rawEndPos
  boundary : (String.ofList (front ++ span)).rawEndPos.IsValid text

theorem advances {text : String} (ne : span ≠ []) (h : text.toList = front ++ (span ++ rest)) :
    Advances text front span where
  forward := by
    have hpos : 0 < (String.ofList span).utf8ByteSize := by
      rw [Nat.pos_iff_ne_zero, Ne, String.utf8ByteSize_eq_zero_iff, ← String.toList_inj, String.toList_ofList]
      exact ne
    rw [String.ofList_append, String.Pos.Raw.lt_iff, String.byteIdx_rawEndPos, String.byteIdx_rawEndPos,
      String.utf8ByteSize_append]
    omega
  boundary := by
    refine String.Pos.Raw.isValid_iff_exists_append.2 ⟨_, String.ofList rest, ?_, rfl⟩
    rw [← String.toList_inj, ← String.ofList_append, String.toList_ofList, h, List.append_assoc]

/-- No quotes of strings, and quotes of identifiers only as a pair with nothing around it and nothing between. -/
structure KeepsQuotes (text : List Char) : Prop where
  strings : ∀ q ∈ stringQuotes, q ∉ text
  identifiers : ∀ q ∈ identifierQuotes, q.1 ∈ text → text = [q.1, q.2]

theorem Lexeme.Covers.keepsQuotes {s : String} (h : Lexeme.Covers mode front rest (.text s) span) :
    KeepsQuotes s.toList := by
  generalize hl : Lexeme.text s = l at h
  cases h with
  | text ne plain =>
    obtain rfl := Lexeme.text.inj hl
    rw [String.toList_ofList]
    have hnone (q : Char) (hq : q ∈ quoteMarks) : q ∉ span := by
      intro hmem
      obtain ⟨a, b, rfl⟩ := List.append_of_mem hmem
      exact plain a (q :: b) rfl (List.cons_ne_nil _ _) (.quote hq)
    exact ⟨fun q hq => hnone q (stringQuotes_subset q hq),
      fun q hq hmem => absurd hmem (hnone q.1 (opening_mem_quoteMarks q hq))⟩
  | emptyPair hq =>
    obtain rfl := Lexeme.text.inj hl
    rw [String.toList_ofList]
    simp only [identifierQuotes, List.mem_cons, List.not_mem_nil, or_false] at hq
    rcases hq with rfl | rfl <;> exact ⟨by simp [stringQuotes], by simp [identifierQuotes]⟩
  | _ => cases hl

/-- The calls for a text come to an end and take all of it, in order. Each goes forward to the start of a character or to
the end, its lexeme is the reading of the characters that it takes, and plain text keeps no quotes. -/
theorem scan_tiles (mode : ScanMode) (text : String) :
    ∃ calls, (Cursor.ofText text).Calls mode calls ∧ scan mode text = calls.map Prod.fst ∧ taken calls = text.toList ∧
      ∀ earlier l span later, calls = earlier ++ (l, span) :: later →
        Advances text (taken earlier) span ∧ l.Covers mode (taken earlier) (taken later) span ∧
          ∀ s, l = .text s → KeepsQuotes s.toList := by
  obtain ⟨calls, hcalls, hlexemes, htaken, hcovers⟩ := @Cursor.exists_calls mode [] (.ofText text) rfl
  refine ⟨calls, hcalls, hlexemes, htaken, ?_⟩
  rintro earlier l span later rfl
  obtain ⟨ne, hl⟩ := hcovers earlier l span later rfl
  rw [List.nil_append] at hl
  have htext : text.toList = taken earlier ++ (span ++ taken later) := by
    show (Cursor.ofText text).rest = _
    rw [← htaken, taken, List.flatMap_append, List.flatMap_cons]
    rfl
  refine ⟨advances ne htext, hl, ?_⟩
  rintro s rfl
  exact hl.keepsQuotes

end SqlComposer
