import SqlComposer.Proofs.Lexeme.PlainText

/-!
# Texts cut in front of a marker

A text without faults, markers and placeholders is read alike whether it ends or a marker follows it, and what
follows a marker is read like the start of a text.

* `Lexeme.IsWhole` : the lexemes of such a text;
* `Cursor.exists_lexemes_append` : the lexemes of such a text in front of a percent sign that starts a lexeme;
* `Cursor.lexemes_of_before_ne` : the character before a text matters only if it is a colon;
* `scan_marker` : a text with a marker in it, as the lexemes of the text before, the marker, and those of the text
  behind.
-/

namespace SqlComposer

/-- Neither a fault nor what takes a token. -/
def Lexeme.IsWhole : Lexeme → Prop
  | .text _ | .identifier _ | .string _ | .substitution _ _ => True
  | _ => False

namespace Cursor

variable {mode : ScanMode} {before : Option Char} {cs rest : List Char} {l : Lexeme} {c d : Cursor}

/-- The place with more text behind it. -/
def extend (rest : List Char) (c : Cursor) : Cursor :=
  { c with rest := c.rest ++ rest }

theorem span_append {p : Char → Bool} (h : rest.head?.any p = false) (cs : List Char) :
    (cs ++ rest).takeWhile p = cs.takeWhile p ∧ (cs ++ rest).dropWhile p = cs.dropWhile p ++ rest := by
  induction cs with
  | nil => cases rest <;> simp_all
  | cons c cs ih => by_cases hc : p c = true <;> simp [hc, ih]

/-! ## One lexeme in front of a percent sign -/

theorem nameAt?_append (hr : rest.head? = some '%') (cs : List Char) :
    nameAt? (cs ++ rest) = (nameAt? cs).map fun r => (r.1, r.2 ++ rest) := by
  have hp : rest.head?.any isNameChar = false := by
    rw [hr]
    decide
  obtain ⟨htake, hdrop⟩ := span_append hp cs
  rw [nameAt?, nameAt?, htake, hdrop]
  -- a name that the text leaves open is not closed by the percent sign
  cases cs.takeWhile isNameChar with
  | nil => rfl
  | cons c name =>
    cases hd : cs.dropWhile isNameChar with
    | nil =>
      obtain ⟨tail, rfl⟩ : ∃ tail, rest = '%' :: tail := List.head?_eq_some_iff.1 hr
      rfl
    | cons e tail =>
      by_cases he : e = ':'
      · subst he
        rfl
      · simp [he]

theorem readSubstitution?_append (hr : rest.head? = some '%') (before : Option Char) (cs : List Char) :
    readSubstitution? before (cs ++ rest) = (readSubstitution? before cs).map fun r => (r.1, r.2.extend rest) := by
  rw [readSubstitution?, readSubstitution?, nameAt?_append hr]
  split
  · rfl
  · cases nameAt? cs with
    | none => rfl
    | some r =>
      obtain ⟨name, tail⟩ := r
      have hn : isNameChar '%' = false := by decide
      cases tail with
      | nil => simp [hr, hn, extend]
      | cons e tail =>
        by_cases he : e = ':'
        · simp [he]
        · simp [he, extend]

theorem readQuoted_append {q : Char} {s r : List Char} (hr : rest.head? = some '%') (hq : q ≠ '%')
    (h : Text.readQuoted q cs = some (s, r)) : Text.readQuoted q (cs ++ rest) = some (s, r ++ rest) := by
  obtain ⟨rfl, hs⟩ := Text.eq_doubled_of_readQuoted h
  have hne : (r ++ rest).head? ≠ some q := by
    cases r with
    | nil =>
      rw [List.nil_append, hr]
      intro he
      exact hq (Option.some.inj he).symm
    | cons _ _ => exact hs
  rw [List.append_assoc, List.cons_append]
  exact Text.readQuoted_doubled hne

theorem readString_append {q : Char} (hr : rest.head? = some '%') (hq : q ≠ '%') (hl : (readString q cs).1.IsWhole) :
    readString q (cs ++ rest) = ((readString q cs).1, (readString q cs).2.extend rest) := by
  cases h : Text.readQuoted q cs with
  | none =>
    rw [readString, h] at hl
    exact hl.elim
  | some r => simp only [readString, h, readQuoted_append hr hq h, extend]

theorem readIdentifier_append {opening closing : Char} (hl : (readIdentifier opening closing cs).1.IsWhole) :
    readIdentifier opening closing (cs ++ rest) =
      ((readIdentifier opening closing cs).1, (readIdentifier opening closing cs).2.extend rest) := by
  cases h : cs.dropWhile (· != closing) with
  | nil =>
    rw [readIdentifier, h] at hl
    exact hl.elim
  | cons e tail =>
    have hsplit := List.takeWhile_append_dropWhile (p := (· != closing)) (l := cs)
    have he : (e != closing) = false := by
      have := List.head?_dropWhile_not (· != closing) cs
      simpa [h] using this
    have hall : ∀ x ∈ cs.takeWhile (· != closing), (x != closing) = true := List.all_eq_true.1 List.all_takeWhile
    have hlong : cs ++ rest = cs.takeWhile (· != closing) ++ e :: (tail ++ rest) := by
      rw [← List.cons_append, ← h, ← List.append_assoc, hsplit]
    have htake : (cs ++ rest).takeWhile (· != closing) = cs.takeWhile (· != closing) := by
      rw [hlong, List.takeWhile_append_of_pos hall, List.takeWhile_cons_of_neg (by simp [he]), List.append_nil]
    have hdrop : (cs ++ rest).dropWhile (· != closing) = e :: (tail ++ rest) := by
      rw [hlong, List.dropWhile_append_of_pos hall, List.dropWhile_cons_of_neg (by simp [he])]
    simp only [readIdentifier, h, htake, hdrop, extend]

/-- A lexeme starts where it starts without the percent sign behind the text. -/
theorem isSome_readSpecial?_append (hr : rest.head? = some '%') (before : Option Char) (x : Char) (cs : List Char) :
    (readSpecial? mode before (x :: (cs ++ rest))).isSome = (readSpecial? mode before (x :: cs)).isSome := by
  have hstart : (cs ++ rest).head?.any isMarkerStart = cs.head?.any isMarkerStart := by
    cases cs with
    | nil =>
      rw [List.nil_append, hr]
      decide
    | cons _ _ => rfl
  simp only [readSpecial?, hstart]
  split
  · rfl
  split
  · rfl
  split
  · rfl
  split
  · split <;> rfl
  split
  · rw [readSubstitution?_append hr, Option.isSome_map]
  split
  · split <;> rfl
  · rfl

theorem readSpecial?_append (hr : rest.head? = some '%') {x : Char}
    (h : readSpecial? mode before (x :: cs) = some (l, d)) (hl : l.IsWhole) :
    readSpecial? mode before (x :: (cs ++ rest)) = some (l, d.extend rest) := by
  simp only [readSpecial?] at h ⊢
  split at h
  · next hx =>
    have he := Option.some.inj h
    rw [if_pos hx, readIdentifier_append (by rw [he]; exact hl), he]
  next hgrave =>
  rw [if_neg hgrave]
  split at h
  · next hx =>
    have he := Option.some.inj h
    rw [if_pos hx, readIdentifier_append (by rw [he]; exact hl), he]
  next hbracket =>
  rw [if_neg hbracket]
  split at h
  · next hx =>
    have hq : x ≠ '%' := by
      rintro rfl
      revert hx
      decide
    have he := Option.some.inj h
    rw [if_pos hx, readString_append hr hq (by rw [he]; exact hl), he]
  next hquote =>
  rw [if_neg hquote]
  split at h
  · -- a marker is no whole lexeme
    split at h
    · obtain ⟨rfl, rfl⟩ := Prod.mk.inj (Option.some.inj h)
      exact hl.elim
    · cases h
  next hpercent =>
  rw [if_neg hpercent]
  split at h
  · next hx => rw [if_pos hx, readSubstitution?_append hr, h, Option.map_some]
  next hcolon =>
  rw [if_neg hcolon]
  split at h
  · split at h
    · obtain ⟨rfl, rfl⟩ := Prod.mk.inj (Option.some.inj h)
      exact hl.elim
    · cases h
  · cases h

/-! ## All lexemes -/

/-- A text in which a lexeme starts with the percent sign, whatever stands before it. -/
def StartsAtPercent (mode : ScanMode) (rest : List Char) : Prop :=
  rest.head? = some '%' ∧ ∀ before, (readSpecial? mode before rest).isSome = true

theorem readText_append (hr : StartsAtPercent mode rest) (before : Option Char) (cs : List Char) :
    readText mode before (cs ++ rest) = ((readText mode before cs).1, (readText mode before cs).2.extend rest) := by
  induction cs generalizing before with
  | nil =>
    obtain ⟨tail, rfl⟩ : ∃ tail, rest = '%' :: tail := by
      have hhead := hr.1
      cases rest <;> simp_all
    have hnil : readText mode before ('%' :: tail) = ([], ⟨before, '%' :: tail⟩) := by
      rw [readText]
      exact if_pos (hr.2 before)
    exact hnil
  | cons x cs ih =>
    rw [List.cons_append, readText, readText, isSome_readSpecial?_append hr.1, ih]
    split <;> rfl

theorem next?_append (hr : StartsAtPercent mode rest) (h : c.next? mode = some (l, d)) (hl : l.IsWhole) :
    (c.extend rest).next? mode = some (l, d.extend rest) := by
  obtain ⟨before, cs⟩ := c
  cases cs with
  | nil => cases h
  | cons x cs =>
    simp only [next?, extend, List.cons_append] at h ⊢
    cases hs : readSpecial? mode before (x :: cs) with
    | some r =>
      rw [hs] at h
      obtain rfl : r = (l, d) := Option.some.inj h
      rw [readSpecial?_append hr.1 hs hl]
      rfl
    | none =>
      have hnone : readSpecial? mode before (x :: (cs ++ rest)) = none := by
        rw [← Option.not_isSome_iff_eq_none, isSome_readSpecial?_append hr.1, hs]
        decide
      rw [hs] at h
      obtain ⟨rfl, rfl⟩ := Prod.mk.inj (Option.some.inj h)
      simp only [hnone, readText_append hr, extend]

theorem exists_lexemes_append (hr : StartsAtPercent mode rest) (c : Cursor) (hl : ∀ l ∈ c.lexemes mode, l.IsWhole) :
    ∃ b, (c.extend rest).lexemes mode = c.lexemes mode ++ lexemes mode ⟨b, rest⟩ := by
  fun_induction lexemes mode c with
  | case1 c h =>
    obtain ⟨before, cs⟩ := c
    cases cs with
    | nil => exact ⟨before, rfl⟩
    | cons x cs =>
      simp only [next?] at h
      split at h <;> cases h
  | case2 c l d h ih =>
    obtain ⟨b, hb⟩ := ih fun l hmem => hl l (List.mem_cons_of_mem _ hmem)
    refine ⟨b, ?_⟩
    rw [lexemes_cons (next?_append hr h (hl l List.mem_cons_self)), hb, List.cons_append]

/-- Only a colon before a text changes how the text is read. -/
theorem lexemes_of_before_ne (hb : before ≠ some ':') (cs : List Char) :
    lexemes mode ⟨before, cs⟩ = lexemes mode ⟨none, cs⟩ := by
  cases cs with
  | nil => rw [lexemes_nil, lexemes_nil]
  | cons x cs =>
    have hspecial : readSpecial? mode before (x :: cs) = readSpecial? mode none (x :: cs) := by
      have hnone : (none : Option Char) ≠ some ':' := by decide
      simp only [readSpecial?, readSubstitution?, if_neg hb, if_neg hnone]
    have hnext : next? mode ⟨before, x :: cs⟩ = next? mode ⟨none, x :: cs⟩ := by
      simp only [next?, hspecial]
    cases h : next? mode ⟨none, x :: cs⟩ with
    | none =>
      simp only [next?] at h
      split at h <;> cases h
    | some r =>
      obtain ⟨l, d⟩ := r
      rw [lexemes_cons (hnext.trans h), lexemes_cons h]

end Cursor

/-! ## Texts -/

theorem Cursor.before_readMarker_ne (cs : List Char) : (readMarker cs).2.before ≠ some ':' := by
  intro h
  have hchar : isMarkerChar ':' = true := List.all_eq_true.1 List.all_takeWhile _ (List.mem_of_getLast? h)
  revert hchar
  decide

theorem Cursor.exists_readSpecial?_marker {placeholders : Bool} {code : String} {after : List Char}
    (hc : (Marker.ofCode? code).isSome = true) (ha : after.head?.any isMarkerChar = false) (before : Option Char) :
    ∃ b, b ≠ some ':' ∧ readSpecial? (.fragment placeholders) before ((Slot.marker code).text.toList ++ after) =
      some (.marker code, ⟨b, after⟩) := by
  obtain ⟨b, hb⟩ := @Slot.exists_readSpecial? placeholders after (.marker code) ⟨hc, ha⟩ before
  refine ⟨b, ?_, hb⟩
  have htext : (Slot.marker code).text.toList ++ after = '%' :: (code.toList ++ after) := by simp [Slot.text]
  rw [htext, readSpecial?] at hb
  -- a percent sign starts a marker or nothing
  split at hb
  · next h => cases h
  split at hb
  · next h => cases h
  split at hb
  · next h => exact absurd h (by decide)
  split at hb
  · split at hb
    · have hne := before_readMarker_ne (code.toList ++ after)
      rwa [Option.some.inj hb] at hne
    · cases hb
  · next h => exact absurd rfl h

theorem startsAtPercent_marker {placeholders : Bool} {code : String} {after : List Char}
    (hc : (Marker.ofCode? code).isSome = true) (ha : after.head?.any isMarkerChar = false) :
    Cursor.StartsAtPercent (.fragment placeholders) ((Slot.marker code).text.toList ++ after) := by
  refine ⟨by simp [Slot.text], fun before => ?_⟩
  obtain ⟨b, hb⟩ := @Slot.exists_readSpecial? placeholders after (.marker code) ⟨hc, ha⟩ before
  rw [hb]
  rfl

/-- A marker does not change how the text before it is read, nor how the text behind it is. -/
theorem scan_marker {placeholders : Bool} {before code after : String}
    (hb : ∀ l ∈ scan (.fragment placeholders) before, l.IsWhole) (hc : (Marker.ofCode? code).isSome = true)
    (ha : after.toList.head?.any isMarkerChar = false) :
    scan (.fragment placeholders) (before ++ (Slot.marker code).text ++ after) =
      scan (.fragment placeholders) before ++ .marker code :: scan (.fragment placeholders) after := by
  obtain ⟨b, hscan⟩ := Cursor.exists_lexemes_append (startsAtPercent_marker hc ha) (Cursor.ofText before) hb
  obtain ⟨e, he, hread⟩ := @Cursor.exists_readSpecial?_marker placeholders _ _ hc ha b
  have htext : Cursor.ofText (before ++ (Slot.marker code).text ++ after) =
      (Cursor.ofText before).extend ((Slot.marker code).text.toList ++ after.toList) := by
    simp only [Cursor.ofText, Cursor.extend, String.toList_append, List.append_assoc]
  rw [scan, htext, hscan, Cursor.lexemes_special hread, Cursor.lexemes_of_before_ne he]
  rfl

end SqlComposer
