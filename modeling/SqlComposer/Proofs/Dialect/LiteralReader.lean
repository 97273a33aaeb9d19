import Mathlib.Tactic.SplitIfs
import SqlComposer.Dialect.Basic
import SqlComposer.Proofs.Text.Hex

/-!
# Literals read back

A database reads a text literal by rules of its own. Doubled quotes stand for a quote everywhere; in the
`mysql` dialect a backslash escapes as well.

* `escapeValue`, `readBackslashed` : a text in which the backslash escapes, up to its closing quote;
* `Kind.readText?` : the text literal at the start of a text, with what follows it;
* `Kind.binaryQuotes` : what stands around the digits of a binary literal;
* `readBackslashed_backslashed`, `Kind.readText?_text` : what was written is read, whatever follows;
* `literal_read_back` : the literals of the known dialects.
-/

namespace SqlComposer.Dialect

/-! ## Readers -/

/-- What a backslash and the character behind it stand for. Before a wildcard the backslash stays, since a
pattern needs it there; before any other character without a meaning of its own it goes. -/
def escapeValue (c : Char) : List Char :=
  if c = '0' then ['\x00']
  else if c = 'b' then ['\x08']
  else if c = 't' then ['\t']
  else if c = 'n' then ['\n']
  else if c = 'r' then ['\r']
  else if c = 'Z' then ['\x1a']
  else if c = '%' ∨ c = '_' then ['\\', c]
  else [c]

/-- The content up to the first `q` that is neither escaped nor doubled, and the text after that quote. -/
def readBackslashed (q : Char) : List Char → Option (List Char × List Char)
  | [] => none
  | c :: s =>
    if c = '\\' then
      match s with
      | [] => none
      | d :: t => (readBackslashed q t).map fun r => (escapeValue d ++ r.1, r.2)
    else if c = q then
      match s with
      | [] => some ([], [])
      | d :: t => if d = q then (readBackslashed q t).map fun r => (q :: r.1, r.2) else some ([], d :: t)
    else
      (readBackslashed q s).map fun r => (c :: r.1, r.2)

/-- The content of the text literal at the start of a text, and the text after the literal. -/
def Kind.readText? (k : Kind) (cs : List Char) : Option (List Char × List Char) :=
  match k, cs with
  | mysql, '\'' :: r => readBackslashed '\'' r
  | sqlserver, 'N' :: '\'' :: r => Text.readQuoted '\'' r
  | generic, '\'' :: r | sqlite, '\'' :: r | postgres, '\'' :: r => Text.readQuoted '\'' r
  | _, _ => none

/-- What stands before and after the digits of a binary literal. -/
def Kind.binaryQuotes : Kind → List Char × List Char
  | postgres => ("'\\x".toList, "'::bytea".toList)
  | sqlserver => ("0x".toList, [])
  | _ => ("X'".toList, ['\''])

/-! ## Text -/

/-- One character as it is written is read as that character. -/
theorem readBackslashed_append_backslashed (c : Char) (t : List Char) :
    readBackslashed '\'' (backslashed c ++ t) = (readBackslashed '\'' t).map fun r => (c :: r.1, r.2) := by
  unfold backslashed
  split_ifs with h0 hn hr hz hq
  · subst h0; rfl
  · subst hn; rfl
  · subst hr; rfl
  · subst hz; rfl
  · rcases hq with rfl | rfl | rfl <;> rfl
  · have hb : c ≠ '\\' := fun e => hq (.inl e)
    have hs : c ≠ '\'' := fun e => hq (.inr (.inl e))
    rw [List.singleton_append, readBackslashed.eq_def]
    simp [hb, hs]

theorem readBackslashed_backslashed {r : List Char} (h : r.head? ≠ some '\'') (s : List Char) :
    readBackslashed '\'' (s.flatMap backslashed ++ '\'' :: r) = some (s, r) := by
  induction s with
  | nil => cases r <;> simp_all [readBackslashed]
  | cons c s ih =>
    rw [List.flatMap_cons, List.append_assoc, readBackslashed_append_backslashed, ih]
    rfl

/-- A text literal is read as the text it was written for, and nothing more than the literal is read. -/
theorem Kind.readText?_text (k : Kind) {r : List Char} (h : r.head? ≠ some '\'') (s : List Char) :
    k.readText? (k.text s ++ r) = some (s, r) := by
  have hd : Text.readQuoted '\'' (Text.doubled '\'' s ++ ['\''] ++ r) = some (s, r) := by
    rw [List.append_assoc]
    exact Text.readQuoted_doubled h
  cases k with
  | generic => exact hd
  | sqlite => exact hd
  | postgres => exact hd
  | mysql =>
    show readBackslashed '\'' (s.flatMap backslashed ++ ['\''] ++ r) = some (s, r)
    rw [List.append_assoc]
    exact readBackslashed_backslashed h s
  | sqlserver => exact hd

/-! ## Bytes -/

/-- The digits of a binary literal. -/
theorem Kind.exists_binary (k : Kind) (bytes : List UInt8) :
    ∃ digits, k.binary bytes = k.binaryQuotes.1 ++ digits ++ k.binaryQuotes.2 ∧
      (∀ c ∈ digits, (Text.Hex.digitValue? c).isSome = true) ∧ Text.Hex.toBytes? digits = some bytes := by
  have printed {digit : Nat → Char} (hd : Text.Hex.Digits digit) :
      (∀ c ∈ Text.Hex.ofBytes digit bytes, (Text.Hex.digitValue? c).isSome = true) ∧
        Text.Hex.toBytes? (Text.Hex.ofBytes digit bytes) = some bytes :=
    ⟨fun _ => Text.Hex.isSome_digitValue?_of_mem_ofBytes hd, Text.Hex.toBytes?_ofBytes hd bytes⟩
  have upper := printed Text.Hex.digits_upperDigit
  cases k with
  | postgres => exact ⟨_, rfl, printed Text.Hex.digits_lowerDigit⟩
  | sqlserver => exact ⟨_, (List.append_nil _).symm, upper⟩
  | generic => exact ⟨_, rfl, upper⟩
  | sqlite => exact ⟨_, rfl, upper⟩
  | mysql => exact ⟨_, rfl, upper⟩

/-! ## Both kinds of literals -/

/-- In every known dialect a text literal, followed by anything but a quote, is read as the text it was
written for and no further; a binary literal is the dialect's own frame around digits of the bytes. -/
theorem literal_read_back (k : Kind) :
    (∀ (s : String) (rest : List Char), rest.head? ≠ some '\'' → ∃ literal, k.dialect.text s = .ok literal ∧
      k.readText? (literal.toList ++ rest) = some (s.toList, rest)) ∧
    (∀ bytes : List UInt8, ∃ digits,
      k.dialect.binary bytes = .ok (String.ofList (k.binaryQuotes.1 ++ digits ++ k.binaryQuotes.2)) ∧
      (∀ c ∈ digits, (Text.Hex.digitValue? c).isSome = true) ∧ Text.Hex.toBytes? digits = some bytes) := by
  constructor
  · intro s rest h
    refine ⟨String.ofList (k.text s.toList), rfl, ?_⟩
    rw [String.toList_ofList]
    exact k.readText?_text h s.toList
  · intro bytes
    obtain ⟨digits, hb, hd⟩ := k.exists_binary bytes
    refine ⟨digits, ?_, hd⟩
    rw [← hb]
    rfl

/-- Quotes of both kinds, a backslash before the closing quote, a null and a line break, with a comment behind. -/
theorem literal_read_back_mixed :
    "-- x".toList.head? ≠ some '\'' ∧
      ∃ literal, Kind.mysql.dialect.text "\x00it's\n\"\\" = .ok literal ∧
        Kind.mysql.readText? (literal.toList ++ "-- x".toList) = some ("\x00it's\n\"\\".toList, "-- x".toList) :=
  have h : "-- x".toList.head? ≠ some '\'' := by decide
  ⟨h, (literal_read_back .mysql).1 _ _ h⟩

end SqlComposer.Dialect
