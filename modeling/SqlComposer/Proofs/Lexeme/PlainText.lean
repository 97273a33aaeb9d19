import SqlComposer.Lexeme

/-!
# Plain text and what takes a token in it

* `isPlain` : text without quotes, opening brackets, colons, markers and placeholders;
* `Cursor.exists_lexemes_plain` : it is read as one lexeme, also in front of a marker or a placeholder;
* `Slot` : a marker or a placeholder as it stands in a text;
* `scan_plain`, `scan_slot` : plain text, and plain text around a slot.
-/

namespace SqlComposer

/-! ## Plain text -/

/-- The characters that start a lexeme wherever they stand. -/
def opensLexeme (placeholders : Bool) (c : Char) : Bool :=
  ['\x60', '[', '\'', '"', ':'].contains c || (placeholders && c == '?')

/-- Neither quotes, opening brackets and colons nor markers and placeholders. -/
def isPlain (placeholders : Bool) : List Char → Bool
  | [] => true
  | c :: cs =>
    !opensLexeme placeholders c && !(c == '%' && cs.head?.any isMarkerStart) && isPlain placeholders cs

/-- The lexemes of plain text: one, if there is any text. -/
def plainLexemes (text : List Char) : List Lexeme :=
  if text.isEmpty then [] else [.text (String.ofList text)]

/-- A text that may follow plain text: it starts with a lexeme of its own, and no marker starts in front of it. -/
structure FollowsPlain (mode : ScanMode) (rest : List Char) : Prop where
  special : ∀ before, rest ≠ [] → (Cursor.readSpecial? mode before rest).isSome = true
  noMarkerStart : rest.head?.any isMarkerStart = false

variable {placeholders : Bool} {cs rest : List Char}

theorem followsPlain_nil (mode : ScanMode) : FollowsPlain mode [] :=
  ⟨fun _ h => absurd rfl h, rfl⟩

theorem readSpecial?_of_isPlain {c : Char} (h : isPlain placeholders (c :: cs) = true)
    (hr : rest.head?.any isMarkerStart = false) (before : Option Char) :
    Cursor.readSpecial? (.fragment placeholders) before (c :: (cs ++ rest)) = none := by
  simp only [isPlain, opensLexeme, Bool.and_eq_true, Bool.not_eq_true', Bool.or_eq_false_iff, Bool.and_eq_false_iff,
    List.contains_eq_mem, decide_eq_false_iff_not, List.mem_cons, List.not_mem_nil, or_false, not_or,
    beq_eq_false_iff_ne] at h
  obtain ⟨⟨⟨⟨hgrave, hbracket, hsingle, hdouble, hcolon⟩, hplaceholder⟩, hmarker⟩, -⟩ := h
  have hm : c = '%' → (cs ++ rest).head?.any isMarkerStart = false := by
    rintro rfl
    cases cs with
    | nil => exact hr
    | cons d cs => simpa using hmarker
  simp only [Cursor.readSpecial?, hgrave, hbracket, hsingle, hdouble, hcolon, or_self, if_false]
  split
  · next hc => rw [hm hc, Bool.and_false]; rfl
  · split
    · next hc =>
      have : placeholders = false := by simpa [hc] using hplaceholder
      simp [ScanMode.fragment, this]
    · rfl

theorem isPlain_tail {c : Char} (h : isPlain placeholders (c :: cs) = true) : isPlain placeholders cs = true := by
  rw [isPlain, Bool.and_eq_true] at h
  exact h.2

namespace Cursor

theorem lexemes_cons {mode : ScanMode} {c d : Cursor} {l : Lexeme} (h : c.next? mode = some (l, d)) :
    c.lexemes mode = l :: d.lexemes mode := by
  rw [lexemes]
  split <;> simp_all

theorem lexemes_nil (mode : ScanMode) (before : Option Char) : lexemes mode ⟨before, []⟩ = [] := by
  rw [lexemes]
  rfl

theorem lexemes_special {mode : ScanMode} {before : Option Char} {cs : List Char} {l : Lexeme} {d : Cursor}
    (h : readSpecial? mode before cs = some (l, d)) : lexemes mode ⟨before, cs⟩ = l :: d.lexemes mode := by
  cases cs with
  | nil => cases h
  | cons c cs => exact lexemes_cons (by simp [next?, h])

theorem exists_readText_plain (h : isPlain placeholders cs = true) (hr : FollowsPlain (.fragment placeholders) rest)
    (before : Option Char) :
    ∃ b, readText (.fragment placeholders) before (cs ++ rest) = (cs, ⟨b, rest⟩) := by
  induction cs generalizing before with
  | nil =>
    refine ⟨before, ?_⟩
    cases rest with
    | nil => rfl
    | cons c rest =>
      rw [List.nil_append, readText, if_pos (hr.special before (List.cons_ne_nil c rest))]
  | cons c cs ih =>
    obtain ⟨b, hb⟩ := ih (isPlain_tail h) (some c)
    refine ⟨b, ?_⟩
    rw [List.cons_append, readText, readSpecial?_of_isPlain h hr.noMarkerStart, if_neg (by simp), hb]

/-- Plain text is one lexeme, and what follows it is read from its first character on. -/
theorem exists_lexemes_plain (h : isPlain placeholders cs = true) (hr : FollowsPlain (.fragment placeholders) rest)
    (before : Option Char) :
    ∃ b, lexemes (.fragment placeholders) ⟨before, cs ++ rest⟩ =
      plainLexemes cs ++ lexemes (.fragment placeholders) ⟨b, rest⟩ := by
  cases cs with
  | nil => exact ⟨before, rfl⟩
  | cons c cs =>
    obtain ⟨b, hb⟩ := exists_readText_plain (isPlain_tail h) hr (some c)
    refine ⟨b, lexemes_cons ?_⟩
    simp only [next?, List.cons_append, readSpecial?_of_isPlain h hr.noMarkerStart, hb]

end Cursor

theorem scan_plain {text : String} (h : isPlain placeholders text.toList = true) :
    scan (.fragment placeholders) text = plainLexemes text.toList := by
  obtain ⟨b, hb⟩ := Cursor.exists_lexemes_plain h (followsPlain_nil _) none
  rw [List.append_nil, Cursor.lexemes_nil, List.append_nil] at hb
  exact hb

/-! ## Slots -/

/-- What takes a token in a text. -/
inductive Slot
  | marker (code : String)
  | placeholder
  deriving DecidableEq

namespace Slot

/-- The slot as it stands in a text. -/
def text : Slot → String
  | marker code => "%" ++ code
  | placeholder => "?"

def lexeme : Slot → Lexeme
  | marker code => .marker code
  | placeholder => .placeholder

/-- The slot is read as such where `after` follows: its code is known and ends there, or placeholders are read. -/
def IsRead (placeholders : Bool) (after : List Char) : Slot → Prop
  | marker code => (Marker.ofCode? code).isSome = true ∧ after.head?.any isMarkerChar = false
  | placeholder => placeholders = true

end Slot

/-- Known codes are made of marker characters, and few enough. -/
theorem wellFormed_of_ofCode? {code : String} (h : (Marker.ofCode? code).isSome = true) :
    code.toList.head?.any isMarkerStart = true ∧ code.toList.all isMarkerChar = true ∧
      code.toList.length ≤ maxMarkerLength := by
  unfold Marker.ofCode? at h
  split at h
  all_goals first | decide | cases h

theorem takeWhile_take_append {α : Type} {p : α → Bool} {a b : List α} {n : Nat} (ha : a.all p = true)
    (hn : a.length ≤ n) (hb : b.head?.any p = false) : ((a ++ b).take n).takeWhile p = a := by
  rw [List.take_append, List.take_of_length_le hn, List.takeWhile_append_of_pos (List.all_eq_true.1 ha)]
  suffices h : (b.take (n - a.length)).takeWhile p = [] by rw [h, List.append_nil]
  cases b with
  | nil => simp
  | cons x b =>
    have hx : p x = false := by simpa using hb
    cases n - a.length <;> simp [hx]

variable {after : List Char}

theorem Cursor.readMarker_append {code : String} (h : (Marker.ofCode? code).isSome = true)
    (ha : after.head?.any isMarkerChar = false) :
    ∃ b, Cursor.readMarker (code.toList ++ after) = (.marker code, ⟨b, after⟩) := by
  obtain ⟨-, hall, hlength⟩ := wellFormed_of_ofCode? h
  refine ⟨code.toList.getLast?, ?_⟩
  rw [Cursor.readMarker, takeWhile_take_append hall hlength ha, String.ofList_toList, List.drop_left]

theorem Slot.exists_readSpecial? {slot : Slot} (h : slot.IsRead placeholders after) (before : Option Char) :
    ∃ b, Cursor.readSpecial? (.fragment placeholders) before (slot.text.toList ++ after) =
      some (slot.lexeme, ⟨b, after⟩) := by
  cases slot with
  | marker code =>
    obtain ⟨b, hb⟩ := Cursor.readMarker_append h.1 h.2
    obtain ⟨hstart, -, -⟩ := wellFormed_of_ofCode? h.1
    have hs : (code.toList ++ after).head?.any isMarkerStart = true := by
      cases hc : code.toList with
      | nil => rw [hc] at hstart; cases hstart
      | cons c cs => simpa [hc] using hstart
    refine ⟨b, ?_⟩
    have he : (Slot.marker code).text.toList ++ after = '%' :: (code.toList ++ after) := by simp [Slot.text]
    rw [he, Cursor.readSpecial?]
    simp [ScanMode.fragment, hs, hb, Slot.lexeme, -List.head?_append]
  | placeholder =>
    obtain rfl : placeholders = true := h
    exact ⟨some '?', rfl⟩

theorem Slot.followsPlain {slot : Slot} (h : slot.IsRead placeholders after) :
    FollowsPlain (.fragment placeholders) (slot.text.toList ++ after) where
  special before _ := by
    obtain ⟨b, hb⟩ := Slot.exists_readSpecial? h before
    rw [hb]
    rfl
  noMarkerStart := by
    have hp : isMarkerStart '%' = false := by decide
    cases slot with
    | marker code => simp [Slot.text, hp]
    | placeholder => rfl

/-- Plain text around a slot. -/
theorem scan_slot {before after : String} {slot : Slot} (hb : isPlain placeholders before.toList = true)
    (ha : isPlain placeholders after.toList = true) (hs : slot.IsRead placeholders after.toList) :
    scan (.fragment placeholders) (before ++ slot.text ++ after) =
      plainLexemes before.toList ++ slot.lexeme :: plainLexemes after.toList := by
  obtain ⟨b, hbefore⟩ := Cursor.exists_lexemes_plain hb (Slot.followsPlain hs) none
  obtain ⟨b', hslot⟩ := Slot.exists_readSpecial? hs b
  obtain ⟨b'', hafter⟩ := Cursor.exists_lexemes_plain ha (followsPlain_nil _) b'
  rw [List.append_nil, Cursor.lexemes_nil, List.append_nil] at hafter
  rw [scan, Cursor.ofText, String.toList_append, String.toList_append, List.append_assoc, hbefore,
    Cursor.lexemes_special hslot, hafter]

end SqlComposer
