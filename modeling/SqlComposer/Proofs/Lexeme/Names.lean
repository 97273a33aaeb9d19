import Mathlib
import SqlComposer.Context
import SqlComposer.Proofs.Lexeme.Modes

/-!
# Names between colons

Identifiers replace the names in a text from colon to colon, and SQL text is scanned for them. In a scanned text another
colon beside a name, as in a cast, makes it plain text; an identifier does not look at what stands beside.

* `Substitutions.rebuilt` : a scanned text, put together again with its names resolved;
* `namesApart` : no name that is replaced has another colon beside it;
* `rebuiltChars_char`, `rebuiltChars_name` : what is put together again, by the next character;
* `substitute_scanned_iff` : the two ways of replacing names agree exactly where the names stand apart.
-/

namespace SqlComposer

/-- The characters that open a quoted string or identifier. -/
def quoteMarks : List Char :=
  ['\x60', '[', '\'', '"']

/-- Plain text and names are the lexemes of a text without quotes. -/
def Lexeme.IsTextOrName : Lexeme → Prop
  | .text _ | .substitution _ _ => True
  | _ => False

namespace Substitutions

/-- Plain text as it is, and the text of a name. -/
def lexemeText (s : Substitutions) : Lexeme → Except Issue String
  | .text text => .ok text
  | .substitution name _ => s.resolve name
  | _ => .ok ""

def rebuiltChars (s : Substitutions) : List Lexeme → Except Issue (List Char)
  | [] => .ok []
  | l :: ls => do
    let text ← s.lexemeText l
    let rest ← s.rebuiltChars ls
    .ok (text.toList ++ rest)

/-- A scanned text put together again, with every name resolved. -/
def rebuilt (s : Substitutions) (ls : List Lexeme) : Except Issue String :=
  (s.rebuiltChars ls).map String.ofList

end Substitutions

/-- No name that is replaced has another colon beside it; `before` is the character in front of the text. -/
def namesApart (before : Option Char) : List Char → Bool
  | [] => true
  | c :: cs =>
    if c = ':' then
      match _h : nameAt? cs with
      | some (_, rest) => before != some ':' && rest.head? != some ':' && namesApart (some ':') rest
      | none => namesApart (some ':') cs
    else namesApart (some c) cs
  termination_by cs => cs.length
  decreasing_by
    all_goals simp only [List.length_cons]
    · have := length_lt_of_nameAt? _h
      omega
    · omega
    · omega

variable {s : Substitutions} {before : Option Char} {cs name rest : List Char} {c : Char}

/-! ## Character by character -/

namespace Substitutions

theorem substituteChars_char (hc : c ≠ ':') : s.substituteChars (c :: cs) = (c :: ·) <$> s.substituteChars cs := by
  rw [substituteChars, if_neg hc]
  cases s.substituteChars cs <;> rfl

theorem substituteChars_colon (h : nameAt? cs = none) :
    s.substituteChars (':' :: cs) = (':' :: ·) <$> s.substituteChars cs := by
  rw [substituteChars, if_pos rfl]
  split
  · next hn => rw [h] at hn; cases hn
  · cases s.substituteChars cs <;> rfl

theorem substituteChars_name (h : nameAt? cs = some (name, rest)) :
    s.substituteChars (':' :: cs) = (do
      let text ← s.resolve (String.ofList name)
      let rest ← s.substituteChars rest
      .ok (text.toList ++ rest)) := by
  rw [substituteChars, if_pos rfl]
  split
  · next hn => rw [h] at hn; cases hn; rfl
  · next hn => rw [h] at hn; cases hn

/-- Text in front. -/
theorem rebuiltChars_text (text : List Char) (ls : List Lexeme) :
    s.rebuiltChars (.text (String.ofList text) :: ls) = (text ++ ·) <$> s.rebuiltChars ls := by
  rw [rebuiltChars, lexemeText]
  cases s.rebuiltChars ls with
  | error i => rfl
  | ok rest => exact congrArg (fun t => Except.ok (t ++ rest)) String.toList_ofList

/-- Where a run of plain text is cut does not matter. -/
theorem rebuiltChars_readText (before : Option Char) (cs : List Char) :
    s.rebuiltChars (Cursor.lexemes .plain ⟨before, cs⟩) =
      ((Cursor.readText .plain before cs).1 ++ ·) <$>
        s.rebuiltChars ((Cursor.readText .plain before cs).2.lexemes .plain) := by
  cases cs with
  | nil => exact (id_map _).symm
  | cons c cs =>
    cases hs : Cursor.readSpecial? .plain before (c :: cs) with
    | some r =>
      rw [Cursor.readText_special hs]
      exact (id_map _).symm
    | none =>
      have hnext : Cursor.next? .plain ⟨before, c :: cs⟩ =
          some (.text (String.ofList (c :: (Cursor.readText .plain (some c) cs).1)),
            (Cursor.readText .plain (some c) cs).2) := by
        simp only [Cursor.next?, hs]
      rw [Cursor.lexemes_cons hnext, rebuiltChars_text, Cursor.readText_cons hs]

/-- A character that starts no lexeme is plain text. -/
theorem rebuiltChars_char (h : Cursor.readSpecial? .plain before (c :: cs) = none) :
    s.rebuiltChars (Cursor.lexemes .plain ⟨before, c :: cs⟩) =
      (c :: ·) <$> s.rebuiltChars (Cursor.lexemes .plain ⟨some c, cs⟩) := by
  rw [rebuiltChars_readText before, Cursor.readText_cons h, rebuiltChars_readText (some c) cs, ← comp_map]
  rfl

theorem rebuiltChars_name {joined : Bool} {d : Cursor}
    (h : Cursor.readSubstitution? before cs = some (.substitution (String.ofList name) joined, d)) :
    s.rebuiltChars (Cursor.lexemes .plain ⟨before, ':' :: cs⟩) = (do
      let text ← s.resolve (String.ofList name)
      let rest ← s.rebuiltChars (d.lexemes .plain)
      .ok (text.toList ++ rest)) := by
  have hs : Cursor.readSpecial? .plain before (':' :: cs) = some (.substitution (String.ofList name) joined, d) := h
  rw [Cursor.lexemes_special hs, rebuiltChars, lexemeText]

end Substitutions

theorem namesApart_char (hc : c ≠ ':') (before : Option Char) :
    namesApart before (c :: cs) = namesApart (some c) cs := by
  rw [namesApart, if_neg hc]

theorem namesApart_colon (h : nameAt? cs = none) (before : Option Char) :
    namesApart before (':' :: cs) = namesApart (some ':') cs := by
  rw [namesApart, if_pos rfl]
  split
  · next hn => rw [h] at hn; cases hn
  · rfl

theorem namesApart_name (h : nameAt? cs = some (name, rest)) (before : Option Char) :
    namesApart before (':' :: cs) = (before != some ':' && rest.head? != some ':' && namesApart (some ':') rest) := by
  rw [namesApart, if_pos rfl]
  split
  · next hn => rw [h] at hn; cases hn; rfl
  · next hn => rw [h] at hn; cases hn

/-! ## What the scanner reads -/

namespace Cursor

theorem readSpecial?_char (hq : c ∉ quoteMarks) (hc : c ≠ ':') : readSpecial? .plain before (c :: cs) = none := by
  simp only [quoteMarks, List.mem_cons, List.not_mem_nil, or_false, not_or] at hq
  simp [readSpecial?, hq, hc, ScanMode.plain]

theorem readSubstitution?_of_none (h : nameAt? cs = none) : readSubstitution? before cs = none := by
  simp [readSubstitution?, h]

theorem readSubstitution?_beside (h : nameAt? cs = some (name, rest))
    (hcolon : before = some ':' ∨ rest.head? = some ':') : readSubstitution? before cs = none := by
  rcases hcolon with hb | hr
  · simp [readSubstitution?, hb]
  · simp [readSubstitution?, h, hr]

theorem exists_readSubstitution? (h : nameAt? cs = some (name, rest)) (hb : before ≠ some ':')
    (hr : rest.head? ≠ some ':') :
    ∃ joined, readSubstitution? before cs = some (.substitution (String.ofList name) joined, ⟨some ':', rest⟩) := by
  simp [readSubstitution?, h, hb, hr]

end Cursor

/-- What stands behind a name is a part of the text. -/
theorem mem_of_nameAt? (h : nameAt? cs = some (name, rest)) (hc : c ∈ rest) : c ∈ cs := by
  rw [eq_of_nameAt? h]
  simp [hc]

/-! ## Names that stand apart -/

namespace Substitutions

/-- Where the names stand apart, both ways of replacing them give the same text, or the same name that has none. -/
theorem rebuiltChars_of_namesApart (s : Substitutions) (hq : ∀ c ∈ cs, c ∉ quoteMarks)
    (h : namesApart before cs = true) :
    s.rebuiltChars (Cursor.lexemes .plain ⟨before, cs⟩) = s.substituteChars cs := by
  induction before, cs using namesApart.induct with
  | case1 before => rw [Cursor.lexemes_nil, rebuiltChars, substituteChars]
  | case2 before cs name rest hn ih =>
    rw [namesApart_name hn, Bool.and_eq_true, Bool.and_eq_true, bne_iff_ne, bne_iff_ne] at h
    obtain ⟨⟨hb, hr⟩, hrest⟩ := h
    obtain ⟨joined, hread⟩ := Cursor.exists_readSubstitution? hn hb hr
    have hrest' := ih (fun c hc => hq c (List.mem_cons_of_mem _ (mem_of_nameAt? hn hc))) hrest
    rw [rebuiltChars_name hread, substituteChars_name hn, hrest']
  | case3 before cs hn ih =>
    rw [namesApart_colon hn] at h
    have hs : Cursor.readSpecial? .plain before (':' :: cs) = none := Cursor.readSubstitution?_of_none hn
    rw [rebuiltChars_char hs, substituteChars_colon hn, ih (fun c hc => hq c (List.mem_cons_of_mem _ hc)) h]
  | case4 before c cs hc ih =>
    rw [namesApart_char hc] at h
    have hs : Cursor.readSpecial? .plain before (c :: cs) = none :=
      Cursor.readSpecial?_char (hq c List.mem_cons_self) hc
    rw [rebuiltChars_char hs, substituteChars_char hc, ih (fun c hc => hq c (List.mem_cons_of_mem _ hc)) h]

/-- Every name stands for the same letter. -/
def letters : Substitutions :=
  ⟨[], some fun _ => some "x"⟩

theorem resolve_letters (name : String) : letters.resolve name = .ok "x" := rfl

theorem exists_substituteChars_letters (cs : List Char) : ∃ text, letters.substituteChars cs = .ok text := by
  induction cs using substituteChars.induct with
  | case1 => exact ⟨[], by rw [substituteChars]⟩
  | case2 cs name rest hn ih =>
    obtain ⟨text, ht⟩ := ih
    exact ⟨_, by rw [substituteChars_name hn, resolve_letters, ht]; rfl⟩
  | case3 cs hn ih =>
    obtain ⟨text, ht⟩ := ih
    exact ⟨_, by rw [substituteChars_colon hn, ht]; rfl⟩
  | case4 c cs hc ih =>
    obtain ⟨text, ht⟩ := ih
    exact ⟨_, by rw [substituteChars_char hc, ht]; rfl⟩

/-- Text in front of both does not matter. -/
theorem eq_of_map_append (text : List Char) {x y : Except Issue (List Char)}
    (h : (text ++ ·) <$> x = (text ++ ·) <$> y) : x = y := by
  cases x <;> cases y <;> simp_all [Functor.map, Except.map]

theorem eq_of_map_ofList {x y : Except Issue (List Char)} (h : x.map String.ofList = y.map String.ofList) : x = y := by
  cases x <;> cases y <;> simp_all [Except.map, String.ofList_inj]

/-- If both ways put the letter for every name, the names stand apart: at the first that does not, one way puts the
letter and the other a colon. -/
theorem namesApart_of_letters (hq : ∀ c ∈ cs, c ∉ quoteMarks)
    (h : letters.rebuiltChars (Cursor.lexemes .plain ⟨before, cs⟩) = letters.substituteChars cs) :
    namesApart before cs = true := by
  induction before, cs using namesApart.induct with
  | case1 before => rw [namesApart]
  | case2 before cs name rest hn ih =>
    rw [substituteChars_name hn, resolve_letters] at h
    have hsub : (do
        let text ← Except.ok "x"
        let rest ← letters.substituteChars rest
        Except.ok (text.toList ++ rest)) = (['x'] ++ ·) <$> letters.substituteChars rest := by
      cases letters.substituteChars rest <;> rfl
    -- a scan takes the colon as it is if another one stands beside the name, and the letter is no colon
    by_cases hcolon : before = some ':' ∨ rest.head? = some ':'
    · obtain ⟨text, ht⟩ := exists_substituteChars_letters rest
      have hs : Cursor.readSpecial? .plain before (':' :: cs) = none := Cursor.readSubstitution?_beside hn hcolon
      rw [rebuiltChars_char hs, hsub, ht] at h
      cases hx : letters.rebuiltChars (Cursor.lexemes .plain ⟨some ':', cs⟩) <;> rw [hx] at h <;> cases h
    · obtain ⟨hb, hr⟩ := not_or.1 hcolon
      obtain ⟨joined, hread⟩ := Cursor.exists_readSubstitution? hn hb hr
      rw [rebuiltChars_name hread, resolve_letters, hsub] at h
      have hrest : letters.rebuiltChars (Cursor.lexemes .plain ⟨some ':', rest⟩) = letters.substituteChars rest := by
        apply eq_of_map_append ['x']
        rw [← h]
        cases letters.rebuiltChars (Cursor.lexemes .plain ⟨some ':', rest⟩) <;> rfl
      have hapart := ih (fun c hc => hq c (List.mem_cons_of_mem _ (mem_of_nameAt? hn hc))) hrest
      rw [namesApart_name hn, hapart, bne_iff_ne.2 hb, bne_iff_ne.2 hr]
      rfl
  | case3 before cs hn ih =>
    have hs : Cursor.readSpecial? .plain before (':' :: cs) = none := Cursor.readSubstitution?_of_none hn
    rw [rebuiltChars_char hs, substituteChars_colon hn] at h
    rw [namesApart_colon hn]
    exact ih (fun c hc => hq c (List.mem_cons_of_mem _ hc)) (eq_of_map_append [':'] h)
  | case4 before c cs hc ih =>
    have hs : Cursor.readSpecial? .plain before (c :: cs) = none :=
      Cursor.readSpecial?_char (hq c List.mem_cons_self) hc
    rw [rebuiltChars_char hs, substituteChars_char hc] at h
    rw [namesApart_char hc]
    exact ih (fun c hc => hq c (List.mem_cons_of_mem _ hc)) (eq_of_map_append [c] h)

end Substitutions

/-! ## Whole texts -/

namespace Cursor

theorem mem_of_readText {mode : ScanMode} (hc : c ∈ (readText mode before cs).2.rest) : c ∈ cs := by
  induction cs generalizing before with
  | nil => exact hc
  | cons x cs ih =>
    cases hs : readSpecial? mode before (x :: cs) with
    | some r => rwa [readText_special hs] at hc
    | none =>
      rw [readText_cons hs] at hc
      exact List.mem_cons_of_mem x (ih hc)

theorem mem_of_readSubstitution? {l : Lexeme} {d : Cursor} (h : readSubstitution? before cs = some (l, d)) :
    l.IsTextOrName ∧ ∀ c ∈ d.rest, c ∈ cs := by
  unfold readSubstitution? at h
  split at h
  · cases h
  · split at h
    · cases h
    · next hn =>
      split at h
      · cases h
      · cases h
        exact ⟨trivial, fun c hc => mem_of_nameAt? hn hc⟩

/-- In a text without quotes the next lexeme is plain text or a name. -/
theorem isTextOrName_of_next? {c d : Cursor} {l : Lexeme} (hq : ∀ x ∈ c.rest, x ∉ quoteMarks)
    (h : c.next? .plain = some (l, d)) : l.IsTextOrName ∧ ∀ x ∈ d.rest, x ∈ c.rest := by
  obtain ⟨before, cs⟩ := c
  cases cs with
  | nil => cases h
  | cons x cs =>
    cases hs : readSpecial? .plain before (x :: cs) with
    | some r =>
      rw [next?_special hs] at h
      cases h
      by_cases hx : x = ':'
      · subst hx
        obtain ⟨hl, hmem⟩ := mem_of_readSubstitution? hs
        exact ⟨hl, fun c hc => List.mem_cons_of_mem _ (hmem c hc)⟩
      · rw [readSpecial?_char (hq x List.mem_cons_self) hx] at hs
        cases hs
    | none =>
      simp only [next?, hs] at h
      cases h
      exact ⟨trivial, fun c hc => List.mem_cons_of_mem _ (mem_of_readText hc)⟩

theorem isTextOrName_of_mem_lexemes {c : Cursor} (hq : ∀ x ∈ c.rest, x ∉ quoteMarks) {l : Lexeme}
    (hl : l ∈ c.lexemes .plain) : l.IsTextOrName := by
  induction c using lexemes.induct .plain with
  | case1 c hc =>
    rw [lexemes, hc] at hl
    cases hl
  | case2 c l' d hc ih =>
    obtain ⟨hl', hmem⟩ := isTextOrName_of_next? hq hc
    rw [lexemes_cons hc] at hl
    rcases List.mem_cons.1 hl with rfl | hl
    · exact hl'
    · exact ih (fun x hx => hq x (hmem x hx)) hl

end Cursor

/-- A text without two colons in a row has no name with another colon beside it. -/
theorem namesApart_of_not_infix (h : ¬[':', ':'] <:+: before.toList ++ cs) : namesApart before cs = true := by
  have later {c : Char} {cs' : List Char} (hs : c :: cs' <:+ before.toList ++ cs) :
      ¬[':', ':'] <:+: (some c).toList ++ cs' := fun hi => h (hi.trans hs.isInfix)
  induction before, cs using namesApart.induct with
  | case1 before => rw [namesApart]
  | case2 before cs name rest hn ih =>
    have hcs := eq_of_nameAt? hn
    have hb : before ≠ some ':' := by
      rintro rfl
      exact h ⟨[], cs, rfl⟩
    have hrest : ':' :: rest <:+ before.toList ++ ':' :: cs := ⟨before.toList ++ ':' :: name, by simp [hcs]⟩
    have hr : rest.head? ≠ some ':' := by
      intro hr
      obtain ⟨tail, rfl⟩ := List.head?_eq_some_iff.1 hr
      exact later hrest ⟨[], tail, rfl⟩
    have hapart := ih (later hrest) fun hs hi => later hrest (hi.trans hs.isInfix)
    rw [namesApart_name hn, hapart, bne_iff_ne.2 hb, bne_iff_ne.2 hr]
    rfl
  | case3 before cs hn ih =>
    have hcolon := later (List.suffix_append _ _)
    rw [namesApart_colon hn]
    exact ih hcolon fun hs hi => hcolon (hi.trans hs.isInfix)
  | case4 before c cs hc ih =>
    have hchar := later (List.suffix_append _ _)
    rw [namesApart_char hc]
    exact ih hchar fun hs hi => hchar (hi.trans hs.isInfix)

/-- A text without quotes is scanned as plain text and names. Replacing names from colon to colon gives the same as
putting the scanned text together again, for every table that knows all names, exactly where no name that is replaced
has another colon beside it; so it is where no two colons stand in a row. -/
theorem substitute_scanned_iff {text : String} (hq : ∀ c ∈ text.toList, c ∉ quoteMarks) :
    (∀ l ∈ scan .plain text, l.IsTextOrName) ∧
      ((∀ s : Substitutions, (∀ name, ∃ t, s.resolve name = .ok t) → s.substitute text = s.rebuilt (scan .plain text)) ↔
        namesApart none text.toList = true) ∧
      (¬[':', ':'] <:+: text.toList → namesApart none text.toList = true) := by
  refine ⟨fun l hl => Cursor.isTextOrName_of_mem_lexemes hq hl, ⟨fun h => ?_, fun h s _ => ?_⟩, fun h => ?_⟩
  · have hsame := h .letters fun name => ⟨"x", Substitutions.resolve_letters name⟩
    apply Substitutions.namesApart_of_letters hq
    exact (Substitutions.eq_of_map_ofList hsame).symm
  · rw [Substitutions.substitute, Substitutions.rebuilt, scan, Cursor.ofText, s.rebuiltChars_of_namesApart hq h]
  · exact namesApart_of_not_infix h

/-- A name in front of text, and a cast whose type stands between no two colons. -/
theorem substitute_scanned_iff_cast :
    (∀ c ∈ ":p:posts::int".toList, c ∉ quoteMarks) ∧
      ∀ s : Substitutions, (∀ name, ∃ t, s.resolve name = .ok t) →
        s.substitute ":p:posts::int" = s.rebuilt (scan .plain ":p:posts::int") := by
  have hq : ∀ c ∈ ":p:posts::int".toList, c ∉ quoteMarks := by simp [quoteMarks]
  have hapart : namesApart none ":p:posts::int".toList = true := by cbv
  exact ⟨hq, (substitute_scanned_iff hq).2.1.2 hapart⟩

/-- A cast to a type whose name is in the table, with another cast behind it: the name is replaced, in identifiers too,
and stays as it is in a scanned text. -/
theorem cast_substituted :
    let s := Substitutions.ofList [("int", "X")]
    let ctx : Context := { Context.leapDay .generic with substitutions := s }
    (∀ c ∈ "a::int::text".toList, c ∉ quoteMarks) ∧ s.resolve "int" = .ok "X" ∧
      s.substitute "a::int::text" = .ok "a:X:text" ∧ ctx.identifier "a::int::text" = .done "\"a:X:text\"" [] 0 ∧
      s.rebuilt (scan .plain "a::int::text") = .ok "a::int::text" := by
  exact ⟨by simp [quoteMarks], rfl, by cbv, by cbv, by cbv⟩

end SqlComposer
