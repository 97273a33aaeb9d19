import SqlComposer.Proofs.Lexeme.PlainText
import SqlComposer.Proofs.Pass.Segment

/-!
# The modes of scanning

* `Cursor.readSpecial?_plain`, `readText_plain`, `next?_plain` : where no marker and no placeholder is read, the place is
  read alike with markers and placeholders as plain text;
* `scan_plain_eq` : so is a whole text.
-/

namespace SqlComposer

namespace Cursor

variable {mode : ScanMode} {before : Option Char} {cs : List Char} {c d : Cursor} {l : Lexeme}

/-- Markers and placeholders alone depend on the mode. -/
theorem readSpecial?_plain (h : ∀ l d, readSpecial? mode before cs = some (l, d) → l.IsPassive) :
    readSpecial? .plain before cs = readSpecial? mode before cs := by
  cases cs with
  | nil => rfl
  | cons c cs =>
    have hmarker (hp : c = '%') : (mode.markers && cs.head?.any isMarkerStart) = false := by
      subst hp
      cases hm : mode.markers && cs.head?.any isMarkerStart with
      | false => rfl
      | true =>
        have hread : readSpecial? mode before ('%' :: cs) = some (readMarker cs) := by
          simp [readSpecial?, hm]
        exact (h _ _ hread).elim
    have hplaceholder (hp : c = '?') : mode.placeholders = false := by
      subst hp
      cases hm : mode.placeholders with
      | false => rfl
      | true =>
        have hread : readSpecial? mode before ('?' :: cs) = some (.placeholder, ⟨some '?', cs⟩) := by
          simp [readSpecial?, hm]
        exact (h _ _ hread).elim
    unfold readSpecial?
    refine ite_congr rfl (fun _ => rfl) fun _ => ?_
    refine ite_congr rfl (fun _ => rfl) fun _ => ?_
    refine ite_congr rfl (fun _ => rfl) fun _ => ?_
    refine ite_congr rfl (fun hp => ?_) fun _ => ?_
    · rw [hmarker hp]
      rfl
    · refine ite_congr rfl (fun _ => rfl) fun _ => ?_
      refine ite_congr rfl (fun hp => ?_) fun _ => rfl
      rw [hplaceholder hp]
      rfl

theorem readSpecial?_plain_of_none (h : readSpecial? mode before cs = none) : readSpecial? .plain before cs = none := by
  refine (readSpecial?_plain fun l d hd => ?_).trans h
  rw [h] at hd
  cases hd

theorem next?_special (h : readSpecial? mode before cs = some (l, d)) : next? mode ⟨before, cs⟩ = some (l, d) := by
  cases cs with
  | nil => cases h
  | cons c cs => simp only [next?, h]

theorem readText_special {x : Char} (h : readSpecial? mode before (x :: cs) = some (l, d)) :
    readText mode before (x :: cs) = ([], ⟨before, x :: cs⟩) := by
  rw [readText, if_pos (by rw [h]; rfl)]

theorem readText_cons {x : Char} (h : readSpecial? mode before (x :: cs) = none) :
    readText mode before (x :: cs) = (x :: (readText mode (some x) cs).1, (readText mode (some x) cs).2) := by
  rw [readText, if_neg (by simp [h])]

theorem readText_plain (h : ∀ l d, (readText mode before cs).2.next? mode = some (l, d) → l.IsPassive) :
    readText .plain before cs = readText mode before cs := by
  induction cs generalizing before with
  | nil => rfl
  | cons x cs ih =>
    cases hs : readSpecial? mode before (x :: cs) with
    | some r =>
      rw [readText_special hs] at h
      have hplain := readSpecial?_plain fun l d hd => h l d (next?_special hd)
      rw [readText_special hs, readText_special (hplain.trans hs)]
    | none =>
      rw [readText_cons hs] at h
      rw [readText_cons hs, readText_cons (readSpecial?_plain_of_none hs), ih h]

/-- A place where neither the lexeme nor the one behind it depends on the mode. -/
theorem next?_plain (h : c.next? mode = some (l, d)) (hl : l.IsPassive)
    (hd : ∀ l' d', d.next? mode = some (l', d') → l'.IsPassive) : c.next? .plain = some (l, d) := by
  obtain ⟨before, cs⟩ := c
  cases cs with
  | nil => cases h
  | cons x cs =>
    cases hs : readSpecial? mode before (x :: cs) with
    | some r =>
      rw [next?_special hs] at h
      cases h
      have hplain : readSpecial? .plain before (x :: cs) = readSpecial? mode before (x :: cs) := by
        refine readSpecial?_plain fun l' d' hd' => ?_
        cases hs.symm.trans hd'
        exact hl
      exact next?_special (hplain.trans hs)
    | none =>
      simp only [next?, hs] at h
      cases h
      simp only [next?, readSpecial?_plain_of_none hs, readText_plain hd]

theorem passive_of_next? (h : ∀ l ∈ c.lexemes mode, l.IsPassive) (hc : c.next? mode = some (l, d)) : l.IsPassive := by
  rw [lexemes_cons hc] at h
  exact h l List.mem_cons_self

theorem lexemes_plain (h : ∀ l ∈ c.lexemes mode, l.IsPassive) : c.lexemes .plain = c.lexemes mode := by
  induction c using lexemes.induct mode with
  | case1 c hc =>
    have hplain : c.next? .plain = none := by
      unfold next? at hc ⊢
      split at hc
      · rfl
      · split at hc <;> cases hc
    rw [lexemes, hplain, lexemes, hc]
  | case2 c l d hc ih =>
    have hrest : ∀ l ∈ d.lexemes mode, l.IsPassive := by
      intro l' hl'
      apply h
      rw [lexemes_cons hc]
      exact List.mem_cons_of_mem l hl'
    have hplain := next?_plain hc (passive_of_next? h hc) fun _ _ hd => passive_of_next? hrest hd
    rw [lexemes_cons hc, lexemes_cons hplain, ih hrest]

end Cursor

/-- A text in which no marker and no placeholder is read is read alike with both as plain text. -/
theorem scan_plain_eq {mode : ScanMode} {text : String} (h : ∀ l ∈ scan mode text, l.IsPassive) :
    scan .plain text = scan mode text :=
  Cursor.lexemes_plain h

end SqlComposer
