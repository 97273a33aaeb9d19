import Mathlib.Tactic.Tauto
import SqlComposer.Proofs.Number.Figures
import SqlComposer.Proofs.Pass.Slot

/-!
# Numbers and line comments

* `OpensComment` : two hyphens in a row; `opensComment_append_iff`, `opensComment_strip_iff` : where they come from;
* `IsNumeral` : digits behind at most one hyphen; `exists_numeral` : what is written for a number;
* `comment_opens_iff` : a number in plain text opens a comment if it is negative and a hyphen stands in front of it;
* `no_comment_opens_apart` : a number that is a token of its own opens none.
-/

namespace SqlComposer

/-! ## Two hyphens -/

/-- A line comment opens in the text, if it is read as SQL outside of quotes. -/
def OpensComment (cs : List Char) : Prop :=
  ['-', '-'] <:+: cs

instance : DecidablePred OpensComment :=
  fun cs => inferInstanceAs (Decidable (['-', '-'] <:+: cs))

theorem opensComment_cons_iff (c : Char) (cs : List Char) :
    OpensComment (c :: cs) ↔ (c = '-' ∧ cs.head? = some '-') ∨ OpensComment cs := by
  rw [OpensComment, List.infix_cons_iff]
  apply or_congr_left
  cases cs with
  | nil => simp
  | cons d cs => simp [eq_comm]

/-- Two hyphens stand in one of two texts, or one at the end of the first and one at the start of the second. -/
theorem opensComment_append_iff (a b : List Char) :
    OpensComment (a ++ b) ↔ OpensComment a ∨ OpensComment b ∨ (a.getLast? = some '-' ∧ b.head? = some '-') := by
  have hnil : ¬OpensComment [] := by decide
  induction a with
  | nil => simp [hnil]
  | cons c a ih =>
    rw [List.cons_append, opensComment_cons_iff, opensComment_cons_iff]
    cases a with
    | nil =>
      simp only [List.nil_append, List.head?_nil, List.getLast?_singleton, Option.some.injEq, reduceCtorEq, and_false,
        hnil, false_or]
      exact or_comm
    | cons d a =>
      rw [List.cons_append, List.head?_cons, List.head?_cons, List.getLast?_cons_cons]
      tauto

theorem not_opensComment_of_not_mem {cs : List Char} (h : '-' ∉ cs) : ¬OpensComment cs := by
  intro ho
  exact h (ho.subset List.mem_cons_self)

theorem opensComment_append_left_iff {a : List Char} (h : '-' ∉ a) (b : List Char) :
    OpensComment (a ++ b) ↔ OpensComment b := by
  have hlast : a.getLast? ≠ some '-' := fun hl => h (List.mem_of_getLast? hl)
  simp [opensComment_append_iff, not_opensComment_of_not_mem h, hlast]

theorem opensComment_append_right_iff {b : List Char} (h : '-' ∉ b) (a : List Char) :
    OpensComment (a ++ b) ↔ OpensComment a := by
  have hhead : b.head? ≠ some '-' := fun hh => h (List.mem_of_head? hh)
  simp [opensComment_append_iff, not_opensComment_of_not_mem h, hhead]

theorem hyphen_not_mem_of_blank {blank : List Char} (h : ∀ c ∈ blank, Text.isBlank c = true) : '-' ∉ blank := by
  intro hmem
  have hb := h '-' hmem
  revert hb
  decide

theorem opensComment_dropBlank_iff (cs : List Char) : OpensComment (Text.dropBlank cs) ↔ OpensComment cs := by
  obtain ⟨front, hfront, hcs⟩ := Text.exists_blank_append_dropBlank cs
  conv => rhs; rw [hcs]
  rw [opensComment_append_left_iff (hyphen_not_mem_of_blank hfront)]

/-- White space around a statement hides no hyphen. -/
theorem opensComment_strip_iff (cs : List Char) : OpensComment (Text.strip cs) ↔ OpensComment cs := by
  obtain ⟨back, hback, hdrop⟩ := Text.exists_dropBlankEnd_append_blank (Text.dropBlank cs)
  rw [← opensComment_dropBlank_iff cs, Text.strip]
  conv => rhs; rw [hdrop]
  rw [opensComment_append_right_iff (hyphen_not_mem_of_blank hback)]

/-- Where two texts are joined without a space no hyphens meet. -/
theorem not_hyphens_of_joins {text piece : List Char} (h : Output.joins text piece = true) :
    ¬(text.getLast? = some '-' ∧ piece.head? = some '-') := by
  rintro ⟨hlast, hhead⟩
  rw [Output.joins, hlast, hhead] at h
  revert h
  decide

/-- Between tokens no comment opens. -/
theorem opensComment_push_iff (o : Output) (piece : String) :
    OpensComment (o.endToken.push piece).text.toList ↔ OpensComment o.text.toList ∨ OpensComment piece.toList := by
  have hspace (cs : List Char) : OpensComment (' ' :: cs) ↔ OpensComment cs :=
    @opensComment_append_left_iff [' '] (by decide) cs
  rw [← opensComment_dropBlank_iff piece.toList, Output.push, Output.endToken]
  by_cases hp : Text.dropBlank piece.toList = []
  · have hnil : ¬OpensComment [] := by decide
    simp [hp, hnil]
  · by_cases hj : Output.joins o.text.toList (Text.dropBlank piece.toList) = true
    · have hne := not_hyphens_of_joins hj
      simp only [List.isEmpty_iff, hp, hj, if_true, if_false, String.toList_append, String.toList_ofList,
        opensComment_append_iff, hne, or_false]
    · simp [hp, hj, opensComment_append_iff, hspace]

/-! ## Numerals -/

/-- Digits and the like, behind a hyphen if it is the text of a negative number. -/
inductive IsNumeral : List Char → Prop
  | positive {body : List Char} (ne : body ≠ []) (noHyphen : '-' ∉ body) : IsNumeral body
  | negative {body : List Char} (ne : body ≠ []) (noHyphen : '-' ∉ body) : IsNumeral ('-' :: body)

theorem IsNumeral.ne_nil {cs : List Char} (h : IsNumeral cs) : cs ≠ [] := by
  cases h with
  | positive ne _ => exact ne
  | negative _ _ => exact List.cons_ne_nil _ _

theorem IsNumeral.getLast?_ne {cs : List Char} (h : IsNumeral cs) : cs.getLast? ≠ some '-' := by
  intro hl
  cases h with
  | positive _ noHyphen => exact noHyphen (List.mem_of_getLast? hl)
  | @negative body ne noHyphen =>
    have hbody : body.getLast? = some '-' := by rwa [List.getLast?_cons_of_ne_nil ne] at hl
    exact noHyphen (List.mem_of_getLast? hbody)

theorem IsNumeral.getLast?_append_ne {cs : List Char} (h : IsNumeral cs) (before : List Char) :
    (before ++ cs).getLast? ≠ some '-' := by
  intro hl
  rw [List.getLast?_append] at hl
  cases hc : cs.getLast? with
  | none => exact h.ne_nil (List.getLast?_eq_none_iff.1 hc)
  | some c =>
    rw [hc, Option.some_or] at hl
    exact h.getLast?_ne (hc.trans hl)

theorem IsNumeral.not_opensComment {cs : List Char} (h : IsNumeral cs) : ¬OpensComment cs := by
  cases h with
  | positive _ noHyphen => exact not_opensComment_of_not_mem noHyphen
  | negative _ noHyphen =>
    rw [opensComment_cons_iff]
    rintro (⟨-, hhead⟩ | ho)
    · exact noHyphen (List.mem_of_head? hhead)
    · exact not_opensComment_of_not_mem noHyphen ho

/-- A numeral between two texts without comments. -/
theorem IsNumeral.opensComment_between {before number after : List Char} (h : IsNumeral number)
    (hb : ¬OpensComment before) (ha : ¬OpensComment after) :
    OpensComment (before ++ number ++ after) ↔ before.getLast? = some '-' ∧ number.head? = some '-' := by
  have hnumber := h.not_opensComment
  have hlast := h.getLast?_append_ne before
  rw [opensComment_append_iff, opensComment_append_iff]
  tauto

theorem isNumeral_ite {p : Prop} [Decidable p] {body : List Char} (ne : body ≠ []) (noHyphen : '-' ∉ body) :
    IsNumeral (if p then '-' :: body else body) := by
  split
  · exact .negative ne noHyphen
  · exact .positive ne noHyphen

namespace Decimal

theorem hyphen_not_mem_natText (n : Nat) : '-' ∉ natText n := by
  intro h
  have hd : Char.isDigit '-' = true := Nat.isDigit_of_mem_toDigits (by decide) (by decide) h
  revert hd
  decide

theorem natText_ne_nil (n : Nat) : natText n ≠ [] :=
  Nat.toDigits_ne_nil

theorem isNumeral_intText (n : Int) : IsNumeral (intText n) := by
  cases n with
  | ofNat n => exact .positive (natText_ne_nil n) (hyphen_not_mem_natText n)
  | negSucc n => exact .negative (natText_ne_nil (n + 1)) (hyphen_not_mem_natText (n + 1))

theorem isNumeral_wholeText (x : Binary64) : IsNumeral (wholeText x) := by
  rw [wholeText]
  exact isNumeral_ite (natText_ne_nil _) (hyphen_not_mem_natText _)

theorem hyphen_not_mem_places (n : Nat) : '-' ∉ dropZeros (padded 10 n) := by
  intro h
  have hp := mem_of_mem_dropZeros h
  rw [padded, List.mem_append] at hp
  rcases hp with hp | hp
  · have hz := List.eq_of_mem_replicate hp
    revert hz
    decide
  · exact hyphen_not_mem_natText n hp

theorem exists_plainText? {x : Binary64} (h : x.isFinite = true) : ∃ cs, plainText? x = some cs ∧ IsNumeral cs := by
  rw [plainText?, if_pos h]
  refine ⟨_, rfl, isNumeral_ite ?_ ?_⟩
  · exact List.append_ne_nil_of_left_ne_nil (natText_ne_nil _) _
  · rw [List.mem_append]
    rintro (hw | hp)
    · exact hyphen_not_mem_natText _ hw
    · split at hp
      · cases hp
      · rcases List.mem_cons.1 hp with hdot | hp
        · revert hdot
          decide
        · exact hyphen_not_mem_places _ hp

end Decimal

/-! ## Numbers in a statement -/

/-- A whole number, or a floating point number that is finite. -/
def Scalar.IsNumber : Scalar → Prop
  | .int _ => True
  | .float x => x.isFinite = true
  | _ => False

/-- The modifiers of numbers, and none. -/
def numberModifiers : List (Option Modifier) :=
  [none, some .int, some .unsigned, some .float]

theorem exists_floatText {x : Binary64} (h : x.isFinite = true) :
    ∃ number, floatText x = .ok number ∧ IsNumeral number.toList := by
  obtain ⟨cs, hcs, hn⟩ := Decimal.exists_plainText? h
  refine ⟨String.ofList cs, ?_, by rwa [String.toList_ofList]⟩
  rw [floatText, hcs]
  rfl

theorem exists_wholeText {x : Binary64} (h : x.isFinite = true) :
    ∃ number, wholeText x = .ok number ∧ IsNumeral number.toList := by
  refine ⟨String.ofList (Decimal.wholeText x), ?_, ?_⟩
  · rw [wholeText, if_pos h]
    rfl
  · rw [String.toList_ofList]
    exact Decimal.isNumeral_wholeText x

/-- A number is written as a numeral, with nothing to report. -/
theorem exists_numeral (ctx : Context) {m : Option Modifier} (hm : m ∈ numberModifiers) {a : Scalar}
    (ha : a.IsNumber) : ∃ number, ctx.scalar m a = .done number [] 0 ∧ IsNumeral number.toList := by
  simp only [numberModifiers, List.mem_cons, List.not_mem_nil, or_false] at hm
  cases a with
  | int n =>
    refine ⟨intText n, ?_, ?_⟩
    · rcases hm with rfl | rfl | rfl | rfl <;> rfl
    · rw [intText, String.toList_ofList]
      exact Decimal.isNumeral_intText n
  | float x =>
    obtain ⟨exact, hexact, hnumeral⟩ := exists_floatText ha
    obtain ⟨whole, hwhole, hnumeral'⟩ := exists_wholeText ha
    rcases hm with rfl | rfl | rfl | rfl
    · exact ⟨exact, congrArg Render.orNote hexact, hnumeral⟩
    · exact ⟨whole, congrArg Render.orNote hwhole, hnumeral'⟩
    · exact ⟨whole, congrArg Render.orNote hwhole, hnumeral'⟩
    · exact ⟨exact, congrArg Render.orNote hexact, hnumeral⟩
  | _ => exact ha.elim

/-- A number in plain text without comments opens one exactly where its own sign comes right behind a hyphen. -/
theorem comment_opens_iff {ctx : Context} {before after : String} {slot : Slot} {m : Option Modifier} {a : Scalar}
    (hb : isPlain ctx.placeholders before.toList = true) (ha : isPlain ctx.placeholders after.toList = true)
    (hcb : ¬OpensComment before.toList) (hca : ¬OpensComment after.toList)
    (hr : slot.IsRead ctx.placeholders after.toList) (hw : slot.Writes m) (hm : m ∈ numberModifiers)
    (hn : a.IsNumber) :
    ∃ number sql, ctx.scalar m a = .done number [] 0 ∧
      ctx.outcome [.sql (before ++ slot.text ++ after), .value (.scalar a)] = .ok (sql, []) ∧
      (OpensComment sql.toList ↔ before.toList.getLast? = some '-' ∧ number.toList.head? = some '-') := by
  obtain ⟨number, hnumber, hnumeral⟩ := exists_numeral ctx hm hn
  have hrender : render ctx m (.scalar a) = .done number [] 0 := by rw [render, hnumber]
  let s := Pass.start [.sql (before ++ slot.text ++ after), .value (.scalar a)]
  have hs := before_start [.sql (before ++ slot.text ++ after), .value (.scalar a)]
  have hend := hs.write_enter [] (before ++ number ++ after)
  have hrun : run ctx s = run ctx ((s.enter [] []).write (before ++ number ++ after)) := by
    rw [run_slot hb ha hr hw hs, Token.toValue, hrender, Render.done_bind, Render.after_nil_zero]
  refine ⟨number, _, hnumber, outcome_eq_finish hrun hend, ?_⟩
  have hsql := Output.finish_push_start (before ++ number ++ after)
  have htext : (before ++ number ++ after).toList = before.toList ++ number.toList ++ after.toList := by
    rw [String.toList_append, String.toList_append]
  refine (iff_of_eq (congrArg (fun sql => OpensComment sql.toList) hsql)).trans ?_
  rw [String.toList_ofList, opensComment_strip_iff, htext]
  exact hnumeral.opensComment_between hcb hca

theorem comment_opens_iff_subtrahend :
    let ctx : Context := .leapDay .postgres
    let slot := Slot.marker "f"
    (isPlain ctx.placeholders "SELECT a - ".toList = true ∧ isPlain ctx.placeholders " FROM t".toList = true ∧
      ¬OpensComment "SELECT a - ".toList ∧ ¬OpensComment " FROM t".toList ∧
      slot.IsRead ctx.placeholders " FROM t".toList ∧ slot.Writes (some .float) ∧ some .float ∈ numberModifiers ∧
      (Scalar.int (-2)).IsNumber) ∧
    ∃ number sql, ctx.scalar (some .float) (.int (-2)) = .done number [] 0 ∧
      ctx.outcome [.sql ("SELECT a - " ++ slot.text ++ " FROM t"), .value (.scalar (.int (-2)))] = .ok (sql, []) ∧
      (OpensComment sql.toList ↔ "SELECT a - ".toList.getLast? = some '-' ∧ number.toList.head? = some '-') := by
  intro ctx slot
  have hb : isPlain true "SELECT a - ".toList = true := by decide +kernel
  have ha : isPlain true " FROM t".toList = true := by decide +kernel
  have hcb : ¬OpensComment "SELECT a - ".toList := by decide +kernel
  have hca : ¬OpensComment " FROM t".toList := by decide +kernel
  have hr : slot.IsRead ctx.placeholders " FROM t".toList := ⟨rfl, by decide +kernel⟩
  have hw : slot.Writes (some .float) := .marker rfl (by decide)
  have hm : some .float ∈ numberModifiers := by decide
  exact ⟨⟨hb, ha, hcb, hca, hr, hw, hm, trivial⟩, comment_opens_iff hb ha hcb hca hr hw hm trivial⟩

/-- A negative number right behind a hyphen. -/
theorem comment_opens_behind_hyphen :
    let ctx : Context := .leapDay .generic
    isPlain ctx.placeholders "SELECT 5-".toList = true ∧ ¬OpensComment "SELECT 5-".toList ∧
      ctx.outcome [.sql ("SELECT 5-" ++ "%i" ++ ""), .value (.scalar (.int (-1)))] = .ok ("SELECT 5--1", []) ∧
      OpensComment "SELECT 5--1".toList := by
  intro ctx
  have hb : isPlain true "SELECT 5-".toList = true := by decide +kernel
  have hs := before_start [.sql ("SELECT 5-" ++ (Slot.marker "i").text ++ ""), .value (.scalar (.int (-1)))]
  have hr : (Slot.marker "i").IsRead ctx.placeholders "".toList := ⟨rfl, rfl⟩
  have hrun := run_slot hb rfl hr (.marker rfl (by decide)) hs
  have hnumber : render ctx (some .int) (.scalar (.int (-1))) = .done "-1" [] 0 := by
    rw [render]
    rfl
  rw [Token.toValue, hnumber, Render.done_bind, Render.after_nil_zero] at hrun
  refine ⟨hb, by decide +kernel, (outcome_eq_finish hrun (hs.write_enter [] _)).trans ?_, by decide +kernel⟩
  refine congrArg (fun sql => Except.ok (sql, [])) ?_
  decide +kernel

/-- A number that is a token of its own opens no comment, whatever stands in front of it. -/
theorem no_comment_opens_apart {ctx : Context} {before after : String} {a : Scalar}
    (hb : isPlain ctx.placeholders before.toList = true) (ha : isPlain ctx.placeholders after.toList = true)
    (hcb : ¬OpensComment before.toList) (hca : ¬OpensComment after.toList) (hn : a.IsNumber) :
    ∃ sql, ctx.outcome [.sql before, .value (.scalar a), .sql after] = .ok (sql, []) ∧ ¬OpensComment sql.toList := by
  obtain ⟨number, hnumber, hnumeral⟩ := exists_numeral ctx (List.mem_cons_self : none ∈ numberModifiers) hn
  have hrender : render ctx none (.scalar a) = .done number [] 0 := by rw [render, hnumber]
  let s := Pass.behind before [.value (.scalar a), .sql after]
  have hs := before_behind before [.value (.scalar a), .sql after]
  obtain ⟨r, hnext⟩ := s.next_value ctx.placeholders hs.lexemes hs.queue hs.shown (.inr rfl)
  let t := Pass.write number { s.enter [] [.sql after] with lastRow := r }
  have ht : t.Before [.sql after] := ⟨rfl, rfl, hs.shown, hs.bounds⟩
  have hrun : run ctx (.start [.sql before, .value (.scalar a), .sql after]) =
      run ctx ((t.enter [] []).write after) := by
    rw [run_plain hb (before_start _), ← run_plain ha ht]
    refine (run_value hnext).trans ?_
    have hbare : Pass.bareModifier (.scalar a) = none := rfl
    rw [hbare, hrender, Render.done_bind, Render.after_nil_zero]
  refine ⟨_, outcome_eq_finish hrun (ht.write_enter [] after), ?_⟩
  rw [Output.finish, String.toList_ofList, opensComment_strip_iff]
  show ¬OpensComment
    (((Output.empty.endToken.push before).endToken.push number).endToken.push after).text.toList
  have hnil : ¬OpensComment Output.empty.text.toList := by decide
  have hnumber := hnumeral.not_opensComment
  rw [opensComment_push_iff, opensComment_push_iff, opensComment_push_iff]
  tauto

end SqlComposer
