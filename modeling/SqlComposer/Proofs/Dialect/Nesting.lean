import Mathlib.Tactic.SplitIfs
import SqlComposer.Dialect.Kind
import SqlComposer.Text.Parts
import SqlComposer.Text.Quoted

/-!
# Reading over quotes and parentheses

A database reads SQL text character by character: what stands between quotes or in parentheses hides its
commas and spaces.

* `Quote`, `Kind.quoteAt?`, `Kind.doubles`, `Kind.escapes` : the quotes of the known dialects;
* `Spot`, `Kind.step` : where a reader stands, and where it stands behind the next character;
* `Kind.fields` : the texts between the separators that are not hidden;
* `Kind.Reads` : a reader comes over a text without meeting one of the separators;
* `Kind.Whole` : it does so from outside all quotes and parentheses to outside all of them;
* `Whole.glue`, `Whole.inParentheses`, `whole_quoted` : how whole texts are made;
* `Whole.fields_append`, `Whole.exists_fields` : how they are read.
-/

namespace SqlComposer.Dialect

/-! ## The reader -/

/-- The quotes that some dialect knows. -/
inductive Quote
  | single
  | double
  | grave
  | bracket
  deriving DecidableEq

namespace Quote

def opening : Quote → Char
  | single => '\''
  | double => '"'
  | grave => '\x60'
  | bracket => '['

def closing : Quote → Char
  | bracket => ']'
  | q => q.opening

end Quote

/-- The quote that a character opens. -/
def Kind.quoteAt? (k : Kind) (c : Char) : Option Quote :=
  if c = '\'' then some .single
  else if c = '"' then some .double
  else if c = '\x60' ∧ (k = .mysql ∨ k = .sqlite) then some .grave
  else if c = '[' ∧ (k = .sqlserver ∨ k = .sqlite) then some .bracket
  else none

/-- Whether a closing quote that is written twice stands for one inside. -/
def Kind.doubles (k : Kind) (q : Quote) : Bool :=
  !(k = .sqlite && q = .bracket)

/-- Whether a backslash takes away the meaning of the next character. -/
def Kind.escapes (k : Kind) (q : Quote) : Bool :=
  k = .mysql && (q = .single || q = .double)

/-- Where a reader stands with regard to quotes. -/
inductive Place
  | outside
  | inside (q : Quote)
  /-- Inside, behind an escape character. -/
  | escaped (q : Quote)
  /-- Behind a closing quote, which may be the first of two. -/
  | behind (q : Quote)
  deriving DecidableEq

/-- No quote is open. -/
def Place.isOutside : Place → Bool
  | outside | behind _ => true
  | inside _ | escaped _ => false

/-- Where a reader stands: in how many parentheses, and with regard to quotes. -/
structure Spot where
  depth : Nat
  place : Place

namespace Spot

/-- The start of a text. -/
def start : Spot :=
  ⟨0, .outside⟩

/-- In no parentheses and no quotes. -/
def isTop (s : Spot) : Bool :=
  s.depth == 0 && s.place.isOutside

/-- The same place inside one more pair of parentheses. -/
def deepen (s : Spot) : Spot :=
  ⟨s.depth + 1, s.place⟩

end Spot

/-- Where no quote is open. A parenthesis that closes nothing is an error. -/
def Kind.stepOutside (k : Kind) (depth : Nat) (c : Char) : Option Spot :=
  match k.quoteAt? c with
  | some q => some ⟨depth, .inside q⟩
  | none =>
    if c = '(' then some ⟨depth + 1, .outside⟩
    else if c = ')' then
      match depth with
      | 0 => none
      | outer + 1 => some ⟨outer, .outside⟩
    else some ⟨depth, .outside⟩

/-- Where the reader stands behind the next character. -/
def Kind.step (k : Kind) (s : Spot) (c : Char) : Option Spot :=
  match s.place with
  | .outside => k.stepOutside s.depth c
  | .inside q =>
    if k.escapes q && c = '\\' then some ⟨s.depth, .escaped q⟩
    else if c = q.closing then some ⟨s.depth, .behind q⟩
    else some s
  | .escaped q => some ⟨s.depth, .inside q⟩
  | .behind q => if k.doubles q && c = q.closing then some ⟨s.depth, .inside q⟩ else k.stepOutside s.depth c

/-- The fields with a text in front of the first. -/
def prepend (p : List Char) : List (List Char) → List (List Char)
  | [] => []
  | f :: fs => (p ++ f) :: fs

/-- The texts between the separators outside all quotes and parentheses. There are none if the reader does not
end outside of them. -/
def Kind.fields (k : Kind) (sep : Char) (s : Spot) : List Char → Option (List (List Char))
  | [] => if s.isTop then some [[]] else none
  | c :: cs =>
    if s.isTop && c = sep then (k.fields sep .start cs).map ([] :: ·)
    else
      match k.step s c with
      | none => none
      | some t => (k.fields sep t cs).map (prepend [c])

/-! ## Steps -/

/-- Quotes, brackets and parentheses. -/
def isMark (c : Char) : Bool :=
  ['\'', '"', '\x60', '[', ']', '(', ')'].contains c

theorem isMark_opening (q : Quote) : isMark q.opening = true := by cases q <;> decide

theorem isMark_closing (q : Quote) : isMark q.closing = true := by cases q <;> decide

theorem closing_ne_backslash (q : Quote) : q.closing ≠ '\\' := by cases q <;> decide

theorem closing_ne_parenthesis (q : Quote) : q.closing ≠ ')' := by cases q <;> decide

variable {k : Kind} {seps : List Char} {sep : Char} {s t u : Spot}

theorem quoteAt?_of_not_isMark {c : Char} (h : isMark c = false) : k.quoteAt? c = none := by
  simp only [isMark, List.contains_eq_mem, List.mem_cons, List.not_mem_nil, decide_eq_false_iff_not, not_or] at h
  simp [Kind.quoteAt?, h]

theorem step_of_isOutside {c : Char} (h : s.place.isOutside = true) (hc : ∀ q : Quote, c ≠ q.closing) :
    k.step s c = k.stepOutside s.depth c := by
  obtain ⟨depth, place⟩ := s
  cases place with
  | outside => rfl
  | inside q => cases h
  | escaped q => cases h
  | behind q => simp [Kind.step, hc q]

theorem step_of_not_isMark {c : Char} (h : s.place.isOutside = true) (hc : isMark c = false) :
    k.step s c = some ⟨s.depth, .outside⟩ := by
  have hq (q : Quote) : c ≠ q.closing := by
    rintro rfl
    rw [isMark_closing] at hc
    cases hc
  have ho : c ≠ '(' := fun e => by
    rw [e] at hc
    cases hc
  have hp : c ≠ ')' := fun e => by
    rw [e] at hc
    cases hc
  rw [step_of_isOutside h hq]
  unfold Kind.stepOutside
  rw [quoteAt?_of_not_isMark hc]
  simp only [if_neg ho, if_neg hp]

theorem stepOutside_succ {depth : Nat} {c : Char} (h : k.stepOutside depth c = some t) :
    k.stepOutside (depth + 1) c = some t.deepen := by
  unfold Kind.stepOutside at h ⊢
  cases hq : k.quoteAt? c with
  | some q =>
    rw [hq] at h
    obtain rfl := Option.some.inj h
    rfl
  | none =>
    rw [hq] at h
    by_cases ho : c = '('
    · simp only [if_pos ho] at h ⊢
      obtain rfl := Option.some.inj h
      rfl
    by_cases hp : c = ')'
    · simp only [if_neg ho, if_pos hp] at h ⊢
      cases depth with
      | zero => cases h
      | succ outer =>
        obtain rfl := Option.some.inj h
        rfl
    · simp only [if_neg ho, if_neg hp] at h ⊢
      obtain rfl := Option.some.inj h
      rfl

/-- A step is the same inside one more pair of parentheses. -/
theorem step_deepen {c : Char} (h : k.step s c = some t) : k.step s.deepen c = some t.deepen := by
  obtain ⟨depth, place⟩ := s
  cases place with
  | outside => exact stepOutside_succ h
  | inside q =>
    simp only [Kind.step, Spot.deepen] at h ⊢
    split_ifs at h ⊢ <;>
    · obtain rfl := Option.some.inj h
      rfl
  | escaped q =>
    obtain rfl := Option.some.inj h
    rfl
  | behind q =>
    simp only [Kind.step, Spot.deepen] at h ⊢
    split_ifs at h ⊢
    · obtain rfl := Option.some.inj h
      rfl
    · exact stepOutside_succ h

/-! ## Whole texts -/

/-- The reader comes over the text from one spot to another and meets none of the separators outside quotes
and parentheses. -/
inductive Kind.Reads (k : Kind) (seps : List Char) : Spot → List Char → Spot → Prop
  | done (s : Spot) : Reads k seps s [] s
  | step {s t u : Spot} {c : Char} {cs : List Char} (free : s.isTop = true → c ∉ seps)
      (step : k.step s c = some t) (rest : Reads k seps t cs u) : Reads k seps s (c :: cs) u

namespace Kind.Reads

theorem append {a b : List Char} (h : k.Reads seps s a t) (h' : k.Reads seps t b u) : k.Reads seps s (a ++ b) u := by
  induction h with
  | done => exact h'
  | step free step _ ih => exact .step free step (ih h')

theorem single {c : Char} (free : s.isTop = true → c ∉ seps) (h : k.step s c = some t) : k.Reads seps s [c] t :=
  .step free h (.done t)

/-- Inside quotes or parentheses no character separates. -/
theorem hidden {c : Char} {a : List Char} (hs : s.isTop = false) (h : k.step s c = some t)
    (rest : k.Reads seps t a u) : k.Reads seps s (c :: a) u := by
  refine .step (fun ht => ?_) h rest
  rw [hs] at ht
  cases ht

/-- In one more pair of parentheses everything is hidden. -/
theorem deepen {a : List Char} (h : k.Reads seps s a t) (seps' : List Char) : k.Reads seps' s.deepen a t.deepen := by
  induction h with
  | done s => exact .done _
  | step _ step _ ih => exact .hidden rfl (step_deepen step) ih

theorem mono {seps' : List Char} {a : List Char} (h : k.Reads seps s a t) (hs : seps' ⊆ seps) :
    k.Reads seps' s a t := by
  induction h with
  | done s => exact .done s
  | step free step _ ih => exact .step (fun ht hc => free ht (hs hc)) step ih

/-- Characters that leave the reader where it is. -/
theorem constant {a : List Char} (h : ∀ c ∈ a, k.step s c = some s ∧ (s.isTop = true → c ∉ seps)) :
    k.Reads seps s a s := by
  induction a with
  | nil => exact .done s
  | cons c a ih =>
    have hc := h c (by simp)
    exact .step hc.2 hc.1 (ih fun d hd => h d (by simp [hd]))

/-- What the reader comes over belongs to one field. -/
theorem fields_append {a : List Char} (h : k.Reads seps s a t) (hs : sep ∈ seps) (rest : List Char) :
    k.fields sep s (a ++ rest) = (k.fields sep t rest).map (prepend a) := by
  induction h with
  | done s =>
    have hp : prepend [] = id := by
      funext fs
      cases fs <;> rfl
    rw [hp, Option.map_id]
    rfl
  | @step s t u c cs free step _ ih =>
    have hn : ¬(s.isTop && c = sep) = true := by
      rw [Bool.and_eq_true, decide_eq_true_eq]
      rintro ⟨ht, rfl⟩
      exact free ht hs
    rw [List.cons_append, Kind.fields, if_neg hn, step]
    simp only [ih, Option.map_map]
    congr 1
    funext fs
    cases fs <;> rfl

end Kind.Reads

/-- The reader comes over the text from outside all quotes and parentheses to outside all of them, and meets
none of the separators there. -/
def Kind.Whole (k : Kind) (seps : List Char) (a : List Char) : Prop :=
  ∃ place : Place, place.isOutside = true ∧ k.Reads seps .start a ⟨0, place⟩

theorem whole_nil : k.Whole seps [] := ⟨.outside, rfl, .done _⟩

/-- A character of its own, which neither hides nor separates. -/
def isInert (seps : List Char) (c : Char) : Bool :=
  !isMark c && !seps.contains c

theorem isInert_iff {c : Char} : isInert seps c = true ↔ isMark c = false ∧ c ∉ seps := by
  simp [isInert]

theorem reads_of_isInert {a : List Char} (h : a.all (isInert seps) = true) : k.Reads seps .start a .start := by
  refine .constant fun c hc => ?_
  obtain ⟨hm, hs⟩ := isInert_iff.1 (List.all_eq_true.1 h c hc)
  exact ⟨step_of_not_isMark rfl hm, fun _ => hs⟩

theorem whole_of_isInert {a : List Char} (h : a.all (isInert seps) = true) : k.Whole seps a :=
  ⟨.outside, rfl, reads_of_isInert h⟩

namespace Kind.Whole

variable {a b : List Char}

theorem mono {seps' : List Char} (h : k.Whole seps a) (hs : seps' ⊆ seps) : k.Whole seps' a := by
  obtain ⟨place, hp, h⟩ := h
  exact ⟨place, hp, h.mono hs⟩

theorem append_isInert (ha : a.all (isInert seps) = true) (hb : k.Whole seps b) : k.Whole seps (a ++ b) := by
  obtain ⟨place, hp, h⟩ := hb
  exact ⟨place, hp, (reads_of_isInert ha).append h⟩

/-- Two whole texts with an inert character between them. -/
theorem glue {c : Char} (ha : k.Whole seps a) (hc : isInert seps c = true) (hb : k.Whole seps b) :
    k.Whole seps (a ++ c :: b) := by
  obtain ⟨place, hp, ha⟩ := ha
  obtain ⟨place', hp', hb⟩ := hb
  obtain ⟨hm, hs⟩ := isInert_iff.1 hc
  exact ⟨place', hp', ha.append (.step (fun _ => hs) (step_of_not_isMark hp hm) hb)⟩

/-- In parentheses separators are hidden. -/
theorem inParentheses (hs : seps.any isMark = false) (ha : k.Whole [] a) : k.Whole seps ('(' :: (a ++ [')'])) := by
  obtain ⟨place, hp, ha⟩ := ha
  have hopen : k.step .start '(' = some (Spot.deepen .start) := rfl
  have hclose : k.step (Spot.deepen ⟨0, place⟩) ')' = some .start := by
    rw [step_of_isOutside hp fun q => (closing_ne_parenthesis q).symm]
    rfl
  have ho : '(' ∉ seps := fun hm => List.any_eq_false.1 hs _ hm rfl
  exact ⟨.outside, rfl, .step (fun _ => ho) hopen ((ha.deepen seps).append (.hidden rfl hclose (.done _)))⟩

/-! ## Fields -/

theorem fields_eq (ha : k.Whole seps a) (hs : sep ∈ seps) : k.fields sep .start a = some [a] := by
  obtain ⟨place, hp, ha⟩ := ha
  have ht : Spot.isTop ⟨0, place⟩ = true := hp
  have h := ha.fields_append hs []
  rw [List.append_nil, Kind.fields, if_pos ht] at h
  simpa [prepend] using h

/-- A whole text up to a separator is the first field. -/
theorem fields_append (ha : k.Whole seps a) (hs : sep ∈ seps) (rest : List Char) :
    k.fields sep .start (a ++ sep :: rest) = (k.fields sep .start rest).map (a :: ·) := by
  obtain ⟨place, hp, ha⟩ := ha
  have ht : (Spot.isTop ⟨0, place⟩ && decide (sep = sep)) = true := by
    rw [decide_eq_true rfl, Bool.and_true]
    exact hp
  rw [ha.fields_append hs, Kind.fields, if_pos ht, Option.map_map]
  congr 1
  funext fs
  simp [prepend]

end Kind.Whole

/-- What a reader comes over has fields, and these make up the text. -/
theorem Kind.Reads.exists_fields {a : List Char} (h : k.Reads seps s a t) (ht : t.isTop = true)
    (hs : isMark sep = false) :
    ∃ f fs, k.fields sep s a = some (f :: fs) ∧ Text.joined sep (f :: fs) = a := by
  induction h with
  | done s => exact ⟨[], [], if_pos ht, rfl⟩
  | @step s t u c cs free step _ ih =>
    obtain ⟨f, fs, hf, hj⟩ := ih ht
    rw [Kind.fields]
    by_cases hc : (s.isTop && c = sep) = true
    · rw [if_pos hc]
      rw [Bool.and_eq_true, decide_eq_true_eq] at hc
      obtain ⟨hst, rfl⟩ := hc
      rw [Spot.isTop, Bool.and_eq_true, beq_iff_eq] at hst
      have hstart : t = .start := by
        rw [step_of_not_isMark hst.2 hs, hst.1] at step
        exact (Option.some.inj step).symm
      rw [← hstart, hf]
      exact ⟨[], f :: fs, rfl, by rw [← hj]; simp [Text.joined]⟩
    · rw [if_neg hc, step]
      refine ⟨c :: f, fs, ?_, ?_⟩
      · simp only [hf]
        rfl
      · rw [← hj]
        cases fs <;> simp [Text.joined, List.intercalate]

theorem Kind.Whole.exists_fields {a : List Char} (h : k.Whole seps a) (hs : isMark sep = false) :
    ∃ f fs, k.fields sep .start a = some (f :: fs) ∧ Text.joined sep (f :: fs) = a := by
  obtain ⟨place, hp, h⟩ := h
  exact h.exists_fields hp hs

/-! ## Quoted texts -/

theorem step_inside {q : Quote} {c : Char} (depth : Nat) (hc : c ≠ q.closing)
    (he : k.escapes q = true → c ≠ '\\') : k.step ⟨depth, .inside q⟩ c = some ⟨depth, .inside q⟩ := by
  have hn : ¬(k.escapes q && c = '\\') = true := by
    rw [Bool.and_eq_true, decide_eq_true_eq]
    exact fun h => he h.1 h.2
  simp only [Kind.step, if_neg hn, if_neg hc]

theorem step_closing (q : Quote) (depth : Nat) : k.step ⟨depth, .inside q⟩ q.closing = some ⟨depth, .behind q⟩ := by
  simp [Kind.step, closing_ne_backslash q]

/-- Inside quotes, a text without closing quotes and escape characters. -/
theorem reads_inside {q : Quote} {a : List Char}
    (h : ∀ c ∈ a, c ≠ q.closing ∧ (k.escapes q = true → c ≠ '\\')) :
    k.Reads seps ⟨0, .inside q⟩ a ⟨0, .inside q⟩ :=
  .constant fun c hc => ⟨step_inside 0 (h c hc).1 (h c hc).2, fun hs => absurd hs Bool.false_ne_true⟩

/-- Inside quotes, a text with every closing quote written twice. -/
theorem reads_doubled {q : Quote} (hs : seps.any isMark = false) (hd : k.doubles q = true)
    (he : k.escapes q = false) (a : List Char) :
    k.Reads seps ⟨0, .inside q⟩ (Text.doubled q.closing a) ⟨0, .inside q⟩ := by
  have hsep : q.closing ∉ seps := fun hm => List.any_eq_false.1 hs _ hm (isMark_closing q)
  induction a with
  | nil => exact .done _
  | cons c a ih =>
    rw [Text.doubled]
    split
    · have hb : k.step ⟨0, .behind q⟩ q.closing = some ⟨0, .inside q⟩ := by simp [Kind.step, hd]
      exact .hidden rfl (step_closing q 0)
        (.step (fun _ hm => hsep hm) hb ih)
    · next hc => exact .hidden rfl (step_inside 0 hc (by simp [he])) ih

theorem whole_quoted {q : Quote} {a : List Char} (hs : seps.any isMark = false)
    (hq : k.quoteAt? q.opening = some q) (ha : k.Reads seps ⟨0, .inside q⟩ a ⟨0, .inside q⟩) :
    k.Whole seps (q.opening :: (a ++ [q.closing])) := by
  have hopen : k.step .start q.opening = some ⟨0, .inside q⟩ := by
    show k.stepOutside 0 q.opening = _
    unfold Kind.stepOutside
    rw [hq]
  have hclose : k.Reads seps ⟨0, .inside q⟩ [q.closing] ⟨0, .behind q⟩ :=
    .hidden rfl (step_closing q 0) (.done _)
  have hsep : q.opening ∉ seps := fun hm => List.any_eq_false.1 hs _ hm (isMark_opening q)
  exact ⟨.behind q, rfl, .step (fun _ => hsep) hopen (ha.append hclose)⟩

end SqlComposer.Dialect
