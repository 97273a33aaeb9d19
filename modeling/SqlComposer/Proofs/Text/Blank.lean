import SqlComposer.Text.Blank

/-!
# White space in texts

* `unspaced` : a text without any white space; taking it away at the ends changes nothing else (`unspaced_dropBlank`,
  `unspaced_dropBlankEnd`, `unspaced_strip`);
* `IsTrimmed` : a text without white space at its ends, as `strip` leaves it (`isTrimmed_strip`);
* `dropBlank_append_eq`, `dropBlankEnd_append_eq`, `IsTrimmed.strip_append` : beside such a text only the outer side of
  what stands around it is stripped;
* `IsTrimmed.strip_eq`, `IsTrimmed.infix_strip` : so it is kept, by itself and inside a longer text.
-/

namespace SqlComposer.Text

/-! ## Without any white space -/

/-- The text without any white space. -/
def unspaced (s : List Char) : List Char :=
  s.filter fun c => !isBlank c

@[simp] theorem unspaced_nil : unspaced [] = [] := rfl

@[simp] theorem unspaced_append (s t : List Char) : unspaced (s ++ t) = unspaced s ++ unspaced t :=
  List.filter_append ..

theorem unspaced_eq_nil_iff {s : List Char} : unspaced s = [] ↔ ∀ c ∈ s, isBlank c = true := by
  simp [unspaced, List.filter_eq_nil_iff]

theorem dropBlank_eq_nil_iff_unspaced {s : List Char} : dropBlank s = [] ↔ unspaced s = [] :=
  dropBlank_eq_nil_iff.trans unspaced_eq_nil_iff.symm

theorem unspaced_reverse (s : List Char) : unspaced s.reverse = (unspaced s).reverse :=
  List.filter_reverse

/-- The white space in front of a text, and the text from there. -/
theorem exists_blank_append_dropBlank (s : List Char) :
    ∃ blank, (∀ c ∈ blank, isBlank c = true) ∧ s = blank ++ dropBlank s :=
  ⟨s.takeWhile isBlank, List.all_eq_true.1 List.all_takeWhile, List.takeWhile_append_dropWhile.symm⟩

/-- The white space behind a text, and the text up to there. -/
theorem exists_dropBlankEnd_append_blank (s : List Char) :
    ∃ blank, (∀ c ∈ blank, isBlank c = true) ∧ s = dropBlankEnd s ++ blank := by
  obtain ⟨blank, hb, hs⟩ := exists_blank_append_dropBlank s.reverse
  refine ⟨blank.reverse, fun c hc => hb c (List.mem_reverse.1 hc), ?_⟩
  rw [dropBlankEnd, ← List.reverse_append, ← hs, List.reverse_reverse]

@[simp] theorem unspaced_dropBlank (s : List Char) : unspaced (dropBlank s) = unspaced s := by
  obtain ⟨blank, hb, hs⟩ := exists_blank_append_dropBlank s
  calc
    unspaced (dropBlank s) = unspaced blank ++ unspaced (dropBlank s) := by
      rw [unspaced_eq_nil_iff.2 hb, List.nil_append]
    _ = unspaced s := by rw [← unspaced_append, ← hs]

@[simp] theorem unspaced_dropBlankEnd (s : List Char) : unspaced (dropBlankEnd s) = unspaced s := by
  rw [dropBlankEnd, unspaced_reverse, unspaced_dropBlank, unspaced_reverse, List.reverse_reverse]

@[simp] theorem unspaced_strip (s : List Char) : unspaced (strip s) = unspaced s := by
  rw [strip, unspaced_dropBlankEnd, unspaced_dropBlank]

/-! ## White space at the ends -/

theorem isBlank_of_head?_dropBlank {s : List Char} {c : Char} (h : (dropBlank s).head? = some c) : isBlank c = false := by
  have hnot := List.head?_dropWhile_not isBlank s
  rw [dropBlank] at h
  rw [h] at hnot
  exact hnot

@[simp] theorem dropBlank_dropBlank (s : List Char) : dropBlank (dropBlank s) = dropBlank s :=
  dropBlank_eq_self fun _ => isBlank_of_head?_dropBlank

theorem dropBlank_eq_of_head? {s : List Char} {c : Char} (h : s.head? = some c) (hc : isBlank c = false) :
    dropBlank s = s := by
  apply dropBlank_eq_self
  intro d hd
  obtain rfl := Option.some.inj (h.symm.trans hd)
  exact hc

theorem dropBlankEnd_eq_of_getLast? {s : List Char} {c : Char} (h : s.getLast? = some c) (hc : isBlank c = false) :
    dropBlankEnd s = s := by
  rw [dropBlankEnd, dropBlank_eq_of_head? (List.head?_reverse ▸ h) hc, List.reverse_reverse]

@[simp] theorem dropBlankEnd_nil : dropBlankEnd [] = [] := rfl

/-- Neither the first nor the last character is white space. -/
structure IsTrimmed (s : List Char) : Prop where
  head : ∀ c, s.head? = some c → isBlank c = false
  last : ∀ c, s.getLast? = some c → isBlank c = false

theorem isTrimmed_iff {s : List Char} :
    IsTrimmed s ↔ s.head?.all (fun c => !isBlank c) = true ∧ s.getLast?.all (fun c => !isBlank c) = true := by
  simp only [Option.all_eq_true, Bool.not_eq_true']
  exact ⟨fun h => ⟨h.head, h.last⟩, fun h => ⟨h.1, h.2⟩⟩

instance (s : List Char) : Decidable (IsTrimmed s) :=
  decidable_of_iff _ isTrimmed_iff.symm

theorem isTrimmed_strip (s : List Char) : IsTrimmed (strip s) where
  head c hc := by
    obtain ⟨blank, -, hs⟩ := exists_dropBlankEnd_append_blank (dropBlank s)
    refine @isBlank_of_head?_dropBlank s c ?_
    rw [hs, List.head?_append, ← strip, hc, Option.some_or]
  last c hc := by
    rw [strip, dropBlankEnd, List.getLast?_reverse] at hc
    exact isBlank_of_head?_dropBlank hc

/-- In front of what starts with no white space the rest is stripped by itself. -/
theorem dropBlank_append_eq {t : List Char} (h : ∀ c, t.head? = some c → isBlank c = false) (s : List Char) :
    dropBlank (s ++ t) = dropBlank s ++ t := by
  by_cases hs : dropBlank s = []
  · rw [dropBlank_append_blank hs, hs, List.nil_append, dropBlank_eq_self h]
  · exact dropBlank_append hs t

/-- Behind what ends in no white space the rest is stripped by itself. -/
theorem dropBlankEnd_append_eq {s : List Char} (h : ∀ c, s.getLast? = some c → isBlank c = false) (t : List Char) :
    dropBlankEnd (s ++ t) = s ++ dropBlankEnd t := by
  have hhead : ∀ c, s.reverse.head? = some c → isBlank c = false := fun c hc => h c (List.head?_reverse ▸ hc)
  rw [dropBlankEnd, List.reverse_append, dropBlank_append_eq hhead, List.reverse_append, List.reverse_reverse,
    dropBlankEnd]

namespace IsTrimmed

variable {m s : List Char}

/-- With more text behind it the first character stays the first. -/
theorem head_append (h : IsTrimmed m) (ne : m ≠ []) (back : List Char) :
    ∀ c, (m ++ back).head? = some c → isBlank c = false := by
  intro c hc
  rw [List.head?_append, List.head?_eq_some_head ne, Option.some_or] at hc
  exact h.head c (List.head?_eq_some_head ne ▸ hc)

/-- With more text in front of it the last character stays the last. -/
theorem last_append (h : IsTrimmed m) (ne : m ≠ []) (front : List Char) :
    ∀ c, (front ++ m).getLast? = some c → isBlank c = false := by
  intro c hc
  rw [List.getLast?_append, List.getLast?_eq_some_getLast ne, Option.some_or] at hc
  exact h.last c (List.getLast?_eq_some_getLast ne ▸ hc)

/-- Between trimmed texts anything may stand. -/
theorem append_append (hm : IsTrimmed m) (hs : IsTrimmed s) (neM : m ≠ []) (neS : s ≠ []) (middle : List Char) :
    IsTrimmed (m ++ (middle ++ s)) where
  head := hm.head_append neM (middle ++ s)
  last := by
    rw [← List.append_assoc]
    exact hs.last_append neS (m ++ middle)

/-- What stands around a trimmed text is stripped on its outer side alone. -/
theorem strip_append (h : IsTrimmed m) (ne : m ≠ []) (front back : List Char) :
    strip (front ++ (m ++ back)) = dropBlank front ++ (m ++ dropBlankEnd back) := by
  rw [strip, dropBlank_append_eq (h.head_append ne back), ← List.append_assoc,
    dropBlankEnd_append_eq (h.last_append ne (dropBlank front)), List.append_assoc]

theorem strip_eq (h : IsTrimmed s) : strip s = s := by
  by_cases ne : s = []
  · rw [ne]
    rfl
  · have hstrip := h.strip_append ne [] []
    simpa using hstrip

theorem infix_dropBlank (h : IsTrimmed m) (hm : m <:+: s) : m <:+: dropBlank s := by
  obtain ⟨front, back, rfl⟩ := hm
  by_cases ne : m = []
  · rw [ne]
    exact List.nil_infix
  · rw [List.append_assoc, dropBlank_append_eq (h.head_append ne back)]
    exact ⟨dropBlank front, back, List.append_assoc ..⟩

theorem infix_strip (h : IsTrimmed m) (hm : m <:+: s) : m <:+: strip s := by
  obtain ⟨front, back, rfl⟩ := hm
  by_cases ne : m = []
  · rw [ne]
    exact List.nil_infix
  · rw [List.append_assoc, h.strip_append ne]
    exact ⟨dropBlank front, dropBlankEnd back, List.append_assoc ..⟩

end IsTrimmed

end SqlComposer.Text
