import SqlComposer.Proofs.Dialect.Nesting

/-!
# Clauses read back

How a reader takes apart what stands outside quotes and parentheses.

* `Kind.listed` : the parts of a list with commas; `Kind.tuple?` : of one in parentheses;
* `Kind.cell?` : a column, an operator and a value; `Kind.conditions?` : conditions joined by a word;
* `Kind.listed_eq`, `Kind.tuple?_eq`, `Kind.cell?_eq`, `Kind.conditions?_eq` : whole parts are found as they were
  put together.
-/

namespace SqlComposer.Dialect

/-! ## Readers -/

/-- The text behind a space, if one stands in front. -/
def dropSpace : List Char → List Char
  | ' ' :: cs => cs
  | cs => cs

/-- The parts of a list with commas and a space behind each comma. -/
def Kind.listed (k : Kind) (cs : List Char) : Option (List (List Char)) :=
  match k.fields ',' .start cs with
  | some (f :: fs) => some (f :: fs.map dropSpace)
  | _ => none

/-- What stands between a parenthesis in front and one at the end. -/
def unwrapped? : List Char → Option (List Char)
  | '(' :: cs => if cs.getLast? = some ')' then some cs.dropLast else none
  | _ => none

/-- The parts of a list in parentheses. -/
def Kind.tuple? (k : Kind) (cs : List Char) : Option (List (List Char)) :=
  (unwrapped? cs).bind k.listed

/-- A column and a value with one of the operators between them. -/
def Kind.cell? (k : Kind) (operators : List (List Char)) (cs : List Char) : Option (List Char × List Char) :=
  match k.fields ' ' .start cs with
  | some (column :: operator :: f :: fs) =>
    if operator ∈ operators then some (column, Text.joined ' ' (f :: fs)) else none
  | _ => none

/-- The fields that stand in parentheses, with the word between them. -/
def unwrappedBetween? (word : List Char) : List (List Char) → Option (List (List Char))
  | [] => none
  | [f] => (unwrapped? f).map ([·])
  | f :: w :: fs =>
    if w = word then
      match unwrapped? f, unwrappedBetween? word fs with
      | some c, some cs => some (c :: cs)
      | _, _ => none
    else none

/-- Conditions in parentheses joined by the word. -/
def Kind.conditions? (k : Kind) (word cs : List Char) : Option (List (List Char)) :=
  (k.fields ' ' .start cs).bind (unwrappedBetween? word)

/-! ## Written parts -/

/-- A text in parentheses. -/
def wrapped (a : List Char) : List Char :=
  '(' :: (a ++ [')'])

/-- Parts with a comma and a space between them. -/
def commaJoined (ps : List (List Char)) : List Char :=
  [',', ' '].intercalate ps

/-- Parts in parentheses with a word between them. -/
def wordJoined (word : List Char) : List (List Char) → List Char
  | [] => []
  | [p] => wrapped p
  | p :: ps => wrapped p ++ ' ' :: (word ++ ' ' :: wordJoined word ps)

variable {k : Kind}

@[simp] theorem unwrapped?_wrapped (a : List Char) : unwrapped? (wrapped a) = some a := by
  simp [unwrapped?, wrapped]

theorem whole_wrapped {seps : List Char} (hs : seps.any isMark = false) {a : List Char} (h : k.Whole [] a) :
    k.Whole seps (wrapped a) :=
  h.inParentheses hs

theorem commaJoined_cons_cons (p q : List Char) (ps : List (List Char)) :
    commaJoined (p :: q :: ps) = p ++ ',' :: (' ' :: commaJoined (q :: ps)) := by
  simp [commaJoined]

theorem wordJoined_cons (word p : List Char) (ps : List (List Char)) :
    wordJoined word (p :: ps) = wrapped ((')' :: ' ' :: (word ++ [' ', '('])).intercalate (p :: ps)) := by
  induction ps generalizing p with
  | nil => simp [wordJoined]
  | cons q qs ih =>
    have hq := ih q
    rw [wordJoined, hq, List.intercalate_cons_cons]
    · simp [wrapped]
    · simp

/-! ## Lists -/

theorem commaJoined_append {ps qs : List (List Char)} (hp : ps ≠ []) (hq : qs ≠ []) :
    commaJoined (ps ++ qs) = commaJoined ps ++ ',' :: (' ' :: commaJoined qs) := by
  obtain ⟨q, qs, rfl⟩ := List.exists_cons_of_ne_nil hq
  induction ps with
  | nil => exact absurd rfl hp
  | cons p ps ih =>
    cases ps with
    | nil => simp [commaJoined]
    | cons p' ps =>
      have hrest := ih (List.cons_ne_nil p' ps)
      rw [List.cons_append] at hrest
      rw [List.cons_append, List.cons_append, commaJoined_cons_cons, hrest, commaJoined_cons_cons]
      simp

/-- Lists with commas, put together with commas, are one list. -/
theorem commaJoined_flatten {pss : List (List (List Char))} (h : ∀ ps ∈ pss, ps ≠ []) :
    commaJoined (pss.map commaJoined) = commaJoined pss.flatten := by
  induction pss with
  | nil => rfl
  | cons ps pss ih =>
    have hrest := ih fun qs hq => h qs (List.mem_cons_of_mem ps hq)
    have hps := h ps List.mem_cons_self
    cases pss with
    | nil => simp [commaJoined]
    | cons qs pss =>
      have hne : (qs :: pss).flatten ≠ [] := by
        simp [h qs (by simp)]
      rw [List.map_cons] at hrest
      rw [List.map_cons, List.map_cons, List.flatten_cons, commaJoined_append hps hne, commaJoined_cons_cons, hrest]

theorem whole_commaJoined {ps : List (List Char)} (h : ∀ p ∈ ps, k.Whole [','] p) : k.Whole [] (commaJoined ps) := by
  induction ps with
  | nil => exact whole_nil
  | cons p ps ih =>
    have hp : k.Whole [] p := (h p (by simp)).mono (by simp)
    cases ps with
    | nil => simpa [commaJoined] using hp
    | cons q qs =>
      have hq := ih fun r hr => h r (List.mem_cons_of_mem p hr)
      rw [commaJoined_cons_cons]
      have hspace : [' '].all (isInert []) = true := rfl
      exact hp.glue rfl (.append_isInert hspace hq)

theorem fields_commaJoined (p : List Char) {ps : List (List Char)} (h : ∀ q ∈ p :: ps, k.Whole [','] q) :
    k.fields ',' .start (commaJoined (p :: ps)) = some (p :: ps.map (' ' :: ·)) := by
  induction ps generalizing p with
  | nil => simpa [commaJoined] using (h p (by simp)).fields_eq (by simp)
  | cons q qs ih =>
    have hq := ih q fun r hr => h r (List.mem_cons_of_mem p hr)
    have hspace : k.Reads [','] .start [' '] .start := .single (by simp) rfl
    have hrest := hspace.fields_append (List.mem_singleton_self ',') (commaJoined (q :: qs))
    rw [commaJoined_cons_cons, (h p (by simp)).fields_append (by simp)]
    rw [List.singleton_append, hq] at hrest
    rw [hrest]
    rfl

theorem Kind.listed_eq {ps : List (List Char)} (hne : ps ≠ []) (h : ∀ p ∈ ps, k.Whole [','] p) :
    k.listed (commaJoined ps) = some ps := by
  obtain ⟨p, ps, rfl⟩ := List.exists_cons_of_ne_nil hne
  have hd : dropSpace ∘ (' ' :: ·) = id := rfl
  rw [Kind.listed, fields_commaJoined p h]
  simp [hd]

example : Kind.postgres.listed "(b, c), 'd, ''e'".toList = some ["(b, c)".toList, "'d, ''e'".toList] := by decide

theorem Kind.tuple?_eq {ps : List (List Char)} (hne : ps ≠ []) (h : ∀ p ∈ ps, k.Whole [','] p) :
    k.tuple? (wrapped (commaJoined ps)) = some ps := by
  rw [Kind.tuple?, unwrapped?_wrapped]
  exact k.listed_eq hne h

/-! ## Conditions -/

theorem Kind.cell?_eq {operators : List (List Char)} {column operator value seps : List Char}
    (hc : k.Whole [',', ' '] column) (ho : operator ∈ operators) (hi : operator.all (isInert [',', ' ']) = true)
    (hv : k.Whole seps value) :
    k.cell? operators (column ++ ' ' :: (operator ++ ' ' :: value)) = some (column, value) := by
  obtain ⟨f, fs, hf, hj⟩ := hv.exists_fields (show isMark ' ' = false from rfl)
  have hi' : k.Whole [',', ' '] operator := whole_of_isInert hi
  rw [Kind.cell?, hc.fields_append (by simp), hi'.fields_append (by simp), hf]
  simp [ho, hj]

theorem whole_cell {column operator value seps : List Char} (hs : seps ⊆ [',']) (hc : k.Whole [',', ' '] column)
    (hi : operator.all (isInert [',', ' ']) = true) (hv : k.Whole seps value) :
    k.Whole seps (column ++ ' ' :: (operator ++ ' ' :: value)) := by
  have hs' : seps ⊆ [',', ' '] := fun c hc => List.mem_cons.2 (.inl (List.mem_singleton.1 (hs hc)))
  have hi' : k.Whole seps operator := (whole_of_isInert hi).mono hs'
  have hspace : isInert seps ' ' = true := by
    refine isInert_iff.2 ⟨rfl, fun hc => ?_⟩
    exact absurd (List.mem_singleton.1 (hs hc)) (by decide)
  exact (hc.mono hs').glue hspace (hi'.glue hspace hv)

/-- Parts in parentheses, with the word between them. -/
def wrappedBetween (word : List Char) : List (List Char) → List (List Char)
  | [] => []
  | [p] => [wrapped p]
  | p :: ps => wrapped p :: word :: wrappedBetween word ps

theorem fields_wordJoined {word : List Char} (hw : word.all (isInert [' ']) = true) (p : List Char)
    {ps : List (List Char)} (h : ∀ q ∈ p :: ps, k.Whole [] q) :
    k.fields ' ' .start (wordJoined word (p :: ps)) = some (wrappedBetween word (p :: ps)) := by
  have hs : [' '].any isMark = false := by decide
  induction ps generalizing p with
  | nil => exact (whole_wrapped hs (h p (by simp))).fields_eq (by simp)
  | cons q qs ih =>
    have hq := ih q fun r hr => h r (List.mem_cons_of_mem p hr)
    have hw' : k.Whole [' '] word := whole_of_isInert hw
    rw [wordJoined, (whole_wrapped hs (h p (by simp))).fields_append (by simp), hw'.fields_append (by simp), hq]
    · rfl
    · simp

theorem unwrappedBetween?_wrappedBetween (word p : List Char) (ps : List (List Char)) :
    unwrappedBetween? word (wrappedBetween word (p :: ps)) = some (p :: ps) := by
  induction ps generalizing p with
  | nil => simp [wrappedBetween, unwrappedBetween?]
  | cons q qs ih =>
    have hq := ih q
    rw [wrappedBetween, unwrappedBetween?, if_pos rfl, hq, unwrapped?_wrapped]
    simp

theorem Kind.conditions?_eq {word : List Char} (hw : word.all (isInert [' ']) = true) {ps : List (List Char)}
    (hne : ps ≠ []) (h : ∀ p ∈ ps, k.Whole [] p) : k.conditions? word (wordJoined word ps) = some ps := by
  obtain ⟨p, ps, rfl⟩ := List.exists_cons_of_ne_nil hne
  rw [Kind.conditions?, fields_wordJoined hw p h]
  exact unwrappedBetween?_wrappedBetween word p ps

theorem whole_wordJoined {word : List Char} (hw : word.all (isInert []) = true) {ps : List (List Char)}
    (h : ∀ p ∈ ps, k.Whole [] p) : k.Whole [] (wordJoined word ps) := by
  induction ps with
  | nil => exact whole_nil
  | cons p ps ih =>
    have hp : k.Whole [] (wrapped p) := whole_wrapped rfl (h p (by simp))
    cases ps with
    | nil => exact hp
    | cons q qs =>
      have hq := ih fun r hr => h r (List.mem_cons_of_mem p hr)
      have hspace : isInert [] ' ' = true := rfl
      rw [wordJoined]
      · exact hp.glue hspace ((whole_of_isInert hw).glue hspace hq)
      · simp

end SqlComposer.Dialect
