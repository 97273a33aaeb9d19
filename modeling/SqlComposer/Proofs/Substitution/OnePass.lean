import SqlComposer.Proofs.Lexeme.Names
import SqlComposer.Proofs.Lexeme.Tiling

/-!
# Names replaced in one pass

A text without colons, then any number of names between colons, each with a text without colons behind it.

* `NamedText` : such a text; `NamedText.text` writes it, `NamedText.filled` puts texts in the places of the names;
* `Substitutions.StandsFor` : a text stands for a name, by the table or else by the resolver;
* `substituteChars_reference` : one name is replaced and the reading goes on behind the colon that closes it;
* `substitute_namedText` : all names are replaced, or the first that has no text is reported.
-/

namespace SqlComposer

/-- A name and the text behind the colon that closes it. -/
structure Reference where
  name : String
  behind : String
  isName : IsName name.toList
  plain : ':' ∉ behind.toList

/-- The name between colons, with the text behind it. -/
def Reference.text (r : Reference) : String :=
  ":" ++ r.name ++ ":" ++ r.behind

/-- A text cut at its names. -/
structure NamedText where
  front : String
  plain : ':' ∉ front.toList
  references : List Reference

namespace NamedText

def text (t : NamedText) : String :=
  t.front ++ String.join (t.references.map Reference.text)

/-- The text with a text in the place of each name. -/
def filled (t : NamedText) (texts : List String) : String :=
  t.front ++ String.join (t.references.zipWith (fun r text => text ++ r.behind) texts)

end NamedText

namespace Substitutions

variable {s : Substitutions} {cs rest : List Char} {name text : String}

/-! ## The text of a name -/

/-- The text for a name: that of the table, or what the resolver gives if the table has none. -/
inductive StandsFor (s : Substitutions) (name text : String) : Prop
  | entry (known : s.get? name = some text)
  | resolver {f : String → Option String} (unknown : s.get? name = none) (fallback : s.fallback = some f)
      (found : f name = some text)

theorem standsFor_iff : s.StandsFor name text ↔ (s.get? name <|> s.fallback.bind (· name)) = some text := by
  constructor
  · rintro (known | ⟨unknown, fallback, found⟩)
    · rw [known]
      rfl
    · rw [unknown, fallback]
      exact found
  · intro h
    cases hentry : s.get? name with
    | some known =>
      rw [hentry] at h
      exact .entry (hentry.trans h)
    | none =>
      rw [hentry] at h
      obtain ⟨f, hf, hfound⟩ := Option.bind_eq_some_iff.1 h
      exact .resolver hentry hf hfound

theorem resolve_of_standsFor (h : s.StandsFor name text) : s.resolve name = .ok text := by
  rw [resolve, standsFor_iff.1 h]

theorem resolve_of_not_standsFor (h : ∀ text, ¬s.StandsFor name text) :
    s.resolve name = .error (.unresolvedSubstitution name) := by
  have hnone : (s.get? name <|> s.fallback.bind (· name)) = none :=
    Option.eq_none_iff_forall_ne_some.2 fun text htext => h text (standsFor_iff.2 htext)
  rw [resolve, hnone]

/-! ## The pass -/

/-- Text without colons is copied. -/
theorem substituteChars_append (h : ':' ∉ cs) (rest : List Char) :
    s.substituteChars (cs ++ rest) = (cs ++ ·) <$> s.substituteChars rest := by
  induction cs with
  | nil => exact (id_map _).symm
  | cons c cs ih =>
    rw [List.mem_cons, not_or] at h
    obtain ⟨hc, hcs⟩ := h
    rw [List.cons_append, substituteChars_char (Ne.symm hc), ih hcs, ← comp_map]
    rfl

/-- What is put in for a name is not read again, and the colon that closes it opens no name. -/
theorem substituteChars_reference (r : Reference) (rest : List Char) :
    s.substituteChars (r.text.toList ++ rest) = (do
      let text ← s.resolve r.name
      let rest ← s.substituteChars rest
      .ok ((text ++ r.behind).toList ++ rest)) := by
  have hname : nameAt? (r.name.toList ++ ':' :: (r.behind.toList ++ rest)) =
      some (r.name.toList, r.behind.toList ++ rest) := nameAt?_eq_some_iff.2 ⟨r.isName, rfl⟩
  have hread : r.text.toList ++ rest = ':' :: (r.name.toList ++ ':' :: (r.behind.toList ++ rest)) := by
    simp [Reference.text]
  rw [hread, substituteChars_name hname, String.ofList_toList, substituteChars_append r.plain]
  cases s.resolve r.name with
  | error i => rfl
  | ok text =>
    cases s.substituteChars rest with
    | error i => rfl
    | ok rest =>
      show Except.ok (text.toList ++ (r.behind.toList ++ rest)) = Except.ok ((text ++ r.behind).toList ++ rest)
      rw [String.toList_append, List.append_assoc]

/-- Names that all have a text are replaced by their texts. -/
theorem substituteChars_join {rs : List Reference} {texts : List String}
    (h : List.Forall₂ (fun r text => s.StandsFor r.name text) rs texts) :
    s.substituteChars (String.join (rs.map Reference.text)).toList =
      .ok (String.join (rs.zipWith (fun r text => text ++ r.behind) texts)).toList := by
  induction h with
  | nil => exact substituteChars.eq_1 s
  | @cons r text rs texts hr hrs ih =>
    rw [List.map_cons, String.join_cons, String.toList_append, substituteChars_reference, resolve_of_standsFor hr, ih,
      List.zipWith_cons_cons, String.join_cons, String.toList_append]
    rfl

/-- The first name without a text is the error, whatever stands behind it. -/
theorem substituteChars_join_error {known others : List Reference} {r : Reference}
    (hknown : ∀ k ∈ known, ∃ text, s.StandsFor k.name text) (hr : ∀ text, ¬s.StandsFor r.name text) :
    s.substituteChars (String.join ((known ++ r :: others).map Reference.text)).toList =
      .error (.unresolvedSubstitution r.name) := by
  induction known with
  | nil =>
    rw [List.nil_append, List.map_cons, String.join_cons, String.toList_append, substituteChars_reference,
      resolve_of_not_standsFor hr]
    rfl
  | cons k known ih =>
    obtain ⟨text, htext⟩ := hknown k List.mem_cons_self
    rw [List.cons_append, List.map_cons, String.join_cons, String.toList_append, substituteChars_reference,
      resolve_of_standsFor htext, ih fun k hk => hknown k (List.mem_cons_of_mem _ hk)]
    rfl

/-- The front is copied, and the names are replaced behind it. -/
theorem substitute_front (s : Substitutions) (t : NamedText) :
    s.substitute t.text =
      (s.substituteChars (String.join (t.references.map Reference.text)).toList).map fun cs => t.front ++ String.ofList cs := by
  rw [substitute, NamedText.text, String.toList_append, substituteChars_append t.plain]
  cases s.substituteChars (String.join (t.references.map Reference.text)).toList with
  | error i => rfl
  | ok cs =>
    show Except.ok (String.ofList (t.front.toList ++ cs)) = Except.ok (t.front ++ String.ofList cs)
    rw [String.ofList_append, String.ofList_toList]

end Substitutions

open Substitutions

/-- Every name is replaced by its text, which is not read again, or the first name without a text is the error. -/
theorem substitute_namedText (s : Substitutions) (t : NamedText) :
    (∀ texts, List.Forall₂ (fun r text => s.StandsFor r.name text) t.references texts →
        s.substitute t.text = .ok (t.filled texts)) ∧
      ∀ known r others, t.references = known ++ r :: others → (∀ k ∈ known, ∃ text, s.StandsFor k.name text) →
        (∀ text, ¬s.StandsFor r.name text) → s.substitute t.text = .error (.unresolvedSubstitution r.name) := by
  rw [substitute_front]
  constructor
  · intro texts h
    rw [substituteChars_join h, NamedText.filled]
    show Except.ok (t.front ++ String.ofList _) = _
    rw [String.ofList_toList]
  · intro known r others ht hknown hr
    rw [ht, substituteChars_join_error hknown hr]
    rfl

/-- Two names in a row with texts that look like names, one from the table although the resolver knows it too; and a name
without a text in front of another. -/
theorem substitute_namedText_nested :
    let s : Substitutions := ⟨[("p", ":q:")], some fun name => if name = "x" then none else some "r:p:"⟩
    let p : Reference := ⟨"p", "", ⟨by decide, List.all_eq_true.1 rfl⟩, by decide⟩
    let q : Reference := ⟨"q", ".b", ⟨by decide, List.all_eq_true.1 rfl⟩, by decide⟩
    let x : Reference := ⟨"x", "", ⟨by decide, List.all_eq_true.1 rfl⟩, by decide⟩
    let y : Reference := ⟨"y", "", ⟨by decide, List.all_eq_true.1 rfl⟩, by decide⟩
    let t : NamedText := ⟨"a", by decide, [p, q]⟩
    let u : NamedText := ⟨"", by decide, [p, x, y]⟩
    (t.text = "a:p::q:.b" ∧ List.Forall₂ (fun r text => s.StandsFor r.name text) t.references [":q:", "r:p:"] ∧
        s.substitute t.text = .ok "a:q:r:p:.b") ∧
      u.text = ":p::x::y:" ∧ u.references = [p] ++ x :: [y] ∧ (∀ k ∈ [p], ∃ text, s.StandsFor k.name text) ∧
        (∀ text, ¬s.StandsFor x.name text) ∧ s.substitute u.text = .error (.unresolvedSubstitution "x") := by
  intro s p q x y t u
  have hp : s.StandsFor "p" ":q:" := .entry rfl
  have hq : s.StandsFor "q" "r:p:" := .resolver rfl rfl rfl
  have hx (text : String) : ¬s.StandsFor "x" text := by
    have hnone : (s.get? "x" <|> s.fallback.bind (· "x")) = none := by decide
    rw [standsFor_iff, hnone]
    exact Option.some_ne_none text ∘ Eq.symm
  have htexts : List.Forall₂ (fun r text => s.StandsFor r.name text) t.references [":q:", "r:p:"] :=
    .cons hp (.cons hq .nil)
  have hknown : ∀ k ∈ [p], ∃ text, s.StandsFor k.name text := by
    intro k hk
    obtain rfl := List.mem_singleton.1 hk
    exact ⟨":q:", hp⟩
  exact ⟨⟨by decide, htexts, (substitute_namedText s t).1 _ htexts⟩, by decide, rfl, hknown, hx,
    (substitute_namedText s u).2 [p] x [y] rfl hknown hx⟩

end SqlComposer
