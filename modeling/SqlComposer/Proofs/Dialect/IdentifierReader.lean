import Mathlib
import SqlComposer.Context
import SqlComposer.Proofs.Dialect.Nesting

/-!
# Identifiers read back

An identifier is read part by part: between dots stands a bare star or a name in the quotes of the dialect, in which the
closing quote is written twice. Nothing else may stand outside the quotes.

* `Kind.readNamePart?`, `Kind.readName?` : the reader of one part, and of a whole text;
* `Kind.writtenPart` : how a part is written;
* `Dialect.readName?_eq_some_iff` : a text is read as some parts if it is these parts as they are written, with dots
  between them;
* `identifier_read_back` : the identifiers of the known dialects.
-/

namespace SqlComposer.Dialect

/-! ## The reader -/

/-- The quotes around a name. -/
def Kind.nameQuote : Kind → Quote
  | mysql => .grave
  | sqlserver => .bracket
  | _ => .double

/-- A part of an identifier. -/
inductive NamePart
  | star
  | quoted (name : List Char)
  deriving DecidableEq

/-- The part at the start of a text, and the text behind it. -/
def Kind.readNamePart? (k : Kind) : List Char → Option (NamePart × List Char)
  | [] => none
  | c :: cs =>
    if c = '*' then some (.star, cs)
    else if c = k.nameQuote.opening then (Text.readQuoted k.nameQuote.closing cs).map fun r => (.quoted r.1, r.2)
    else none

/-- A part as it is written. -/
def Kind.writtenPart (k : Kind) : NamePart → List Char
  | .star => ['*']
  | .quoted name => Text.enclosed k.nameQuote.opening k.nameQuote.closing name

variable {k : Kind} {p : NamePart} {ps : List NamePart} {cs rest : List Char}

theorem opening_ne_star (q : Quote) : q.opening ≠ '*' := by cases q <;> decide

theorem closing_ne_dot (q : Quote) : '.' ≠ q.closing := by cases q <;> decide

/-- A part is read as it is written, and nothing more, unless a closing quote follows. -/
theorem readNamePart?_writtenPart (k : Kind) (p : NamePart) (h : rest.head? ≠ some k.nameQuote.closing) :
    k.readNamePart? (k.writtenPart p ++ rest) = some (p, rest) := by
  cases p with
  | star => rfl
  | quoted name =>
    rw [Kind.writtenPart, Text.enclosed, List.cons_append, List.append_assoc, List.singleton_append,
      Kind.readNamePart?, if_neg (opening_ne_star _), if_pos rfl, Text.readQuoted_doubled h]
    rfl

/-- Nothing else is read as a part. -/
theorem eq_of_readNamePart? (h : k.readNamePart? cs = some (p, rest)) : cs = k.writtenPart p ++ rest := by
  unfold Kind.readNamePart? at h
  split at h
  · cases h
  · split at h
    · next hc =>
      cases h
      rw [hc]
      rfl
    · split at h
      · next hc =>
        obtain ⟨⟨name, behind⟩, hread, hp⟩ := Option.map_eq_some_iff.1 h
        cases hp
        rw [hc, (Text.eq_doubled_of_readQuoted hread).1, Kind.writtenPart, Text.enclosed, List.cons_append,
          List.append_assoc]
        rfl
      · cases h

theorem length_lt_of_readNamePart? (h : k.readNamePart? cs = some (p, rest)) : rest.length < cs.length := by
  have hne : 0 < (k.writtenPart p).length := by cases p <;> simp [Kind.writtenPart, Text.enclosed]
  rw [eq_of_readNamePart? h, List.length_append]
  omega

/-- The parts of a text in which nothing stands outside the quotes but stars and the dots between the parts. -/
def Kind.readName? (k : Kind) (cs : List Char) : Option (List NamePart) :=
  match _h : k.readNamePart? cs with
  | none => none
  | some (p, []) => some [p]
  | some (p, c :: rest) => if c = '.' then (k.readName? rest).map (p :: ·) else none
  termination_by cs.length
  decreasing_by
    have := length_lt_of_readNamePart? _h
    rw [List.length_cons] at this
    omega

theorem readName?_end (h : k.readNamePart? cs = some (p, [])) : k.readName? cs = some [p] := by
  rw [Kind.readName?]
  split <;> simp_all

theorem readName?_dot (h : k.readNamePart? cs = some (p, '.' :: rest)) :
    k.readName? cs = (k.readName? rest).map (p :: ·) := by
  rw [Kind.readName?]
  split <;> simp_all

/-! ## Reading what is written -/

/-- Parts as they are written, with dots between them. -/
def Kind.writtenName (k : Kind) (ps : List NamePart) : List Char :=
  Text.joined '.' (ps.map k.writtenPart)

theorem writtenName_singleton (k : Kind) (p : NamePart) : k.writtenName [p] = k.writtenPart p := by
  simp [Kind.writtenName, Text.joined]

theorem writtenName_cons_cons (k : Kind) (p q : NamePart) (ps : List NamePart) :
    k.writtenName (p :: q :: ps) = k.writtenPart p ++ '.' :: k.writtenName (q :: ps) := by
  rw [Kind.writtenName, Text.joined, List.map_cons, List.map_cons, List.intercalate_cons_cons, List.append_assoc]
  rfl

theorem readName?_writtenName (k : Kind) (p : NamePart) (ps : List NamePart) :
    k.readName? (k.writtenName (p :: ps)) = some (p :: ps) := by
  induction ps generalizing p with
  | nil =>
    have hread : k.readNamePart? (k.writtenPart p ++ []) = some (p, []) := readNamePart?_writtenPart k p (by simp)
    rw [List.append_nil] at hread
    rw [writtenName_singleton, readName?_end hread]
  | cons q ps ih =>
    have hdot : ('.' :: k.writtenName (q :: ps)).head? ≠ some k.nameQuote.closing := by
      simpa using closing_ne_dot k.nameQuote
    rw [writtenName_cons_cons, readName?_dot (readNamePart?_writtenPart k p hdot), ih q]
    rfl

theorem eq_of_readName? (h : k.readName? cs = some ps) : ps ≠ [] ∧ cs = k.writtenName ps := by
  induction cs using Kind.readName?.induct k generalizing ps with
  | case1 cs hread =>
    rw [Kind.readName?] at h
    split at h <;> simp_all
  | case2 cs p hread =>
    rw [readName?_end hread] at h
    obtain rfl := Option.some.inj h
    rw [writtenName_singleton, eq_of_readNamePart? hread, List.append_nil]
    exact ⟨List.cons_ne_nil _ _, rfl⟩
  | case3 cs p rest hread ih =>
    rw [readName?_dot hread] at h
    obtain ⟨qs, hqs, rfl⟩ := Option.map_eq_some_iff.1 h
    obtain ⟨hne, hrest⟩ := ih hqs
    obtain ⟨q, qs, rfl⟩ := List.exists_cons_of_ne_nil hne
    rw [writtenName_cons_cons, eq_of_readNamePart? hread, hrest]
    exact ⟨List.cons_ne_nil _ _, rfl⟩
  | case4 cs p c rest hread hc =>
    rw [Kind.readName?] at h
    split at h <;> simp_all

/-- Reading accepts exactly what is written, so that parts have one written form. -/
theorem readName?_eq_some_iff (k : Kind) (cs : List Char) (ps : List NamePart) :
    k.readName? cs = some ps ↔ ps ≠ [] ∧ cs = k.writtenName ps := by
  refine ⟨eq_of_readName?, ?_⟩
  rintro ⟨hne, rfl⟩
  obtain ⟨p, ps, rfl⟩ := List.exists_cons_of_ne_nil hne
  exact readName?_writtenName k p ps

/-! ## Identifiers -/

/-- The part that stands for a text: a star stays bare. -/
def NamePart.ofText (part : List Char) : NamePart :=
  if part = ['*'] then .star else .quoted part

theorem writtenPart_quoted (k : Kind) (name : List Char) : k.writtenPart (.quoted name) = k.identifier name := by
  cases k <;> rfl

theorem identifierPart_eq {ctx : Context} (hd : ctx.dialect = k.dialect) :
    ctx.identifierPart = fun part => pure (String.ofList (k.writtenPart (.ofText part))) := by
  funext part
  unfold Context.identifierPart NamePart.ofText
  split
  · rfl
  · have hwrite : k.dialect.identifier (String.ofList part) = .ok (String.ofList (k.identifier part)) := by
      show Except.ok (String.ofList (k.identifier (String.ofList part).toList)) = _
      rw [String.toList_ofList]
    rw [hd, hwrite, writtenPart_quoted]
    rfl

theorem identifier_eq {ctx : Context} (hd : ctx.dialect = k.dialect) {name text : String}
    (hs : ctx.substitutions.substitute name = .ok text) :
    ctx.identifier name = pure (String.ofList (k.writtenName ((Text.parts '.' text.toList).map .ofText))) := by
  have hparts : (Text.parts '.' text.toList).mapM ctx.identifierPart =
      pure ((Text.parts '.' text.toList).map fun part => String.ofList (k.writtenPart (.ofText part))) := by
    rw [identifierPart_eq hd]
    exact List.mapM_pure
  have hjoined (ps : List (List Char)) :
      ".".intercalate (ps.map fun part => String.ofList (k.writtenPart (.ofText part))) =
        String.ofList (k.writtenName (ps.map .ofText)) := by
    rw [← String.toList_inj, String.toList_intercalate, String.toList_ofList, Kind.writtenName, Text.joined,
      List.map_map, List.map_map]
    simp [Function.comp_def]
  rw [Context.identifier, hs]
  simp only [hparts, pure_bind, hjoined]

/-- An identifier whose names are known is written without an issue. It is read as the parts between the dots of the text,
the star parts bare and the others quoted, and no other text is read as these parts. -/
theorem identifier_read_back {k : Kind} {ctx : Context} (hd : ctx.dialect = k.dialect) {name text : String}
    (hs : ctx.substitutions.substitute name = .ok text) :
    ∃ sql, ctx.identifier name = .done sql [] 0 ∧ ∀ cs : List Char,
      k.readName? cs =
          some ((Text.parts '.' text.toList).map fun part => if part = ['*'] then .star else .quoted part) ↔
        cs = sql.toList := by
  refine ⟨_, identifier_eq hd hs, fun cs => ?_⟩
  have hne : (Text.parts '.' text.toList).map NamePart.ofText ≠ [] := by simpa using Text.parts_ne_nil _ _
  rw [String.toList_ofList]
  exact (readName?_eq_some_iff k cs _).trans (and_iff_right hne)

/-- A name brings a closing quote, a dot and a star; an opening quote, the quotes of other dialects and an empty part
follow. -/
theorem identifier_read_back_hostile :
    let ctx : Context := { Context.leapDay .sqlserver with substitutions := ⟨[("p", "a]b.*")], none⟩ }
    (ctx.dialect = Kind.sqlserver.dialect ∧ ctx.substitutions.substitute ":p:.[x\"\x60." = .ok "a]b.*.[x\"\x60.") ∧
    ctx.identifier ":p:.[x\"\x60." = .done "[a]]b].*.[[x\"\x60].[]" [] 0 ∧
    Kind.sqlserver.readName? "[a]]b].*.[[x\"\x60].[]".toList =
      some [.quoted "a]b".toList, .star, .quoted "[x\"\x60".toList, .quoted []] := by
  intro ctx
  have hs : ctx.substitutions.substitute ":p:.[x\"\x60." = .ok "a]b.*.[x\"\x60." := by cbv
  obtain ⟨sql, hsql, hread⟩ := @identifier_read_back .sqlserver ctx rfl _ _ hs
  have hshown : ctx.identifier ":p:.[x\"\x60." = .done "[a]]b].*.[[x\"\x60].[]" [] 0 := by cbv
  obtain rfl : "[a]]b].*.[[x\"\x60].[]" = sql := by
    rw [hshown] at hsql
    injection hsql
  exact ⟨⟨rfl, hs⟩, hshown, (hread _).2 rfl⟩

end SqlComposer.Dialect
