import SqlComposer.Issue

/-!
# Substitutions

A name between two colons stands for a text.

* `nameAt?` : the name at the start of a text that a colon closes;
* `Substitutions` : a table of names with a resolver for other names (`get?`, `set`, `remove`);
* `Substitutions.resolve` : the text for a name; the table comes first;
* `Substitutions.substitute` : a text with all names replaced, from left to right, once.
-/

namespace SqlComposer

/-- The ASCII letters, the digits and the underscore. -/
def isNameChar (c : Char) : Bool :=
  c.isAlphanum || c == '_'

/-- The name at the start of a text and the text behind the colon that closes it. -/
def nameAt? (cs : List Char) : Option (List Char × List Char) :=
  match cs.takeWhile isNameChar, cs.dropWhile isNameChar with
  | c :: name, ':' :: rest => some (c :: name, rest)
  | _, _ => none

theorem eq_of_nameAt? {cs name rest : List Char} (h : nameAt? cs = some (name, rest)) :
    cs = name ++ ':' :: rest := by
  unfold nameAt? at h
  split at h
  · next c n r hn hr =>
    cases h
    rw [← hn, ← hr, List.takeWhile_append_dropWhile]
  · cases h

theorem length_lt_of_nameAt? {cs name rest : List Char} (h : nameAt? cs = some (name, rest)) :
    rest.length < cs.length := by
  rw [eq_of_nameAt? h]
  simp only [List.length_append, List.length_cons]
  omega

/-- Names with their texts. -/
structure Substitutions where
  /-- Each name stands here once. -/
  entries : List (String × String)
  /-- Resolves the names that have no entry. -/
  fallback : Option (String → Option String)

namespace Substitutions

def empty : Substitutions :=
  ⟨[], none⟩

/-- The entries with the text of one name set. -/
def setEntry (name text : String) : List (String × String) → List (String × String)
  | [] => [(name, text)]
  | e :: es => if e.1 = name then (name, text) :: es else e :: setEntry name text es

/-- The text of a name in the table. -/
def get? (s : Substitutions) (name : String) : Option String :=
  s.entries.lookup name

/-- Sets the text of a name. -/
def set (s : Substitutions) (name text : String) : Substitutions :=
  { s with entries := setEntry name text s.entries }

/-- Takes a name out of the table. -/
def remove (s : Substitutions) (name : String) : Substitutions :=
  { s with entries := s.entries.filter fun e => e.1 != name }

/-- The table with the entries of a list set one after the other. -/
def ofList (entries : List (String × String)) : Substitutions :=
  entries.foldl (fun s e => s.set e.1 e.2) empty

/-- The number of names in the table. -/
def size (s : Substitutions) : Nat :=
  s.entries.length

/-- The text for a name: that of the table, or else what the resolver gives. -/
def resolve (s : Substitutions) (name : String) : Except Issue String :=
  match s.get? name <|> s.fallback.bind (· name) with
  | some text => .ok text
  | none => .error (.unresolvedSubstitution name)

/-- The text with every name between colons replaced. What was put in is not read again, and the
colon that closes a name opens none. -/
def substituteChars (s : Substitutions) : List Char → Except Issue (List Char)
  | [] => .ok []
  | c :: cs =>
    if c = ':' then
      match _h : nameAt? cs with
      | some (name, rest) => do
        let text ← s.resolve (String.ofList name)
        let rest ← s.substituteChars rest
        .ok (text.toList ++ rest)
      | none => do
        let cs ← s.substituteChars cs
        .ok (c :: cs)
    else do
      let cs ← s.substituteChars cs
      .ok (c :: cs)
  termination_by cs => cs.length
  decreasing_by
    all_goals simp only [List.length_cons]
    · have := length_lt_of_nameAt? _h
      omega
    · omega
    · omega

/-- The text with every name between colons replaced. -/
def substitute (s : Substitutions) (text : String) : Except Issue String :=
  (s.substituteChars text.toList).map String.ofList

/-! ## Laws -/

theorem lookup_setEntry (name text other : String) (entries : List (String × String)) :
    (setEntry name text entries).lookup other =
      if other = name then some text else entries.lookup other := by
  induction entries with
  | nil =>
    by_cases h : other = name
    · simp [setEntry, h]
    · simp [setEntry, List.lookup_cons, beq_false_of_ne h, h]
  | cons e es ih =>
    obtain ⟨n, t⟩ := e
    by_cases hn : n = name
    · subst hn
      by_cases ho : other = n
      · simp [setEntry, ho]
      · simp [setEntry, List.lookup_cons, beq_false_of_ne ho, ho]
    · by_cases ho : other = name
      · subst ho
        simp [setEntry, List.lookup_cons, hn, beq_false_of_ne (Ne.symm hn), ih]
      · simp only [setEntry, hn, if_false, List.lookup_cons, ih, ho]

@[simp] theorem get?_set (s : Substitutions) (name text other : String) :
    (s.set name text).get? other = if other = name then some text else s.get? other :=
  lookup_setEntry name text other s.entries

end Substitutions

end SqlComposer
