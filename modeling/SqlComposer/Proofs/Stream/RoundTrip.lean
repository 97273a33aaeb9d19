import SqlComposer.Proofs.Stream.Encoding

/-!
# Streams read from JSON

* `sqlTexts` : the SQL texts of a stream, at any depth;
* `Json.streamStrings` : the strings of JSON that are elements of a stream;
* `sqlTexts_of_tokens?` : they are the same, in whatever is read;
* `json_round_trip` : so are a stream and what is read from its JSON.
-/

namespace SqlComposer

/-! ## Where SQL text comes from -/

mutual

/-- The SQL texts inside a value, at any depth and in order. -/
def Value.sqlTexts : Value → List String
  | .scalar _ | .expression _ => []
  | .list items => itemTexts items
  | .map entries => entryTexts entries
  | .fragment tokens => sqlTexts tokens

def itemTexts : List Value → List String
  | [] => []
  | v :: vs => v.sqlTexts ++ itemTexts vs

def entryTexts : List (String × Value) → List String
  | [] => []
  | (_, v) :: es => v.sqlTexts ++ entryTexts es

def Token.sqlTexts : Token → List String
  | .sql text => [text]
  | .modifier _ => []
  | .value v => v.sqlTexts

/-- The SQL texts of a stream, at any depth and in order. -/
def sqlTexts : List Token → List String
  | [] => []
  | t :: ts => t.sqlTexts ++ sqlTexts ts

end

namespace Json

mutual

/-- The strings that are elements of a fragment's array, in JSON that stands for a value. A string inside a list or a
mapping is none of them. -/
def fragmentStrings : Json → List String
  | .null | .bool _ | .int _ | .float _ | .string _ => []
  | .array items => itemStrings items
  | .object [(name, .array items)] => if name = "$fragment" then elementStrings items else itemStrings items
  | .object members => memberStrings members

def itemStrings : List Json → List String
  | [] => []
  | j :: js => j.fragmentStrings ++ itemStrings js

def memberStrings : List (String × Json) → List String
  | [] => []
  | (_, j) :: ms => j.fragmentStrings ++ memberStrings ms

/-- What an element of a stream's array gives: itself if it is a string. -/
def elementString : Json → List String
  | .string s => [s]
  | j => j.fragmentStrings

/-- The strings among the elements of a stream's array, and those of the fragments inside its elements. -/
def elementStrings : List Json → List String
  | [] => []
  | j :: js => j.elementString ++ elementStrings js

end

/-- The strings that are elements of the array itself or of a fragment's array inside it. -/
def streamStrings : Json → List String
  | .array items => elementStrings items
  | _ => []

theorem fragmentStrings_single {name : String} {j : Json} (h : name = "$fragment" → ∀ items, j ≠ .array items) :
    fragmentStrings (.object [(name, j)]) = j.fragmentStrings := by
  by_cases ha : ∃ items, j = .array items
  · obtain ⟨items, rfl⟩ := ha
    have hname : name ≠ "$fragment" := fun hn => h hn items rfl
    simp only [fragmentStrings, if_neg hname]
  · rw [fragmentStrings, memberStrings, memberStrings, List.append_nil]
    intro name' items hone
    exact ha ⟨items, by cases hone; rfl⟩

end Json

namespace Stream

open Json (fragmentStrings itemStrings memberStrings elementString elementStrings streamStrings)

theorem exists_of_map {α β : Type} {x : Except StreamError α} {f : α → β} {b : β} (h : f <$> x = .ok b) :
    ∃ a, x = .ok a ∧ f a = b := by
  cases x with
  | ok a => exact ⟨a, rfl, Except.ok.inj h⟩
  | error e => cases h

theorem exists_string_of_text? {tag text : String} {j : Json} (h : text? tag j = .ok text) : j = .string text := by
  cases j with
  | string s => cases h; rfl
  | _ => cases h

/-- A tag makes a scalar of a string alone. -/
theorem exists_string_of_scalarOfTag? {tag : String} {j : Json} {a : Scalar} (h : scalarOfTag? tag j = .ok a) :
    ∃ text, j = .string text := by
  unfold scalarOfTag? at h
  split at h
  all_goals first
    | obtain ⟨text, htext, -⟩ := exists_of_bind h
      exact ⟨text, exists_string_of_text? htext⟩
    | cases h

/-- A tag other than that of a fragment makes a scalar. -/
theorem sqlTexts_of_scalarOfTag? {tag : String} {j : Json} {v : Value} (h : .scalar <$> scalarOfTag? tag j = .ok v) :
    v.sqlTexts = fragmentStrings (.object [(tag, j)]) := by
  obtain ⟨a, ha, rfl⟩ := exists_of_map h
  obtain ⟨text, rfl⟩ := exists_string_of_scalarOfTag? ha
  rw [Json.fragmentStrings_single fun _ _ => Json.noConfusion, Value.sqlTexts, fragmentStrings]

mutual

/-- In what stands for a value the SQL texts are the strings of its fragments. -/
theorem sqlTexts_of_value? : ∀ {j : Json} {v : Value}, value? j = .ok v → v.sqlTexts = j.fragmentStrings
  | .null, v, h | .bool _, v, h | .int _, v, h | .float _, v, h | .string _, v, h => by
    rw [value?] at h
    cases h
    rw [Value.sqlTexts, fragmentStrings]
  | .array items, v, h => by
    rw [value?] at h
    obtain ⟨vs, hvs, hv⟩ := exists_of_bind h
    cases hv
    rw [Value.sqlTexts, fragmentStrings, itemTexts_of_values? hvs]
  | .object [], v, h => by
    simp only [value?] at h
    obtain ⟨es, hes, hv⟩ := exists_of_bind h
    cases hv
    simp only [Value.sqlTexts, fragmentStrings, entryTexts_of_entries? hes]
  | .object [(name, j)], v, h => by
    rw [value?] at h
    split at h
    · exact sqlTexts_of_tagged? h
    · next ht =>
      obtain ⟨w, hw, hv⟩ := exists_of_bind h
      cases hv
      have hname : name ≠ "$fragment" := by
        rintro rfl
        exact ht rfl
      rw [Json.fragmentStrings_single fun hn => absurd hn hname, Value.sqlTexts, entryTexts, entryTexts, List.append_nil,
        sqlTexts_of_value? hw]
  | .object (m :: n :: ms), v, h => by
    simp only [value?] at h
    obtain ⟨es, hes, hv⟩ := exists_of_bind h
    cases hv
    simp only [Value.sqlTexts, fragmentStrings, entryTexts_of_entries? hes]

theorem sqlTexts_of_tagged? : ∀ {tag : String} {j : Json} {v : Value}, tagged? tag j = .ok v →
    v.sqlTexts = fragmentStrings (.object [(tag, j)])
  | tag, .array items, v, h => by
    rw [tagged?] at h
    split at h
    · next htag =>
      obtain ⟨ts, hts, hv⟩ := exists_of_bind h
      cases hv
      rw [fragmentStrings, if_pos htag, Value.sqlTexts, sqlTexts_of_tokens? hts]
    · exact sqlTexts_of_scalarOfTag? h
  | tag, .null, v, h | tag, .bool _, v, h | tag, .int _, v, h | tag, .float _, v, h | tag, .string _, v, h
  | tag, .object _, v, h => by
    simp only [tagged?] at h
    split at h
    · cases h
    · exact sqlTexts_of_scalarOfTag? h

theorem itemTexts_of_values? : ∀ {js : List Json} {vs : List Value}, values? js = .ok vs → itemTexts vs = itemStrings js
  | [], vs, h => by
    rw [values?] at h
    cases h
    rw [itemTexts, itemStrings]
  | j :: js, vs, h => by
    rw [values?] at h
    obtain ⟨w, hw, hrest⟩ := exists_of_bind h
    obtain ⟨ws, hws, hvs⟩ := exists_of_bind hrest
    cases hvs
    rw [itemTexts, itemStrings, sqlTexts_of_value? hw, itemTexts_of_values? hws]

theorem entryTexts_of_entries? : ∀ {ms : List (String × Json)} {es : List (String × Value)}, entries? ms = .ok es →
    entryTexts es = memberStrings ms
  | [], es, h => by
    rw [entries?] at h
    cases h
    rw [entryTexts, memberStrings]
  | (name, j) :: ms, es, h => by
    rw [entries?] at h
    obtain ⟨w, hw, hrest⟩ := exists_of_bind h
    obtain ⟨ws, hws, hes⟩ := exists_of_bind hrest
    cases hes
    rw [entryTexts, memberStrings, sqlTexts_of_value? hw, entryTexts_of_entries? hws]

theorem sqlTexts_of_token? : ∀ {j : Json} {t : Token}, token? j = .ok t → t.sqlTexts = j.elementString
  | .string s, t, h => by
    rw [token?] at h
    cases h
    rw [Token.sqlTexts, elementString]
  | .object [(name, j)], t, h => by
    rw [token?] at h
    split at h
    · obtain ⟨code, hcode, rfl⟩ := exists_of_map h
      cases exists_string_of_text? hcode
      rw [Token.sqlTexts, elementString, Json.fragmentStrings_single fun _ _ => Json.noConfusion, fragmentStrings]
      exact fun _ => Json.noConfusion
    · split at h
      · obtain ⟨v, hv, rfl⟩ := exists_of_map h
        rw [Token.sqlTexts, elementString, sqlTexts_of_tagged? hv]
        exact fun _ => Json.noConfusion
      · next ht =>
        obtain ⟨w, hw, hv⟩ := exists_of_bind h
        cases hv
        have hname : name ≠ "$fragment" := by
          rintro rfl
          exact ht rfl
        rw [Token.sqlTexts, elementString, Json.fragmentStrings_single fun hn => absurd hn hname, Value.sqlTexts, entryTexts,
          entryTexts, List.append_nil, sqlTexts_of_value? hw]
        exact fun _ => Json.noConfusion
  | .null, t, h | .bool _, t, h | .int _, t, h | .float _, t, h | .array _, t, h | .object [], t, h
  | .object (_ :: _ :: _), t, h => by
    simp only [token?] at h
    obtain ⟨v, hv, rfl⟩ := exists_of_map h
    simp only [Token.sqlTexts, elementString, sqlTexts_of_value? hv]

theorem sqlTexts_of_tokens? : ∀ {js : List Json} {ts : List Token}, tokens? js = .ok ts → sqlTexts ts = elementStrings js
  | [], ts, h => by
    rw [tokens?] at h
    cases h
    rw [sqlTexts, elementStrings]
  | j :: js, ts, h => by
    rw [tokens?] at h
    obtain ⟨t, ht, hrest⟩ := exists_of_bind h
    obtain ⟨us, hus, hts⟩ := exists_of_bind hrest
    cases hts
    rw [sqlTexts, elementStrings, sqlTexts_of_token? ht, sqlTexts_of_tokens? hus]

end

/-! ## Both ways -/

/-- A stream that can be written as JSON is read back from it as it was, and no name is repeated in what is written. What
is read from any JSON has as its SQL texts exactly the strings that are elements of the array or of a fragment's array. -/
theorem json_round_trip (st : Style) :
    (∀ tokens, TokensEncodable tokens →
      (toJson st tokens).distinct = toJson st tokens ∧ ofJson? (toJson st tokens) = .ok tokens) ∧
    ∀ (j : Json) (tokens : List Token), ofJson? j = .ok tokens → sqlTexts tokens = streamStrings j := by
  constructor
  · intro tokens h
    rw [toJson, Json.distinct, distinct_tokensJson st tokens h, ofJson?, tokens?_tokensJson st tokens h]
    exact ⟨rfl, rfl⟩
  · intro j tokens h
    cases j with
    | array items => exact sqlTexts_of_tokens? h
    | _ => cases h

/-- A fragment in a list in a mapping, with a key that starts with a dollar sign, a leap second and a year before the
first. -/
theorem json_round_trip_nested :
    let st : Style := ⟨'T', Text.Hex.lowerDigit, .inr rfl, Text.Hex.digits_lowerDigit⟩
    let moment : DateTime := ⟨⟨-43, 3, 15, by decide⟩, ⟨23, 59, 59, 1000000001, by decide⟩⟩
    let inner : Value := .fragment [.sql "b =", .modifier "s", .value (.scalar (.text "c"))]
    let tokens : List Token := [.sql "SELECT ?", .value (.scalar (.text "$d")), .modifier "and",
      .value (.map [("$a", .list [.scalar (.text "x"), inner]), ("e", .scalar (.dateTime moment))]),
      .value (.scalar (.float (.ofDecimal true 15 (-1)))), .value (.scalar (.binary [0xca, 0xfe]))]
    TokensEncodable tokens ∧ ofJson? (toJson st tokens) = .ok tokens ∧
      sqlTexts tokens = streamStrings (toJson st tokens) ∧ sqlTexts tokens = ["SELECT ?", "b ="] := by
  intro st moment inner tokens
  have hfinite : (Binary64.ofDecimal true 15 (-1)).isFinite = true := by decide +kernel
  have h : TokensEncodable tokens := by
    simp [tokens, inner, TokensEncodable, Token.Encodable, Value.Encodable, ItemsEncodable, EntriesEncodable, looksTagged,
      hfinite]
  obtain ⟨hback, hfrom⟩ := json_round_trip st
  exact ⟨h, (hback tokens h).2, hfrom _ _ (hback tokens h).2, by simp [tokens, inner, sqlTexts, Token.sqlTexts,
    Value.sqlTexts, itemTexts, entryTexts]⟩

end Stream

end SqlComposer
