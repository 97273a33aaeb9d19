import SqlComposer.Proofs.Calendar.IsoReader
import SqlComposer.Proofs.Text.Hex
import SqlComposer.Stream

/-!
# Streams written as JSON

* `Style`, `valueJson`, `tokenJson`, `toJson` : a stream as JSON;
* `Value.Encodable`, `Token.Encodable` : what can be written so;
* `tokens?_tokensJson`, `distinct_tokensJson` : what is written is read back, and no name is repeated in it.
-/

namespace SqlComposer

/-! ## Streams as JSON -/

namespace Stream

/-- What the texts inside tags leave open: the mark between a date and a time, and the case of hexadecimal digits. -/
structure Style where
  mark : Char
  digit : Nat → Char
  joins : mark = ' ' ∨ mark = 'T'
  digits : Text.Hex.Digits digit

/-- A tag with a text. -/
def tagJson (tag text : String) : Json :=
  .object [(tag, .string text)]

/-- A scalar inside a list or mapping. -/
def scalarJson (st : Style) : Scalar → Json
  | .null => .null
  | .bool b => .bool b
  | .int n => .int n
  | .float x => .float x
  | .text s => .string s
  | .binary bytes => tagJson "$binary" (String.ofList (Text.Hex.ofBytes st.digit bytes))
  | .date d => tagJson "$date" (String.ofList d.iso)
  | .dateTime t => tagJson "$datetime" (String.ofList (t.isoNanoseconds st.mark))
  | .literal sql => tagJson "$literal" sql

mutual

/-- A value inside a list or mapping. A value that writes itself has no text of its own. -/
def valueJson (st : Style) : Value → Json
  | .scalar s => scalarJson st s
  | .list items => .array (itemsJson st items)
  | .map entries => .object (entriesJson st entries)
  | .fragment tokens => .object [("$fragment", .array (tokensJson st tokens))]
  | .expression _ => .null

def itemsJson (st : Style) : List Value → List Json
  | [] => []
  | v :: vs => valueJson st v :: itemsJson st vs

def entriesJson (st : Style) : List (String × Value) → List (String × Json)
  | [] => []
  | (key, v) :: es => (key, valueJson st v) :: entriesJson st es

/-- A token. A text value has a tag here, since a string alone is SQL text. -/
def tokenJson (st : Style) : Token → Json
  | .sql text => .string text
  | .modifier code => tagJson "$modifier" code
  | .value (.scalar (.text s)) => tagJson "$text" s
  | .value v => valueJson st v

def tokensJson (st : Style) : List Token → List Json
  | [] => []
  | t :: ts => tokenJson st t :: tokensJson st ts

end

/-- A stream. -/
def toJson (st : Style) (tokens : List Token) : Json :=
  .array (tokensJson st tokens)

/-- A single key that would be read as a tag. -/
def looksTagged : List (String × Value) → Bool
  | [(key, _)] => isTag key
  | _ => false

end Stream

mutual

/-- The value can be written as JSON: its numbers are finite, its mappings have every key once and do not look like a tag,
and no value in it writes itself. -/
def Value.Encodable : Value → Prop
  | .scalar (.float x) => x.isFinite = true
  | .scalar _ => True
  | .list items => ItemsEncodable items
  | .map entries => (entries.map Prod.fst).Nodup ∧ Stream.looksTagged entries = false ∧ EntriesEncodable entries
  | .fragment tokens => TokensEncodable tokens
  | .expression _ => False

def ItemsEncodable : List Value → Prop
  | [] => True
  | v :: vs => v.Encodable ∧ ItemsEncodable vs

def EntriesEncodable : List (String × Value) → Prop
  | [] => True
  | (_, v) :: es => v.Encodable ∧ EntriesEncodable es

def Token.Encodable : Token → Prop
  | .sql _ | .modifier _ => True
  | .value v => v.Encodable

def TokensEncodable : List Token → Prop
  | [] => True
  | t :: ts => t.Encodable ∧ TokensEncodable ts

end

/-! ## Texts inside tags -/

namespace Stream

variable (st : Style)

theorem ok_bind {α β : Type} (a : α) (f : α → Except StreamError β) : (Except.ok a >>= f) = f a := rfl

theorem exists_of_bind {α β : Type} {x : Except StreamError α} {f : α → Except StreamError β} {b : β}
    (h : (x >>= f) = .ok b) : ∃ a, x = .ok a ∧ f a = .ok b := by
  cases x with
  | ok a => exact ⟨a, rfl, h⟩
  | error e => cases h

theorem bytes?_ofBytes (bytes : List UInt8) :
    bytes? (String.ofList (Text.Hex.ofBytes st.digit bytes)) = .ok bytes := by
  have heven : ¬2 * bytes.length % 2 = 1 := by omega
  rw [bytes?, Text.Hex.utf8ByteSize_ofBytes st.digits, if_neg heven, String.toList_ofList,
    Text.Hex.toBytes?_ofBytes st.digits]

theorem date?_iso (d : Date) : date? (String.ofList d.iso) = .ok d := by
  rw [date?, String.toList_ofList, Date.read?_iso]

theorem dateTime?_isoNanoseconds (t : DateTime) : dateTime? (String.ofList (t.isoNanoseconds st.mark)) = .ok t := by
  rw [dateTime?, String.toList_ofList, DateTime.findSome?_isoNanoseconds st.joins]

theorem value?_tagJson {tag text : String} {a : Scalar} (hn : isTag tag = true) (hf : tag ≠ "$fragment")
    (ha : scalarOfTag? tag (.string text) = .ok a) : value? (tagJson tag text) = .ok (.scalar a) := by
  have htagged : tagged? tag (.string text) = .ok (.scalar a) := by
    simp only [tagged?, if_neg hf, ha]
    rfl
  rw [tagJson, value?, if_pos hn, htagged]

theorem value?_scalarJson (s : Scalar) : value? (scalarJson st s) = .ok (.scalar s) := by
  cases s with
  | binary bytes =>
    refine value?_tagJson rfl (by decide) ?_
    simp only [scalarOfTag?, text?, ok_bind, bytes?_ofBytes]
    rfl
  | date d =>
    refine value?_tagJson rfl (by decide) ?_
    simp only [scalarOfTag?, text?, ok_bind, date?_iso]
    rfl
  | dateTime t =>
    refine value?_tagJson rfl (by decide) ?_
    simp only [scalarOfTag?, text?, ok_bind, dateTime?_isoNanoseconds]
    rfl
  | literal sql => exact value?_tagJson rfl (by decide) rfl
  | _ => simp only [scalarJson, value?]

/-! ## What is written is read back -/

/-- JSON that stands for the same value as a token and inside a list: no string, and no modifier. -/
def StandsForValue : Json → Prop
  | .string _ => False
  | .object [(name, _)] => name ≠ "$modifier"
  | _ => True

theorem token?_of_value? {j : Json} {v : Value} (hj : StandsForValue j) (h : value? j = .ok v) :
    token? j = .ok (.value v) := by
  cases j with
  | string s => exact hj.elim
  | object members =>
    match members with
    | [] => simp only [token?, h]; rfl
    | [(name, j)] =>
      have hname : name ≠ "$modifier" := hj
      rw [value?] at h
      rw [token?, if_neg hname]
      split
      · next ht =>
        rw [if_pos ht] at h
        rw [h]
        rfl
      · next ht =>
        rw [if_neg ht] at h
        obtain ⟨w, hw, hv⟩ := exists_of_bind h
        rw [hw, ok_bind]
        cases hv
        rfl
    | m :: n :: ms => simp only [token?, h]; rfl
  | _ =>
    simp only [token?, h]
    rfl

/-- Only text and modifiers are written as tokens otherwise than as values. -/
theorem standsForValue_valueJson {v : Value} (hv : v.Encodable) (ht : ∀ s, v ≠ .scalar (.text s)) :
    StandsForValue (valueJson st v) := by
  cases v with
  | scalar s =>
    cases s with
    | text s => exact absurd rfl (ht s)
    | binary bytes => show "$binary" ≠ "$modifier"; decide
    | date d => show "$date" ≠ "$modifier"; decide
    | dateTime t => show "$datetime" ≠ "$modifier"; decide
    | literal sql => show "$literal" ≠ "$modifier"; decide
    | _ => trivial
  | list items => trivial
  | map entries =>
    rw [Value.Encodable] at hv
    match entries with
    | [] => trivial
    | [(key, v)] =>
      rintro rfl
      cases hv.2.1
    | (key, v) :: e :: es => trivial
  | fragment tokens => show "$fragment" ≠ "$modifier"; decide
  | expression e => trivial

theorem value?_entriesJson {entries : List (String × Value)} (ht : looksTagged entries = false)
    (h : entries? (entriesJson st entries) = .ok entries) :
    value? (.object (entriesJson st entries)) = .ok (.map entries) := by
  match entries with
  | [] =>
    rw [entriesJson, value?, entries?]
    · rfl
    · intro name j hone
      cases hone
  | [(key, v)] =>
    have htag : ¬isTag key = true := by
      rw [show isTag key = false from ht]
      decide
    rw [entriesJson, entriesJson, entries?] at h
    obtain ⟨w, hw, hrest⟩ := exists_of_bind h
    obtain ⟨es, hes, hend⟩ := exists_of_bind hrest
    cases hend
    rw [entriesJson, entriesJson, value?, if_neg htag, hw]
    rfl
  | e :: e' :: es =>
    rw [entriesJson, entriesJson] at h ⊢
    rw [value?, h]
    · rfl
    · intro name j hone
      cases (List.cons.inj hone).2

mutual

theorem value?_valueJson : ∀ v : Value, v.Encodable → value? (valueJson st v) = .ok v
  | .scalar s, _ => by
    rw [valueJson]
    exact value?_scalarJson st s
  | .list items, h => by
    rw [Value.Encodable] at h
    rw [valueJson, value?, values?_itemsJson items h]
    rfl
  | .map entries, h => by
    rw [Value.Encodable] at h
    rw [valueJson]
    exact value?_entriesJson st h.2.1 (entries?_entriesJson entries h.2.2)
  | .fragment tokens, h => by
    rw [Value.Encodable] at h
    have htag : isTag "$fragment" = true := rfl
    rw [valueJson, value?, if_pos htag, tagged?, if_pos rfl, tokens?_tokensJson tokens h]
    rfl
  | .expression _, h => by
    rw [Value.Encodable] at h
    exact h.elim

theorem values?_itemsJson : ∀ items : List Value, ItemsEncodable items → values? (itemsJson st items) = .ok items
  | [], _ => by
    rw [itemsJson, values?]
  | v :: vs, h => by
    rw [ItemsEncodable] at h
    rw [itemsJson, values?, value?_valueJson v h.1, ok_bind, values?_itemsJson vs h.2]
    rfl

theorem entries?_entriesJson : ∀ entries : List (String × Value), EntriesEncodable entries →
    entries? (entriesJson st entries) = .ok entries
  | [], _ => by
    rw [entriesJson, entries?]
  | (key, v) :: es, h => by
    rw [EntriesEncodable] at h
    rw [entriesJson, entries?, value?_valueJson v h.1, ok_bind, entries?_entriesJson es h.2]
    rfl

theorem token?_tokenJson : ∀ t : Token, t.Encodable → token? (tokenJson st t) = .ok t
  | .sql text, _ => by
    rw [tokenJson, token?]
  | .modifier code, _ => by
    rw [tokenJson, tagJson, token?, if_pos rfl]
    rfl
  | .value v, h => by
    rw [Token.Encodable] at h
    by_cases ht : ∃ s, v = .scalar (.text s)
    · obtain ⟨s, rfl⟩ := ht
      have htext : value? (tagJson "$text" s) = .ok (.scalar (.text s)) := value?_tagJson rfl (by decide) rfl
      rw [tokenJson]
      exact token?_of_value? (by show "$text" ≠ "$modifier"; decide) htext
    · have hne : ∀ s, v ≠ .scalar (.text s) := fun s hs => ht ⟨s, hs⟩
      have hvalue : tokenJson st (.value v) = valueJson st v := by
        rw [tokenJson]
        exact hne
      rw [hvalue]
      exact token?_of_value? (standsForValue_valueJson st h hne) (value?_valueJson v h)

theorem tokens?_tokensJson : ∀ tokens : List Token, TokensEncodable tokens →
    tokens? (tokensJson st tokens) = .ok tokens
  | [], _ => by
    rw [tokensJson, tokens?]
  | t :: ts, h => by
    rw [TokensEncodable] at h
    rw [tokensJson, tokens?, token?_tokenJson t h.1, ok_bind, tokens?_tokensJson ts h.2]
    rfl

end

/-! ## No name is repeated -/

theorem setMember_of_not_mem {name : String} {members : List (String × Json)} (h : name ∉ members.map Prod.fst)
    (j : Json) : Json.setMember name j members = members ++ [(name, j)] := by
  induction members with
  | nil => rfl
  | cons m ms ih =>
    rw [List.map_cons, List.mem_cons, not_or] at h
    rw [Json.setMember, if_neg (Ne.symm h.1), ih h.2, List.cons_append]

theorem foldl_setMember {before members : List (String × Json)} (h : ((before ++ members).map Prod.fst).Nodup) :
    members.foldl (fun ms m => Json.setMember m.1 m.2 ms) before = before ++ members := by
  induction members generalizing before with
  | nil => rw [List.foldl_nil, List.append_nil]
  | cons m ms ih =>
    have hm : m.1 ∉ before.map Prod.fst := by
      rw [List.map_append, List.nodup_append] at h
      exact fun hbefore => h.2.2 _ hbefore _ (List.mem_map_of_mem List.mem_cons_self) rfl
    rw [← List.singleton_append, ← List.append_assoc] at h
    rw [List.foldl_cons, setMember_of_not_mem hm, ih h, List.append_assoc, List.singleton_append]

theorem byName_of_nodup {members : List (String × Json)} (h : (members.map Prod.fst).Nodup) :
    Json.byName members = members :=
  @foldl_setMember [] members h

theorem map_fst_entriesJson (entries : List (String × Value)) :
    (entriesJson st entries).map Prod.fst = entries.map Prod.fst := by
  induction entries with
  | nil => rw [entriesJson]; rfl
  | cons e es ih => rw [entriesJson, List.map_cons, List.map_cons, ih]

theorem distinct_scalarJson (s : Scalar) : (scalarJson st s).distinct = scalarJson st s := by
  cases s <;> rfl

mutual

theorem distinct_valueJson : ∀ v : Value, v.Encodable → (valueJson st v).distinct = valueJson st v
  | .scalar s, _ => by
    rw [valueJson]
    exact distinct_scalarJson st s
  | .list items, h => by
    rw [Value.Encodable] at h
    rw [valueJson, Json.distinct, distinct_itemsJson items h]
  | .map entries, h => by
    rw [Value.Encodable] at h
    have hnodup : ((entriesJson st entries).map Prod.fst).Nodup := by
      rw [map_fst_entriesJson]
      exact h.1
    rw [valueJson, Json.distinct, distinct_entriesJson entries h.2.2, byName_of_nodup hnodup]
  | .fragment tokens, h => by
    rw [Value.Encodable] at h
    rw [valueJson, Json.distinct, Json.distinctMembers, Json.distinctMembers, Json.distinct,
      distinct_tokensJson tokens h]
    rfl
  | .expression _, h => by
    rw [Value.Encodable] at h
    exact h.elim

theorem distinct_itemsJson : ∀ items : List Value, ItemsEncodable items →
    Json.distinctItems (itemsJson st items) = itemsJson st items
  | [], _ => by
    rw [itemsJson, Json.distinctItems]
  | v :: vs, h => by
    rw [ItemsEncodable] at h
    rw [itemsJson, Json.distinctItems, distinct_valueJson v h.1, distinct_itemsJson vs h.2]

theorem distinct_entriesJson : ∀ entries : List (String × Value), EntriesEncodable entries →
    Json.distinctMembers (entriesJson st entries) = entriesJson st entries
  | [], _ => by
    rw [entriesJson, Json.distinctMembers]
  | (key, v) :: es, h => by
    rw [EntriesEncodable] at h
    rw [entriesJson, Json.distinctMembers, distinct_valueJson v h.1, distinct_entriesJson es h.2]

theorem distinct_tokenJson : ∀ t : Token, t.Encodable → (tokenJson st t).distinct = tokenJson st t
  | .sql text, _ => by
    rw [tokenJson]
    rfl
  | .modifier code, _ => by
    rw [tokenJson]
    rfl
  | .value v, h => by
    rw [Token.Encodable] at h
    by_cases ht : ∃ s, v = .scalar (.text s)
    · obtain ⟨s, rfl⟩ := ht
      rw [tokenJson]
      rfl
    · have hvalue : tokenJson st (.value v) = valueJson st v := by
        rw [tokenJson]
        exact fun s hs => ht ⟨s, hs⟩
      rw [hvalue]
      exact distinct_valueJson v h

theorem distinct_tokensJson : ∀ tokens : List Token, TokensEncodable tokens →
    Json.distinctItems (tokensJson st tokens) = tokensJson st tokens
  | [], _ => by
    rw [tokensJson, Json.distinctItems]
  | t :: ts, h => by
    rw [TokensEncodable] at h
    rw [tokensJson, Json.distinctItems, distinct_tokenJson t h.1, distinct_tokensJson ts h.2]

end

end Stream

end SqlComposer
