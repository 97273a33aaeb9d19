import SqlComposer.Clause
import SqlComposer.Pass.Progress

/-!
# Composing statements

* `render` : a value under a modifier; `renderItems`, `renderValues`, `renderCells`, `renderOrder`,
  `renderColumns` : the parts of lists and mappings;
* `run` : a pass from any state; a fragment is a pass of its own inside the pass;
* `Statement`, `Composer.compose` : the statement of a stream with its issues.

Rendering and passes call each other. Both end because the values and tokens they are given get smaller.
-/

namespace SqlComposer

/-- The text of a pass that has ended, with its row bounds. -/
def Pass.finish (ctx : Context) (s : Pass) : Render String :=
  let text := s.out.finish
  (if s.bounds.isUnbounded then pure text else Render.ofDialect (ctx.dialect.bounded s.bounds text)).after []
    s.branches.masked

mutual

/-- A value under a modifier. -/
def render (ctx : Context) (m : Option Modifier) (v : Value) : Render String :=
  match v with
  | .scalar s => ctx.scalar m s
  | .expression e => .ofDialect (e.render ctx.dialect m)
  | .fragment tokens =>
    match m with
    | none | some .sql | some .expand => run ctx (.start tokens)
    | some m => mismatch "fragment" m
  | .list items =>
    match m with
    | some .sql | some .expand => run ctx (.start (items.map Token.ofElement))
    | some .assign => mismatch "list" .assign
    | some .values => mismatch "list" .values
    | some .rows => mismatch "list" .rows
    | m => closeItems m <$> renderItems ctx m items
  | .map entries =>
    match m with
    | none | some .assign => do
      let cells ← renderCells ctx .expand entries
      pure (commaList (cells.map assignment))
    | some .values => valuesClause <$> renderCells ctx .expand entries
    | some .list => tupleFor .list <$> renderValues ctx entries
    | some .inList => tupleFor .inList <$> renderValues ctx entries
    | some .allOf => do
      let cells ← renderCells ctx .inList entries
      pure (conditions "AND" (entries.zipWith comparison cells))
    | some .anyOf => do
      let cells ← renderCells ctx .inList entries
      pure (conditions "OR" (entries.zipWith comparison cells))
    | some .identifier => commaList <$> entries.mapM ctx.alias
    | some .orderBy => commaList <$> renderOrder ctx entries
    | some .rows => do
      let columns ← renderColumns ctx none entries
      closeColumns columns
    | some m => mismatch "map" m
  termination_by (v.nodes, 0, 0)
  decreasing_by all_goals exact Prod.Lex.left _ _ (by simp [Pass.nodes, Pass.start, Value.nodes])

/-- The elements of a list under the modifier of the list. -/
def renderItems (ctx : Context) (m : Option Modifier) (items : List Value) : Render (List String) :=
  match items with
  | [] => pure []
  | v :: vs => do
    let text ← render ctx (itemModifier m v) v
    let texts ← renderItems ctx m vs
    pure (text :: texts)
  termination_by (itemNodes items, 1, 0)
  decreasing_by all_goals have := v.nodes_pos; simp [itemNodes, Prod.lex_def]; omega

/-- The values of entries, each by the suffix of its key. -/
def renderValues (ctx : Context) (entries : List (String × Value)) : Render (List String) :=
  match entries with
  | [] => pure []
  | (key, v) :: es => do
    let text ← match entryModifier .expand key v with
      | .error i => .note i
      | .ok m => render ctx m v
    let texts ← renderValues ctx es
    pure (text :: texts)
  termination_by (entryNodes entries, 1, 0)
  decreasing_by all_goals have := v.nodes_pos; simp [entryNodes, Prod.lex_def]; omega

/-- The columns and values of entries. -/
def renderCells (ctx : Context) (listAs : Modifier) (entries : List (String × Value)) :
    Render (List (String × String)) :=
  match entries with
  | [] => pure []
  | (key, v) :: es => do
    let column ← ctx.identifier (splitKey key).1
    let text ← match entryModifier listAs key v with
      | .error i => .note i
      | .ok m => render ctx m v
    let cells ← renderCells ctx listAs es
    pure ((column, text) :: cells)
  termination_by (entryNodes entries, 1, 0)
  decreasing_by all_goals have := v.nodes_pos; simp [entryNodes, Prod.lex_def]; omega

/-- Columns with directions. A list in place of a direction brings its own columns. -/
def renderOrder (ctx : Context) (entries : List (String × Value)) : Render (List String) :=
  match entries with
  | [] => pure []
  | (key, v) :: es => do
    let text ←
      if v.isList then render ctx (some .expand) v
      else do
        let column ← ctx.identifier key
        pure (column ++ " " ++ direction v)
    let texts ← renderOrder ctx es
    pure (text :: texts)
  termination_by (entryNodes entries, 1, 0)
  decreasing_by all_goals have := v.nodes_pos; simp [entryNodes, Prod.lex_def]; omega

/-- Columns, each with a list of values, all lists as long as the first. -/
def renderColumns (ctx : Context) (height : Option Nat) (entries : List (String × Value)) :
    Render (Except String (List (String × List String))) :=
  match entries with
  | [] => pure (.ok [])
  | (key, v) :: es => do
    let column ← ctx.identifier (splitKey key).1
    match v with
    | .list items =>
      if height.any (· != items.length) then .error <$> .note (.unequalRows (splitKey key).1)
      else do
        let texts ← renderValues ctx (items.map (Prod.mk key))
        let columns ← renderColumns ctx (some items.length) es
        pure (columns.map ((column, texts) :: ·))
    | v => .error <$> mismatch v.kind .rows
  termination_by (entryNodes entries, 1, 0)
  decreasing_by all_goals exact Prod.Lex.left _ _ (by simp only [entryNodes, entryNodes_map_mk, Value.nodes]; omega)

/-- A pass from a state to the end of its stream. -/
def run (ctx : Context) (s : Pass) : Render String :=
  match _h : s.next ctx.placeholders with
  | .finished => s.finish ctx
  | .moved found t => (run ctx t).after found 0
  | .lexeme l t => do
    let text ← ctx.lexeme l
    run ctx (t.write text)
  | .value v m t => do
    let text ← render ctx m v
    run ctx (t.write text)
  termination_by (s.nodes, 2, s.lexemes.length)
  decreasing_by
    all_goals
      have h := Pass.within_next ctx.placeholders s
      rw [_h] at h
      simp only [Pass.Within] at h
      simp [Prod.lex_def]
    · omega
    · omega
    · omega
    · have := v.nodes_pos
      omega

end

/-! ## Statements -/

/-- A composed statement. -/
structure Statement where
  sql : String
  /-- The issues in the order in which they were found. -/
  issues : List Issue
  /-- The number of branches left out. -/
  masked : Nat

namespace Statement

/-- Whether there are no issues. -/
def isOk (s : Statement) : Bool :=
  s.issues.isEmpty

/-- The wording of the failure of a statement with issues. -/
def failure? (s : Statement) : Option String :=
  match s.issues with
  | [] => none
  | i :: _ => some ("SQL translate error: " ++ i.message ++ " in: " ++ s.sql)

end Statement

/-- The statement of a stream, or the failure of a dialect. -/
def Context.compose (ctx : Context) (tokens : List Token) : Except DialectError Statement :=
  match run ctx (.start tokens) with
  | .failed e => .error e
  | .done sql issues masked => .ok ⟨sql, issues, masked⟩

/-- The statement of a stream at a point in time. -/
def Composer.compose (c : Composer) (now : DateTime) (tokens : List Token) : Except DialectError Statement :=
  Context.compose ⟨c, now⟩ tokens

end SqlComposer
