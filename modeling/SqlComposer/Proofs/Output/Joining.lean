import SqlComposer.Proofs.Output.Marks

/-!
# Statements from pieces

A statement is written by calls: pieces come and tokens end. White space apart it is the pieces one after the other, and no
two pieces of different tokens grow together unless one of them brings its own boundary.

* `OutputCall`, `Output.call`, `Output.after` : the calls and the states between them; `OutputCall.pieces` : what they bring;
* `Output.exists_after_append` : calls only add to the text; `Output.holds_after` : what they bring stands in it;
* `Output.tokenEnded_after` : the end of a token is kept in mind until something other than white space comes;
* `Text.SetApart` : two parts with white space between them; `Output.exists_after_apart`, `Output.setApart_finish` : so
  stand two pieces with the end of a token between them;
* `pieces_joined` : the laws for all states and all calls.
-/

namespace SqlComposer

/-- A call on an output. -/
inductive OutputCall
  | endToken
  | push (piece : String)
  deriving DecidableEq

namespace OutputCall

/-- What a call brings. -/
def piece : OutputCall → List Char
  | endToken => []
  | push piece => piece.toList

/-- What calls bring, in order. -/
def pieces (calls : List OutputCall) : List Char :=
  calls.flatMap piece

theorem unspaced_pieces_eq_nil {calls : List OutputCall} (h : ∀ c ∈ calls, Text.unspaced c.piece = []) :
    Text.unspaced (pieces calls) = [] := by
  induction calls with
  | nil => rfl
  | cons c calls ih =>
    rw [pieces, List.flatMap_cons, Text.unspaced_append, h c List.mem_cons_self, List.nil_append]
    exact ih fun d hd => h d (List.mem_cons_of_mem c hd)

end OutputCall

open OutputCall (pieces)

/-- Without the white space around them, the parts `a` and `b` stand in the text with white space between them. White space
apart, the rest of the text is `front` before them and `back` behind them. -/
def Text.SetApart (text front a b back : List Char) : Prop :=
  ∃ before gap behind, text = before ++ ((strip a ++ (gap ++ strip b)) ++ behind) ∧ gap ≠ [] ∧
    (∀ c ∈ gap, isBlank c = true) ∧ unspaced before = unspaced front ∧ unspaced behind = unspaced back

namespace Output

/-- The state after a call. -/
def call (o : Output) : OutputCall → Output
  | .endToken => o.endToken
  | .push piece => o.push piece

/-- The state after calls. -/
def after (o : Output) (calls : List OutputCall) : Output :=
  calls.foldl call o

variable {o : Output} {c : OutputCall} {calls between later : List OutputCall} {a b piece : String}

theorem after_append (o : Output) (calls later : List OutputCall) : o.after (calls ++ later) = (o.after calls).after later :=
  List.foldl_append

theorem after_cons (o : Output) (c : OutputCall) (calls : List OutputCall) : o.after (c :: calls) = (o.call c).after calls :=
  rfl

/-! ## The text -/

theorem exists_call_append (o : Output) (c : OutputCall) :
    ∃ more, (o.call c).text.toList = o.text.toList ++ more ∧ Text.unspaced more = Text.unspaced c.piece := by
  cases c with
  | endToken => exact ⟨[], (List.append_nil _).symm, rfl⟩
  | push piece =>
    obtain ⟨blank, hb, hpush⟩ := o.exists_push_append piece
    refine ⟨_, hpush, ?_⟩
    rw [Text.unspaced_append, Text.unspaced_eq_nil_iff.2 hb, List.nil_append, Text.unspaced_dropBlank]
    rfl

/-- Calls add to the text what they bring, and nothing else but white space. -/
theorem exists_after_append (o : Output) (calls : List OutputCall) :
    ∃ more, (o.after calls).text.toList = o.text.toList ++ more ∧ Text.unspaced more = Text.unspaced (pieces calls) := by
  induction calls generalizing o with
  | nil => exact ⟨[], (List.append_nil _).symm, rfl⟩
  | cons c calls ih =>
    obtain ⟨first, hfirst, hunspaced⟩ := o.exists_call_append c
    obtain ⟨rest, hrest, hunspaced'⟩ := ih (o.call c)
    refine ⟨first ++ rest, ?_, ?_⟩
    · rw [after_cons, hrest, hfirst, List.append_assoc]
    · rw [pieces, List.flatMap_cons, Text.unspaced_append, Text.unspaced_append, hunspaced, hunspaced', pieces]

theorem unspaced_after (o : Output) (calls : List OutputCall) :
    Text.unspaced (o.after calls).text.toList = Text.unspaced o.text.toList ++ Text.unspaced (pieces calls) := by
  obtain ⟨more, hmore, hunspaced⟩ := o.exists_after_append calls
  rw [hmore, Text.unspaced_append, hunspaced]

/-- A trimmed piece stands in the text after all calls. -/
theorem holds_after (h : .push piece ∈ calls) (hp : Text.IsTrimmed piece.toList) (o : Output) :
    Holds (o.after calls).text piece := by
  obtain ⟨before, behind, rfl⟩ := List.append_of_mem h
  have hpushed : Holds ((o.after before).push piece).text piece := holds_push_of_piece (.refl piece) hp _
  obtain ⟨more, hmore, -⟩ := ((o.after before).push piece).exists_after_append behind
  rw [after_append, after_cons, Holds, call, hmore]
  exact List.IsInfix.trans hpushed (List.prefix_append _ _).isInfix

/-! ## Ends of tokens -/

theorem tokenEnded_call (he : o.tokenEnded = true) (hc : Text.unspaced c.piece = []) : (o.call c).tokenEnded = true := by
  cases c with
  | endToken => rfl
  | push piece =>
    have hblank : Text.dropBlank piece.toList = [] := Text.dropBlank_eq_nil_iff_unspaced.2 hc
    simp [call, push, he, hblank]

theorem tokenEnded_after_of_tokenEnded (he : o.tokenEnded = true) (h : ∀ c ∈ calls, Text.unspaced c.piece = []) :
    (o.after calls).tokenEnded = true := by
  induction calls generalizing o with
  | nil => exact he
  | cons c calls ih =>
    exact ih (tokenEnded_call he (h c List.mem_cons_self)) fun d hd => h d (List.mem_cons_of_mem c hd)

/-- White space does not undo the end of a token. -/
theorem tokenEnded_after (hend : .endToken ∈ calls) (h : ∀ c ∈ calls, Text.unspaced c.piece = []) (o : Output) :
    (o.after calls).tokenEnded = true := by
  obtain ⟨before, behind, rfl⟩ := List.append_of_mem hend
  rw [after_append, after_cons]
  exact tokenEnded_after_of_tokenEnded rfl fun c hc => h c (List.mem_append_right _ (List.mem_cons_of_mem _ hc))

/-! ## Pieces apart -/

/-- A piece behind the end of a token. If white space neither ends the text nor comes with the piece, the text ends in an
opening character or the piece starts with a closing one. -/
theorem exists_push_gap (he : o.tokenEnded = true) (hb : Text.dropBlank b.toList ≠ [])
    (hopens : o.text.toList.getLast?.any opens = false) (hcloses : (Text.dropBlank b.toList).head?.any closes = false) :
    ∃ gap, (∀ c ∈ gap, Text.isBlank c = true) ∧
      (o.push b).text.toList = o.text.toList ++ (gap ++ Text.dropBlank b.toList) ∧
      ∀ c, o.text.toList.getLast? = some c → Text.isBlank c = false → gap ≠ [] := by
  obtain ⟨gap, hgap, hpush⟩ := o.exists_push_append b
  refine ⟨gap, hgap, hpush, ?_⟩
  rintro c hc hblank rfl
  rw [push_of_not_joins he hb (joins_eq_false hc hblank hopens hcloses)] at hpush
  simp at hpush

/-- Two pieces with the end of a token and at most white space between them. -/
theorem exists_after_apart (ha : Text.unspaced a.toList ≠ []) (hb : Text.unspaced b.toList ≠ [])
    (hbetween : ∀ c ∈ between, Text.unspaced c.piece = []) (hend : .endToken ∈ between)
    (hopens : ((o.push a).after between).text.toList.getLast?.any opens = false)
    (hcloses : (Text.dropBlank b.toList).head?.any closes = false) (later : List OutputCall) :
    Text.SetApart ((((o.push a).after between).push b).after later).text.toList o.text.toList a.toList b.toList
      (pieces later) := by
  have hbshown : Text.dropBlank b.toList ≠ [] := fun hnil => hb (Text.dropBlank_eq_nil_iff_unspaced.1 hnil)
  have hended := tokenEnded_after hend hbetween (o.push a)
  obtain ⟨front, hfront, hpushA⟩ := o.exists_push_append a
  obtain ⟨trailA, htrailA, hshownA⟩ := Text.exists_dropBlankEnd_append_blank (Text.dropBlank a.toList)
  obtain ⟨middle, hmiddle, hunspaced⟩ := (o.push a).exists_after_append between
  obtain ⟨gap, hgap, hpushB, hne⟩ := exists_push_gap hended hbshown hopens hcloses
  obtain ⟨trailB, htrailB, hshownB⟩ := Text.exists_dropBlankEnd_append_blank (Text.dropBlank b.toList)
  obtain ⟨more, hmore, hunspaced'⟩ := (((o.push a).after between).push b).exists_after_append later
  rw [OutputCall.unspaced_pieces_eq_nil hbetween, Text.unspaced_eq_nil_iff] at hunspaced
  rw [← Text.strip] at hshownA hshownB
  refine ⟨o.text.toList ++ front, trailA ++ (middle ++ gap), trailB ++ more, ?_, ?_, ?_, ?_, ?_⟩
  · rw [hmore, hpushB, hmiddle, hpushA, hshownA, hshownB]
    simp only [List.append_assoc]
  · -- without any white space in between the text ends in the last character of the first piece
    intro hnil
    simp only [List.append_eq_nil_iff] at hnil
    obtain ⟨rfl, rfl, rfl⟩ := hnil
    have hstrip : Text.strip a.toList ≠ [] := by
      intro hnil
      rw [← Text.unspaced_strip, hnil] at ha
      exact ha rfl
    have htext : ((o.push a).after between).text.toList = o.text.toList ++ front ++ Text.strip a.toList := by
      rw [hmiddle, hpushA, hshownA]
      simp only [List.append_nil, List.append_assoc]
    have hlast : ((o.push a).after between).text.toList.getLast? = some ((Text.strip a.toList).getLast hstrip) := by
      rw [htext, List.getLast?_append, List.getLast?_eq_some_getLast hstrip, Option.some_or]
    exact hne _ hlast ((Text.isTrimmed_strip a.toList).last _ (List.getLast?_eq_some_getLast hstrip)) rfl
  · simp only [List.mem_append]
    rintro c (hc | hc | hc)
    · exact htrailA c hc
    · exact hunspaced c hc
    · exact hgap c hc
  · rw [Text.unspaced_append, Text.unspaced_eq_nil_iff.2 hfront, List.append_nil]
  · rw [Text.unspaced_append, Text.unspaced_eq_nil_iff.2 htrailB, List.nil_append, hunspaced']

/-- What stands apart in the text stands apart in the statement. -/
theorem setApart_finish {front back s t : List Char} (hs : Text.unspaced s ≠ []) (ht : Text.unspaced t ≠ [])
    (h : Text.SetApart o.text.toList front s t back) : Text.SetApart o.finish.toList front s t back := by
  obtain ⟨before, gap, behind, htext, hgap, hblank, hfront, hback⟩ := h
  have ne {u : List Char} (hu : Text.unspaced u ≠ []) : Text.strip u ≠ [] := by
    intro hnil
    rw [← Text.unspaced_strip, hnil] at hu
    exact hu rfl
  have hparts := (Text.isTrimmed_strip s).append_append (Text.isTrimmed_strip t) (ne hs) (ne ht) gap
  refine ⟨Text.dropBlank before, gap, Text.dropBlankEnd behind, ?_, hgap, hblank, ?_, ?_⟩
  · rw [finish, String.toList_ofList, htext, hparts.strip_append (by simp [ne hs])]
  · rw [Text.unspaced_dropBlank, hfront]
  · rw [Text.unspaced_dropBlankEnd, hback]

end Output

/-- Where a piece is cut does not matter in any state. A statement of any calls is their pieces but for white space. Trimmed
pieces stand in it as they are. Behind the end of a token a piece is set apart from the one before, unless the text ends in
an opening character or the piece starts with a closing one. -/
theorem pieces_joined :
    (∀ (o : Output) (a b : String), (o.push a).push b = o.push (a ++ b)) ∧
    ∀ calls : List OutputCall,
      Text.unspaced (Output.empty.after calls).finish.toList = Text.unspaced (pieces calls) ∧
      (∀ piece, .push piece ∈ calls → Text.IsTrimmed piece.toList → Holds (Output.empty.after calls).finish piece) ∧
      ∀ before a between b later, calls = before ++ .push a :: (between ++ .push b :: later) →
        Text.unspaced a.toList ≠ [] → Text.unspaced b.toList ≠ [] →
        (∀ c ∈ between, Text.unspaced c.piece = []) → .endToken ∈ between →
        (Output.empty.after (before ++ .push a :: between)).text.toList.getLast?.any Output.opens = false →
        (Text.dropBlank b.toList).head?.any Output.closes = false →
        Text.SetApart (Output.empty.after calls).finish.toList (pieces before) a.toList b.toList (pieces later) := by
  refine ⟨fun o a b => Output.push_push a b o, fun calls => ⟨?_, fun piece hpiece hp => ?_, ?_⟩⟩
  · rw [Output.unspaced_finish, Output.unspaced_after]
    rfl
  · exact Output.holds_finish (Output.holds_after hpiece hp _) hp
  · rintro before a between b later rfl ha hb hbetween hend hopens hcloses
    rw [Output.after_append, Output.after_cons] at hopens
    obtain ⟨x, gap, y, htext, hgap, hblank, hx, hy⟩ :=
      Output.exists_after_apart ha hb hbetween hend hopens hcloses later
    refine Output.setApart_finish ha hb ⟨x, gap, y, ?_, hgap, hblank, ?_, hy⟩
    · rw [Output.after_append, Output.after_cons, Output.after_append, Output.after_cons]
      exact htext
    · rw [hx, Output.unspaced_after]
      rfl

/-- An opening character joins the first piece, and behind it an empty piece, the end of a token and white space come. -/
theorem pieces_joined_sample :
    let before : List OutputCall := [.endToken, .push "SELECT (", .endToken]
    let between : List OutputCall := [.push "", .endToken, .push " \t"]
    let later : List OutputCall := [.endToken, .push "), c"]
    let calls := before ++ .push "a" :: (between ++ .push " b" :: later)
    (.push "SELECT (" ∈ calls ∧ Text.IsTrimmed "SELECT (".toList) ∧
      (Text.unspaced "a".toList ≠ [] ∧ Text.unspaced " b".toList ≠ [] ∧ (∀ c ∈ between, Text.unspaced c.piece = []) ∧
        .endToken ∈ between ∧
        (Output.empty.after (before ++ .push "a" :: between)).text.toList.getLast?.any Output.opens = false ∧
        (Text.dropBlank " b".toList).head?.any Output.closes = false) ∧
      (Output.empty.after calls).finish = "SELECT (a b), c" ∧ Holds (Output.empty.after calls).finish "SELECT (" ∧
      Text.SetApart (Output.empty.after calls).finish.toList (pieces before) "a".toList " b".toList (pieces later) := by
  intro before between later calls
  have hpiece : .push "SELECT (" ∈ calls := by decide
  have htrimmed : Text.IsTrimmed "SELECT (".toList := by decide
  have ha : Text.unspaced "a".toList ≠ [] := by decide
  have hb : Text.unspaced " b".toList ≠ [] := by decide
  have hbetween : ∀ c ∈ between, Text.unspaced c.piece = [] := by decide
  have hend : .endToken ∈ between := by decide
  have hopens : (Output.empty.after (before ++ .push "a" :: between)).text.toList.getLast?.any Output.opens = false := by
    decide
  have hcloses : (Text.dropBlank " b".toList).head?.any Output.closes = false := by decide
  obtain ⟨-, hholds, hapart⟩ := pieces_joined.2 calls
  exact ⟨⟨hpiece, htrimmed⟩, ⟨ha, hb, hbetween, hend, hopens, hcloses⟩, by decide, hholds _ hpiece htrimmed,
    hapart before "a" between " b" later rfl ha hb hbetween hend hopens hcloses⟩

end SqlComposer
