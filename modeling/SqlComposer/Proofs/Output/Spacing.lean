import SqlComposer.Output
import SqlComposer.Proofs.Text.Blank

/-!
# Pieces and white space

* `Output.push_push` : a piece may be cut anywhere;
* `Output.joins_eq_false`, `Output.push_of_not_joins`, `Output.exists_push_append` : what a piece adds to the text;
* `Output.unspaced_push`, `Output.unspaced_finish` : joining pieces changes nothing but white space;
* `Output.finish_push_start` : a statement of one piece.
-/

namespace SqlComposer

namespace Output

/-- Two pieces in a row are one piece, also behind the end of a token. -/
theorem push_push (a b : String) (o : Output) : (o.push a).push b = o.push (a ++ b) := by
  obtain ⟨text, ended⟩ := o
  cases ended with
  | false => simp [push, String.append_assoc]
  | true =>
    by_cases ha : Text.dropBlank a.toList = []
    · simp [push, ha, Text.dropBlank_append_blank ha]
    · have hab := Text.dropBlank_append ha b.toList
      have hne : Text.dropBlank a.toList ++ b.toList ≠ [] := by simp [ha]
      -- the first character of both is that of the first piece
      have hj : joins text.toList (Text.dropBlank a.toList ++ b.toList) =
          joins text.toList (Text.dropBlank a.toList) := by
        rw [joins, joins, List.head?_append, List.head?_eq_some_head ha, Option.some_or]
      simp only [push, if_true, String.toList_append, hab, List.isEmpty_iff, ha, hne, if_false, hj]
      split <;> simp [String.append_assoc, String.ofList_append]

theorem joins_eq_false {text shown : List Char} {c : Char} (hc : text.getLast? = some c) (hblank : Text.isBlank c = false)
    (hopens : text.getLast?.any opens = false) (hcloses : shown.head?.any closes = false) : joins text shown = false := by
  rw [hc, Option.any_some] at hopens
  rw [joins, hc, Option.all_some, hblank, hopens, hcloses]
  rfl

/-- Behind the end of a token a piece that does not join the text comes behind a space. -/
theorem push_of_not_joins {o : Output} {piece : String} (he : o.tokenEnded = true)
    (hne : Text.dropBlank piece.toList ≠ []) (hj : joins o.text.toList (Text.dropBlank piece.toList) = false) :
    o.push piece = ⟨o.text ++ " " ++ String.ofList (Text.dropBlank piece.toList), false⟩ := by
  simp [push, he, hne, hj]

/-- The text so far is kept. A piece comes behind some white space, without its own in front. -/
theorem exists_push_append (o : Output) (piece : String) :
    ∃ blank, (∀ c ∈ blank, Text.isBlank c = true) ∧
      (o.push piece).text.toList = o.text.toList ++ (blank ++ Text.dropBlank piece.toList) := by
  unfold push
  split
  · by_cases hp : Text.dropBlank piece.toList = []
    · exact ⟨[], by simp, by simp [hp]⟩
    · simp only [List.isEmpty_iff, hp, if_false]
      split
      · exact ⟨[], by simp, by simp⟩
      · have hblank : Text.isBlank ' ' = true := by decide
        exact ⟨[' '], by simp [hblank], by simp⟩
  · obtain ⟨blank, hb, hp⟩ := Text.exists_blank_append_dropBlank piece.toList
    exact ⟨blank, hb, by rw [String.toList_append, ← hp]⟩

theorem unspaced_push (piece : String) (o : Output) :
    Text.unspaced (o.push piece).text.toList = Text.unspaced o.text.toList ++ Text.unspaced piece.toList := by
  obtain ⟨blank, hb, hpush⟩ := o.exists_push_append piece
  rw [hpush, Text.unspaced_append, Text.unspaced_append, Text.unspaced_eq_nil_iff.2 hb, List.nil_append,
    Text.unspaced_dropBlank]

theorem unspaced_finish (o : Output) : Text.unspaced o.finish.toList = Text.unspaced o.text.toList := by
  simp [finish]

/-- The first piece of a statement is also its last. -/
theorem finish_push_start (p : String) : (empty.endToken.push p).finish = String.ofList (Text.strip p.toList) := by
  have hj (s : List Char) : joins [] s = true := rfl
  by_cases hp : Text.dropBlank p.toList = []
  · simp [endToken, empty, push, finish, Text.strip, hp]
  · simp [endToken, empty, push, finish, Text.strip, hp, hj]

end Output

end SqlComposer
