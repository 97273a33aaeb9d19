import SqlComposer.Proofs.Output.Marks
import SqlComposer.Proofs.Render.Keeps
import SqlComposer.Proofs.Render.Outcomes

/-!
# Scalars show their issues

* `keeps_note`, `keeps_mismatch` : a mark in place of a text;
* `Context.keeps_identifier`, `Context.keeps_lexeme`, `Context.keeps_rawSql` : the parts of SQL text;
* `Context.keeps_scalar` : a scalar under any modifier.
-/

namespace SqlComposer

open Render (Keeps nothing)

variable {ctx : Context} {lost : Issue → Prop}

/-! ## Marks -/

theorem keeps_note (i : Issue) : (Render.note i).Keeps lost nothing Shows := by
  rintro text issues n hr j (hj | hj)
  · cases hj
  · cases hr
    obtain rfl := List.mem_singleton.1 hj
    exact .inl (shows_mark j)

theorem keeps_mismatch (kind : String) (m : Modifier) : (mismatch kind m).Keeps lost nothing Shows :=
  keeps_note _

namespace Context

theorem keeps_identifier (name : String) : (ctx.identifier name).Keeps lost nothing Shows := by
  have hpart (p : List Char) : (ctx.identifierPart p).Keeps lost nothing Shows := by
    unfold identifierPart
    split
    · exact .quiet _
    · exact .ofDialect _
  unfold identifier
  split
  · exact keeps_note _
  · apply (Keeps.mapM fun p _ => hpart p).bind
    rintro parts _ _ _
    apply Keeps.pure
    rintro i ⟨part, hmem, hi⟩
    exact hi.of_holds (holds_intercalate hmem ".")

theorem keeps_lexeme (l : Lexeme) : (ctx.lexeme l).Keeps lost nothing Shows := by
  cases l with
  | text s => exact .quiet _
  | identifier name => exact keeps_identifier name
  | string s => exact .ofDialect _
  | aloneQuote => exact keeps_note _
  | unterminatedIdentifier => exact keeps_note _
  | substitution name joined =>
    show (ctx.substitution name joined).Keeps lost nothing Shows
    unfold substitution
    split
    · exact keeps_note _
    · split
      · exact .quiet _
      · exact .ofDialect _
  | marker code => exact .quiet _
  | placeholder => exact .quiet _

theorem keeps_rawSql (text : String) : (ctx.rawSql text).Keeps lost nothing Shows := by
  unfold rawSql
  apply (Keeps.mapM fun l _ => keeps_lexeme l).bind
  rintro texts _ _ _
  apply Keeps.pure
  rintro i ⟨text, hmem, hi⟩
  exact hi.of_holds (holds_concat hmem)

theorem keeps_scalar (m : Option Modifier) (a : Scalar) : (ctx.scalar m a).Keeps lost nothing Shows := by
  have h := @outcome_scalar ctx m a
  generalize ctx.scalar m a = r at h
  cases h with
  | text s => exact .quiet s
  | note i => exact keeps_note i
  | identifier name => exact keeps_identifier name
  | rawSql s => exact keeps_rawSql s
  | _ => exact .ofDialect _

end Context

end SqlComposer
