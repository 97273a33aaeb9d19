import SqlComposer.Issue

/-!
# Results with notes

* `Render` : a result with the issues found on the way and the number of branches left out, or the failure
  of a dialect; the notes of successive steps are kept in order (`Render.done_bind`);
* `Render.note` : an issue, with its mark as the result.
-/

namespace SqlComposer

/-- A result with what was noted on the way, or the failure of a dialect. -/
inductive Render (α : Type)
  | failed (e : DialectError)
  /-- The issues are in the order in which they were found; `masked` counts branches left out. -/
  | done (val : α) (issues : List Issue) (masked : Nat)

namespace Render

variable {α β γ : Type}

/-- The result of the second step, with the notes of the first step before its own. -/
def after (issues : List Issue) (masked : Nat) : Render α → Render α
  | failed e => failed e
  | done a i m => done a (issues ++ i) (masked + m)

instance : Monad Render where
  pure a := done a [] 0
  bind x f := match x with
    | failed e => failed e
    | done a issues masked => (f a).after issues masked

/-- The failure of a dialect, or a result without notes. -/
def ofDialect : Except DialectError α → Render α
  | .error e => failed e
  | .ok a => done a [] 0

/-- Notes an issue; the result is its mark. -/
def note (i : Issue) : Render String :=
  done i.mark [i] 0

/-- A text, or the mark of the issue that stands in its place. -/
def orNote : Except Issue String → Render String
  | .error i => note i
  | .ok s => done s [] 0

/-! ## Laws -/

theorem pure_eq (a : α) : (pure a : Render α) = done a [] 0 := rfl

@[simp] theorem done_bind (a : α) (issues : List Issue) (masked : Nat) (f : α → Render β) :
    done a issues masked >>= f = (f a).after issues masked := rfl

@[simp] theorem failed_bind (e : DialectError) (f : α → Render β) : failed e >>= f = failed e := rfl

@[simp] theorem after_failed (issues : List Issue) (masked : Nat) (e : DialectError) :
    (failed e : Render α).after issues masked = failed e := rfl

@[simp] theorem after_done (issues : List Issue) (masked : Nat) (a : α) (i : List Issue) (m : Nat) :
    (done a i m).after issues masked = done a (issues ++ i) (masked + m) := rfl

@[simp] theorem after_nil_zero (x : Render α) : x.after [] 0 = x := by
  cases x <;> simp

@[simp] theorem after_after (i j : List Issue) (m n : Nat) (x : Render α) :
    (x.after j n).after i m = x.after (i ++ j) (m + n) := by
  cases x <;> simp [Nat.add_assoc]

@[simp] theorem after_bind (issues : List Issue) (masked : Nat) (x : Render α) (f : α → Render β) :
    x.after issues masked >>= f = (x >>= f).after issues masked := by
  cases x <;> simp

instance : LawfulMonad Render :=
  LawfulMonad.mk' Render
    (fun x => by cases x <;> simp [Functor.map])
    (fun a f => by simp [pure_eq])
    (fun x f g => by cases x <;> simp)

@[simp] theorem map_done (f : α → β) (a : α) (issues : List Issue) (masked : Nat) :
    f <$> done a issues masked = done (f a) issues masked := by
  rw [← bind_pure_comp, done_bind, pure_eq, after_done, List.append_nil, Nat.add_zero]

end Render

end SqlComposer
