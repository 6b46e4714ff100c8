/-!
# What a call comes to

A call of the modelled language returns a value, throws, or does something the language gives no
meaning to. The three are kept apart, so that "it returns" says that nothing undefined happened on
the way: `Outcome` is a monad in which a computation ends at the first step that does not return.
-/

/-- What a call with exceptions of type `ε` comes to. -/
inductive Outcome (ε : Type) (α : Type)
  | done (a : α)
  | threw (e : ε)
  | undefined
  deriving DecidableEq, Repr

namespace Outcome

variable {ε α β : Type}

protected def bind : Outcome ε α → (α → Outcome ε β) → Outcome ε β
  | .done a, f => f a
  | .threw e, _ => .threw e
  | .undefined, _ => .undefined

instance : Monad (Outcome ε) where
  pure := .done
  bind := Outcome.bind

/-- `if (p) throw e;` -/
def throwIf (p : Prop) [Decidable p] (e : ε) : Outcome ε Unit :=
  if p then .threw e else .done ()

/-- A step that has a meaning when `p` holds. -/
def expect (p : Prop) [Decidable p] : Outcome ε Unit :=
  if p then .done () else .undefined

/-- The answer of a partial function, which is undefined where it has none. -/
def ofOption : Option α → Outcome ε α
  | some a => .done a
  | none => .undefined

/-- A result whose absence is thrown as `e`. -/
def orThrow (e : ε) : Option α → Outcome ε α
  | some a => .done a
  | none => .threw e

/-- A function that throws by its own result. -/
def ofExcept : Except ε α → Outcome ε α
  | .ok a => .done a
  | .error e => .threw e

@[simp] theorem pure_eq (a : α) : (pure a : Outcome ε α) = .done a := rfl

@[simp] theorem done_bind (a : α) (f : α → Outcome ε β) : (Outcome.done a >>= f) = f a := rfl

@[simp] theorem threw_bind (e : ε) (f : α → Outcome ε β) : (Outcome.threw e >>= f) = .threw e := rfl

@[simp] theorem undefined_bind (f : α → Outcome ε β) :
    ((.undefined : Outcome ε α) >>= f) = .undefined := rfl

/-- A computation returns when each of its steps does. -/
theorem bind_eq_done {x : Outcome ε α} {f : α → Outcome ε β} {b : β} :
    (x >>= f) = .done b ↔ ∃ a, x = .done a ∧ f a = .done b := by
  cases x with
  | done a => simp
  | threw e => simp
  | undefined => simp

theorem throwIf_eq_done {p : Prop} [Decidable p] {e : ε} {u : Unit} :
    throwIf p e = .done u ↔ ¬ p := by
  unfold throwIf
  split
  · next h => simp [h]
  · next h => simp [h]

theorem throwIf_of_not {p : Prop} [Decidable p] {e : ε} (h : ¬ p) : throwIf p e = .done () :=
  if_neg h

theorem orThrow_eq_done {o : Option α} {e : ε} {a : α} : orThrow e o = .done a ↔ o = some a := by
  cases o with
  | none => simp [orThrow]
  | some b => simp [orThrow]

theorem ofExcept_eq_done {x : Except ε α} {a : α} : ofExcept x = .done a ↔ x = .ok a := by
  cases x with
  | ok b => simp [ofExcept]
  | error e => simp [ofExcept]

theorem expect_of {p : Prop} [Decidable p] (h : p) : (expect p : Outcome ε Unit) = .done () :=
  if_pos h

theorem expect_of_not {p : Prop} [Decidable p] (h : ¬ p) :
    (expect p : Outcome ε Unit) = .undefined :=
  if_neg h

theorem expect_eq_done {p : Prop} [Decidable p] {u : Unit} :
    (expect p : Outcome ε Unit) = .done u ↔ p := by
  unfold expect
  split
  · next h => simp [h]
  · next h => simp [h]

end Outcome
