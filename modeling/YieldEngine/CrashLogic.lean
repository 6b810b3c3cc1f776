import Mathlib.Logic.Basic

/-! # Programs that a crash may cut off

A `Prog σ ε α` runs on a state that outlives it, a disk for example.  It returns a value, it
throws an error `ε`, which a handler can catch, or it is cut off by a crash, which nothing
catches; in each case it leaves a state.

What the environment makes of one operation is a `Verdict`: the operation takes effect, or it
fails with an error, or the program crashes in it.  A failing or interrupted operation may leave
less than its whole effect behind.

`Meets s x R T C` is the triple of a program started in `s`, with a postcondition for each of
the three ends: `R` when it returns, `T` when it throws and `C` when it is cut off.  There is one
rule for each way to build a program. -/

namespace CrashLogic

variable {σ ε ε' α β : Type}

/-- How a program ends. -/
inductive Ended (ε α : Type) where
  | returned (a : α)
  | threw (e : ε)
  | crashed
deriving DecidableEq, Repr

/-- A program over states `σ`, throwing errors `ε`. -/
def Prog (σ ε α : Type) := σ → Ended ε α × σ

/-- What the environment makes of an operation; a crash may come before or after its effect. -/
inductive Verdict (ε : Type) where
  | succeeds
  | fails (e : ε)
  | crashes (done : Bool)
deriving DecidableEq, Repr

namespace Prog

protected def pure (a : α) : Prog σ ε α := fun s => (.returned a, s)

protected def bind (x : Prog σ ε α) (f : α → Prog σ ε β) : Prog σ ε β := fun s =>
  match x s with
  | (.returned a, s') => f a s'
  | (.threw e, s') => (.threw e, s')
  | (.crashed, s') => (.crashed, s')

instance : Monad (Prog σ ε) where
  pure := Prog.pure
  bind := Prog.bind

protected def throw (e : ε) : Prog σ ε α := fun s => (.threw e, s)

/-- Run the handler when the program throws; a crash is not caught. -/
def recover (x : Prog σ ε α) (handler : ε → Prog σ ε' α) : Prog σ ε' α := fun s =>
  match x s with
  | (.returned a, s') => (.returned a, s')
  | (.threw e, s') => handler e s'
  | (.crashed, s') => (.crashed, s')

/-- An operation with the given effect, of which `leftover` is what remains when it fails or is
interrupted. -/
def operation (v : Verdict ε) (effect leftover : σ → σ) : Prog σ ε Unit := fun s =>
  match v with
  | .succeeds => (.returned (), effect s)
  | .fails e => (.threw e, leftover s)
  | .crashes true => (.crashed, effect s)
  | .crashes false => (.crashed, leftover s)

/-- A computation without effects. -/
def ofExcept : Except ε α → Prog σ ε α
  | .ok a => Prog.pure a
  | .error e => Prog.throw e

end Prog

/-! ### Triples -/

/-- Started in `s` the program returns with `R`, throws with `T` or is cut off with `C`. -/
def Meets (s : σ) (x : Prog σ ε α) (R : α → σ → Prop) (T : ε → σ → Prop) (C : σ → Prop) : Prop :=
  match x s with
  | (.returned a, s') => R a s'
  | (.threw e, s') => T e s'
  | (.crashed, s') => C s'

section rules
variable {s : σ} {R : α → σ → Prop} {T : ε → σ → Prop} {C : σ → Prop}

theorem meets_pure {a : α} (h : R a s) : Meets s (pure a : Prog σ ε α) R T C := h

theorem meets_throw {e : ε} (h : T e s) : Meets s (Prog.throw e : Prog σ ε α) R T C := h

/-- The second program starts in what the first leaves when it returns. -/
theorem Meets.bind {x : Prog σ ε α} {f : α → Prog σ ε β} {S : β → σ → Prop}
    (hx : Meets s x R T C) (hf : ∀ a s', R a s' → Meets s' (f a) S T C) :
    Meets s (x >>= f) S T C := by
  have hbind : (x >>= f) s = Prog.bind x f s := rfl
  unfold Meets at hx ⊢
  rw [hbind, Prog.bind]
  cases hs : x s with
  | mk ended s' =>
      rw [hs] at hx
      cases ended with
      | returned a => exact hf a s' hx
      | threw e => exact hx
      | crashed => exact hx

/-- The handler starts in what the program leaves when it throws. -/
theorem Meets.recover {x : Prog σ ε α} {handler : ε → Prog σ ε' α} {T' : ε' → σ → Prop}
    (hx : Meets s x R T C) (hhandler : ∀ e s', T e s' → Meets s' (handler e) R T' C) :
    Meets s (x.recover handler) R T' C := by
  unfold Meets at hx ⊢
  rw [Prog.recover]
  cases hs : x s with
  | mk ended s' =>
      rw [hs] at hx
      cases ended with
      | returned a => exact hx
      | threw e => exact hhandler e s' hx
      | crashed => exact hx

/-- An operation takes effect, or leaves what remains of it. -/
theorem meets_operation {v : Verdict ε} {effect leftover : σ → σ} {R : Unit → σ → Prop}
    (hdone : R () (effect s)) (hfailed : ∀ e, T e (leftover s)) (hafter : C (effect s))
    (hbefore : C (leftover s)) : Meets s (Prog.operation v effect leftover) R T C := by
  cases v with
  | succeeds => exact hdone
  | fails e => exact hfailed e
  | crashes done =>
      cases done with
      | true => exact hafter
      | false => exact hbefore

theorem meets_ofExcept {x : Except ε α} (hok : ∀ a, x = .ok a → R a s)
    (herror : ∀ e, x = .error e → T e s) : Meets s (Prog.ofExcept x) R T C := by
  cases x with
  | ok a => exact hok a rfl
  | error e => exact herror e rfl

/-- Weaker postconditions. -/
theorem Meets.mono {x : Prog σ ε α} {R' : α → σ → Prop} {T' : ε → σ → Prop} {C' : σ → Prop}
    (hx : Meets s x R T C) (hR : ∀ a s', R a s' → R' a s') (hT : ∀ e s', T e s' → T' e s')
    (hC : ∀ s', C s' → C' s') : Meets s x R' T' C' := by
  unfold Meets at hx ⊢
  cases hs : x s with
  | mk ended s' =>
      rw [hs] at hx
      cases ended with
      | returned a => exact hR a s' hx
      | threw e => exact hT e s' hx
      | crashed => exact hC s' hx

theorem Meets.of_returned {x : Prog σ ε α} (hx : Meets s x R T C) {a : α}
    (h : (x s).1 = .returned a) : R a (x s).2 := by
  unfold Meets at hx
  cases hs : x s with
  | mk ended s' =>
      rw [hs] at h hx
      subst h
      exact hx

theorem Meets.of_threw {x : Prog σ ε α} (hx : Meets s x R T C) {e : ε}
    (h : (x s).1 = .threw e) : T e (x s).2 := by
  unfold Meets at hx
  cases hs : x s with
  | mk ended s' =>
      rw [hs] at h hx
      subst h
      exact hx

/-- What all three postconditions imply holds however the program ends. -/
theorem Meets.always {x : Prog σ ε α} {P : σ → Prop} (hx : Meets s x R T C)
    (hR : ∀ a s', R a s' → P s') (hT : ∀ e s', T e s' → P s') (hC : ∀ s', C s' → P s') :
    P (x s).2 := by
  unfold Meets at hx
  cases hs : x s with
  | mk ended s' =>
      rw [hs] at hx
      cases ended with
      | returned a => exact hR a s' hx
      | threw e => exact hT e s' hx
      | crashed => exact hC s' hx

end rules
end CrashLogic
