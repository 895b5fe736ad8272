import Mathlib.Data.List.Basic

/-!
# Traced computations

A computation which may fail, together with the questions which it has asked on the way, also
where it fails in the end.  Forgetting the questions gives the computation itself, and a bound on
their number follows the binds.
-/

namespace Hbcur
namespace Foundation

variable {query failure result result' : Type}

structure Traced (query failure result : Type) where
  calls : List query
  value : Except failure result

namespace Traced

/-- A computation which asks nothing. -/
def lift (x : Except failure result) : Traced query failure result := ⟨[], x⟩

def ask (question : query) (answer : result) : Traced query failure result :=
  ⟨[question], Except.ok answer⟩

def andThen (x : Traced query failure result) (f : result -> Traced query failure result') :
    Traced query failure result' :=
  match x.value with
  | Except.error err => ⟨x.calls, Except.error err⟩
  | Except.ok r => ⟨x.calls ++ (f r).calls, (f r).value⟩

instance : Monad (Traced query failure) where
  pure r := lift (Except.ok r)
  bind := andThen

/-!
# What is computed
-/

theorem value_lift (x : Except failure result) : (lift x : Traced query failure result).value = x :=
  rfl

theorem value_bind {x : Traced query failure result} {f : result -> Traced query failure result'}
    {y : Except failure result} {g : result -> Except failure result'} (hx : x.value = y)
    (hf : forall r, (f r).value = g r) : (x >>= f).value = (y >>= g) := by
  change (andThen x f).value = _
  unfold andThen
  rw [hx]
  cases y with
  | error err => rfl
  | ok r => exact hf r

theorem value_lift_bind {x : Except failure result}
    {f : result -> Traced query failure result'} {g : result -> Except failure result'}
    (hf : forall r, (f r).value = g r) : (lift x >>= f).value = (x >>= g) :=
  value_bind (value_lift x) hf

/-!
# How much is asked
-/

def AtMost (bound : Nat) (x : Traced query failure result) : Prop := x.calls.length ≤ bound

theorem atMost_lift (bound : Nat) (x : Except failure result) :
    AtMost bound (lift x : Traced query failure result) := Nat.zero_le bound

theorem AtMost.mono {bound bound' : Nat} {x : Traced query failure result} (h : AtMost bound x)
    (hle : bound ≤ bound') : AtMost bound' x := Nat.le_trans h hle

theorem AtMost.bind {bound bound' : Nat} {x : Traced query failure result}
    {f : result -> Traced query failure result'} (hx : AtMost bound x)
    (hf : forall r, x.value = Except.ok r -> AtMost bound' (f r)) :
    AtMost (bound + bound') (x >>= f) := by
  change AtMost _ (andThen x f)
  unfold andThen
  cases hvalue : x.value with
  | error err => exact Nat.le_trans hx (Nat.le_add_right _ _)
  | ok r =>
      unfold AtMost
      simp only [List.length_append]
      exact Nat.add_le_add hx (hf r hvalue)

theorem atMost_lift_bind {bound : Nat} {x : Except failure result}
    {f : result -> Traced query failure result'}
    (hf : forall r, x = Except.ok r -> AtMost bound (f r)) : AtMost bound (lift x >>= f) := by
  have h := (atMost_lift 0 x : AtMost 0 (lift x : Traced query failure result)).bind hf
  rw [Nat.zero_add] at h
  exact h

/-- Nothing is asked after the first part. -/
theorem AtMost.bind_lift {bound : Nat} {x : Traced query failure result}
    {f : result -> Traced query failure result'} (hx : AtMost bound x)
    (hf : forall r, AtMost 0 (f r)) : AtMost bound (x >>= f) :=
  hx.bind fun r _ => hf r

end Traced

end Foundation
end Hbcur
