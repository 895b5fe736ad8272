import Mathlib.Data.List.Basic

/-!
# Sequences of checks

A validation routine is a sequence of checks which stops at the first one that
fails.  It succeeds exactly when all of its checks do, and the lemmas here read
that off.
-/

namespace Hbcur
namespace Foundation

variable {failure item result result' : Type}

def require (cond : Bool) (err : failure) : Except failure Unit :=
  if cond then Except.ok () else Except.error err

/-- A check which is only made in some cases. -/
def onlyIf (cond : Bool) (check : Except failure Unit) : Except failure Unit :=
  if cond then check else Except.ok ()

/-- What has to be there, or else the failure. -/
def expect (found : Option result) (err : failure) : Except failure result :=
  match found with
  | none => Except.error err
  | some r => Except.ok r

def forEach (check : item -> Except failure Unit) : List item -> Except failure Unit
  | [] => Except.ok ()
  | x :: rest => do
      check x
      forEach check rest

/-- A loop with an accumulator, whose body may stop it. -/
def accumulate (body : result -> item -> Except failure result) :
    result -> List item -> Except failure result
  | acc, [] => Except.ok acc
  | acc, x :: rest => do
      let acc' ← body acc x
      accumulate body acc' rest

/-!
# When checks succeed
-/

theorem exists_ok_of_toBool {x : Except failure result} (h : x.toBool = true) :
    exists r, x = Except.ok r := by
  cases x with
  | error err =>
      cases h
  | ok r =>
      exact ⟨r, rfl⟩

theorem ok_bind (r : result) (f : result -> Except failure result') :
    (Except.ok r >>= f) = f r := rfl

theorem bind_eq_ok_iff {x : Except failure result} {f : result -> Except failure result'}
    {r : result'} :
    (x >>= f) = Except.ok r <-> exists a, x = Except.ok a ∧ f a = Except.ok r := by
  cases x with
  | error err =>
      constructor
      · intro h
        cases h
      · rintro ⟨a, ha, _⟩
        cases ha
  | ok a =>
      constructor
      · intro h
        exact ⟨a, rfl, h⟩
      · rintro ⟨a', ha, h⟩
        cases ha
        exact h

/-- The same for a check without a result. -/
theorem then_eq_ok_iff {x : Except failure Unit} {f : Unit -> Except failure result}
    {r : result} :
    (x >>= f) = Except.ok r <-> x = Except.ok () ∧ f () = Except.ok r := by
  rw [bind_eq_ok_iff]
  constructor
  · rintro ⟨_, hx, hf⟩
    exact ⟨hx, hf⟩
  · rintro ⟨hx, hf⟩
    exact ⟨(), hx, hf⟩

@[simp] theorem require_eq_ok_iff {cond : Bool} {err : failure} {u : Unit} :
    require cond err = Except.ok u <-> cond = true := by
  cases cond <;> simp [require]

@[simp] theorem onlyIf_eq_ok_iff {cond : Bool} {check : Except failure Unit} {u : Unit} :
    onlyIf cond check = Except.ok u <-> (cond = true -> check = Except.ok ()) := by
  cases cond <;> simp [onlyIf]

@[simp] theorem expect_eq_ok_iff {found : Option result} {err : failure} {r : result} :
    expect found err = Except.ok r <-> found = some r := by
  cases found <;> simp [expect]

theorem forEach_eq_ok_iff {check : item -> Except failure Unit} {u : Unit} :
    forall {xs : List item}, forEach check xs = Except.ok u <->
      forall x, x ∈ xs -> check x = Except.ok () := by
  intro xs
  induction xs with
  | nil =>
      simp [forEach]
  | cons x rest ih =>
      rw [forEach, then_eq_ok_iff, List.forall_mem_cons, ih]

/-- An invariant of the accumulator which every successful round keeps. -/
theorem accumulate_invariant {body : result -> item -> Except failure result}
    {inv : List item -> result -> Prop}
    (hbody : forall done acc x acc', inv done acc -> body acc x = Except.ok acc' ->
      inv (done ++ [x]) acc') :
    forall (xs done : List item) (acc acc' : result), inv done acc ->
      accumulate body acc xs = Except.ok acc' -> inv (done ++ xs) acc' := by
  intro xs
  induction xs with
  | nil =>
      intro done acc acc' hinv h
      cases h
      rw [List.append_nil]
      exact hinv
  | cons x rest ih =>
      intro done acc acc' hinv h
      rcases bind_eq_ok_iff.mp h with ⟨acc1, hone, hrest⟩
      have hnext := ih (done ++ [x]) acc1 acc' (hbody done acc x acc1 hinv hone) hrest
      rw [List.append_assoc, List.singleton_append] at hnext
      exact hnext

/-- Two loops are one where their bodies agree on every accumulator which can occur. -/
theorem accumulate_congr {body body' : result -> item -> Except failure result}
    {inv : result -> Prop} (heq : forall acc x, inv acc -> body acc x = body' acc x)
    (hbody : forall acc x acc', inv acc -> body' acc x = Except.ok acc' -> inv acc') :
    forall (xs : List item) (acc : result), inv acc ->
      accumulate body acc xs = accumulate body' acc xs := by
  intro xs
  induction xs with
  | nil =>
      intro acc _
      rfl
  | cons x rest ih =>
      intro acc hinv
      rw [accumulate, accumulate, heq acc x hinv]
      cases hone : body' acc x with
      | error err => rfl
      | ok acc' => exact ih acc' (hbody acc x acc' hinv hone)

end Foundation
end Hbcur

/-!
# Outcomes of computations

Two rules of thumb for a computation which may fail: what it ensures of its results and of
its failures, and when a second computation succeeds whenever it does.
-/

namespace Hbcur
namespace Foundation

variable {failure result result' item : Type}

/-!
# What a computation ensures
-/

/-- Every failure satisfies the first condition, and every result the second. -/
def Ensures (fails : failure -> Prop) (returns : result -> Prop) :
    Except failure result -> Prop
  | Except.error e => fails e
  | Except.ok r => returns r

section Ensures

variable {fails fails' : failure -> Prop} {returns returns' : result -> Prop}
  {returns'' : result' -> Prop}

theorem ensures_ok {r : result} (h : returns r) :
    Ensures fails returns (Except.ok r : Except failure result) := h

theorem Ensures.mono {x : Except failure result} (h : Ensures fails returns x)
    (himp : forall r, returns r -> returns' r) : Ensures fails returns' x := by
  cases x with
  | error e => exact h
  | ok r => exact himp r h

/-- The failures of a part are failures of the whole. -/
theorem Ensures.imp_fails {x : Except failure result} (h : Ensures fails returns x)
    (himp : forall e, fails e -> fails' e) : Ensures fails' returns x := by
  cases x with
  | error e => exact himp e h
  | ok r => exact h

theorem ensures_bind {x : Except failure result} {f : result -> Except failure result'}
    (hx : Ensures fails returns x) (hf : forall r, returns r -> Ensures fails returns'' (f r)) :
    Ensures fails returns'' (x >>= f) := by
  cases x with
  | error e => exact hx
  | ok r => exact hf r hx

theorem ensures_require {cond : Bool} {err : failure} (h : fails err) :
    Ensures fails (fun _ => cond = true) (require cond err) := by
  cases cond with
  | false => exact h
  | true => rfl

/-- A check followed by the rest of the computation. -/
theorem ensures_require_bind {cond : Bool} {err : failure}
    {f : Unit -> Except failure result'} (h : fails err)
    (hf : cond = true -> Ensures fails returns'' (f ())) :
    Ensures fails returns'' (require cond err >>= f) :=
  ensures_bind (ensures_require h) (fun _ hcond => hf hcond)

theorem ensures_expect {found : Option result} {err : failure} {r : result}
    (h : found = some r) (hr : returns r) : Ensures fails returns (expect found err) := by
  rw [h]
  exact hr

/-- Where nothing is said of the result. -/
theorem ensures_then {x : Except failure result} {f : result -> Except failure result'}
    (hx : Ensures fails (fun _ => True) x)
    (hf : forall r, Ensures fails (fun _ => True) (f r)) :
    Ensures fails (fun _ => True) (x >>= f) :=
  ensures_bind hx fun r _ => hf r

theorem ensures_check {cond : Bool} {err : failure} (h : fails err) :
    Ensures fails (fun _ => True) (require cond err) :=
  (ensures_require h).mono fun _ _ => trivial

theorem ensures_found {found : Option result} {err : failure} (h : fails err) :
    Ensures fails (fun _ => True) (expect found err) := by
  cases found with
  | none => exact h
  | some r => exact trivial

theorem ensures_onlyIf {cond : Bool} {check : Except failure Unit}
    (h : Ensures fails (fun _ => True) check) :
    Ensures fails (fun _ => True) (onlyIf cond check) := by
  cases cond with
  | false => exact trivial
  | true => exact h

theorem ensures_forEach {check : item -> Except failure Unit}
    (h : forall x, Ensures fails (fun _ => True) (check x)) (xs : List item) :
    Ensures fails (fun _ => True) (forEach check xs) := by
  induction xs with
  | nil => exact trivial
  | cons x rest ih => exact ensures_then (h x) fun _ => ih

theorem ensures_accumulate {body : result -> item -> Except failure result}
    (h : forall acc x, Ensures fails (fun _ => True) (body acc x)) (xs : List item) :
    forall acc, Ensures fails (fun _ => True) (accumulate body acc xs) := by
  induction xs with
  | nil => exact fun _ => trivial
  | cons x rest ih => exact fun acc => ensures_then (h acc x) ih

theorem Ensures.of_error {x : Except failure result} (h : Ensures fails returns x)
    {e : failure} (hx : x = Except.error e) : fails e := by
  rw [hx] at h
  exact h

theorem Ensures.of_ok {x : Except failure result} (h : Ensures fails returns x)
    {r : result} (hx : x = Except.ok r) : returns r := by
  rw [hx] at h
  exact h

theorem ensures_ite {cond : Prop} [Decidable cond] {x y : Except failure result}
    (hx : cond -> Ensures fails returns x) (hy : ¬ cond -> Ensures fails returns y) :
    Ensures fails returns (if cond then x else y) := by
  by_cases h : cond
  · rw [if_pos h]
    exact hx h
  · rw [if_neg h]
    exact hy h

end Ensures

/-!
# When one computation succeeds with another
-/

/-- The second computation returns whatever the first one returns. -/
def SucceedsWith (x y : Except failure result) : Prop :=
  forall r, x = Except.ok r -> y = Except.ok r

namespace SucceedsWith

theorem refl (x : Except failure result) : SucceedsWith x x := fun _ h => h

theorem bind {x y : Except failure result} {f g : result -> Except failure result'}
    (hxy : SucceedsWith x y) (hfg : forall r, SucceedsWith (f r) (g r)) :
    SucceedsWith (x >>= f) (y >>= g) := by
  intro r h
  rcases bind_eq_ok_iff.mp h with ⟨a, ha, hr⟩
  exact bind_eq_ok_iff.mpr ⟨a, hxy a ha, hfg a r hr⟩

/-- A check which is only relaxed. -/
theorem require {cond cond' : Bool} {err err' : failure} (h : cond = true -> cond' = true) :
    SucceedsWith (require cond err) (require cond' err') := by
  intro r hr
  rw [require_eq_ok_iff] at hr ⊢
  exact h hr

/-- A check which is only made under a condition. -/
theorem onlyIf {x y : Except failure Unit} {cond cond' : Bool}
    (h : cond' = true -> cond = true) (hxy : SucceedsWith x y) :
    SucceedsWith (onlyIf cond x) (onlyIf cond' y) := by
  intro r hr
  rw [onlyIf_eq_ok_iff] at hr ⊢
  exact fun hcond => hxy () (hr (h hcond))

theorem forEach {check check' : item -> Except failure Unit}
    (h : forall x, SucceedsWith (check x) (check' x)) {xs : List item} :
    SucceedsWith (forEach check xs) (forEach check' xs) := by
  intro r hr
  rw [forEach_eq_ok_iff] at hr ⊢
  exact fun x hmem => h x () (hr x hmem)

theorem accumulate {body body' : result -> item -> Except failure result}
    (h : forall acc x, SucceedsWith (body acc x) (body' acc x)) (xs : List item) :
    forall acc, SucceedsWith (accumulate body acc xs) (accumulate body' acc xs) := by
  induction xs with
  | nil => exact fun acc => refl _
  | cons x rest ih => exact fun acc => bind (h acc x) ih

theorem ite {cond : Prop} [Decidable cond] {x x' y y' : Except failure result}
    (hx : SucceedsWith x x') (hy : SucceedsWith y y') :
    SucceedsWith (if cond then x else y) (if cond then x' else y') := by
  by_cases h : cond
  · rw [if_pos h, if_pos h]
    exact hx
  · rw [if_neg h, if_neg h]
    exact hy

end SucceedsWith

end Foundation
end Hbcur
