import Mathlib
import Galerkin.Formula.Calculus
import Galerkin.Proofs.Formula.Regular

/-!
What a calculus promises: it keeps the values of formulas wherever they have one, its derivatives are
the derivatives, and sharing common parts changes nothing.
-/

namespace Galerkin

namespace Formula

variable {ν : Type}

/-- `f` may stand for `e`. It mentions no other variables, and wherever `e` has a value, or is smooth, so is
`f`, with the same value. -/
structure Refines (e f : Formula ν) : Prop where
  atoms : ∀ q ∈ f.atoms, q ∈ e.atoms
  defined : ∀ v, e.Defined v → f.Defined v
  value : ∀ v, e.Defined v → f.eval v = e.eval v
  smooth : ∀ varies v, e.Smooth varies v → f.Smooth varies v

theorem Refines.refl (e : Formula ν) : Refines e e :=
  ⟨fun _ member => member, fun _ defined => defined, fun _ _ => rfl, fun _ _ smooth => smooth⟩

theorem Smooth.of_add {varies : ν → Prop} {v : ν → ℝ} {a b : Formula ν}
    (smooth : (Formula.add a b).Smooth varies v) : a.Smooth varies v ∧ b.Smooth varies v := by
  cases smooth with
  | fixed fixed defined =>
      exact ⟨.fixed (fun q member => fixed q (List.mem_append_left _ member)) defined.1,
        .fixed (fun q member => fixed q (List.mem_append_right _ member)) defined.2⟩
  | add left right => exact ⟨left, right⟩

theorem Smooth.of_mul {varies : ν → Prop} {v : ν → ℝ} {a b : Formula ν}
    (smooth : (Formula.mul a b).Smooth varies v) : a.Smooth varies v ∧ b.Smooth varies v := by
  cases smooth with
  | fixed fixed defined =>
      exact ⟨.fixed (fun q member => fixed q (List.mem_append_left _ member)) defined.1,
        .fixed (fun q member => fixed q (List.mem_append_right _ member)) defined.2⟩
  | mul left right => exact ⟨left, right⟩

theorem smooth_ofRat (varies : ν → Prop) (v : ν → ℝ) (r : Rat) :
    (ofRat r : Formula ν).Smooth varies v :=
  .fixed (fun _ member => nomatch member) rfl

theorem smooth_inverse {varies : ν → Prop} {v : ν → ℝ} {a : Formula ν} (smooth : a.Smooth varies v)
    (nonzero : a.eval v ≠ 0) : (inverse a).Smooth varies v :=
  .whole (-1) smooth (fun _ member => (List.not_mem_nil member).elim) rfl
    (by rw [eval_ofRat]; norm_num) nonzero

end Formula

/-- The values of variables, followed by those of the common parts. -/
def Sharing.extend {α : Type} [Scalar α] (common : List (Formula Nat)) (slots : Array α) : Array α :=
  common.foldl (fun values t => values.push (t.eval fun i => values.getD i 0)) slots

/-- `f` has after sharing the value that `e` had before. -/
def Sharing.Keeps (before after : Array ℝ) (e f : Formula Nat) : Prop :=
  e.Defined (fun i => before.getD i 0) → f.eval (fun i => after.getD i 0) = e.eval fun i => before.getD i 0

namespace Calculus

open Formula

variable {ν : Type} [DecidableEq ν]

structure Lawful (rules : Calculus ν) : Prop where
  normal : ∀ e, Refines e (rules.normal e)
  add : ∀ a b, Refines (.add a b) (rules.add a b)
  mul : ∀ a b, Refines (.mul a b) (rules.mul a b)
  expand : ∀ e, Refines e (rules.expand e)
  derivative_atoms : ∀ q e, ∀ r ∈ (rules.derivative q e).atoms, r ∈ e.atoms
  derivative_smooth : ∀ {varies : ν → Prop} {v q e}, varies q → e.Smooth varies v →
    (rules.derivative q e).Smooth varies v
  hasDerivAt : ∀ {varies : ν → Prop} {v q e}, varies q → e.Smooth varies v →
    HasDerivAt (fun t => e.eval (Function.update v q t)) ((rules.derivative q e).eval v) (v q)
  share : ∀ {count es}, (∀ e ∈ es, ∀ i ∈ e.atoms, i < count) → ∀ slots : Array ℝ, slots.size = count →
    List.Forall₂ (Sharing.Keeps slots (Sharing.extend (rules.share count es).common slots)) es
      (rules.share count es).formulas

/-- The derivative by a variable that a formula does not mention vanishes identically. -/
def Sparse (rules : Calculus ν) : Prop := ∀ q e, q ∉ e.atoms → (rules.derivative q e).isZero = true

/-- Two lists of formulas that share their common parts. -/
theorem Lawful.share_append {rules : Calculus ν} (lawful : rules.Lawful) {count : Nat}
    {first second : List (Formula Nat)} (numbered : ∀ e ∈ first ++ second, ∀ i ∈ e.atoms, i < count)
    {slots : Array ℝ} (size : slots.size = count) :
    let shared := rules.share count (first ++ second)
    let keeps := Sharing.Keeps slots (Sharing.extend shared.common slots)
    List.Forall₂ keeps first (shared.formulas.take first.length) ∧
      List.Forall₂ keeps second (shared.formulas.drop first.length) := by
  have all := lawful.share numbered slots size
  have left := List.forall₂_take first.length all
  have right := List.forall₂_drop first.length all
  rw [List.take_left] at left
  rw [List.drop_left] at right
  exact ⟨left, right⟩

end Calculus

end Galerkin
