import Mathlib
import Galerkin.Kernel.Evaluation
import Galerkin.Proofs.SymbolTable

/-!
What a kernel takes over from its form and its setting. The name of a form shows in failures and in the name of its
kernel, and nowhere else; the widths of a kernel are those of the layouts.
-/

namespace Galerkin

variable {rules : Calculus Quantity} {s : Setting} {name : String} {boundary : Bool} {form : Expr}

namespace WeakForm

theorem expand_rename {pairs : List (Expansion.Scalars × Expansion.Scalars)} (done : expand s name form = .ok pairs)
    (other : String) : expand s other form = .ok pairs := by
  obtain ⟨terms, found, done⟩ := Outcome.bind_eq_ok.mp done
  obtain ⟨parts, mapped, done⟩ := Outcome.bind_eq_ok.mp done
  refine Outcome.bind_eq_ok.mpr ⟨terms, Outcome.mapError_eq_ok.mpr (Outcome.mapError_eq_ok.mp found), ?_⟩
  refine Outcome.bind_eq_ok.mpr ⟨parts, Outcome.mapM_eq_ok.mpr ?_, done⟩
  exact (Outcome.mapM_eq_ok.mp mapped).imp fun _ _ made => Outcome.mapError_eq_ok.mpr (Outcome.mapError_eq_ok.mp made)

end WeakForm

namespace Linearization

theorem addPair_rename {table : SymbolTable} {unknowns : List Quantity} {totals grown : Gradient}
    {pair : Formula Quantity × Formula Quantity} (done : addPair rules name table unknowns totals pair = .ok grown)
    (other : String) : addPair rules other table unknowns totals pair = .ok grown := by
  obtain ⟨a, b⟩ := pair
  simp only [addPair] at done ⊢
  split at done
  · next vanishes => rw [if_pos vanishes, done]
  · next remains =>
      rw [if_neg remains]
      split at done
      · cases done
      · exact done

theorem foldlM_addPair_rename {table : SymbolTable} {unknowns : List Quantity} {totals grown : Gradient}
    {pairs : List (Formula Quantity × Formula Quantity)}
    (done : pairs.foldlM (addPair rules name table unknowns) totals = .ok grown) (other : String) :
    pairs.foldlM (addPair rules other table unknowns) totals = .ok grown := by
  induction pairs generalizing totals with
  | nil => exact done
  | cons pair rest ih =>
      obtain ⟨next, first, later⟩ := Outcome.bind_eq_ok.mp done
      exact Outcome.bind_eq_ok.mpr ⟨next, addPair_rename first other, ih later⟩

theorem ofForm_rename {l : Linearization} (done : ofForm rules s name boundary form = .ok l) (other : String) :
    ofForm rules s other boundary form = .ok { l with name := other } := by
  obtain ⟨pairs, expanded, done⟩ := Outcome.bind_eq_ok.mp done
  obtain ⟨table, asked, done⟩ := Outcome.bind_eq_ok.mp done
  refine Outcome.bind_eq_ok.mpr ⟨pairs, WeakForm.expand_rename expanded other, ?_⟩
  refine Outcome.bind_eq_ok.mpr ⟨table, asked, ?_⟩
  split at done
  · cases done
  · next allowed =>
      obtain ⟨totals, summed, done⟩ := Outcome.bind_eq_ok.mp done
      cases done
      rw [if_neg allowed]
      exact Outcome.bind_eq_ok.mpr ⟨totals, foldlM_addPair_rename summed other, rfl⟩

/-- Inside a domain no form uses the facet normal. -/
theorem usesNormal_ofForm {l : Linearization} (done : ofForm rules s name false form = .ok l) :
    l.table.usesNormal = false := by
  obtain ⟨_, -, done⟩ := Outcome.bind_eq_ok.mp done
  obtain ⟨table, -, done⟩ := Outcome.bind_eq_ok.mp done
  split at done
  · cases done
  · next allowed =>
      obtain ⟨_, -, done⟩ := Outcome.bind_eq_ok.mp done
      cases done
      have unused : table.usesNormal = false := by simpa using allowed
      exact unused

theorem layouts_ofForm {l : Linearization} (done : ofForm rules s name boundary form = .ok l) :
    l.table.internal = s.internal ∧ l.table.external = s.external := by
  obtain ⟨_, -, done⟩ := Outcome.bind_eq_ok.mp done
  obtain ⟨table, asked, done⟩ := Outcome.bind_eq_ok.mp done
  have held := SymbolTable.requestAll_eq_ok asked
  split at done
  · cases done
  · obtain ⟨_, -, done⟩ := Outcome.bind_eq_ok.mp done
    cases done
    exact ⟨held.internal, held.external⟩

end Linearization

namespace Kernel

theorem widths_ofForm {k : Kernel} (done : ofForm rules s name boundary form = .ok k) :
    k.width = s.internal.width ∧ k.externalWidth = s.external.width := by
  obtain ⟨l, linear, done⟩ := Outcome.bind_eq_ok.mp done
  obtain ⟨internal, external⟩ := Linearization.layouts_ofForm linear
  unfold ofLinearization at done
  simp only at done
  split at done
  · cases done
  · obtain ⟨_, _, done⟩ := Outcome.bind_eq_ok.mp done
    cases done
    exact ⟨congrArg Layout.width internal, congrArg Layout.width external⟩

theorem ofForm_rename {k : Kernel} (done : ofForm rules s name boundary form = .ok k) (other : String) :
    ofForm rules s other boundary form = .ok { k with name := other } := by
  obtain ⟨l, linear, done⟩ := Outcome.bind_eq_ok.mp done
  refine Outcome.bind_eq_ok.mpr ⟨_, Linearization.ofForm_rename linear other, ?_⟩
  unfold ofLinearization at done ⊢
  simp only at done ⊢
  split at done
  · cases done
  · next computable =>
      obtain ⟨slots, arranged, done⟩ := Outcome.bind_eq_ok.mp done
      cases done
      rw [if_neg computable]
      exact Outcome.bind_eq_ok.mpr ⟨slots, arranged, rfl⟩

theorem usesNormal_ofForm {k : Kernel} (done : ofForm rules s name false form = .ok k) : k.usesNormal = false := by
  obtain ⟨l, linear, done⟩ := Outcome.bind_eq_ok.mp done
  unfold ofLinearization at done
  simp only at done
  split at done
  · cases done
  · obtain ⟨_, _, done⟩ := Outcome.bind_eq_ok.mp done
    cases done
    exact Linearization.usesNormal_ofForm linear

end Kernel

namespace CompiledKernel

theorem compile_eq_ok {backend : String} {k : CompiledKernel} :
    compile rules s name boundary backend form = .ok k ↔
      Kernel.ofForm rules s name boundary form = .ok k.kernel ∧ Backend.ofName backend = .ok k.backend := by
  unfold compile
  constructor
  · intro done
    obtain ⟨kernel, made, done⟩ := Outcome.bind_eq_ok.mp done
    obtain ⟨b, found, done⟩ := Outcome.bind_eq_ok.mp done
    cases done
    exact ⟨made, found⟩
  · rintro ⟨made, found⟩
    exact Outcome.bind_eq_ok.mpr ⟨_, made, Outcome.bind_eq_ok.mpr ⟨_, found, rfl⟩⟩

end CompiledKernel

end Galerkin
