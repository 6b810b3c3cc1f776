import Mathlib.Algebra.BigOperators.Ring.Finset
import Mathlib.Algebra.Order.BigOperators.Group.Finset
import Mathlib.Algebra.Order.Ring.Defs
import Mathlib.Tactic.Linarith
import Mathlib.Tactic.Ring

/-! # Accounting by an index per share

A pool that emits rewards to the holders of shares keeps one growing index, the amount emitted
per share, instead of paying every holder at every emission.  An account remembers the index
it was last settled at (`mark`); what it is entitled to at a later index is what it earned
until then plus its shares times the growth of the index.

Settling an account does not change its entitlement.  A growth of the index adds to all
entitlements together at most the shares outstanding times the growth, so entitlements stay
funded as long as the shares are covered by the total the emission was divided by
(`Funded.accrue`). -/

namespace PerShare

variable {ι R : Type} [CommRing R]

structure Account (R : Type) where
  earned : R
  shares : R
  /-- The index at the last settlement. -/
  mark : R

namespace Account
variable (a : Account R)

/-- What the account has earned once the index is `index`. -/
def entitled (index : R) : R := a.earned + a.shares * (index - a.mark)

/-- The account settled at `index`, holding `shares` from then on. -/
def settle (index shares : R) : Account R := ⟨a.entitled index, shares, index⟩

theorem entitled_settle (index shares : R) :
    (a.settle index shares).entitled index = a.entitled index := by
  simp [settle, entitled]

theorem entitled_accrue (index index' : R) :
    a.entitled index' = a.entitled index + a.shares * (index' - index) := by
  unfold entitled
  ring

theorem earned_le_entitled [LinearOrder R] [IsStrictOrderedRing R] {index : R}
    (hshares : 0 ≤ a.shares) (hmark : a.mark ≤ index) : a.earned ≤ a.entitled index := by
  have hgrowth : 0 ≤ a.shares * (index - a.mark) := mul_nonneg hshares (sub_nonneg.mpr hmark)
  unfold entitled
  linarith

end Account

section funded
variable [LinearOrder R]

/-- Any accounts together are entitled to at most `emitted`. -/
def Funded (accounts : ι → Account R) (index emitted : R) : Prop :=
  ∀ holders : Finset ι, ∑ i ∈ holders, (accounts i).entitled index ≤ emitted

variable {accounts accounts' : ι → Account R} {index index' emitted : R}

theorem Funded.congr (h : Funded accounts index emitted)
    (hsame : ∀ i, (accounts' i).entitled index' = (accounts i).entitled index) :
    Funded accounts' index' emitted := by
  intro holders
  rw [Finset.sum_congr rfl fun i _ => hsame i]
  exact h holders

/-- An emission divided by a total that covers the shares keeps the entitlements funded. -/
theorem Funded.accrue [IsStrictOrderedRing R] (h : Funded accounts index emitted)
    {total emission : R} (hgrowth : index ≤ index')
    (hcover : ∀ holders : Finset ι, ∑ i ∈ holders, (accounts i).shares ≤ total)
    (hemission : total * (index' - index) ≤ emission) :
    Funded accounts index' (emitted + emission) := by
  intro holders
  have hcovered : (∑ i ∈ holders, (accounts i).shares) * (index' - index) ≤ emission :=
    (mul_le_mul_of_nonneg_right (hcover holders) (sub_nonneg.mpr hgrowth)).trans hemission
  calc ∑ i ∈ holders, (accounts i).entitled index'
      = ∑ i ∈ holders, (accounts i).entitled index +
          (∑ i ∈ holders, (accounts i).shares) * (index' - index) := by
        rw [Finset.sum_mul, ← Finset.sum_add_distrib]
        exact Finset.sum_congr rfl fun i _ => (accounts i).entitled_accrue index index'
    _ ≤ emitted + emission := add_le_add (h holders) hcovered

end funded
end PerShare
