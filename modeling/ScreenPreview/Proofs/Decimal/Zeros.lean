import Mathlib
import ScreenPreview.Decimal.Binary64

/-!
A zero divided by a power of ten is that zero.

There are two doubles that equal zero, and what divides them is a finite double above zero, for each
of the powers that doubles have (`isAbove_tenTo`).
-/
namespace ScreenPreview.Decimal

open Float.Model (Format)

def isAbove (x : Float) : Bool :=
  match x.toModel.unpack with
  | .finite .positive .. => true
  | _ => false

theorem eq_zero_or_neg_zero {x : Float} (zero : (x == 0) = true) : x = 0 ∨ x = -0 := by
  obtain ⟨-, -, same | ⟨same, -⟩ | ⟨same, -⟩⟩ := Float.beq_iff_ne_nan_and_eq.mp zero
  · exact Or.inl same
  · exact Or.inl same
  · exact Or.inr same

theorem zero_div {x y : Float} (zero : (x == 0) = true) (above : isAbove y = true) : x / y = x := by
  have quotient : (x / y).toModel =
      Float.Model.pack (x.toModel.unpack.div Format.binary64 y.toModel.unpack) := rfl
  unfold isAbove at above
  split at above
  · next finite =>
    rw [finite] at quotient
    rw [← Float.toBits_inj]
    rcases eq_zero_or_neg_zero zero with rfl | rfl
    · exact congrArg (UInt64.ofBitVec ·.toBits.toBitVec) quotient
    · exact congrArg (UInt64.ofBitVec ·.toBits.toBitVec) quotient
  · cases above

theorem isAbove_tenTo : ∀ n : Fin 309, isAbove (ofNat (tenTo n.val)) = true := by decide +kernel

end ScreenPreview.Decimal
