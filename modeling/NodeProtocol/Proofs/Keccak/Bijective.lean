import Mathlib.Data.Finite.Prod
import NodeProtocol.Proofs.Keccak.Bitwise

namespace NodeProtocol.Keccak

namespace Bits

def spread (step : Fin 5) (turn : Fin 64) (p : Fin 5 → Fin 64 → Bool) : Fin 5 → Fin 64 → Bool :=
  fun x z => p x z ^^ (p (x - step) z ^^ p (x + step) (z - turn))

theorem parity_theta (a : Bits) : a.theta.parity = spread 1 1 a.parity := by
  funext x z
  -- Every row of a column gets the same bit, and five of them are as good as one.
  have five : ∀ p q r s t added : Bool,
      ((p ^^ added) ^^ (q ^^ added) ^^ (r ^^ added) ^^ (s ^^ added) ^^ (t ^^ added)) =
        ((p ^^ q ^^ r ^^ s ^^ t) ^^ added) := by
    decide
  exact five ..

theorem spread_spread (step : Fin 5) (turn : Fin 64) (p : Fin 5 → Fin 64 → Bool) :
    spread step turn (spread step turn p) = spread (step + step) (turn + turn) p := by
  funext x z
  have cancel : ∀ here before after far between beyond : Bool,
      ((here ^^ (before ^^ after)) ^^
        ((before ^^ (far ^^ between)) ^^ (after ^^ (between ^^ beyond)))) =
        (here ^^ (far ^^ beyond)) := by
    decide
  simp only [spread, sub_add_cancel, add_sub_cancel_right, sub_sub, add_assoc]
  exact cancel ..

theorem spread_iterate (step : Fin 5) (turn : Fin 64) (k : Nat) :
    (spread step turn)^[2 ^ k] = spread (2 ^ k • step) (2 ^ k • turn) := by
  induction k with
  | zero => rw [pow_zero, Function.iterate_one, one_nsmul, one_nsmul]
  | succ k ih =>
      funext p
      rw [pow_succ, mul_two, Function.iterate_add_apply, ih, spread_spread, add_nsmul, add_nsmul]

theorem spread_four (p : Fin 5 → Fin 64 → Bool) : spread 3 0 (spread 4 0 p) = p := by
  funext x z
  have around : x - 4 = x + 1 ∧ x - 3 = x + 2 ∧ x + 2 - 4 = x + 3 ∧ x + 2 + 4 = x + 1 ∧
      x + 3 - 4 = x + 4 ∧ x + 3 + 4 = x + 2 := by
    revert x
    decide
  have cancel : ∀ p q r s t : Bool,
      ((p ^^ (q ^^ t)) ^^ ((r ^^ (s ^^ q)) ^^ (s ^^ (t ^^ r)))) = p := by
    decide
  simp only [spread, sub_zero, around]
  exact cancel ..

theorem spread_injective : Function.Injective (spread 1 1) := by
  have turned : (spread 1 1)^[64] = spread 4 0 := spread_iterate 1 1 6
  have iterate : Function.Injective ((spread 1 1)^[63] ∘ spread 1 1) := by
    rw [← Function.iterate_succ, turned]
    exact Function.LeftInverse.injective spread_four
  exact iterate.of_comp

theorem theta_injective : Function.Injective theta := by
  intro a b same
  have parities : a.parity = b.parity := by
    apply spread_injective
    rw [← parity_theta, ← parity_theta, same]
  funext x y z
  have here : a.theta x y z = b.theta x y z := by rw [same]
  rwa [theta, theta, parities, Bool.xor_left_inj] at here

theorem rho_injective : Function.Injective rho := by
  intro a b same
  funext x y z
  have turned := congrFun (congrFun (congrFun same x) y) (z + Fin.ofNat 64 (offset x y))
  rwa [rho_apply, rho_apply, add_sub_cancel_right] at turned

theorem pi_injective : Function.Injective pi := by
  intro a b same
  funext x y z
  have source : y + 3 * (2 * (x - y)) = x := by
    revert x y
    decide
  have moved := congrFun (congrFun (congrFun same y) (2 * (x - y))) z
  rwa [pi, pi, source] at moved

theorem chi_four (a : Bits) : a.chi.chi.chi.chi = a := by
  funext x y z
  have around : x + 1 + 1 = x + 2 ∧ x + 1 + 2 = x + 3 ∧ x + 2 + 1 = x + 3 ∧ x + 2 + 2 = x + 4 ∧
      x + 3 + 1 = x + 4 ∧ x + 3 + 2 = x ∧ x + 4 + 1 = x ∧ x + 4 + 2 = x + 1 := by
    revert x
    decide
  simp only [chi, around]
  generalize a x y z = p, a (x + 1) y z = q, a (x + 2) y z = r, a (x + 3) y z = s,
    a (x + 4) y z = t
  revert p q r s t
  decide

theorem iota_iota (number : Nat) (a : Bits) : (a.iota number).iota number = a := by
  funext x y z
  simp only [iota]
  split
  · rw [Bool.xor_assoc, Bool.xor_self, Bool.xor_false]
  · rfl

theorem round_injective (number : Nat) : Function.Injective (round · number) := by
  have chi_injective : Function.Injective chi :=
    Function.LeftInverse.injective (g := chi ∘ chi ∘ chi) chi_four
  have iota_injective : Function.Injective (iota number) :=
    Function.Involutive.injective (iota_iota number)
  exact iota_injective.comp (chi_injective.comp
    (pi_injective.comp (rho_injective.comp theta_injective)))

theorem permute_injective : Function.Injective permute := by
  have rounds (numbers : List Nat) : Function.Injective (numbers.foldl round ·) := by
    induction numbers with
    | nil => exact Function.injective_id
    | cons number numbers ih => exact ih.comp (round_injective number)
  exact rounds _

end Bits

theorem permute_bijective : Function.Bijective permute := by
  have finite : Finite State := .of_injective State.bits State.bits_injective
  apply Finite.injective_iff_bijective.mp
  intro a b same
  apply State.bits_injective
  apply Bits.permute_injective
  rw [← bits_permute, ← bits_permute, same]

end NodeProtocol.Keccak
