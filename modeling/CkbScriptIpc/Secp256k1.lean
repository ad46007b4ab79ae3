import Mathlib.Algebra.Field.ZMod
import Mathlib.Algebra.Module.Basic
import Mathlib.NumberTheory.LucasPrimality
import Mathlib.Tactic.NormNum.Prime
import Mathlib.Tactic.ReduceModChar

/-!
# Signatures over a group of prime order

The equation of an ECDSA signature in any module over a field, and the order of the
group of secp256k1, which is prime.

`equation_iff`: for a nonce point the equation has one solution, the key that recovery
computes. `order_prime`: by Lucas's test, with the factors of `order - 1`, of theirs, and
so on.
-/

namespace CkbScriptIpc.Secp256k1

/-! ## The equation -/

section

variable {F G : Type} [Field F] [AddCommGroup G] [Module F G]

/-- The equation of a signature `(r, s)` of `z`, with the nonce point `R` and the key `Q`. -/
def Equation (g : G) (z r s : F) (R Q : G) : Prop := s • R = z • g + r • Q

/-- The key for a nonce point. -/
def recovered (g : G) (z r s : F) (R : G) : G := -(r⁻¹ * z) • g + (r⁻¹ * s) • R

variable {g R Q : G} {z r s : F}

theorem equation_recovered (hr : r ≠ 0) : Equation g z r s R (recovered g z r s R) := by
  rw [Equation, recovered, smul_add, smul_smul, smul_smul, mul_neg, mul_inv_cancel_left₀ hr,
    mul_inv_cancel_left₀ hr, neg_smul, add_neg_cancel_left]

theorem equation_iff (hr : r ≠ 0) : Equation g z r s R Q ↔ Q = recovered g z r s R := by
  constructor
  · intro h
    have hsame : r • Q = r • recovered g z r s R :=
      add_left_cancel (h.symm.trans (equation_recovered hr))
    exact (IsUnit.mk0 r hr).smul_left_cancel.mp hsame
  · rintro rfl
    exact equation_recovered hr

/-- The point that the verification of a signature computes from the key. -/
theorem nonce_eq (hs : s ≠ 0) (h : Equation g z r s R Q) :
    (z * s⁻¹) • g + (r * s⁻¹) • Q = R := by
  have hscaled : s⁻¹ • (z • g + r • Q) = R := by
    rw [← show s • R = z • g + r • Q from h, smul_smul, inv_mul_cancel₀ hs, one_smul]
  rwa [smul_add, smul_smul, smul_smul, mul_comm s⁻¹ z, mul_comm s⁻¹ r] at hscaled

/-- A signature that was made with a nonce and a private key solves the equation. -/
theorem equation_of_signed {k d : F} (hk : k ≠ 0) (hs : s = k⁻¹ * (z + r * d)) :
    Equation g z r s (k • g) (d • g) := by
  rw [Equation, smul_smul, hs, mul_right_comm, inv_mul_cancel₀ hk, one_mul, add_smul, smul_smul]

end

/-! ## The order -/

/-- Lucas's test with the factors of `p - 1`. -/
theorem prime_of_factors {p : ℕ} (a : ZMod p) (factors : List ℕ)
    (hprime : ∀ q ∈ factors, q.Prime) (hprod : factors.prod = p - 1) (hone : a ^ (p - 1) = 1)
    (hne : ∀ q ∈ factors, a ^ ((p - 1) / q) ≠ 1) : p.Prime := by
  refine lucas_primality p a hone fun q hq hdvd => ?_
  rw [← hprod] at hdvd
  obtain ⟨q', hmem, hdvd'⟩ := hq.prime.dvd_prod_iff.mp hdvd
  rw [(Nat.prime_dvd_prime_iff_eq hq (hprime q' hmem)).mp hdvd']
  exact hne q' hmem

theorem prime_545358713 : Nat.Prime 545358713 := by
  apply prime_of_factors (5 : ZMod 545358713)
    [2, 2, 2, 41, 59, 28181]
  · norm_num
  · norm_num
  · reduce_mod_char
  · norm_num
    reduce_mod_char
    decide

theorem prime_297159362677 : Nat.Prime 297159362677 := by
  apply prime_of_factors (2 : ZMod 297159362677)
    [2, 2, 3, 3, 11, 461, 1627771]
  · norm_num
  · norm_num
  · reduce_mod_char
  · norm_num
    reduce_mod_char
    decide

theorem prime_107361793816595537 : Nat.Prime 107361793816595537 := by
  apply prime_of_factors (3 : ZMod 107361793816595537)
    [2, 2, 2, 2, 16699, 85831, 4681609]
  · norm_num
  · norm_num
  · reduce_mod_char
  · norm_num
    reduce_mod_char
    decide

theorem prime_174723607534414371449 : Nat.Prime 174723607534414371449 := by
  apply prime_of_factors (3 : ZMod 174723607534414371449)
    [2, 2, 2, 17, 59, 4051, 120233, 44706919]
  · norm_num
  · norm_num
  · reduce_mod_char
  · norm_num
    reduce_mod_char
    decide

theorem prime_29047611873442575647497758179 : Nat.Prime 29047611873442575647497758179 := by
  apply prime_of_factors (2 : ZMod 29047611873442575647497758179)
    [2, 293, 305873, 545358713, 297159362677]
  · simp only [List.forall_mem_cons, prime_545358713, prime_297159362677]
    norm_num
  · norm_num
  · reduce_mod_char
  · norm_num
    reduce_mod_char
    decide

theorem prime_341948486974166000522343609283189 : Nat.Prime 341948486974166000522343609283189 := by
  apply prime_of_factors (2 : ZMod 341948486974166000522343609283189)
    [2, 2, 3, 3, 3, 109, 29047611873442575647497758179]
  · simp only [List.forall_mem_cons, prime_29047611873442575647497758179]
    norm_num
  · norm_num
  · reduce_mod_char
  · norm_num
    reduce_mod_char
    decide

/-- `Secp256k1::ORDER` -/
def order : ℕ := 0xFFFFFFFFFFFFFFFFFFFFFFFFFFFFFFFEBAAEDCE6AF48A03BBFD25E8CD0364141

theorem order_prime : order.Prime := by
  rw [order]
  apply prime_of_factors
    (7 : ZMod 0xFFFFFFFFFFFFFFFFFFFFFFFFFFFFFFFEBAAEDCE6AF48A03BBFD25E8CD0364141)
    [2, 2, 2, 2, 2, 2, 3, 149, 631, 107361793816595537, 174723607534414371449,
      341948486974166000522343609283189]
  · simp only [List.forall_mem_cons, prime_107361793816595537, prime_174723607534414371449,
      prime_341948486974166000522343609283189]
    norm_num
  · norm_num
  · reduce_mod_char
  · norm_num
    reduce_mod_char
    decide

instance : Fact order.Prime := ⟨order_prime⟩

end CkbScriptIpc.Secp256k1
