import Mathlib.FieldTheory.Finite.Basic
import Mathlib.RingTheory.AdjoinRoot
import Mathlib.Tactic
import Signet.Cipher.Gf128

/-!
The product of the hash is that of a field.

* **Values.** `eval` takes a polynomial to its value at an element of a ring of
  characteristic two. Sums go to sums (`eval_xor`), and at a root of the modulus products
  go to products (`eval_mul`); the induction is on the bits of the first factor.
* **The modulus is irreducible.** In a field that a factor of degree `d` makes, its root is
  unchanged by squaring `d` times. `frobenius` multiplies what is left of these
  equations for all degrees up to half of that of the modulus, and `certificate` is an inverse of
  the product: so there is no such factor (`irreducible_modulus`).
* `xor_mul`, `eq_zero_or_eq_zero_of_mul`: products of sums are sums of products, and there are no
  divisors of zero, since a polynomial of lower degree than the modulus is zero if it is so at
  the root (`eval_root_eq_zero`).
-/

namespace Signet.Gf128

open Finset

/-! ### Sums -/

lemma mulBits_map_xor (f f' : ℕ → Bool) (l : List ℕ) (v : Gf128) :
    mulBits (l.map fun i => f i ^^ f' i) v = mulBits (l.map f) v ^^^ mulBits (l.map f') v := by
  induction l generalizing v with
  | nil => exact (BitVec.xor_self (x := 0#128)).symm
  | cons i l ih =>
      have hbit : (if f i ^^ f' i then v else 0#128)
          = (if f i then v else 0#128) ^^^ if f' i then v else 0#128 := by
        cases f i <;> cases f' i <;> simp
      rw [List.map_cons, List.map_cons, List.map_cons, mulBits, mulBits, mulBits, ih, hbit]
      ac_rfl

/-- The product of a sum is the sum of the products. -/
lemma xor_mul (x y z : Gf128) : mul (x ^^^ y) z = mul x z ^^^ mul y z := by
  have hbits : coefficients (x ^^^ y)
      = (List.range 128).map fun i => x.getMsbD i ^^ y.getMsbD i :=
    List.map_congr_left fun i _ => BitVec.getMsbD_xor
  rw [mul, hbits, mulBits_map_xor]
  rfl

variable {R : Type*} [CommRing R]

/-! ### Values of polynomials -/

/-- The value of a polynomial. -/
def eval (a : R) (x : Gf128) : R := ∑ i ∈ range 128, if x.getMsbD i then a ^ i else 0

/-- The value of the polynomial with given coefficients, constant term first. -/
def evalBits (a : R) : List Bool → R
  | [] => 0
  | bit :: bits => (if bit then 1 else 0) + a * evalBits a bits

lemma evalBits_map_range (a : R) (f : ℕ → Bool) (n : ℕ) :
    evalBits a ((List.range n).map f) = ∑ i ∈ range n, if f i then a ^ i else 0 := by
  induction n generalizing f with
  | zero => rfl
  | succ n ih =>
      rw [List.range_succ_eq_map, List.map_cons, List.map_map, evalBits, ih, sum_range_succ',
        add_comm, pow_zero, mul_sum]
      congr 1
      refine sum_congr rfl fun i _ => ?_
      rw [Function.comp_apply, mul_ite, mul_zero, pow_succ']

lemma evalBits_coefficients (a : R) (x : Gf128) : evalBits a (coefficients x) = eval a x :=
  evalBits_map_range a x.getMsbD 128

lemma eval_zero (a : R) : eval a 0#128 = 0 := by
  simp [eval]

variable [CharP R 2]

lemma eval_xor (a : R) (x y : Gf128) : eval a (x ^^^ y) = eval a x + eval a y := by
  rw [eval, eval, eval, ← sum_add_distrib]
  refine sum_congr rfl fun i _ => ?_
  rw [BitVec.getMsbD_xor]
  cases x.getMsbD i <;> cases y.getMsbD i <;> simp [CharTwo.add_self_eq_zero]

omit [CharP R 2] in
lemma eval_reduction (a : R) : eval a reduction = 1 + a + a ^ 2 + a ^ 7 := by
  have hbits : ∀ i ∈ range 128, reduction.getMsbD i = decide (i ∈ ({0, 1, 2, 7} : Finset ℕ)) := by
    decide +kernel
  have hplaces : range 128 ∩ {0, 1, 2, 7} = {0, 1, 2, 7} := by decide +kernel
  rw [eval, sum_congr rfl fun i hi => by rw [hbits i hi]]
  simp only [decide_eq_true_eq, sum_ite_mem, hplaces]
  simp
  ring

/-- The root of the modulus in a ring. -/
def IsRoot (a : R) : Prop := a ^ 128 + a ^ 7 + a ^ 2 + a + 1 = 0

lemma IsRoot.pow_eq {a : R} (ha : IsRoot a) : a ^ 128 = 1 + a + a ^ 2 + a ^ 7 := by
  rw [← CharTwo.add_eq_zero]
  exact (by ring : _ = _).trans ha

omit [CharP R 2] in
/-- A shift puts every coefficient one place further, and the last one out. -/
lemma eval_shiftRight (a : R) (v : Gf128) :
    eval a (v >>> 1) + (if v.getLsbD 0 then a ^ 128 else 0) = a * eval a v := by
  have hfirst : (v >>> 1).getMsbD 0 = false := by
    simp [BitVec.getMsbD_ushiftRight]
  have hnext : ∀ i ∈ range 127, (v >>> 1).getMsbD (i + 1) = v.getMsbD i := by
    intro i hi
    have hlt : i + 1 < 128 := Nat.succ_lt_succ (mem_range.mp hi)
    simp [BitVec.getMsbD_ushiftRight, hlt]
  have hlast : v.getLsbD 0 = v.getMsbD 127 := by
    simp [BitVec.getMsbD_eq_getLsbD]
  have hsum : eval a (v >>> 1) = ∑ i ∈ range 127, if v.getMsbD i then a ^ (i + 1) else 0 := by
    rw [eval, sum_range_succ', hfirst, sum_congr rfl fun i hi => by rw [hnext i hi]]
    simp
  rw [hsum, hlast, eval, mul_sum, sum_range_succ _ 127]
  refine congrArg₂ (· + ·) (sum_congr rfl fun i _ => ?_) ?_
  · rw [mul_ite, mul_zero, pow_succ']
  · rw [mul_ite, mul_zero, ← pow_succ']

lemma eval_timesX {a : R} (ha : IsRoot a) (v : Gf128) : eval a (timesX v) = a * eval a v := by
  rw [← eval_shiftRight, timesX, eval_xor]
  congr 1
  rw [ha.pow_eq]
  split
  · exact eval_reduction a
  · exact eval_zero a

lemma eval_mulBits {a : R} (ha : IsRoot a) (bits : List Bool) (v : Gf128) :
    eval a (mulBits bits v) = evalBits a bits * eval a v := by
  induction bits generalizing v with
  | nil => rw [mulBits, evalBits, eval_zero, zero_mul]
  | cons bit bits ih =>
      rw [mulBits, evalBits, eval_xor, ih, eval_timesX ha]
      cases bit
      · simp only [Bool.false_eq_true, if_false, eval_zero]
        ring
      · simp only [if_true]
        ring

/-- **Products go to products** at a root of the modulus. -/
theorem eval_mul {a : R} (ha : IsRoot a) (x y : Gf128) :
    eval a (mul x y) = eval a x * eval a y := by
  rw [mul, eval_mulBits ha, evalBits_coefficients]

/-! ### The modulus is irreducible -/

/-- The polynomial one. -/
def one : Gf128 := 0x80000000000000000000000000000000#128

/-- The polynomial `x`. -/
def indeterminate : Gf128 := 0x40000000000000000000000000000000#128

omit [CharP R 2] in
lemma eval_one (a : R) : eval a one = 1 := by
  have hbits : ∀ i ∈ range 128, one.getMsbD i = decide (i = 0) := by decide +kernel
  rw [eval, sum_congr rfl fun i hi => by rw [hbits i hi]]
  simp

omit [CharP R 2] in
lemma eval_indeterminate (a : R) : eval a indeterminate = a := by
  have hbits : ∀ i ∈ range 128, indeterminate.getMsbD i = decide (i = 1) := by decide +kernel
  rw [eval, sum_congr rfl fun i hi => by rw [hbits i hi]]
  simp

/-- The polynomial `x` after so many squarings, and the product of all its differences from `x` on
the way. -/
def frobenius : ℕ → Gf128 × Gf128
  | 0 => (indeterminate, one)
  | n + 1 =>
    let (power, product) := frobenius n
    (mul power power, mul product (mul power power ^^^ indeterminate))

lemma eval_frobenius_fst {a : R} (ha : IsRoot a) (n : ℕ) :
    eval a (frobenius n).1 = a ^ 2 ^ n := by
  induction n with
  | zero => rw [frobenius, eval_indeterminate, pow_zero, pow_one]
  | succ n ih => rw [frobenius, eval_mul ha, ih, ← pow_add, ← two_mul, ← pow_succ']

/-- The product is zero at a root that some number of squarings leaves unchanged. -/
lemma eval_frobenius_snd {a : R} (ha : IsRoot a) {d n : ℕ} (hd : 0 < d) (hn : d ≤ n)
    (hfix : a ^ 2 ^ d = a) : eval a (frobenius n).2 = 0 := by
  induction n with
  | zero => omega
  | succ n ih =>
      rw [frobenius, eval_mul ha]
      rcases Nat.lt_or_ge n d with hlt | hle
      · obtain rfl : d = n + 1 := by omega
        have hsquare := eval_frobenius_fst ha (n + 1)
        rw [frobenius] at hsquare
        rw [eval_xor, hsquare, eval_indeterminate, hfix, CharTwo.add_self_eq_zero, mul_zero]
      · rw [ih hle, zero_mul]

/-- An inverse of the product for all degrees up to half of that of the modulus. -/
lemma certificate :
    mul 0x714E9588060E647080C73B0396EFA357#128 (frobenius 64).2 = one := by
  decide +kernel

open Polynomial

/-- The modulus. -/
@[irreducible]
noncomputable def modulus : (ZMod 2)[X] := X ^ 128 + X ^ 7 + X ^ 2 + X + 1

lemma natDegree_modulus : modulus.natDegree = 128 := by
  unfold modulus
  compute_degree!

lemma monic_modulus : modulus.Monic := by
  unfold modulus
  monicity!

/-- The root of a factor is a root of the modulus. -/
lemma isRoot_of_dvd {p : (ZMod 2)[X]} (h : p ∣ modulus) : IsRoot (AdjoinRoot.root p) := by
  have hroot := AdjoinRoot.mk_eq_zero.mpr h
  unfold modulus at hroot
  rw [IsRoot]
  simpa using hroot

/-- The root of an irreducible polynomial is unchanged by as many squarings as the degree says. -/
lemma root_pow_natDegree {p : (ZMod 2)[X]} [Fact (Irreducible p)] :
    AdjoinRoot.root p ^ 2 ^ p.natDegree = AdjoinRoot.root p := by
  have hp : p ≠ 0 := (Fact.out : Irreducible p).ne_zero
  have hfinite : Module.Finite (ZMod 2) (AdjoinRoot p) := (AdjoinRoot.powerBasis hp).finite
  have : Finite (AdjoinRoot p) := Module.finite_of_finite (ZMod 2)
  have : Fintype (AdjoinRoot p) := Fintype.ofFinite _
  have hcard := @Module.card_eq_pow_finrank (ZMod 2) (AdjoinRoot p) _ _ _ _ _
  rw [ZMod.card, (AdjoinRoot.powerBasis hp).finrank, AdjoinRoot.powerBasis_dim hp] at hcard
  rw [← hcard]
  exact FiniteField.pow_card _

lemma charP_adjoinRoot (p : (ZMod 2)[X]) [Fact (Irreducible p)] : CharP (AdjoinRoot p) 2 :=
  charP_of_injective_algebraMap (algebraMap (ZMod 2) (AdjoinRoot p)).injective 2

/-- **The modulus is irreducible.** -/
theorem irreducible_modulus : Irreducible modulus := by
  have hne : modulus ≠ 1 := by
    intro h
    have hdegree := natDegree_modulus
    rw [h, natDegree_one] at hdegree
    omega
  rw [monic_modulus.irreducible_iff_lt_natDegree_lt hne, natDegree_modulus]
  intro q hq hdegree hdvd
  rw [mem_Ioc] at hdegree
  obtain ⟨p, hp, hpq⟩ := exists_irreducible_of_natDegree_pos hdegree.1
  have : Fact (Irreducible p) := ⟨hp⟩
  have := charP_adjoinRoot p
  have hle : p.natDegree ≤ 64 := (natDegree_le_of_dvd hpq hq.ne_zero).trans hdegree.2
  have ha := isRoot_of_dvd (hpq.trans hdvd)
  have hzero := eval_frobenius_snd ha hp.natDegree_pos hle root_pow_natDegree
  have hone := congrArg (eval (AdjoinRoot.root p)) certificate
  rw [eval_mul ha, hzero, mul_zero, eval_one] at hone
  exact zero_ne_one hone

/-! ### No divisors of zero -/

omit [CharP R 2] in
lemma map_eval {S : Type*} [CommRing S] (f : R →+* S) (a : R) (x : Gf128) :
    f (eval a x) = eval (f a) x := by
  rw [eval, eval, map_sum]
  refine sum_congr rfl fun i _ => ?_
  split
  · exact map_pow f a i
  · exact map_zero f

lemma coeff_eval (x : Gf128) (i : ℕ) :
    (eval (X : (ZMod 2)[X]) x).coeff i = if x.getMsbD i then 1 else 0 := by
  have hterm (j : ℕ) : (if x.getMsbD j then (X : (ZMod 2)[X]) ^ j else 0).coeff i
      = if i = j then (if x.getMsbD i then 1 else 0) else 0 := by
    by_cases hij : i = j
    · subst hij
      split <;> simp
    · split <;> simp [coeff_X_pow, hij]
  rw [eval, finsetSum_coeff, sum_congr rfl fun j _ => hterm j, sum_ite_eq]
  by_cases hi : i < 128
  · rw [if_pos (mem_range.mpr hi)]
  · rw [if_neg (by simpa using hi)]
    simp [BitVec.getMsbD_eq_getLsbD, hi]

/-- A polynomial that is zero at the root of the modulus is zero. -/
lemma eval_root_eq_zero {x : Gf128} (h : eval (AdjoinRoot.root modulus) x = 0) : x = 0#128 := by
  rw [← AdjoinRoot.mk_X, ← map_eval, AdjoinRoot.mk_eq_zero] at h
  have hdegree : (eval (X : (ZMod 2)[X]) x).degree < modulus.degree := by
    rw [degree_eq_natDegree monic_modulus.ne_zero, natDegree_modulus, degree_lt_iff_coeff_zero]
    intro i hi
    rw [coeff_eval]
    simp [BitVec.getMsbD_eq_getLsbD, Nat.not_lt.mpr hi]
  have hzero := eq_zero_of_dvd_of_degree_lt h hdegree
  refine BitVec.eq_of_getMsbD_eq fun i hi => ?_
  have hcoeff := coeff_eval x i
  rw [hzero, coeff_zero] at hcoeff
  simpa using hcoeff

/-- **A product is zero only if a factor is.** -/
theorem eq_zero_or_eq_zero_of_mul {x y : Gf128} (h : mul x y = 0#128) : x = 0#128 ∨ y = 0#128 := by
  have : Fact (Irreducible modulus) := ⟨irreducible_modulus⟩
  have := charP_adjoinRoot modulus
  have ha := isRoot_of_dvd (dvd_refl modulus)
  have hproduct := congrArg (eval (AdjoinRoot.root modulus)) h
  rw [eval_mul ha, eval_zero, mul_eq_zero] at hproduct
  exact hproduct.imp eval_root_eq_zero eval_root_eq_zero

end Signet.Gf128
