import RmUniswap.StablePair.Hook
import RmUniswap.StablePair.LnWad

/-!
# The decay of the fee

The factor of a block is less than one, and each further block leaves less of
the fee: the powers fall because their factor does, the exponentials because one
block is more than their errors, and the fifth block falls below the fourth
because the logarithm of the factor is bounded away from zero.
-/

namespace RmUniswap

open Foundation

namespace Wad

section Monotone

variable {x x' a a' : Int}

theorem expWad_upper (hx : x ≤ 0) :
    exists a, expWad x = some a ∧ 0 ≤ a ∧
      (a : ℝ) ≤ Real.exp (2 / 10 ^ 8) * (10 ^ 18 * Real.exp (x / 10 ^ 18)) := by
  have hpos : (0 : ℝ) < 10 ^ 18 * Real.exp (x / 10 ^ 18) := by positivity
  rcases le_or_gt x (-41446531673892822313) with hcut | hlow
  · refine ⟨0, ?_, le_refl 0, ?_⟩
    · unfold expWad
      rw [if_pos hcut]
    · rw [Int.cast_zero]
      positivity
  · obtain ⟨v, hv, hclose⟩ := expWad_spec hlow hx
    have hbounds := abs_le.mp hclose
    have hv0 : 0 ≤ v := by linarith [hbounds.1]
    refine ⟨_, hv, Int.floor_nonneg.mpr hv0, ?_⟩
    have hone := Real.add_one_le_exp (2 / 10 ^ 8 : ℝ)
    have hscale := mul_le_mul_of_nonneg_right hone (le_of_lt hpos)
    have hfloor := Int.floor_le v
    linarith [hbounds.2]

theorem expWad_anti (hx : x ≤ 0) (hd : x' + 50000000000 ≤ x)
    (ha : expWad x = some a) (ha' : expWad x' = some a') : a' ≤ a := by
  rcases le_or_gt x' (-41446531673892822313) with hcut | hlow
  · obtain ⟨b, hb, hb0, _⟩ := expWad_upper hx
    rw [ha, Option.some_inj] at hb
    unfold expWad at ha'
    rw [if_pos hcut, Option.some_inj] at ha'
    rw [← ha', hb]
    exact hb0
  · obtain ⟨v, hv, hclose⟩ := expWad_spec (by omega : -41446531673892822313 < x) hx
    obtain ⟨v', hv', hclose'⟩ := expWad_spec hlow (by omega)
    rw [ha, Option.some_inj] at hv
    rw [ha', Option.some_inj] at hv'
    rw [hv, hv']
    apply Int.floor_le_floor
    have hgap : (x' : ℝ) / 10 ^ 18 + 5 / 10 ^ 8 ≤ x / 10 ^ 18 := by
      have hcast : (x' : ℝ) + 50000000000 ≤ x := by exact_mod_cast hd
      rw [div_add_div _ _ (by positivity) (by positivity), div_le_div_iff₀ (by positivity)
        (by positivity)]
      norm_num at hcast ⊢
      linarith
    have hratio : Real.exp (x' / 10 ^ 18) * (1 + 5 / 10 ^ 8) ≤ Real.exp (x / 10 ^ 18) := by
      have hone := Real.add_one_le_exp (5 / 10 ^ 8 : ℝ)
      calc
        Real.exp (x' / 10 ^ 18) * (1 + 5 / 10 ^ 8)
            ≤ Real.exp (x' / 10 ^ 18) * Real.exp (5 / 10 ^ 8) := by
          apply mul_le_mul_of_nonneg_left _ (le_of_lt (Real.exp_pos _))
          linarith
        _ = Real.exp (x' / 10 ^ 18 + 5 / 10 ^ 8) := (Real.exp_add _ _).symm
        _ ≤ Real.exp (x / 10 ^ 18) := Real.exp_le_exp.mpr hgap
    have hlower := (abs_le.mp hclose).1
    have hupper := (abs_le.mp hclose').2
    have hpos := Real.exp_pos ((x' : ℝ) / 10 ^ 18)
    norm_num at hlower hupper hratio
    linarith

end Monotone

end Wad

section Factor

variable {k n f f' : Nat}

theorem factor_pos (hk : 0 < k) : (0 : ℝ) < k / 2 ^ 24 := by
  have hcast : (0 : ℝ) < k := by exact_mod_cast hk
  positivity

theorem log_factor_le (hk : 0 < k) (hk' : k < 2 ^ 24) :
    Real.log (k / 2 ^ 24) ≤ -(1 / 2 ^ 24) := by
  have hle := Real.log_le_sub_one_of_pos (factor_pos hk)
  have hcast : (k : ℝ) + 1 ≤ 2 ^ 24 := by exact_mod_cast hk'
  have hdiv : (k : ℝ) / 2 ^ 24 ≤ 1 - 1 / 2 ^ 24 := by
    rw [div_le_iff₀ (by positivity)]
    norm_num at hcast ⊢
    linarith
  linarith

theorem lnWad_factor (hk : 0 < k) (hk' : k < 2 ^ 24) :
    exists y, Wad.lnWad (((k * 10 ^ 18) >>> 24 : Nat) : Int) = some y ∧ y ≤ -50000000000 ∧
      -(2 ^ 65) ≤ y ∧ (y : ℝ) / 10 ^ 18 ≤ Real.log (k / 2 ^ 24) + 5 / 10 ^ 9 := by
  obtain ⟨kWad, hkWad⟩ : exists kWad, kWad = (k * 10 ^ 18) >>> 24 := ⟨_, rfl⟩
  rw [← hkWad]
  rw [Nat.shiftRight_eq_div_pow] at hkWad
  have hlow : 2 ^ 35 ≤ kWad := by omega
  have hhigh : kWad < 2 ^ 60 := by omega
  obtain ⟨y, hy, hclose⟩ := Wad.lnWad_spec hlow hhigh
  have hbounds := abs_le.mp hclose
  have hkWad0 : (0 : ℝ) < kWad := by exact_mod_cast lt_of_lt_of_le (by decide) hlow
  have hround : (kWad : ℝ) / 10 ^ 18 ≤ k / 2 ^ 24 := by
    have hnat : kWad * 2 ^ 24 ≤ k * 10 ^ 18 := by omega
    rw [div_le_div_iff₀ (by positivity) (by positivity)]
    exact_mod_cast hnat
  have hlog := Real.log_le_log (by positivity) hround
  have hone := log_factor_le hk hk'
  have hleast : -25 ≤ Real.log (kWad / 10 ^ 18) := by
    have hratio : (2 : ℝ)⁻¹ ^ 25 ≤ kWad / 10 ^ 18 := by
      have hcast : (2 : ℝ) ^ 35 ≤ kWad := by exact_mod_cast hlow
      rw [le_div_iff₀ (by positivity)]
      norm_num
      linarith
    have hlog2 := Real.log_le_log (by positivity) hratio
    rw [Real.log_pow, Real.log_inv] at hlog2
    have htwo := Real.log_two_lt_d9
    norm_num at hlog2
    linarith
  refine ⟨y, hy, ?_, ?_, by linarith [hbounds.2]⟩
  · have hreal : (y : ℝ) ≤ -50000000000 := by
      have hle : (y : ℝ) / 10 ^ 18 ≤ -(5 / 10 ^ 8) := by
        norm_num at hone hbounds ⊢
        linarith [hbounds.2]
      rw [div_le_iff₀ (by positivity)] at hle
      norm_num at hle ⊢
      linarith
    exact_mod_cast hreal
  · have hreal : -(2 ^ 65 : ℝ) ≤ y := by
      have hle : -26 ≤ (y : ℝ) / 10 ^ 18 := by
        linarith [hbounds.1]
      rw [le_div_iff₀ (by positivity)] at hle
      norm_num at hle ⊢
      linarith
    exact_mod_cast hreal

/-- The decay of a block at eighteen decimals is at least its logarithm, up to
the error of that. -/
theorem deriveLogK_spec (hk : 0 < k) (hk' : k < 2 ^ 24) :
    exists logK, deriveLogK k = some logK ∧ logK < 2 ^ 42 ∧ 50000000000 ≤ logK * 2 ^ 24 ∧
      -Real.log (k / 2 ^ 24) ≤ (logK * 2 ^ 24 : ℝ) / 10 ^ 18 + 5 / 10 ^ 9 := by
  obtain ⟨y, hy, hneg, hlow, hlog⟩ := lnWad_factor hk hk'
  have hscaled : checkedMul 256 k (10 ^ 18) = some (k * 10 ^ 18) :=
    checkedMul_eq_some.mpr ⟨rfl, by omega⟩
  have hkWad : toSigned 256 ((k * 10 ^ 18) >>> 24) = ((k * 10 ^ 18) >>> 24 : Nat) := by
    apply toSigned_of_lt
    rw [Nat.shiftRight_eq_div_pow]
    omega
  have hfits : FitsSigned 256 (-y) := ⟨by omega, by omega⟩
  have hraw := toRaw_of_nonneg (w := 256) (x := -y) (by omega) (by omega)
  obtain ⟨n, hn⟩ : exists n, n = toRaw 256 (-y) := ⟨_, rfl⟩
  rw [← hn] at hraw
  have hn65 : n ≤ 2 ^ 65 := by omega
  have hadd : checkedAdd 256 n (2 ^ 24 - 1) = some (n + (2 ^ 24 - 1)) :=
    checkedAdd_eq_some.mpr ⟨rfl, by omega⟩
  have hshift : (n + (2 ^ 24 - 1)) >>> 24 < 2 ^ 42 := by
    rw [Nat.shiftRight_eq_div_pow]
    omega
  have hround : n ≤ ((n + (2 ^ 24 - 1)) >>> 24) * 2 ^ 24 := by
    rw [Nat.shiftRight_eq_div_pow]
    omega
  refine ⟨(n + (2 ^ 24 - 1)) >>> 24, ?_, hshift, by omega, ?_⟩
  · unfold deriveLogK
    rw [hscaled, Option.bind_eq_bind, Option.bind_some]
    dsimp only
    rw [hkWad, hy, Option.bind_eq_bind, Option.bind_some,
      checkedSigned_eq_some.mpr ⟨rfl, hfits⟩, Option.bind_some, ← hn, hadd, Option.bind_some]
    exact Foundation.narrow_of_lt (hshift.trans (by decide))
  · have hcast : -(y : ℝ) ≤ (((n + (2 ^ 24 - 1)) >>> 24 : Nat) : ℝ) * 2 ^ 24 := by
      have hint : -y ≤ (((n + (2 ^ 24 - 1)) >>> 24 * 2 ^ 24 : Nat) : Int) := by omega
      have hreal := (Int.cast_le (R := ℝ)).mpr hint
      rw [Int.cast_neg, Int.cast_natCast, Nat.cast_mul, Nat.cast_pow, Nat.cast_ofNat] at hreal
      exact hreal
    have hdiv := div_le_div_of_nonneg_right hcast (by positivity : (0 : ℝ) ≤ 10 ^ 18)
    rw [neg_div] at hdiv
    linarith

theorem decayFactorX24_exp {logK : Nat} (hlogK : deriveLogK k = some logK)
    (hlt : logK < 2 ^ 42) (hn : 5 ≤ n) (hn' : n < 2 ^ 64) :
    exists a : Nat, Wad.expWad (-((logK * 2 ^ 24 * n : Nat) : Int)) = some (a : Int) ∧
      decayFactorX24 k n = some (a * 2 ^ 24 / 10 ^ 18) := by
  obtain ⟨a, ha, ha0, hupper⟩ :=
    Wad.expWad_upper (x := -((logK * 2 ^ 24 * n : Nat) : Int)) (by omega)
  obtain ⟨a, rfl⟩ : exists b : Nat, a = b := ⟨a.toNat, (Int.toNat_of_nonneg ha0).symm⟩
  have hsmall : a < 2 ^ 62 := by
    have hexp : Real.exp (((-((logK * 2 ^ 24 * n : Nat) : Int) : Int) : ℝ) / 10 ^ 18) ≤ 1 := by
      apply Real.exp_le_one_iff.mpr
      apply div_nonpos_of_nonpos_of_nonneg _ (by positivity)
      exact_mod_cast (by omega : -((logK * 2 ^ 24 * n : Nat) : Int) ≤ 0)
    have hthree : Real.exp (2 / 10 ^ 8) ≤ 3 :=
      (Real.exp_le_exp.mpr (by norm_num)).trans (le_of_lt Real.exp_one_lt_three)
    have hscaled := mul_le_mul_of_nonneg_left hexp (by positivity : (0 : ℝ) ≤ 10 ^ 18)
    have hprod := mul_le_mul hthree hscaled (by positivity) (by norm_num : (0 : ℝ) ≤ 3)
    have hreal : (a : ℝ) < 2 ^ 62 := by
      have hle := hupper.trans hprod
      norm_num at hle ⊢
      linarith
    exact_mod_cast hreal
  have hword : wrap 256 (logK <<< 24) = logK * 2 ^ 24 := by
    rw [Nat.shiftLeft_eq]
    exact wrap_of_lt (by omega)
  have hproduct : logK * 2 ^ 24 * n < 2 ^ (66 + 64) := by
    rw [pow_add]
    exact Nat.mul_lt_mul'' (by omega) hn'
  have hexponent : checkedMul 256 (logK * 2 ^ 24) n = some (logK * 2 ^ 24 * n) :=
    checkedMul_eq_some.mpr ⟨rfl, by omega⟩
  have hsigned : toSigned 256 (logK * 2 ^ 24 * n) = (logK * 2 ^ 24 * n : Nat) :=
    toSigned_of_lt (by omega)
  have hfits : FitsSigned 256 (-((logK * 2 ^ 24 * n : Nat) : Int)) := ⟨by omega, by omega⟩
  have hraw : toRaw 256 (a : Int) = a := by
    have h := toRaw_of_nonneg (w := 256) (x := (a : Int)) (by omega) (by omega)
    omega
  refine ⟨a, ha, ?_⟩
  unfold decayFactorX24
  rw [if_neg (by omega), if_neg (by omega), if_neg (by omega), if_neg (by omega),
    if_neg (by omega), hlogK, Option.bind_eq_bind, Option.bind_some, hword, hexponent,
    Option.bind_eq_bind, Option.bind_some, hsigned, checkedSigned_eq_some.mpr ⟨rfl, hfits⟩,
    Option.bind_some, ha, Option.bind_some, hraw, Nat.shiftLeft_eq, wrap_of_lt (by omega),
    checkedDiv_of_pos (by decide)]

theorem expWad_fifth {logK a : Nat} (hk : 0 < k) (hk' : k < 2 ^ 24)
    (hlog : -Real.log (k / 2 ^ 24) ≤ (logK * 2 ^ 24 : ℝ) / 10 ^ 18 + 5 / 10 ^ 9)
    (ha : Wad.expWad (-((logK * 2 ^ 24 * 5 : Nat) : Int)) = some (a : Int)) :
    a * 2 ^ 24 / 10 ^ 18 ≤ k ^ 4 / 2 ^ 72 := by
  obtain ⟨b, hb, _, hupper⟩ :=
    Wad.expWad_upper (x := -((logK * 2 ^ 24 * 5 : Nat) : Int)) (by omega)
  rw [ha, Option.some_inj] at hb
  subst hb
  have hone := log_factor_le hk hk'
  have hexponent : (2 / 10 ^ 8 : ℝ) + ((-((logK * 2 ^ 24 * 5 : Nat) : Int) : Int) : ℝ) / 10 ^ 18 ≤
      4 * Real.log (k / 2 ^ 24) := by
    push_cast
    norm_num at hlog hone ⊢
    linarith
  have hfour : Real.exp (4 * Real.log (k / 2 ^ 24)) = (k / 2 ^ 24) ^ 4 := by
    rw [mul_comm, Real.exp_mul, Real.exp_log (factor_pos hk)]
    exact_mod_cast Real.rpow_natCast _ 4
  have hle : (a : ℝ) ≤ 10 ^ 18 * (k / 2 ^ 24) ^ 4 := by
    rw [← hfour]
    have hexp := Real.exp_le_exp.mpr hexponent
    rw [Real.exp_add] at hexp
    have hscaled := mul_le_mul_of_nonneg_left hexp (by positivity : (0 : ℝ) ≤ 10 ^ 18)
    rw [Int.cast_natCast] at hupper
    linarith
  have hnat : a * 2 ^ 96 ≤ 10 ^ 18 * k ^ 4 := by
    rw [div_pow, ← mul_div_assoc, le_div_iff₀ (by positivity), ← pow_mul] at hle
    exact_mod_cast hle
  have hmul := Nat.div_mul_le_self (a * 2 ^ 24) (10 ^ 18)
  rw [Nat.le_div_iff_mul_le (by norm_num)]
  generalize a * 2 ^ 24 / 10 ^ 18 = q at hmul ⊢
  apply Nat.le_of_mul_le_mul_left _ (by norm_num : 0 < 10 ^ 18)
  calc
    10 ^ 18 * (q * 2 ^ 72) = q * 10 ^ 18 * 2 ^ 72 := by ring
    _ ≤ a * 2 ^ 24 * 2 ^ 72 := Nat.mul_le_mul_right _ hmul
    _ = a * 2 ^ 96 := by ring
    _ ≤ 10 ^ 18 * k ^ 4 := hnat

def powerX24 (k n : Nat) : Nat := k ^ n * 2 ^ 24 / 2 ^ (24 * n)

theorem powerX24_anti (hk : k < 2 ^ 24) (n : Nat) : powerX24 k (n + 1) ≤ powerX24 k n := by
  have hexp : 24 * (n + 1) = 24 * n + 24 := by ring
  unfold powerX24
  rw [hexp, pow_add 2 (24 * n), pow_succ, mul_right_comm,
    ← Nat.mul_div_mul_right (k ^ n * 2 ^ 24) (2 ^ (24 * n)) (by norm_num : 0 < 2 ^ 24)]
  exact Nat.div_le_div_right (Nat.mul_le_mul_left _ (le_of_lt hk))

theorem powerX24_succ (k n : Nat) : powerX24 k (n + 1) = k ^ (n + 1) / 2 ^ (24 * n) := by
  have hexp : 24 * (n + 1) = 24 * n + 24 := by ring
  unfold powerX24
  rw [hexp, pow_add 2 (24 * n), Nat.mul_div_mul_right _ _ (by norm_num : 0 < 2 ^ 24)]

theorem decayFactorX24_power (hk : k < 2 ^ 24) (hn : n ≤ 4) :
    decayFactorX24 k n = some (powerX24 k n) := by
  have hsquare : k * k < 2 ^ (24 + 24) := mul_lt_two_pow hk hk (le_refl _)
  have hcube : k * k * k < 2 ^ (48 + 24) := mul_lt_two_pow hsquare hk (le_refl _)
  have hfourth : k * k * (k * k) < 2 ^ (48 + 48) := mul_lt_two_pow hsquare hsquare (le_refl _)
  have hsquare' : checkedMul 256 k k = some (k * k) :=
    checkedMul_eq_some.mpr ⟨rfl, by omega⟩
  unfold decayFactorX24
  rw [hsquare', Option.bind_eq_bind, Option.bind_some, Option.bind_eq_bind, Option.bind_some,
    Option.bind_some]
  interval_cases n
  · unfold powerX24
    rw [if_pos rfl, pow_zero, one_mul, Nat.mul_zero, pow_zero, Nat.div_one, Nat.shiftLeft_eq,
      one_mul]
  · rw [if_neg (by decide), if_pos rfl, powerX24_succ, Nat.mul_zero, pow_zero, Nat.div_one,
      zero_add, pow_one]
  · rw [if_neg (by decide), if_neg (by decide), if_pos rfl, powerX24_succ,
      Nat.shiftRight_eq_div_pow, ← pow_two]
  · rw [if_neg (by decide), if_neg (by decide), if_neg (by decide), if_pos rfl,
      checkedMul_eq_some.mpr ⟨rfl, by omega⟩, Option.bind_some, powerX24_succ,
      Nat.shiftRight_eq_div_pow, ← pow_two, ← pow_succ]
  · rw [if_neg (by decide), if_neg (by decide), if_neg (by decide), if_neg (by decide),
      if_pos rfl, checkedMul_eq_some.mpr ⟨rfl, by omega⟩, Option.bind_some, powerX24_succ,
      Nat.shiftRight_eq_div_pow, ← pow_two, ← pow_two, ← pow_mul]

theorem decayFactorX24_anti (hk : 0 < k) (hk' : k < 2 ^ 24) (hn : n + 1 < 2 ^ 64) :
    exists f f', decayFactorX24 k n = some f ∧ decayFactorX24 k (n + 1) = some f' ∧ f' ≤ f := by
  obtain ⟨logK, hlogK, hlt, hstep, hlog⟩ := deriveLogK_spec hk hk'
  rcases lt_trichotomy n 4 with hlow | rfl | hhigh
  · exact ⟨_, _, decayFactorX24_power hk' (by omega), decayFactorX24_power hk' (by omega),
      powerX24_anti hk' n⟩
  · obtain ⟨a, ha, hfactor⟩ := decayFactorX24_exp hlogK hlt (le_refl 5) (by decide)
    refine ⟨_, _, decayFactorX24_power hk' (le_refl 4), hfactor, ?_⟩
    rw [powerX24_succ]
    exact expWad_fifth hk hk' hlog ha
  · obtain ⟨a, ha, hfactor⟩ := decayFactorX24_exp (n := n) hlogK hlt (by omega) (by omega)
    obtain ⟨a', ha', hfactor'⟩ := decayFactorX24_exp (n := n + 1) hlogK hlt (by omega) hn
    refine ⟨_, _, hfactor, hfactor', ?_⟩
    have hanti : (a' : Int) ≤ a := by
      apply Wad.expWad_anti (by omega) _ ha ha'
      rw [Nat.mul_succ]
      push_cast
      have hcast : (50000000000 : Int) ≤ logK * 2 ^ 24 := by exact_mod_cast hstep
      linarith
    exact Nat.div_le_div_right (Nat.mul_le_mul_right _ (by omega))

theorem decayFactorX24_le (hk : 0 < k) (hk' : k < 2 ^ 24) (hn : n < 2 ^ 64) :
    exists f, decayFactorX24 k n = some f ∧ f ≤ 2 ^ 24 := by
  induction n with
  | zero =>
      refine ⟨_, decayFactorX24_power hk' (by omega), ?_⟩
      unfold powerX24
      norm_num
  | succ n ih =>
      obtain ⟨g, hg, hle⟩ := ih (by omega)
      obtain ⟨f, f', hf, hf', hanti⟩ := decayFactorX24_anti hk hk' hn
      rw [hg, Option.some_inj] at hf
      exact ⟨f', hf', hanti.trans (hf ▸ hle)⟩

end Factor

section Fee

variable {target start k n : Nat}

theorem decayingFee_eq {f : Nat} (hf : decayFactorX24 k n = some f) (hf' : f ≤ 2 ^ 24)
    (hle : target ≤ start) (hstart : start ≤ 10 ^ 12) :
    decayingFee target start k n = some (target + f * (start - target) / 2 ^ 24) := by
  have hproduct : f * (start - target) ≤ 2 ^ 24 * 10 ^ 12 := Nat.mul_le_mul hf' (by omega)
  have hdecay : f * (start - target) / 2 ^ 24 ≤ 10 ^ 12 := by omega
  have hsub : checkedSub start target = some (start - target) :=
    checkedSub_eq_some.mpr (Nat.sub_add_cancel hle)
  unfold decayingFee
  rw [hf, Option.bind_eq_bind, Option.bind_some, hsub, Option.bind_some,
    checkedMul_eq_some.mpr ⟨rfl, by omega⟩, Option.bind_some, Nat.shiftRight_eq_div_pow,
    Foundation.narrow_of_lt (by omega), Option.bind_some]
  exact checkedAdd_eq_some.mpr ⟨rfl, by omega⟩

theorem decayingFee_between (hk : 0 < k) (hk' : k < 2 ^ 24) (hle : target ≤ start)
    (hstart : start ≤ 10 ^ 12) (hn : n < 2 ^ 64) :
    exists fee, decayingFee target start k n = some fee ∧ target ≤ fee ∧ fee ≤ start := by
  obtain ⟨f, hf, hf'⟩ := decayFactorX24_le hk hk' hn
  refine ⟨_, decayingFee_eq hf hf' hle hstart, Nat.le_add_right _ _, ?_⟩
  have hdiv : f * (start - target) / 2 ^ 24 ≤ start - target :=
    Nat.div_le_of_le_mul (Nat.mul_le_mul_right _ hf')
  omega

/-- Every further block brings the fee closer to its target, for every factor
and every number of blocks. -/
theorem decayingFee_anti (hk : 0 < k) (hk' : k < 2 ^ 24) (hle : target ≤ start)
    (hstart : start ≤ 10 ^ 12) (hn : n + 1 < 2 ^ 64) :
    exists fee fee', decayingFee target start k n = some fee ∧
      decayingFee target start k (n + 1) = some fee' ∧
      target ≤ fee' ∧ fee' ≤ fee ∧ fee ≤ start := by
  obtain ⟨f, f', hf, hf', hanti⟩ := decayFactorX24_anti hk hk' hn
  obtain ⟨g, hg, hsmall⟩ := decayFactorX24_le (n := n) hk hk' (by omega)
  rw [hf, Option.some_inj] at hg
  subst hg
  have hfee := decayingFee_eq hf hsmall hle hstart
  have hfee' := decayingFee_eq hf' (hanti.trans hsmall) hle hstart
  obtain ⟨fee, hbetween, _, hupper⟩ := decayingFee_between (n := n) hk hk' hle hstart (by omega)
  rw [hfee, Option.some_inj] at hbetween
  refine ⟨_, _, hfee, hfee', Nat.le_add_right _ _, ?_, by omega⟩
  exact Nat.add_le_add_left (Nat.div_le_div_right (Nat.mul_le_mul_right _ hanti)) _

/-- The switch from the powers to the exponential, as in the tests of the source. -/
theorem decayingFee_anti_switch :
    exists fee fee', decayingFee 0 (10 ^ 12) 11744051 4 = some fee ∧
      decayingFee 0 (10 ^ 12) 11744051 (4 + 1) = some fee' ∧
      0 ≤ fee' ∧ fee' ≤ fee ∧ fee ≤ 10 ^ 12 :=
  decayingFee_anti (by decide) (by decide) (by decide) (by decide) (by decide)

end Fee

end RmUniswap
