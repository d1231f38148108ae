import RmUniswap.StablePair.Cached
import RmUniswap.StablePair.Decay
import RmUniswap.Types.Fee

/-!
# The hook never traps

Every subtraction of the hook is safe because of an inequality between two
rounded quotients, and every product because ratios and fees are at most one.
The kept fee is the sentinel exactly inside the optimal range, which is what
lets the next block read it.
-/

namespace RmUniswap

open Foundation

section Ratio

variable {a b ratio optimal : Nat}

theorem squaredRatio_ok (ha : a < 2 ^ 160) (hb : 0 < b) (hle : a ≤ b) :
    exists ratio, (do
      let scaled <- checkedMul 256 a (1 <<< 48)
      let sqrtRatio <- checkedDiv scaled b
      checkedMul 256 sqrtRatio sqrtRatio) = some ratio ∧ ratio ≤ 2 ^ 96 := by
  have hscaled : checkedMul 256 a (1 <<< 48) = some (a * 2 ^ 48) :=
    checkedMul_eq_some.mpr ⟨rfl, by omega⟩
  have hroot : a * 2 ^ 48 / b ≤ 2 ^ 48 := Nat.div_le_of_le_mul (Nat.mul_le_mul_right _ hle)
  have hsquare : a * 2 ^ 48 / b * (a * 2 ^ 48 / b) ≤ 2 ^ 48 * 2 ^ 48 := Nat.mul_le_mul hroot hroot
  refine ⟨a * 2 ^ 48 / b * (a * 2 ^ 48 / b), ?_, hsquare⟩
  rw [hscaled, Option.bind_eq_bind, Option.bind_some, checkedDiv_of_pos hb, Option.bind_some]
  exact checkedMul_eq_some.mpr ⟨rfl, by omega⟩

theorem priceRatioX96_ok (ha : IsValidSqrtPrice a) (hb : 0 < b) (hb' : b < 2 ^ 160) :
    exists ratio, priceRatioX96 a b = some ratio ∧ ratio ≤ 2 ^ 96 := by
  unfold priceRatioX96
  dsimp only
  split
  · rename_i hlt
    exact squaredRatio_ok ha.lt_two_pow hb (le_of_lt hlt)
  · rename_i hge
    exact squaredRatio_ok hb' ha.pos (not_lt.mp hge)

/-- What a swap from the close boundary to the price is worth, in parts of it. -/
def closeTerm (ratio optimal : Nat) : Nat := oneE12 * ratio * oneE6 / (oneE6 - optimal) / q96One

def farTerm (ratio optimal : Nat) : Nat := oneE12 * (oneE6 - optimal) * ratio / q96One / oneE6

theorem complement_ok (ho : optimal ≤ maxOptimalFeeE6) :
    checkedSub oneE6 optimal = some (oneE6 - optimal) ∧ 990000 ≤ oneE6 - optimal ∧
      oneE6 - optimal ≤ oneE6 := by
  unfold maxOptimalFeeE6 at ho
  unfold oneE6
  exact ⟨checkedSub_eq_some.mpr (by omega), by omega, by omega⟩

theorem closeTerm_ge_iff (ho : optimal ≤ maxOptimalFeeE6) :
    oneE12 ≤ closeTerm ratio optimal ↔ (oneE6 - optimal) * 2 ^ 96 ≤ ratio * oneE6 := by
  have hc := complement_ok ho
  unfold closeTerm
  generalize oneE6 - optimal = c at hc ⊢
  unfold q96One oneE12 oneE6 at *
  rw [Nat.le_div_iff_mul_le (by decide), Nat.le_div_iff_mul_le (by omega)]
  omega

theorem closeBoundaryFee_ok (hr : ratio ≤ 2 ^ 96) (ho : optimal ≤ maxOptimalFeeE6) :
    closeBoundaryFee ratio optimal = some ((oneE12 : Int) - closeTerm ratio optimal) := by
  have hc := complement_ok ho
  have hterm : closeTerm ratio optimal < 2 ^ 90 := by
    unfold closeTerm
    apply Nat.div_lt_of_lt_mul
    apply lt_of_le_of_lt (Nat.div_le_self _ _)
    unfold oneE12 oneE6 q96One
    omega
  have hfits : FitsSigned 128 ((oneE12 : Int) - closeTerm ratio optimal) := by
    unfold oneE12
    exact ⟨by omega, by omega⟩
  have hone : checkedMul 256 oneE12 ratio = some (oneE12 * ratio) :=
    checkedMul_eq_some.mpr ⟨rfl, by unfold oneE12; omega⟩
  have htwo : checkedMul 256 (oneE12 * ratio) oneE6 = some (oneE12 * ratio * oneE6) :=
    checkedMul_eq_some.mpr ⟨rfl, by unfold oneE12 oneE6; omega⟩
  have hnarrow : Foundation.narrow 127 (oneE12 * ratio * oneE6 / (oneE6 - optimal) / q96One) =
      some (closeTerm ratio optimal) := Foundation.narrow_of_lt (hterm.trans (by decide))
  unfold closeBoundaryFee
  rw [hone, Option.bind_eq_bind, Option.bind_some, htwo, Option.bind_some, hc.1,
    Option.bind_some, checkedDiv_of_pos (by omega), Option.bind_some,
    checkedDiv_of_pos (by decide), Option.bind_some, hnarrow, Option.bind_some]
  exact checkedSigned_eq_some.mpr ⟨rfl, hfits⟩

theorem farTerm_le (hr : ratio ≤ 2 ^ 96) (ho : optimal ≤ maxOptimalFeeE6) :
    farTerm ratio optimal ≤ oneE12 := by
  have hc := complement_ok ho
  unfold farTerm
  apply Nat.div_le_of_le_mul
  apply Nat.div_le_of_le_mul
  calc
    oneE12 * (oneE6 - optimal) * ratio ≤ oneE12 * oneE6 * 2 ^ 96 :=
      Nat.mul_le_mul (Nat.mul_le_mul_left _ hc.2.2) hr
    _ = q96One * (oneE6 * oneE12) := by decide

theorem insideOptimalRangeFee_ok (hr : ratio ≤ 2 ^ 96) (ho : optimal ≤ maxOptimalFeeE6)
    (hinside : oneE12 ≤ closeTerm ratio optimal) (below sells : Bool) :
    exists fee, insideOptimalRangeFee ratio optimal below sells = some fee ∧ fee ≤ oneE12 := by
  have hc := complement_ok ho
  have hratio := (closeTerm_ge_iff ho).mp hinside
  have hpos : 0 < ratio := by
    unfold oneE6 at hc hratio
    omega
  have hone : oneE12 * (oneE6 - optimal) ≤ oneE12 * oneE6 := Nat.mul_le_mul_left _ hc.2.2
  have hterm : oneE12 * (oneE6 - optimal) * q96One / ratio / oneE6 ≤ oneE12 := by
    apply Nat.div_le_of_le_mul
    apply Nat.div_le_of_le_mul
    calc
      oneE12 * (oneE6 - optimal) * q96One = (oneE6 - optimal) * 2 ^ 96 * oneE12 := by
        rw [Nat.mul_assoc, Nat.mul_comm]
        rfl
      _ ≤ ratio * oneE6 * oneE12 := Nat.mul_le_mul_right _ hratio
      _ = ratio * (oneE6 * oneE12) := Nat.mul_assoc _ _ _
  have hfar := farTerm_le hr ho
  have hsmall : oneE12 * oneE6 * 2 ^ 96 < 2 ^ 256 := by decide
  unfold insideOptimalRangeFee
  rw [hc.1, Option.bind_eq_bind, Option.bind_some,
    checkedMul_eq_some.mpr ⟨rfl, lt_of_le_of_lt hone (by decide)⟩, Option.bind_some]
  dsimp only
  split
  · refine ⟨oneE12 - oneE12 * (oneE6 - optimal) * q96One / ratio / oneE6, ?_, Nat.sub_le _ _⟩
    rw [checkedMul_eq_some.mpr
        ⟨rfl, lt_of_le_of_lt (Nat.mul_le_mul_right q96One hone) (by decide)⟩,
      Option.bind_some, checkedDiv_of_pos hpos, Option.bind_some,
      checkedDiv_of_pos (by decide), Option.bind_some]
    exact checkedSub_eq_some.mpr (Nat.sub_add_cancel hterm)
  · refine ⟨oneE12 - farTerm ratio optimal, ?_, Nat.sub_le _ _⟩
    rw [checkedMul_eq_some.mpr ⟨rfl, lt_of_le_of_lt (Nat.mul_le_mul hone hr) hsmall⟩,
      Option.bind_some, checkedDiv_of_pos (by decide), Option.bind_some,
      checkedDiv_of_pos (by decide), Option.bind_some]
    exact checkedSub_eq_some.mpr (Nat.sub_add_cancel hfar)

theorem farTerm_le_closeTerm (ho : optimal ≤ maxOptimalFeeE6) :
    farTerm ratio optimal ≤ closeTerm ratio optimal := by
  have hc := complement_ok ho
  have hfar : farTerm ratio optimal ≤ oneE12 * ratio / q96One := by
    unfold farTerm
    rw [Nat.div_div_eq_div_mul, Nat.mul_comm q96One, ← Nat.div_div_eq_div_mul]
    apply Nat.div_le_div_right
    apply Nat.div_le_of_le_mul
    rw [mul_right_comm, Nat.mul_comm]
    exact Nat.mul_le_mul_right _ hc.2.2
  have hclose : oneE12 * ratio / q96One ≤ closeTerm ratio optimal := by
    unfold closeTerm
    apply Nat.div_le_div_right
    rw [Nat.le_div_iff_mul_le (by omega)]
    exact Nat.mul_le_mul_left _ hc.2.2
  exact hfar.trans hclose

theorem farBoundaryFee_ok (hr : ratio ≤ 2 ^ 96) (ho : optimal ≤ maxOptimalFeeE6) :
    farBoundaryFee ratio optimal = some (oneE12 - farTerm ratio optimal) := by
  have hc := complement_ok ho
  have hterm := farTerm_le hr ho
  have hone : oneE12 * (oneE6 - optimal) ≤ oneE12 * oneE6 := Nat.mul_le_mul_left _ hc.2.2
  have htwo : oneE12 * (oneE6 - optimal) * ratio ≤ oneE12 * oneE6 * 2 ^ 96 := Nat.mul_le_mul hone hr
  have hsmall : oneE12 * oneE6 * 2 ^ 96 < 2 ^ 256 := by decide
  have hnarrow : Foundation.narrow 64 (oneE12 * (oneE6 - optimal) * ratio / q96One / oneE6) =
      some (farTerm ratio optimal) := Foundation.narrow_of_lt (lt_of_le_of_lt hterm (by decide))
  unfold farBoundaryFee
  rw [hc.1, Option.bind_eq_bind, Option.bind_some,
    checkedMul_eq_some.mpr ⟨rfl, lt_of_le_of_lt hone (by decide)⟩, Option.bind_some,
    checkedMul_eq_some.mpr ⟨rfl, lt_of_le_of_lt htwo hsmall⟩, Option.bind_some,
    checkedDiv_of_pos (by decide), Option.bind_some, checkedDiv_of_pos (by decide),
    Option.bind_some, hnarrow, Option.bind_some]
  exact checkedSub_eq_some.mpr (Nat.sub_add_cancel hterm)

theorem adjustPreviousFee_ok {previous : Nat} (hr : ratio ≤ 2 ^ 96) (hp : previous ≤ oneE12) :
    exists fee, adjustPreviousFeeForPriceMovement ratio previous = some fee ∧ fee ≤ oneE12 := by
  have hrest : checkedSub oneE12 previous = some (oneE12 - previous) :=
    checkedSub_eq_some.mpr (Nat.sub_add_cancel hp)
  have hprod : ratio * (oneE12 - previous) ≤ 2 ^ 96 * oneE12 :=
    Nat.mul_le_mul hr (Nat.sub_le _ _)
  have hterm : ratio * (oneE12 - previous) / q96One ≤ oneE12 := Nat.div_le_of_le_mul hprod
  refine ⟨oneE12 - ratio * (oneE12 - previous) / q96One, ?_, Nat.sub_le _ _⟩
  unfold adjustPreviousFeeForPriceMovement
  rw [hrest, Option.bind_eq_bind, Option.bind_some,
    checkedMul_eq_some.mpr ⟨rfl, lt_of_le_of_lt hprod (by decide)⟩, Option.bind_some,
    checkedDiv_of_pos (by decide), Option.bind_some,
    Foundation.narrow_of_lt (lt_of_le_of_lt hterm (by decide)), Option.bind_some]
  exact checkedSub_eq_some.mpr (Nat.sub_add_cancel hterm)

end Ratio

namespace StableFeeConfig

variable {config : StableFeeConfig}

/-- The fee to keep for a price: the sentinel inside the optimal range, and a fee
outside it. -/
def Keeps (config : StableFeeConfig) (price decaying : Nat) : Prop :=
  exists ratio close, priceRatioX96 price config.referenceSqrtPriceX96 = some ratio ∧
    closeBoundaryFee ratio config.optimalFeeE6 = some close ∧
    (decaying = undefinedDecayingFeeE12 ↔ close ≤ 0) ∧ (0 < close -> decaying ≤ oneE12)

structure Bounded (config : StableFeeConfig) : Prop where
  factor_pos : 0 < config.k
  factor_lt : config.k < 2 ^ 24
  optimal_le : config.optimalFeeE6 ≤ maxOptimalFeeE6
  multiplier_le : config.targetMultiplier ≤ maxTargetMultiplier
  reference_pos : 0 < config.referenceSqrtPriceX96
  reference_lt : config.referenceSqrtPriceX96 < 2 ^ 160

theorem bounded_of_validate (h : validateConfig config = true) : Bounded config := by
  unfold validateConfig at h
  obtain ⟨root, hroot⟩ : exists root, root = Nat.sqrt ((oneE6 - maxOptimalFeeE6) * oneE6) :=
    ⟨_, rfl⟩
  rw [← hroot] at h
  have hpos : 0 < root := by
    rw [hroot]
    exact Nat.sqrt_pos.mpr (by decide)
  have hle : root ≤ oneE6 := by
    rw [hroot, ← Nat.sqrt_eq oneE6]
    exact Nat.sqrt_le_sqrt (by decide +kernel)
  simp only [Bool.and_eq_true, decide_eq_true_eq, bne_iff_ne, ge_iff_le] at h
  obtain ⟨⟨⟨⟨⟨hk, hk'⟩, ho⟩, hm⟩, hlow⟩, hhigh⟩ := h
  refine ⟨Nat.pos_of_ne_zero hk, hk', ho, hm, ?_, ?_⟩
  · apply lt_of_lt_of_le _ hlow
    apply Nat.div_pos _ hpos
    have hmin : oneE6 ≤ minSqrtPrice * oneE6 := Nat.le_mul_of_pos_left _ (by decide)
    omega
  · apply hhigh.trans_le
    have hmax : maxSqrtPrice * root / oneE6 ≤ maxSqrtPrice := by
      apply Nat.div_le_of_le_mul
      rw [Nat.mul_comm]
      exact Nat.mul_le_mul_right _ hle
    exact hmax.trans (by decide)

end StableFeeConfig

namespace StablePairHook

variable {hook hook' : StablePairHook} {call : FeeCall} {price ratio block : Nat}

def Readable (hook : StablePairHook) : Prop :=
  hook.state.decayingFeeE12 ≠ undefinedDecayingFeeE12 ->
    hook.state.decayingFeeE12 ≤ oneE12 ∧ IsValidSqrtPrice hook.state.sqrtAmmPriceX96

def Kept (hook : StablePairHook) : Prop :=
  hook.config.Keeps hook.state.sqrtAmmPriceX96 hook.state.decayingFeeE12

theorem decayingFee_ok (hconfig : hook.config.Bounded) (hread : hook.Readable)
    (hprice : IsValidSqrtPrice price)
    (houtside : closeTerm ratio hook.config.optimalFeeE6 < oneE12) (hblock : block < 2 ^ 64)
    (below : Bool) :
    exists fee, hook.decayingFee price (oneE12 - closeTerm ratio hook.config.optimalFeeE6)
      (oneE12 - farTerm ratio hook.config.optimalFeeE6) below block = some fee ∧
        fee ≤ oneE12 := by
  have hfar : farTerm ratio hook.config.optimalFeeE6 ≤ closeTerm ratio hook.config.optimalFeeE6 :=
    farTerm_le_closeTerm hconfig.optimal_le
  obtain ⟨close, hclose⟩ :
      exists close, close = oneE12 - closeTerm ratio hook.config.optimalFeeE6 := ⟨_, rfl⟩
  obtain ⟨far, hfar'⟩ :
      exists far, far = oneE12 - farTerm ratio hook.config.optimalFeeE6 := ⟨_, rfl⟩
  rw [← hclose, ← hfar']
  have hcloseFar : close ≤ far := by omega
  have hfarOne : far ≤ oneE12 := by omega
  have hscaled : close * hook.config.targetMultiplier ≤ oneE12 * 100 :=
    Nat.mul_le_mul (hcloseFar.trans hfarOne) hconfig.multiplier_le
  have hpart : close * hook.config.targetMultiplier / maxTargetMultiplier ≤ close :=
    Nat.div_le_of_le_mul (by
      rw [Nat.mul_comm]
      exact Nat.mul_le_mul_right _ hconfig.multiplier_le)
  have hrest (start : Nat) (hstart : start ≤ oneE12) :
      exists fee, (do
        let product <- checkedMul 64 close hook.config.targetMultiplier
        let targetFeeE12 <- checkedSub far (product / maxTargetMultiplier)
        RmUniswap.decayingFee targetFeeE12 (max start targetFeeE12) hook.config.k
          (block - hook.state.blockNumber)) = some fee ∧ fee ≤ oneE12 := by
    rw [checkedMul_eq_some.mpr ⟨rfl, lt_of_le_of_lt hscaled (by decide)⟩, Option.bind_eq_bind,
      Option.bind_some,
      checkedSub_eq_some.mpr (Nat.sub_add_cancel (hpart.trans hcloseFar)), Option.bind_some]
    have hmax : max start
        (far - close * hook.config.targetMultiplier / maxTargetMultiplier) ≤ 10 ^ 12 :=
      max_le hstart ((Nat.sub_le _ _).trans hfarOne)
    obtain ⟨fee, hfee, _, hle⟩ := RmUniswap.decayingFee_between hconfig.factor_pos
      hconfig.factor_lt (le_max_right start _) hmax
      (lt_of_le_of_lt (Nat.sub_le block hook.state.blockNumber) hblock)
    exact ⟨fee, hfee, hle.trans hmax⟩
  unfold decayingFee
  dsimp only
  split
  · exact hrest far hfarOne
  · rename_i hdefined
    have hkept := hread (fun h => hdefined (Or.inl h))
    split
    · obtain ⟨moved, hmoved, hmoved'⟩ :=
        priceRatioX96_ok hprice hkept.2.pos hkept.2.lt_two_pow
      obtain ⟨start, hstart, hstart'⟩ := adjustPreviousFee_ok hmoved' hkept.1
      rw [hmoved, Option.bind_eq_bind, Option.bind_some, hstart, Option.bind_some]
      exact hrest start hstart'
    · split
      · exact hrest far hfarOne
      · exact hrest _ hkept.1

theorem getFee_ok {isNew : Bool} (hconfig : hook.config.Bounded)
    (hprice : IsValidSqrtPrice price) (hblock : block < 2 ^ 64)
    (hnew : isNew = true -> hook.Readable)
    (hold : isNew = false -> price = hook.state.sqrtAmmPriceX96 ∧ hook.Kept) (side : Bool) :
    exists lpFee decaying, hook.getFee price isNew side block = some (lpFee, decaying) ∧
      lpFee ≤ oneE12 ∧ hook.config.Keeps price decaying := by
  obtain ⟨ratio, hratio, hr⟩ :=
    priceRatioX96_ok hprice hconfig.reference_pos hconfig.reference_lt
  have hclose := closeBoundaryFee_ok hr hconfig.optimal_le
  have hfar := farBoundaryFee_ok hr hconfig.optimal_le
  unfold getFee
  dsimp only
  rw [hratio, Option.bind_eq_bind, Option.bind_some, hclose, Option.bind_eq_bind,
    Option.bind_some]
  split
  · rename_i hinside
    obtain ⟨fee, hfee, hle⟩ := insideOptimalRangeFee_ok hr hconfig.optimal_le (by omega)
      (decide (price < hook.config.referenceSqrtPriceX96)) side
    rw [hfee, Option.bind_some]
    refine ⟨_, _, rfl, hle, ratio, _, hratio, hclose, iff_of_true rfl hinside, ?_⟩
    intro hpos
    omega
  · rename_i houtside
    have hkeep (decaying : Nat) (hle : decaying ≤ oneE12) :
        hook.config.Keeps price decaying :=
      ⟨ratio, _, hratio, hclose, iff_of_false (by unfold undefinedDecayingFeeE12; omega) houtside,
        fun _ => hle⟩
    have hside (decaying : Nat) (hle : decaying ≤ oneE12) :
        (if decide (price < hook.config.referenceSqrtPriceX96) = side then 0 else decaying) ≤
          oneE12 := by
      split
      · exact Nat.zero_le _
      · exact hle
    cases hisNew : isNew with
    | true =>
        have houtside' : closeTerm ratio hook.config.optimalFeeE6 < oneE12 := by omega
        obtain ⟨fee, hfee, hle⟩ := decayingFee_ok hconfig (hnew hisNew) hprice houtside' hblock
          (decide (price < hook.config.referenceSqrtPriceX96))
        have hword : wrap 64 (toRaw 128 ((oneE12 : Int) -
            closeTerm ratio hook.config.optimalFeeE6)) =
              oneE12 - closeTerm ratio hook.config.optimalFeeE6 := by
          unfold oneE12 at houtside ⊢
          have hraw := toRaw_of_nonneg (w := 128)
            (le_of_lt (not_le.mp houtside)) (by push_cast; omega)
          rw [wrap_of_lt (by omega)]
          omega
        rw [if_pos rfl, hfar, Option.bind_some, hword, hfee, Option.bind_some]
        exact ⟨_, _, rfl, hside fee hle, hkeep fee hle⟩
    | false =>
        obtain ⟨heq, ratio', close, hratio', hclose', _, hle⟩ := hold hisNew
        rw [if_neg (by decide)]
        have hdecaying : hook.state.decayingFeeE12 ≤ oneE12 := by
          rw [← heq, hratio, Option.some_inj] at hratio'
          subst hratio'
          rw [hclose, Option.some_inj] at hclose'
          exact hle (by omega)
        exact ⟨_, _, rfl, hside _ hdecaying, hkeep _ hdecaying⟩

theorem toFeeE6_ok (feeE12 : Nat) :
    exists fee, toFeeE6 feeE12 = some fee ∧ fee ≤ maxFeeE6 := by
  have hle : min (divCeil feeE12 oneE6) maxFeeE6 ≤ maxFeeE6 := min_le_right _ _
  exact ⟨_, Foundation.narrow_of_lt (lt_of_le_of_lt hle (by decide)), hle⟩

/-- Before the first block the state is the reset one, after it the kept fee fits
the kept price. -/
structure Settled (hook : StablePairHook) : Prop where
  config : hook.config.Bounded
  state : (hook.state.sqrtAmmPriceX96 = 0 ∧
      hook.state.decayingFeeE12 = undefinedDecayingFeeE12) ∨
    (IsValidSqrtPrice hook.state.sqrtAmmPriceX96 ∧ hook.Kept)

theorem Settled.readable (h : hook.Settled) : hook.Readable := by
  intro hdefined
  rcases h.state with ⟨_, hreset⟩ | ⟨hprice, hkept⟩
  · exact absurd hreset hdefined
  · obtain ⟨ratio, close, _, _, hiff, hle⟩ := hkept
    exact ⟨hle (not_le.mp (fun h => hdefined (hiff.mpr h))), hprice⟩

end StablePairHook

/-- A call with a block number of the chain and a price of a pool. -/
def FeeCall.Valid (call : FeeCall) : Prop :=
  call.env.blockNumber < 2 ^ 64 ∧ IsValidSqrtPrice call.env.poolState.sqrtPriceX96

namespace StablePairHook

variable {hook hook' : StablePairHook} {call : FeeCall}

/-- A call that returns a fee of a pool and leaves the fee to keep for its price. -/
def ChargesWell (hook : StablePairHook) (charge : FeeCall × Nat) (hook' : StablePairHook) :
    Prop :=
  hook.Charges charge hook' ∧ hook'.Kept ∧ charge.2 ≤ 999998 ∧
    exists fee, Fee.new charge.2 = some fee

theorem fee_ok {fee : Nat} (h : fee ≤ maxFeeE6) :
    fee ≤ 999998 ∧ exists poolFee, Fee.new fee = some poolFee := by
  unfold maxFeeE6 oneE6 at h
  refine ⟨h, _, dif_pos ?_⟩
  unfold maxFee
  omega

theorem Settled.charge_new (h : hook.Settled) (hcall : call.Valid)
    (hnew : hook.isNewBlock call.env = true) :
    exists fee hook', hook.ChargesWell (call, fee) hook' ∧ hook'.Settled := by
  obtain ⟨lpFee, decaying, hget, _, hkeep⟩ := getFee_ok h.config hcall.2 hcall.1
    (fun _ : true = true => h.readable) (fun hfalse => absurd hfalse (by decide)) call.zeroForOne
  obtain ⟨fee, hfee, hle⟩ := toFeeE6_ok lpFee
  refine ⟨fee, { hook with
    state :=
      { decayingFeeE12 := decaying
        sqrtAmmPriceX96 := call.env.poolState.sqrtPriceX96
        blockNumber := call.env.blockNumber } }, ⟨?_, hkeep, fee_ok hle⟩,
    ⟨h.config, Or.inr ⟨hcall.2, hkeep⟩⟩⟩
  unfold isNewBlock at hnew
  unfold Charges beforeSwapFee
  dsimp only
  rw [hnew, if_pos rfl, hget, Option.bind_eq_bind, Option.bind_some]
  dsimp only
  rw [hfee]
  rfl

theorem Settled.charge_old (h : hook.Settled) (hcall : call.Valid)
    (hold : hook.isNewBlock call.env = false) :
    exists fee hook', hook.ChargesWell (call, fee) hook' ∧ hook'.Settled := by
  have hkept : IsValidSqrtPrice hook.state.sqrtAmmPriceX96 ∧ hook.Kept := by
    rcases h.state with ⟨hzero, _⟩ | hkept
    · unfold isNewBlock at hold
      rw [hzero, beq_self_eq_true, Bool.or_true] at hold
      exact absurd hold (by decide)
    · exact hkept
  obtain ⟨lpFee, decaying, hget, _, _⟩ := getFee_ok h.config hkept.1 hcall.1
    (fun htrue : false = true => absurd htrue (by decide)) (fun _ => ⟨rfl, hkept.2⟩)
    call.zeroForOne
  obtain ⟨fee, hfee, hle⟩ := toFeeE6_ok lpFee
  refine ⟨fee, hook, ⟨?_, hkept.2, fee_ok hle⟩, h⟩
  unfold Charges
  rw [beforeSwapFee_cached hold, hget, Option.bind_eq_bind, Option.bind_some, hfee]
  rfl

theorem Settled.charge (h : hook.Settled) (hcall : call.Valid) :
    exists fee hook', hook.ChargesWell (call, fee) hook' ∧ hook'.Settled := by
  cases hnew : hook.isNewBlock call.env with
  | true =>
      exact h.charge_new hcall hnew
  | false =>
      exact h.charge_old hcall hnew

theorem Settled.run (h : hook.Settled) {calls : List FeeCall}
    (hcalls : forall call, call ∈ calls -> call.Valid) :
    exists charges hook', charges.map Prod.fst = calls ∧ Run ChargesWell hook charges hook' := by
  induction calls generalizing hook with
  | nil =>
      exact ⟨[], hook, rfl, Run.nil hook⟩
  | cons call calls ih =>
      obtain ⟨fee, middle, hcharge, hsettled⟩ := h.charge (hcalls call List.mem_cons_self)
      obtain ⟨charges, hook', hmap, hrun⟩ :=
        ih hsettled fun c hc => hcalls c (List.mem_cons_of_mem _ hc)
      refine ⟨(call, fee) :: charges, hook', ?_, Run.cons hcharge hrun⟩
      rw [List.map_cons, hmap]

/-- From the reset state of an accepted configuration no sequence of calls traps.
Every call charges a fee a pool accepts, and keeps the sentinel exactly when the
price it keeps is inside the optimal range, and a fee otherwise. -/
theorem calls_charge {config : StableFeeConfig} {block : Nat}
    (hnew : StablePairHook.new config (StableFeeState.reset block) = .ok hook)
    {calls : List FeeCall} (hcalls : forall call, call ∈ calls -> call.Valid) :
    exists charges hook', charges.map Prod.fst = calls ∧ Run ChargesWell hook charges hook' := by
  unfold StablePairHook.new at hnew
  split at hnew
  · rename_i hvalid
    cases hnew
    exact Settled.run ⟨StableFeeConfig.bounded_of_validate hvalid, Or.inl ⟨rfl, rfl⟩⟩ hcalls
  · cases hnew

end StablePairHook

namespace Sample

/-- Two blocks on both sides of the reference price, the second one a block apart. -/
theorem calls_charge_sample :
    exists charges hook',
      charges.map Prod.fst =
          [feeCall 7 (2 ^ 96 * 101 / 100) true, feeCall 8 (2 ^ 96 * 3 / 4) false] ∧
        Run StablePairHook.ChargesWell freshHook charges hook' := by
  have hnew : StablePairHook.new feeConfig (StableFeeState.reset 0) = .ok freshHook := by
    decide +kernel
  apply StablePairHook.calls_charge hnew
  intro call hcall
  rcases List.mem_cons.mp hcall with rfl | hcall
  · exact ⟨by decide, by decide⟩
  · rcases List.mem_singleton.mp hcall with rfl
    exact ⟨by decide, by decide⟩

end Sample

end RmUniswap
