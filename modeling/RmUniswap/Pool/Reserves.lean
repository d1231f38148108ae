import RmUniswap.Foundation.Holding
import RmUniswap.Pool.SwapRequest
import RmUniswap.Pool.Underflow

/-!
# Reserves behind a price move

The net liquidity of the ticks gives every price a liquidity. The prices a swap
moves over hold some of both tokens at that liquidity: a swap takes in at least what
they hold of its input token, and pays at most what they hold of the other one.
-/

namespace RmUniswap

open Foundation

variable {A : Type} [LawfulAllocator TickSlabValue A]

/-!
# What prices hold
-/

/-- What one unit of liquidity holds of a token from a price to the next one. -/
def unitReserve (token0 : Bool) (x : Nat) : ℚ :=
  if token0 then 2 ^ 96 / (x : ℚ) - 2 ^ 96 / ((x + 1 : Nat) : ℚ) else 1 / 2 ^ 96

def profile (ticks : SortedMap Int TickInfoInner) (x : Nat) : ℚ :=
  (netBelow ticks (getTickAtSqrtPrice x) : ℚ)

def reserveBetween (token0 : Bool) (ticks : SortedMap Int TickInfoInner) (a b : Nat) : ℚ :=
  held (unitReserve token0) (profile ticks) a b

section Unit

variable {token0 : Bool} {a b x : Nat}

theorem unitReserve_pos (hx : 0 < x) : 0 < unitReserve token0 x := by
  unfold unitReserve
  cases token0 with
  | false =>
      rw [if_neg (by decide)]
      positivity
  | true =>
      rw [if_pos rfl, sub_pos]
      apply div_lt_div_of_pos_left (by positivity)
      · exact_mod_cast hx
      · exact_mod_cast Nat.lt_succ_self x

theorem held_token0 (ha : 0 < a) (hab : a ≤ b) :
    held (unitReserve true) (fun _ => 1) a b = 2 ^ 96 * ((b : ℚ) - a) / (a * b) := by
  have ha' : (a : ℚ) ≠ 0 := by positivity
  have hb' : (b : ℚ) ≠ 0 := by
    have : 0 < b := ha.trans_le hab
    positivity
  have hfall : held (unitReserve true) (fun _ => 1) a b = 2 ^ 96 / (a : ℚ) - 2 ^ 96 / b := by
    refine held_telescope (f := fun x => 2 ^ 96 / (x : ℚ)) hab fun x _ _ => ?_
    unfold unitReserve
    rw [if_pos rfl]
  rw [hfall]
  field_simp

theorem held_token1 (hab : a ≤ b) :
    held (unitReserve false) (fun _ => 1) a b = ((b : ℚ) - a) / 2 ^ 96 := by
  have hfall : held (unitReserve false) (fun _ => 1) a b =
      -(a : ℚ) / 2 ^ 96 - -(b : ℚ) / 2 ^ 96 := by
    refine held_telescope (f := fun x => -(x : ℚ) / 2 ^ 96) hab fun x _ _ => ?_
    unfold unitReserve
    rw [if_neg (by decide)]
    push_cast
    ring
  rw [hfall]
  ring

end Unit

/-!
# One step
-/

section Step

variable {current target liquidity : Nat} {step : SwapStep} {density : Nat -> ℚ}

theorem MovesDown.reserves (h : MovesDown current target liquidity step)
    (hpos : 0 < step.sqrtRatioNextX96)
    (hdensity : forall x, Between current step.sqrtRatioNextX96 x -> density x = liquidity) :
    held (unitReserve true) density current step.sqrtRatioNextX96 ≤ step.amountIn ∧
      (step.amountOut : ℚ) ≤ held (unitReserve false) density current step.sqrtRatioNextX96 := by
  have hle := h.le_current
  have hinput := h.input
  have houtput := h.output
  qify [hle] at hinput houtput
  rw [held_const hdensity, held_const hdensity, held_comm, held_comm _ _ current,
    held_token0 hpos hle, held_token1 hle]
  have hnext : (0 : ℚ) < step.sqrtRatioNextX96 := by exact_mod_cast hpos
  have hcurrent : (0 : ℚ) < current := by exact_mod_cast hpos.trans_le hle
  constructor
  · rw [← mul_div_assoc, div_le_iff₀ (by positivity)]
    linarith
  · rw [← mul_div_assoc, le_div_iff₀ (by positivity)]
    exact houtput

theorem MovesUp.reserves (h : MovesUp current target liquidity step) (hpos : 0 < current)
    (hdensity : forall x, Between current step.sqrtRatioNextX96 x -> density x = liquidity) :
    held (unitReserve false) density current step.sqrtRatioNextX96 ≤ step.amountIn ∧
      (step.amountOut : ℚ) ≤ held (unitReserve true) density current step.sqrtRatioNextX96 := by
  have hle := h.current_le
  have hinput := h.input
  have houtput := h.output
  qify [hle] at hinput houtput
  rw [held_const hdensity, held_const hdensity, held_token0 hpos hle, held_token1 hle]
  have hcurrent : (0 : ℚ) < current := by exact_mod_cast hpos
  have hnext : (0 : ℚ) < step.sqrtRatioNextX96 := by exact_mod_cast hpos.trans_le hle
  constructor
  · rw [← mul_div_assoc, div_le_iff₀ (by positivity)]
    exact hinput
  · rw [← mul_div_assoc, le_div_iff₀ (by positivity)]
    linarith

end Step

namespace SwapContext

section Iterate

variable {ctx : SwapContext} {a b : SwapLoopState × TickSlab A} {c : StepComputations}
  {cs : List StepComputations}

theorem Iterates.profile (h : ctx.Invariant a) (hi : ctx.Iterates a c b)
    (ha : (a.1.liquidity : Int) = netBelow a.2.snapshot a.1.tick) {x : Nat}
    (hx : Between a.1.sqrtPriceX96 c.swapStep.sqrtRatioNextX96 x) :
    RmUniswap.profile a.2.snapshot x = a.1.liquidity := by
  have ht := h.target_spec hi.running
  have hc := hi.advances
  have hcurrent := h.ready.price
  have hnext := h.ready.next_price hi.running ht hc
  rw [← hc.price] at hx
  unfold Between at hx
  have hvalid : IsValidSqrtPrice x := by
    have h1 := hcurrent.1
    have h2 := hcurrent.2
    have h3 := hnext.1
    have h4 := hnext.2
    exact ⟨by omega, by omega⟩
  unfold RmUniswap.profile
  rw [netBelow_stay fun j info hj => ?_, ← ha, Int.cast_natCast]
  have hst := h.keyed.storable hj
  rw [le_getTickAtSqrtPrice_iff hvalid hst.lower hst.upper]
  have hjmax := hst.upper
  have htlo := ht.inRange.1
  have hthi := ht.inRange.2
  unfold minTick at htlo
  unfold maxTick at hjmax hthi
  cases hz : ctx.zeroForOne with
  | true =>
      have hmove := h.ready.moves_down hi.running hz ht hc
      constructor
      · -- A tick above the current one is priced at or above the current price.
        intro hle
        by_contra hgt
        have hprice := h.ready.inTick.le_price (k := j) (by omega) (not_le.mp hgt)
          (by unfold maxTick; omega)
        omega
      · intro hle
        have hbelow := price_le hst.lower ((ht.down hz).2 j info hj hle) (by omega)
        rw [← ht.price] at hbelow
        omega
  | false =>
      have hmove := h.ready.moves_up hi.running hz ht hc
      constructor
      · intro hle
        by_contra hgt
        have habove := price_le (by omega) ((ht.up hz).2 j info hj (not_le.mp hgt)) (by omega)
        rw [← ht.price] at habove
        omega
      · -- A tick at or below the current one is priced at or below the current price.
        intro hle
        have hprice := h.ready.inTick.price_le hcurrent hst.lower hle
        omega

theorem Iterates.reserves (h : ctx.Invariant a) (hi : ctx.Iterates a c b)
    (ha : (a.1.liquidity : Int) = netBelow a.2.snapshot a.1.tick) :
    reserveBetween ctx.zeroForOne a.2.snapshot a.1.sqrtPriceX96 b.1.sqrtPriceX96 ≤
        c.swapStep.amountIn ∧
      (c.swapStep.amountOut : ℚ) ≤ reserveBetween (!ctx.zeroForOne) a.2.snapshot
        a.1.sqrtPriceX96 b.1.sqrtPriceX96 := by
  have ht := h.target_spec hi.running
  have hc := hi.advances
  have hprice : b.1.sqrtPriceX96 = c.swapStep.sqrtRatioNextX96 := by
    rw [hi.next h]
    exact hc.price
  rw [hprice]
  unfold reserveBetween
  cases hz : ctx.zeroForOne with
  | true =>
      have hpos := (h.ready.next_price hi.running ht hc).pos
      rw [hc.price] at hpos
      exact (h.ready.moves_down hi.running hz ht hc).1.reserves hpos
        fun x hx => hi.profile h ha hx
  | false =>
      exact (h.ready.moves_up hi.running hz ht hc).1.reserves h.ready.price.pos
        fun x hx => hi.profile h ha hx

theorem Iterates.profile_eq (h : ctx.Invariant a) (hi : ctx.Iterates a c b) :
    RmUniswap.profile b.2.snapshot = RmUniswap.profile a.2.snapshot := by
  funext x
  unfold RmUniswap.profile
  rw [hi.netBelow_eq h]

/-- A run takes in what it moves over, pays no more than that, and meets liquidity
all the way. -/
theorem run_reserves (h : Run ctx.Iterates a cs b) (ha : ctx.Invariant a)
    (hfollows : Follows a) :
    reserveBetween ctx.zeroForOne a.2.snapshot a.1.sqrtPriceX96 b.1.sqrtPriceX96 ≤
        ((cs.map fun c => c.swapStep.amountIn).sum : Nat) ∧
      (((cs.map fun c => c.swapStep.amountOut).sum : Nat) : ℚ) ≤
        reserveBetween (!ctx.zeroForOne) a.2.snapshot a.1.sqrtPriceX96 b.1.sqrtPriceX96 ∧
      (forall x, Between a.1.sqrtPriceX96 b.1.sqrtPriceX96 x ->
        0 ≤ RmUniswap.profile a.2.snapshot x) ∧
      RmUniswap.profile b.2.snapshot = RmUniswap.profile a.2.snapshot := by
  induction h with
  | nil a =>
      refine ⟨?_, ?_, fun x hx => ?_, rfl⟩
      · unfold reserveBetween
        rw [held_self]
        exact Nat.cast_nonneg _
      · unfold reserveBetween
        rw [held_self]
        exact le_of_eq Nat.cast_zero
      · unfold Between at hx
        omega
  | @cons a mid b c cs hone hrest ih =>
      have hmid := hone.invariant ha
      have hstep := hone.reserves ha hfollows.active
      have hprofile := hone.profile_eq ha
      have hrun := ih hmid (hone.follows ha hfollows)
      have hfirst := hone.price ha
      have hlast := run_price hrest hmid
      have hbetween : a.1.sqrtPriceX96 ≤ mid.1.sqrtPriceX96 ∧
          mid.1.sqrtPriceX96 ≤ b.1.sqrtPriceX96 ∨
            b.1.sqrtPriceX96 ≤ mid.1.sqrtPriceX96 ∧ mid.1.sqrtPriceX96 ≤ a.1.sqrtPriceX96 := by
        cases hz : ctx.zeroForOne with
        | true => exact Or.inr ⟨hlast.1 hz, hfirst.1 hz⟩
        | false => exact Or.inl ⟨hfirst.2 hz, hlast.2 hz⟩
      unfold reserveBetween at hstep hrun ⊢
      rw [hprofile] at hrun
      rw [List.map_cons, List.sum_cons, List.map_cons, List.sum_cons, Nat.cast_add, Nat.cast_add,
        ← held_add hbetween, ← held_add hbetween]
      refine ⟨add_le_add hstep.1 hrun.1, add_le_add hstep.2 hrun.2.1, fun x hx => ?_,
        hrun.2.2.2⟩
      by_cases hin : Between a.1.sqrtPriceX96 mid.1.sqrtPriceX96 x
      · have hprice : mid.1.sqrtPriceX96 = c.swapStep.sqrtRatioNextX96 := by
          rw [hone.next ha]
          exact hone.advances.price
        rw [hprice] at hin
        rw [hone.profile ha hfollows.active hin]
        exact Nat.cast_nonneg _
      · apply hrun.2.2.1
        unfold Between at hx hin ⊢
        omega

end Iterate

end SwapContext

end RmUniswap
