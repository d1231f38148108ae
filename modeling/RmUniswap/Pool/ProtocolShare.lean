import RmUniswap.Pool.Success

/-!
# The protocol share of a fee

The effective fee of a resolved configuration is at least its protocol fee, so the
fee of a step covers the protocol share. While the fee of the providers is
unresolved the effective fee is zero, and a protocol fee has nothing to be paid
from.
-/

namespace RmUniswap

open Foundation

variable {A : Type} [LawfulAllocator TickSlabValue A]

theorem maxProtocolFee_le : maxProtocolFee ≤ maxFee := by decide

theorem ProtocolFee.calculateSwapFee_ge {f : ProtocolFee} (hf : f.isValid = true) {z : Bool}
    {lpFee fee : Fee} (h : f.calculateSwapFee z lpFee = .ok fee) : f.pips z ≤ fee.pips := by
  unfold calculateSwapFee at h
  split at h
  · cases h
  · dsimp only at h
    split at h
    · rename_i hzero
      rw [hzero]
      exact Nat.zero_le _
    · have hpips := (f.pips_le hf z).trans maxProtocolFee_le
      have hfee := (Fee.new_isValid (okOr_eq_ok.mp h)).2
      have hoverlap : f.pips z * lpFee.pips / pipsDenominator ≤ lpFee.pips :=
        Nat.div_le_of_le_mul (Nat.mul_le_mul_right _ hpips)
      rw [hfee]
      omega

namespace SwapFee

/-!
# Obtainable configurations
-/

inductive Obtainable : SwapFee -> Prop
  | new {lpFee : Fee} {protocolFee : ProtocolFee} {f : SwapFee} :
      protocolFee.isValid = true -> SwapFee.new lpFee protocolFee = .ok f -> Obtainable f
  | newDynamic {protocolFee : ProtocolFee} :
      protocolFee.isValid = true -> Obtainable (SwapFee.newDynamic protocolFee)
  | fromLpFee {lpFee : Option Fee} {protocolFee : ProtocolFee} {f : SwapFee} :
      protocolFee.isValid = true -> SwapFee.fromLpFee lpFee protocolFee = .ok f -> Obtainable f
  | setLpFee {f f' : SwapFee} {lpFee : Fee} :
      Obtainable f -> f.setLpFee lpFee = .ok f' -> Obtainable f'
  | setProtocolFee {f f' : SwapFee} {protocolFee : ProtocolFee} :
      Obtainable f -> protocolFee.isValid = true -> f.setProtocolFee protocolFee = .ok f' ->
      Obtainable f'

section Obtainable

variable {f : SwapFee}

theorem Obtainable.consistent (h : f.Obtainable) :
    f.Consistent ∧ f.protocolFee.isValid = true := by
  induction h with
  | new hvalid hok =>
      rcases fromLpFee_eq_ok.mp hok with ⟨_, hprotocol, hconsistent⟩
      exact ⟨hconsistent, hprotocol ▸ hvalid⟩
  | newDynamic hvalid =>
      exact ⟨rfl, hvalid⟩
  | fromLpFee hvalid hok =>
      rcases fromLpFee_eq_ok.mp hok with ⟨_, hprotocol, hconsistent⟩
      exact ⟨hconsistent, hprotocol ▸ hvalid⟩
  | setLpFee _ hok ih =>
      rcases setLpFee_consistent ih.1 hok with ⟨hconsistent, _, hprotocol⟩
      exact ⟨hconsistent, hprotocol ▸ ih.2⟩
  | setProtocolFee _ hvalid hok ih =>
      rcases setProtocolFee_consistent ih.1 hok with ⟨hconsistent, _, hprotocol⟩
      exact ⟨hconsistent, hprotocol ▸ hvalid⟩

theorem Consistent.pips_le (h : f.Consistent) (hvalid : f.protocolFee.isValid = true)
    (hresolved : f.lpFee.isSome = true) (z : Bool) :
    f.protocolFee.pips z ≤ (f.swapFee z).pips := by
  rcases Option.isSome_iff_exists.mp hresolved with ⟨lpFee, hlp⟩
  unfold Consistent effectiveFees at h
  rw [hlp] at h
  dsimp only at h
  unfold calculateEffectiveFee at h
  rcases bind_eq_ok.mp h with ⟨down, hdown, h⟩
  rcases bind_eq_ok.mp h with ⟨up, hup, h⟩
  injection h with h
  injection h with h0 h1
  unfold swapFee
  cases z with
  | true =>
      rw [if_pos rfl, ← h0]
      exact ProtocolFee.calculateSwapFee_ge hvalid hdown
  | false =>
      rw [if_neg (by decide), ← h1]
      exact ProtocolFee.calculateSwapFee_ge hvalid hup

theorem Consistent.zero_of_unresolved (h : f.Consistent) (hnone : f.lpFee = none) (z : Bool) :
    f.swapFee z = Fee.zero := by
  unfold Consistent effectiveFees at h
  rw [hnone] at h
  injection h with h
  injection h with h0 h1
  unfold swapFee
  rw [← h0, ← h1, ite_self]

end Obtainable

end SwapFee

/-!
# The share of a step
-/

theorem protocolDelta_le {fee : Fee} {pips delta : Nat} {step : SwapStep}
    (hcover : fee.CoveredBy step.amountIn step.feeAmount) (hpips : pips ≤ fee.pips)
    (h : protocolDelta fee pips step = .ok delta) : delta ≤ step.feeAmount := by
  unfold protocolDelta at h
  split at h
  · cases h
    exact le_refl _
  · rcases bind_eq_ok.mp h with ⟨gross, hgross, h⟩
    rcases bind_eq_ok.mp h with ⟨scaled, hscaled, h⟩
    cases h
    rw [(checkedMul_eq_some.mp (okOr_eq_ok.mp hscaled)).1,
      (checkedAdd_eq_some.mp (okOr_eq_ok.mp hgross)).1]
    apply Nat.div_le_of_le_mul
    calc
      (step.amountIn + step.feeAmount) * pips ≤ (step.amountIn + step.feeAmount) * fee.pips :=
        Nat.mul_le_mul_left _ hpips
      _ ≤ step.feeAmount * maxFee := hcover
      _ = pipsDenominator * step.feeAmount := Nat.mul_comm _ _

namespace Pool

variable {P : Type} {p p' : Pool P A} {params : SwapParamsInner}

/-- At every step a swap takes or attempts, the protocol share is part of the fee. -/
def SharePayable (p : Pool P A) (params : SwapParamsInner) : Prop :=
  forall (ctx : SwapContext) (cs : List StepComputations) (a : SwapLoopState × TickSlab A)
    (step : SwapStep) (delta : Nat), LoopRun p params ctx cs a -> ¬ ctx.Halted a.1 ->
    computeSwapStep a.1.sqrtPriceX96 (ctx.clampedTarget (ctx.stepTarget a.2 a.1.tick))
      a.1.liquidity a.1.amountSpecifiedRemaining ctx.fee = .ok step ->
    ctx.protocolFeePips ≠ 0 -> protocolDelta ctx.fee ctx.protocolFeePips step = .ok delta ->
    delta ≤ step.feeAmount

/-- What a swap charges on top of its input is the protocol total and the credit of
the providers. -/
def FeesSplit (p : Pool P A) (params : SwapParamsInner) : Prop :=
  forall (fuel : Nat) (result : SwapResult) (p' : Pool P A),
    p.swap params fuel = some (.ok result, p') ->
    result.amountToProtocol +
        ((p.swapComputations params fuel).map StepComputations.feeAmount).sum =
      ((p.swapComputations params fuel).map fun c => c.swapStep.feeAmount).sum ∧
    result.swapDelta.input params.zeroForOne =
      (((p.swapComputations params fuel).map fun c => c.swapStep.amountIn).sum : Nat) +
        ((p.swapComputations params fuel).map fun c => c.swapStep.feeAmount).sum

theorem Usable.feesSplit (hp : p.Usable) : p.FeesSplit params := by
  intro fuel result p' h
  generalize hlist : p.swapComputations params fuel = list
  have hcases := swap_cases h
  rw [hlist] at hcases
  cases hcases with
  | empty _ =>
      refine ⟨rfl, ?_⟩
      unfold BalanceDelta.input
      split <;> rfl
  | done hrun _ hdelta =>
      have hprotocol := SwapContext.run_amountToProtocol hrun.run (hrun.start hp)
      refine ⟨hprotocol.trans (Nat.zero_add _), ?_⟩
      have hinput := (hrun.swapDelta hp hdelta).1
      rw [List.sum_map_add] at hinput
      exact_mod_cast hinput

/-- A swap whose fee is resolved, or whose direction carries no protocol fee, pays
its protocol share out of its fee. -/
theorem Usable.sharePayable (hp : p.Usable) (hvalid : p.swapFee.protocolFee.isValid = true)
    (hresolved : p.swapFee.lpFee.isSome = true ∨ params.lpFeeOverride.isSome = true ∨
      p.swapFee.protocolFee.pips params.zeroForOne = 0) : p.SharePayable params := by
  intro ctx cs a step delta hrun hrunning hstep hpips hdelta
  have ha := hrun.final hp
  have hl : 0 < a.1.liquidity := Nat.pos_of_ne_zero fun hz => hrunning (Or.inr hz)
  have hcover := computeSwapStep_covers ha.ready.price
    (ha.ready.clampedTarget hrunning (ha.target_spec hrunning)).1 hl ha.ready.liquidity
    ha.ready.fee ha.ready.remaining hstep
  rcases hrun.context with ⟨swapFee, hfee, rfl⟩
  have hconsistent := resolveSwapFee_consistent hp.fees hfee
  have hlp : swapFee.lpFee.isSome = true := by
    have hset := hfee
    unfold resolveSwapFee at hset
    cases hoverride : params.lpFeeOverride with
    | some lpFee =>
        rw [hoverride] at hset
        rw [(SwapFee.setLpFee_consistent hp.fees hset).2.1]
        rfl
    | none =>
        rw [hoverride] at hset hresolved
        cases hset
        rcases hresolved with hsome | hsome | hzero
        · exact hsome
        · cases hsome
        · exact absurd hzero hpips
  exact protocolDelta_le hcover
    (hconsistent.1.pips_le (hconsistent.2 ▸ hvalid) hlp params.zeroForOne) hdelta

end Pool

/-!
# Swaps without a fee
-/

/-- Without a fee a payment can spare a share only when it rounds to nothing; a share
that does not fit its word is never compared with the fee. -/
def Payment.Spares (pips : Nat) (x : Payment) : Prop :=
  x.step.amountIn * pips < pipsDenominator ∨ 2 ^ 256 ≤ x.step.amountIn * pips

instance (pips : Nat) : DecidablePred (Payment.Spares pips) :=
  fun _ => inferInstanceAs (Decidable (_ ∨ _))

theorem Fee.zero_onTop (used : Nat) : Fee.zero.onTop used = 0 := by
  unfold onTop
  rw [if_neg (by decide)]
  exact zero_divCeil _

theorem Fee.zero_net (amount : Nat) : Fee.zero.net amount = amount :=
  Nat.mul_div_cancel _ (by decide)

theorem plainStep_zero (current target liquidity : Nat) (remaining : Int) :
    (plainStep current target liquidity remaining Fee.zero).feeAmount = 0 := by
  unfold plainStep
  split
  · exact Fee.zero_onTop _
  · split
    · unfold inputStep
      dsimp only
      rw [Fee.zero_net, Nat.sub_self]
    · exact Fee.zero_onTop _

namespace SwapContext

section Unresolved

variable {ctx : SwapContext} {a : SwapLoopState × TickSlab A} {n fuel : Nat}

theorem nextPayment_feeAmount (hfee : ctx.fee = Fee.zero) (a : SwapLoopState × TickSlab A) :
    (ctx.nextPayment a).step.feeAmount = 0 := by
  unfold nextPayment
  rw [hfee]
  exact plainStep_zero _ _ _ _

theorem spares_iff (hfee : ctx.fee = Fee.zero) (hpips : ctx.protocolFeePips ≠ 0) :
    (ctx.nextPayment a).Spares ctx.protocolFeePips ↔
      ((ctx.nextPayment a).gross * ctx.protocolFeePips < 2 ^ 256 ->
        (ctx.nextPayment a).share ctx.fee ctx.protocolFeePips ≤
          (ctx.nextPayment a).step.feeAmount) := by
  have hzero := nextPayment_feeAmount hfee a
  unfold Payment.Spares Payment.share Payment.gross
  rw [if_neg hpips, hfee, if_neg (show Fee.zero.pips ≠ _ from fun h => hpips h.symm), hzero,
    Nat.add_zero, Nat.le_zero, Nat.div_eq_zero_iff_lt (by decide)]
  constructor
  · rintro (hsmall | hlarge) hfits
    · exact hsmall
    · exact absurd hfits (not_lt.mpr hlarge)
  · intro h
    by_cases hfits : (ctx.nextPayment a).step.amountIn * ctx.protocolFeePips < 2 ^ 256
    · exact Or.inl (h hfits)
    · exact Or.inr (not_lt.mp hfits)

/-- When every state that is still running can spare the share of its next payment, so
can every payment. -/
theorem Metered.spares (h : ctx.Metered n a) (hfuel : n + fuel = maxLegs)
    (hfee : ctx.fee = Fee.zero) (hpips : ctx.protocolFeePips ≠ 0)
    (hmax : ctx.protocolFeePips ≤ maxProtocolFee) (hgrowth : a.1.feeGrowthGlobalX128 < 2 ^ 256)
    (hall : forall cs b, Run ctx.Iterates a cs b -> ¬ ctx.Halted b.1 ->
      (ctx.nextPayment b).Spares ctx.protocolFeePips) :
    forall x, x ∈ ctx.pays fuel a -> x.Spares ctx.protocolFeePips := by
  induction fuel generalizing n a with
  | zero =>
      intro x hx
      cases hx
  | succ fuel ih =>
      intro x hx
      by_cases hhalt : ctx.Halted a.1
      · rw [pays_halted hhalt] at hx
        cases hx
      · have hmode : 0 < ctx.amountSpecified -> ctx.fee.isMax = false := fun _ => hfee ▸ rfl
        have hnext := hall [] a (Run.nil a) hhalt
        by_cases hreached :
            (ctx.nextPayment a).step.sqrtRatioNextX96 = (ctx.nextPayment a).leg.stop
        · have hbounds := h.live.nextPayment_reached hhalt hreached
          have hscaled := (Nat.mul_le_mul (le_of_lt hbounds.1) hmax).trans_lt
            (by decide : 2 ^ 213 * maxProtocolFee < 2 ^ 256)
          have hshare := (spares_iff hfee hpips).mp hnext hscaled
          have hnone : (ctx.nextPayment a).growth ctx.fee ctx.protocolFeePips = 0 := by
            unfold Payment.growth
            rw [nextPayment_feeAmount hfee, Nat.zero_sub, Nat.zero_mul, Nat.zero_div]
          rcases advance_total h.live hhalt (h.affordable (by omega) hhalt hmode hmax hreached
            hshare (by omega)) with ⟨c, hc⟩
          generalize hstep : ctx.step a.1 a.2 = r
          rcases r with ⟨_ | s, ticks⟩
          · rw [pays_underflow h.live hhalt hc hstep, List.mem_singleton,
              ← advance_nextPayment h.live.invariant hhalt hc] at hx
            rw [hx]
            exact hnext
          · have hi : ctx.Iterates a c (s, ticks) := ⟨hhalt, hc, hstep⟩
            rw [hi.pays h.live, List.mem_cons] at hx
            rcases hx with rfl | hx
            · rw [← advance_nextPayment h.live.invariant hhalt hc]
              exact hnext
            · by_cases hspent : s.amountSpecifiedRemaining = 0
              · rw [pays_halted (a := (s, ticks)) (Or.inl (Or.inl hspent))] at hx
                cases hx
              · have hearns := hi.earns h.live
                rw [← advance_nextPayment h.live.invariant hhalt hc, hnone, Nat.add_zero]
                  at hearns
                exact ih (hi.metered h hspent) (by omega) (hearns ▸ hgrowth)
                  (fun cs b hrun => hall (c :: cs) b (Run.cons hi hrun)) x hx
        · rw [nextPayment_short h.live hhalt hmode hreached, List.mem_singleton] at hx
          rw [hx]
          exact hnext

end Unresolved

end SwapContext

namespace Pool

variable {P : Type} {p : Pool P A} {params : SwapParamsInner}

/-- With an unresolved fee a swap pays its protocol share exactly when each of its
payments can spare it. -/
theorem Usable.sharePayable_iff (hp : p.Usable)
    (hvalid : p.swapFee.protocolFee.isValid = true)
    (hfits : p.state.growth params.zeroForOne < 2 ^ 256) (hnone : p.swapFee.lpFee = none)
    (hoverride : params.lpFeeOverride = none)
    (hpips : p.swapFee.protocolFee.pips params.zeroForOne ≠ 0) :
    p.SharePayable params ↔ forall x, x ∈ p.payments p.swapFee params ->
      x.Spares (p.swapFee.protocolFee.pips params.zeroForOne) := by
  have hfee : p.resolveSwapFee params = .ok p.swapFee := by
    unfold resolveSwapFee
    rw [hoverride]
  have hzero : (p.swapContext .exclusive p.swapFee params).fee = Fee.zero :=
    hp.fees.zero_of_unresolved hnone params.zeroForOne
  have hmode : 0 < params.amountSpecified ->
      (p.swapContext .exclusive p.swapFee params).fee.isMax = false := fun _ => hzero ▸ rfl
  have hcontext {ctx : SwapContext} {cs : List StepComputations}
      {b : SwapLoopState × TickSlab A} (hrun : LoopRun p params ctx cs b) :
      ctx = p.swapContext .exclusive p.swapFee params := by
    rcases hrun.context with ⟨swapFee, hfee', hctx⟩
    rw [hfee] at hfee'
    cases hfee'
    exact hctx
  constructor
  · intro hpayable x hx
    by_cases hamount : params.amountSpecified = 0
    · rw [p.payments_of_zero p.swapFee hamount] at hx
      cases hx
    · by_cases hlimit : checkLimit params.zeroForOne p.state.sqrtPriceX96
          params.sqrtPriceLimit = .ok ()
      · have hstart : LoopRun p params (p.swapContext .exclusive p.swapFee params) []
            (p.swapStart params, p.ticks) :=
          ⟨hamount, ⟨p.swapFee, hfee, rfl⟩, hlimit, Run.nil _⟩
        rw [hstart.payments rfl hmode] at hx
        refine (hstart.metered_start hp).spares (Nat.zero_add _) hzero hpips
          (ProtocolFee.pips_le hvalid _) hfits (fun cs b hrun hrunning => ?_) x hx
        have hloop : LoopRun p params (p.swapContext .exclusive p.swapFee params) cs b :=
          ⟨hamount, ⟨p.swapFee, hfee, rfl⟩, hlimit, hrun⟩
        rw [SwapContext.spares_iff hzero hpips]
        intro hscaled
        exact hpayable _ cs b _ _ hloop hrunning
          (SwapContext.nextPayment_computes (hloop.live_final hp) hrunning hmode) hpips
          (protocolDelta_total hpips hscaled)
      · have hnil : p.payments p.swapFee params = [] := if_neg fun hgo => hlimit hgo.1
        rw [hnil] at hx
        cases hx
  · intro hall ctx cs a step delta hrun hrunning hstep _ hdelta
    have hctx := hcontext hrun
    subst hctx
    rcases hrun.payments_left hp rfl hmode with ⟨fuel, _, hleft⟩
    rw [SwapContext.pays_running (hrun.live_final hp).invariant hrunning] at hleft
    have hspares := hall _ (by
      rw [hleft]
      exact List.mem_append_right _ List.mem_cons_self)
    have hcomputes := SwapContext.nextPayment_computes (hrun.live_final hp) hrunning hmode
    rw [hstep] at hcomputes
    cases hcomputes
    have hshare := protocolDelta_share hpips hdelta
    rw [hshare.1]
    refine (SwapContext.spares_iff hzero hpips).mp hspares (hshare.2 fun hsame => hpips ?_)
    rw [hzero] at hsame
    exact hsame.symm

/-!
# Pools with an unresolved fee
-/

theorem Accepted.withFee [PositionsAccess P] (hp : p.Accepted) {f : SwapFee}
    (hf : f.Consistent) (hvalid : f.protocolFee.isValid = true) :
    ({ p with swapFee := f } : Pool P A).Accepted := by
  rcases hp with ⟨s, hprice, h⟩
  refine ⟨{ s with fee := f.lpFee, protocolFee := f.protocolFee }, hprice, ?_⟩
  unfold fromSnapshot at h ⊢
  rcases Outcome.bind_eq_ok.mp h with ⟨u, hvalidate, h⟩
  rcases Outcome.bind_eq_ok.mp h with ⟨ticks, hticks, h⟩
  rcases Outcome.bind_eq_ok.mp h with ⟨swapFee, _, h⟩
  cases h
  have hsame : PoolSnapshot.validate { s with fee := f.lpFee, protocolFee := f.protocolFee } =
      .ok () := by
    unfold PoolSnapshot.validate PoolSnapshot.validateWith at hvalidate ⊢
    split at hvalidate
    · cases hvalidate
    · rename_i hspacing
      split at hvalidate
      · cases hvalidate
      · rw [if_neg hspacing, if_neg (by rw [hvalid]; decide)]
        exact hvalidate
  have hfee : SwapFee.fromLpFee f.lpFee f.protocolFee = .ok f :=
    SwapFee.fromLpFee_eq_ok.mpr ⟨rfl, rfl, hf⟩
  rw [hsame, Outcome.ok_bind]
  dsimp only
  rw [hticks, Outcome.ok_bind, hfee]
  rfl

end Pool

namespace Sample

theorem sale_amountFits (amount : UInt64) : FitsSigned 256 (-amount.toNat) := by
  have hlt := amount.toNat_lt
  unfold FitsSigned
  omega

def sale (amount : UInt64) : SwapParamsInner :=
  { sell with
    amountSpecified := -amount.toNat
    amountFits := sale_amountFits amount }

def saved : Pool Positions := (Pool.fromSnapshot sold.snapshot).getD sold

theorem saved_accepted : saved.Accepted := by
  have hok : sold.tryFork.isOk = true := by
    decide +kernel
  exact ⟨sold.snapshot, by decide +kernel, Outcome.eq_ok_getD hok sold⟩

/-- The saved pool with its fee of the providers unresolved again. -/
def unresolved (protocolFee : ProtocolFee) : Pool Positions :=
  { saved with swapFee := SwapFee.newDynamic protocolFee }

theorem unresolved_accepted {protocolFee : ProtocolFee} (h : protocolFee.isValid = true) :
    (unresolved protocolFee).Accepted :=
  saved_accepted.withFee rfl h

end Sample

namespace Pool

/-- The protocol share is payable exactly when the fee is resolved, the direction has no
protocol fee, or every payment can spare its share. -/
theorem swap_share_iff {P : Type} [PositionsAccess P] {p : Pool P A} {params : SwapParamsInner}
    (hp : p.Reachable) (hf : p.swapFee.Obtainable)
    (hfits : p.state.growth params.zeroForOne < 2 ^ 256) :
    p.SharePayable params ∧ p.FeesSplit params ↔
      p.swapFee.lpFee.isSome = true ∨ params.lpFeeOverride.isSome = true ∨
        p.swapFee.protocolFee.pips params.zeroForOne = 0 ∨
        forall x, x ∈ p.payments p.swapFee params ->
          x.Spares (p.swapFee.protocolFee.pips params.zeroForOne) := by
  have hvalid := hf.consistent.2
  rw [and_iff_left hp.usable.feesSplit]
  by_cases hresolved : p.swapFee.lpFee.isSome = true ∨ params.lpFeeOverride.isSome = true ∨
      p.swapFee.protocolFee.pips params.zeroForOne = 0
  · refine iff_of_true (hp.usable.sharePayable hvalid hresolved) ?_
    rcases hresolved with h | h | h
    · exact Or.inl h
    · exact Or.inr (Or.inl h)
    · exact Or.inr (Or.inr (Or.inl h))
  · rw [not_or, not_or] at hresolved
    have hnone : p.swapFee.lpFee = none := by simpa using hresolved.1
    have hoverride : params.lpFeeOverride = none := by simpa using hresolved.2.1
    rw [hp.usable.sharePayable_iff hvalid hfits hnone hoverride hresolved.2.2,
      or_iff_right hresolved.1, or_iff_right hresolved.2.1, or_iff_right hresolved.2.2]

/-- A dynamic pool with a protocol fee of 1000 pips on sales of token0 can pay it on a
sale of 999 and on no sale of 10^15. -/
theorem swap_share_iff_sample :
    ((Sample.unresolved ⟨1000, 0⟩).SharePayable (Sample.sale 999) ∧
        (Sample.unresolved ⟨1000, 0⟩).FeesSplit (Sample.sale 999)) ∧
      ¬ ((Sample.unresolved ⟨1000, 0⟩).SharePayable (Sample.sale (10 ^ 15)) ∧
        (Sample.unresolved ⟨1000, 0⟩).FeesSplit (Sample.sale (10 ^ 15))) := by
  have hp := Sample.unresolved_accepted (show ProtocolFee.isValid ⟨1000, 0⟩ = true by decide)
  have hf : (Sample.unresolved ⟨1000, 0⟩).swapFee.Obtainable :=
    SwapFee.Obtainable.newDynamic (by decide)
  constructor
  · exact (swap_share_iff hp.reachable hf (by decide +kernel)).mpr
      (Or.inr (Or.inr (Or.inr (by decide +kernel))))
  · intro h
    exact absurd ((swap_share_iff hp.reachable hf (by decide +kernel)).mp h) (by decide +kernel)

end Pool

/-- A pool with an unresolved fee and a protocol fee fails a swap that succeeds without
the protocol fee. -/
theorem swap_fails_while_unresolved :
    exists (p : Pool Positions) (params : SwapParamsInner) (fuel : Nat), p.Accepted ∧
      p.swapFee = SwapFee.newDynamic ⟨1000, 0⟩ ∧ p.swapFee.Obtainable ∧
      ¬ p.SharePayable params ∧
      (exists q, p.swap params fuel = some (.error .amountOverflow, q)) ∧
      exists result q,
        ({ p with swapFee := SwapFee.newDynamic ⟨0, 0⟩ } : Pool Positions).swap params fuel =
          some (.ok result, q) := by
  have hp := Sample.unresolved_accepted (show ProtocolFee.isValid ⟨1000, 0⟩ = true by decide)
  have hfail : ((Sample.unresolved ⟨1000, 0⟩).swap (Sample.sale (10 ^ 15)) 3).map Prod.fst =
      some (.error .amountOverflow) := by
    decide +kernel
  have hpass : ((Sample.unresolved ⟨0, 0⟩).swap (Sample.sale (10 ^ 15)) 3).map
      (fun r => r.1.isOk) = some true := by
    decide +kernel
  have hpayable := @Pool.Usable.sharePayable_iff _ _ _ _ (Sample.sale (10 ^ 15)) hp.sound.toUsable
    (by decide) (by decide +kernel) rfl rfl (by decide)
  refine ⟨Sample.unresolved ⟨1000, 0⟩, Sample.sale (10 ^ 15), 3, hp, rfl,
    SwapFee.Obtainable.newDynamic (by decide), ?_, ⟨_, Sample.swap_eq hfail⟩, ?_⟩
  · rw [hpayable]
    decide +kernel
  · rcases Option.map_eq_some_iff.mp hpass with ⟨⟨r, q⟩, heq, hok⟩
    cases r with
    | error e => cases hok
    | ok result => exact ⟨result, q, heq⟩

end RmUniswap
