import RmUniswap.Foundation.Bits
import RmUniswap.Pool.Limits
import RmUniswap.Pool.Unchecked

/-!
# The v3 facade

A v3 pool wraps a concentrated pool with positions. It takes unsigned amounts and casts
them to signed liquidity changes, and it turns the signed deltas of the pool into
unsigned amounts by conversions that panic on a negative value.
-/

namespace RmUniswap
namespace V3

open Foundation

variable {A : Type} [LawfulAllocator TickSlabValue A]

/-!
# Conversions
-/

/-- The cast {lit}`amount as i128` of an unsigned word. -/
def asI128 (amount : Nat) : Int := toSigned 128 (wrap 128 amount)

theorem asI128_fits (amount : Nat) : FitsSigned 128 (asI128 amount) := by
  have hlt := wrap_lt 128 amount
  unfold asI128 toSigned FitsSigned
  norm_num at hlt ⊢
  split <;> omega

theorem asI128_eq {amount : Nat} (h : amount < 2 ^ 128) :
    asI128 amount = if amount < 2 ^ 127 then (amount : Int) else (amount : Int) - 2 ^ 128 := by
  unfold asI128 toSigned
  rw [wrap_of_lt h]

/-- {lit}`U256::from` of a signed word. -/
def u256FromI128 (x : Int) : Outcome Error Nat := do
  Outcome.panicIf (x < 0)
  .ok x.toNat

/-- The smallest signed word has no negation. -/
def NegOverflows (overflowChecks : Bool) (x : Int) : Prop :=
  overflowChecks = true ∧ x = -2 ^ 127

instance (overflowChecks : Bool) (x : Int) : Decidable (NegOverflows overflowChecks x) :=
  inferInstanceAs (Decidable (_ ∧ _))

/-- Negation in a build that checks for overflow, or in one that does not. -/
def negI128 (overflowChecks : Bool) (x : Int) : Outcome Error Int := do
  Outcome.panicIf (NegOverflows overflowChecks x)
  .ok (wrappingNeg 128 x)

section Conversions

variable {x : Int}

theorem u256FromI128_of_nonneg (h : 0 ≤ x) : u256FromI128 x = .ok x.toNat := by
  unfold u256FromI128
  rw [Outcome.panicIf_of_not (not_lt.mpr h), Outcome.ok_bind]

theorem u256FromI128_of_neg (h : x < 0) : u256FromI128 x = .panic := by
  unfold u256FromI128
  rw [Outcome.panicIf_of h, Outcome.panic_bind]

theorem u256FromI128_eq_ok {n : Nat} : u256FromI128 x = .ok n ↔ (n : Int) = x := by
  rcases lt_or_ge x 0 with hneg | hnonneg
  · rw [u256FromI128_of_neg hneg]
    simp only [reduceCtorEq, false_iff]
    omega
  · rw [u256FromI128_of_nonneg hnonneg, Outcome.ok.injEq]
    omega

theorem u256FromI128_ne_err {e : Error} : u256FromI128 x ≠ .err e := by
  rcases lt_or_ge x 0 with hneg | hnonneg
  · rw [u256FromI128_of_neg hneg]
    simp
  · rw [u256FromI128_of_nonneg hnonneg]
    simp

theorem bind_eq_err {α β : Type} {x : Outcome Error α} {f : α -> Outcome Error β} {e : Error} :
    (x >>= f) = .err e ↔ x = .err e ∨ exists a, x = .ok a ∧ f a = .err e := by
  cases x <;> simp [Bind.bind, Outcome.bind]

theorem negI128_of_nonneg (overflowChecks : Bool) (h : 0 ≤ x) :
    negI128 overflowChecks x = .ok (-x) := by
  have hne : x ≠ -2 ^ 127 := ne_of_gt (lt_of_lt_of_le (by norm_num) h)
  have hfits : ¬ NegOverflows overflowChecks x := fun hover => hne hover.2
  unfold negI128 wrappingNeg
  rw [Outcome.panicIf_of_not hfits, Outcome.ok_bind, if_neg hne]

end Conversions

/-!
# The facade
-/

structure Pool (A : Type := Arena TickSlabValue) [LawfulAllocator TickSlabValue A] where
  pool : RmUniswap.Pool Positions A

/-- The owner and the range of a position; its salt is the default one. -/
structure Range where
  owner : Nat
  tickLower : Int
  tickUpper : Int
  lowerInRange : TickInRange tickLower
  upperInRange : TickInRange tickUpper

def Range.index (r : Range) : PositionIndex :=
  { owner := r.owner
    tickLower := r.tickLower
    tickUpper := r.tickUpper
    salt := 0 }

def Range.change (r : Range) (liquidityDelta : Int) (h : FitsSigned 128 liquidityDelta) :
    ModifyLiquidityParams :=
  { tickLower := r.tickLower
    tickUpper := r.tickUpper
    liquidityDelta
    owner := r.owner
    salt := 0
    lowerInRange := r.lowerInRange
    upperInRange := r.upperInRange
    deltaFits := h }

/-- The change a mint asks the pool for. -/
def Range.mintChange (r : Range) (amount : Nat) : ModifyLiquidityParams :=
  r.change (asI128 amount) (asI128_fits amount)

/-- The change a burn asks the pool for. -/
def Range.burnChange (r : Range) (amount : Nat) : ModifyLiquidityParams :=
  r.change (wrappingNeg 128 (asI128 amount)) (wrappingNeg_fits (asI128_fits amount))

namespace Pool

def new (sqrtPriceX96 : Nat) (tick : Int) (liquidity : Nat) (swapFee : SwapFee)
    (tickSpacing : TickSpacing) (h : tickSpacing.IsPositive) : Pool A :=
  { pool := RmUniswap.Pool.new Positions sqrtPriceX96 tick liquidity swapFee tickSpacing h }

def mint (p : Pool A) (r : Range) (amount : Nat) : Outcome Error (Nat × Nat) × Pool A :=
  match p.pool.modifyLiquidity (r.mintChange amount) with
  | (.error e, pool) => (.err e, { pool })
  | (.ok result, pool) =>
      (do
        let amount0 <- u256FromI128 result.delta.amount0
        let amount1 <- u256FromI128 result.delta.amount1
        .ok (amount0, amount1), { pool })

def received (overflowChecks : Bool) (delta feeDelta : Int) : Outcome Error Nat := do
  let negated <- negI128 overflowChecks delta
  let principal <- u256FromI128 negated
  let fees <- u256FromI128 feeDelta
  .ok (wrap 256 (principal + fees))

def burn (overflowChecks : Bool) (p : Pool A) (r : Range) (amount : Nat) :
    Outcome Error (Nat × Nat) × Pool A :=
  if NegOverflows overflowChecks (asI128 amount) then
    (.panic, p)
  else
    match p.pool.modifyLiquidity (r.burnChange amount) with
    | (.error e, pool) => (.err e, { pool })
    | (.ok result, pool) =>
        (do
          let amount0 <- received overflowChecks result.delta.amount0 result.feeDelta.amount0
          let amount1 <- received overflowChecks result.delta.amount1 result.feeDelta.amount1
          .ok (amount0, amount1), { pool })

def swap (p : Pool A) (zeroForOne : Bool) (amountSpecified : Int) (sqrtPriceLimit : Nat)
    (amountFits : FitsSigned 256 amountSpecified) (limitValid : IsValidSqrtPrice sqrtPriceLimit)
    (fuel : Nat) : Option (Except Error (Int × Int) × Pool A) :=
  (p.pool.swap
    { zeroForOne
      amountSpecified
      sqrtPriceLimit
      lpFeeOverride := none
      amountFits
      limitValid } fuel).map fun
    | (.error e, pool) => (.error e, { pool })
    | (.ok result, pool) => (.ok (result.swapDelta.amount0, result.swapDelta.amount1), { pool })

/-!
# Reachable facades
-/

/-- A facade that its own operations lead to. -/
inductive Reachable : Pool A -> Prop
  | new {sqrtPriceX96 : Nat} {tick : Int} (liquidity : Nat) (swapFee : SwapFee)
      {tickSpacing : TickSpacing} (h : tickSpacing.IsPositive) :
      IsValidSqrtPrice sqrtPriceX96 -> TickInRange tick ->
      Reachable (Pool.new sqrtPriceX96 tick liquidity swapFee tickSpacing h)
  | mint {p : Pool A} (r : Range) (amount : Nat) : Reachable p -> Reachable (p.mint r amount).2
  | burn {p : Pool A} (overflowChecks : Bool) (r : Range) (amount : Nat) : Reachable p ->
      Reachable (burn overflowChecks p r amount).2
  | swap {p p' : Pool A} {zeroForOne : Bool} {amountSpecified : Int} {sqrtPriceLimit : Nat}
      {amountFits : FitsSigned 256 amountSpecified} {limitValid : IsValidSqrtPrice sqrtPriceLimit}
      {fuel : Nat} {result : Except Error (Int × Int)} : Reachable p ->
      p.swap zeroForOne amountSpecified sqrtPriceLimit amountFits limitValid fuel =
        some (result, p') -> Reachable p'

section Reachable

variable {p p' : Pool A} {r : Range} {amount : Nat}

theorem mint_pool (p : Pool A) (r : Range) (amount : Nat) :
    (p.mint r amount).2.pool = (p.pool.modifyLiquidity (r.mintChange amount)).2 := by
  unfold mint
  split
  · rename_i heq
    rw [heq]
  · rename_i heq
    rw [heq]

theorem burn_pool (overflowChecks : Bool) (p : Pool A) (r : Range) (amount : Nat) :
    (burn overflowChecks p r amount).2.pool = p.pool ∨
      (burn overflowChecks p r amount).2.pool =
        (p.pool.modifyLiquidity (r.burnChange amount)).2 := by
  unfold burn
  split
  · exact Or.inl rfl
  · split
    · rename_i heq
      rw [heq]
      exact Or.inr rfl
    · rename_i heq
      rw [heq]
      exact Or.inr rfl

theorem swap_pool {zeroForOne : Bool} {amountSpecified : Int} {sqrtPriceLimit : Nat}
    {amountFits : FitsSigned 256 amountSpecified} {limitValid : IsValidSqrtPrice sqrtPriceLimit}
    {fuel : Nat} {result : Except Error (Int × Int)}
    (h : p.swap zeroForOne amountSpecified sqrtPriceLimit amountFits limitValid fuel =
      some (result, p')) :
    exists params swapResult, p.pool.Swaps params swapResult p'.pool := by
  rcases Option.map_eq_some_iff.mp h with ⟨⟨swapResult, pool⟩, hswap, heq⟩
  cases swapResult with
  | error e =>
      cases heq
      exact ⟨_, _, fuel, hswap⟩
  | ok swapResult =>
      cases heq
      exact ⟨_, _, fuel, hswap⟩

theorem Reachable.typed (h : p.Reachable) : p.pool.Typed := by
  induction h with
  | new liquidity swapFee h hprice htick =>
      exact RmUniswap.Pool.new_typed liquidity swapFee h hprice htick
  | mint r amount _ ih =>
      rw [mint_pool]
      exact ih.modify _
  | @burn p overflowChecks r amount _ ih =>
      rcases burn_pool overflowChecks p r amount with heq | heq
      · rw [heq]
        exact ih
      · rw [heq]
        exact ih.modify _
  | swap _ hswap ih =>
      rcases swap_pool hswap with ⟨params, result, hswaps⟩
      exact ih.swap hswaps

end Reachable

/-!
# What the facade reports
-/

/-- A mint fails and leaves the position no less liquidity, or adds exactly its amount and
returns what the caller owes to the pool. -/
def MintReports (p : Pool A) (r : Range) (amount : Nat) : Prop :=
  ((exists e, (p.mint r amount).1 = .err e) ∧
      (p.pool.positions.stateAt r.index).liquidity ≤
        ((p.mint r amount).2.pool.positions.stateAt r.index).liquidity) ∨
    exists result pool owed0 owed1,
      p.pool.modifyLiquidity (r.mintChange amount) = (.ok result, pool) ∧
        p.mint r amount = (.ok (owed0, owed1), { pool }) ∧
        (owed0 : Int) = -result.delta.amount0 ∧ (owed1 : Int) = -result.delta.amount1 ∧
        ((pool.positions.stateAt r.index).liquidity : Int) =
          (p.pool.positions.stateAt r.index).liquidity + amount

/-- A burn fails, or removes exactly its amount from the position and returns what the
caller receives of principal and fees. -/
def BurnReports (overflowChecks : Bool) (p : Pool A) (r : Range) (amount : Nat) : Prop :=
  (exists e, (burn overflowChecks p r amount).1 = .err e) ∨
    exists result pool paid0 paid1,
      p.pool.modifyLiquidity (r.burnChange amount) = (.ok result, pool) ∧
        burn overflowChecks p r amount = (.ok (paid0, paid1), { pool }) ∧
        (paid0 : Int) = result.delta.amount0 + result.feeDelta.amount0 ∧
        (paid1 : Int) = result.delta.amount1 + result.feeDelta.amount1 ∧
        ((pool.positions.stateAt r.index).liquidity : Int) =
          (p.pool.positions.stateAt r.index).liquidity - amount

section Reports

variable {p : Pool A} {r : Range} {amount : Nat}

theorem mintChange_ne (h0 : 0 < amount) (hlt : amount < 2 ^ 128) :
    (r.mintChange amount).liquidityDelta ≠ 0 := by
  show asI128 amount ≠ 0
  have hlt' : (amount : Int) < 2 ^ 128 := by exact_mod_cast hlt
  rw [asI128_eq hlt]
  split
  · omega
  · exact ne_of_lt (sub_neg.mpr hlt')

theorem burnChange_eq (hlt : amount < 2 ^ 128) :
    (r.burnChange amount).liquidityDelta =
      if amount ≤ 2 ^ 127 then -(amount : Int) else 2 ^ 128 - amount := by
  show wrappingNeg 128 (asI128 amount) = _
  rw [asI128_eq hlt]
  unfold wrappingNeg
  norm_num at hlt ⊢
  by_cases hsmall : amount < 170141183460469231731687303715884105728
  · rw [if_pos hsmall, if_neg (by omega), if_pos (le_of_lt hsmall)]
  · rw [if_neg hsmall]
    by_cases hmin : amount = 170141183460469231731687303715884105728
    · rw [hmin]
      norm_num
    · rw [if_neg (by omega), if_neg (by omega)]
      ring

theorem burnChange_ne (h0 : 0 < amount) (hlt : amount < 2 ^ 128) :
    (r.burnChange amount).liquidityDelta ≠ 0 := by
  have hlt' : (amount : Int) < 2 ^ 128 := by exact_mod_cast hlt
  rw [burnChange_eq hlt]
  split
  · omega
  · exact ne_of_gt (sub_pos.mpr hlt')

theorem mint_of_ok {result : ModifyLiquidityResult} {pool : RmUniswap.Pool Positions A}
    (h : p.pool.modifyLiquidity (r.mintChange amount) = (.ok result, pool)) :
    p.mint r amount = (do
      let amount0 <- u256FromI128 result.delta.amount0
      let amount1 <- u256FromI128 result.delta.amount1
      .ok (amount0, amount1), { pool }) := by
  unfold mint
  rw [h]

theorem mint_eq_ok {result : ModifyLiquidityResult} {pool : RmUniswap.Pool Positions A}
    (h : p.pool.modifyLiquidity (r.mintChange amount) = (.ok result, pool)) :
    (forall e, (p.mint r amount).1 ≠ .err e) ∧ forall owed0 owed1,
      (p.mint r amount).1 = .ok (owed0, owed1) ->
        (owed0 : Int) = result.delta.amount0 ∧ (owed1 : Int) = result.delta.amount1 := by
  rw [mint_of_ok h]
  dsimp only
  constructor
  · intro e he
    rcases bind_eq_err.mp he with h0 | ⟨amount0, _, he⟩
    · exact u256FromI128_ne_err h0
    · rcases bind_eq_err.mp he with h1 | ⟨amount1, _, he⟩
      · exact u256FromI128_ne_err h1
      · cases he
  · intro owed0 owed1 hok
    rcases Outcome.bind_eq_ok.mp hok with ⟨amount0, h0, hok⟩
    rcases Outcome.bind_eq_ok.mp hok with ⟨amount1, h1, hok⟩
    cases hok
    exact ⟨u256FromI128_eq_ok.mp h0, u256FromI128_eq_ok.mp h1⟩

theorem mintChange_pos (h0 : 0 < amount) (hsmall : amount < 2 ^ 127) :
    (r.mintChange amount).liquidityDelta = amount ∧ 0 < (r.mintChange amount).liquidityDelta := by
  have heq : (r.mintChange amount).liquidityDelta = amount := by
    show asI128 amount = _
    rw [asI128_eq (hsmall.trans (by norm_num)), if_pos hsmall]
  refine ⟨heq, ?_⟩
  rw [heq]
  exact_mod_cast h0

theorem mintChange_neg (hlt : amount < 2 ^ 128) (hlarge : 2 ^ 127 ≤ amount) :
    (r.mintChange amount).liquidityDelta < 0 := by
  show asI128 amount < 0
  have hlt' : (amount : Int) < 2 ^ 128 := by exact_mod_cast hlt
  rw [asI128_eq hlt, if_neg (not_lt.mpr hlarge)]
  exact sub_neg.mpr hlt'

theorem mint_refused (ht : p.pool.Typed) (hne : (r.mintChange amount).liquidityDelta ≠ 0)
    (h : ¬ p.pool.Permits (r.mintChange amount)) : exists e, (p.mint r amount).1 = .err e := by
  cases hr : p.pool.modifyLiquidity (r.mintChange amount) with
  | mk result pool =>
      cases result with
      | error e =>
          refine ⟨e, ?_⟩
          unfold mint
          rw [hr]
      | ok result =>
          exact absurd (RmUniswap.Pool.modify_permitted ht.ticks ht.price (ht.positions _) hne
            hr).1 h

theorem mint_permitted (ht : p.pool.Typed) (h0 : 0 < amount) (hsmall : amount < 2 ^ 127)
    (hpermits : p.pool.Permits (r.mintChange amount)) : ¬ p.MintReports r amount := by
  have hadd := (mintChange_pos (r := r) h0 hsmall).2
  have hne := ne_of_gt hadd
  rcases RmUniswap.Pool.modify_ok_of_permits ht.ticks ht.price (ht.positions _) hne hpermits with
    ⟨result, pool, hok⟩
  have hspec := RmUniswap.Pool.modify_permitted ht.ticks ht.price (ht.positions _) hne hok
  have hmint := mint_eq_ok hok
  rintro (⟨⟨e, he⟩, _⟩ | ⟨result', pool', owed0, owed1, hok', hreturn, h0', h1', _⟩)
  · exact hmint.1 e he
  · rw [hok] at hok'
    cases hok'
    have hdeltas := hmint.2 owed0 owed1 (congrArg Prod.fst hreturn)
    have hprincipal := ModifyLiquidityParams.principal_pos hpermits.range.1 ht.price hadd
    have hadds : (r.mintChange amount).adds = true := decide_eq_true (le_of_lt hadd)
    have hdelta := hspec.2.1
    unfold ModifyLiquidityParams.principalDelta at hdelta
    rw [hadds] at hdelta
    rw [hdelta] at h0' h1' hdeltas
    unfold signedPrincipal at h0' h1' hdeltas
    simp only [if_true] at h0' h1' hdeltas
    omega

/-- A mint reports what it did exactly when the pool refuses it, and before it touches the
position where the cast turned the amount into a removal. -/
theorem mintReports_iff (hp : p.Reachable) (h0 : 0 < amount) (hlt : amount < 2 ^ 128) :
    p.MintReports r amount ↔
      ¬ (p.pool.UpdatesPosition (r.mintChange amount) ∧
        (2 ^ 127 ≤ amount ∨ p.pool.SettlesChange (r.mintChange amount))) := by
  have ht := hp.typed
  have hne := mintChange_ne (r := r) h0 hlt
  have hpermits := RmUniswap.Pool.permits_iff ht.price hne
  have hmoved := RmUniswap.Pool.modify_position ht.ticks (ht.positions _) hne
  rw [← mint_pool] at hmoved
  have hindex : (r.mintChange amount).index = r.index := rfl
  rw [hindex] at hmoved
  rcases hmoved with ⟨hupdates, hmoved⟩ | ⟨hrefused, hkept⟩
  · rcases lt_or_ge amount (2 ^ 127) with hsmall | hlarge
    · have hdelta := mintChange_pos (r := r) h0 hsmall
      by_cases hsettles : p.pool.SettlesChange (r.mintChange amount)
      · exact iff_of_false (mint_permitted ht h0 hsmall (hpermits.mpr ⟨hupdates, hsettles⟩))
          (not_not.mpr ⟨hupdates, Or.inr hsettles⟩)
      · refine iff_of_true (Or.inl ⟨mint_refused ht hne fun h => hsettles (hpermits.mp h).2, ?_⟩)
          fun h => h.2.elim (not_le.mpr hsmall) hsettles
        omega
    · have hneg := mintChange_neg (r := r) hlt hlarge
      refine iff_of_false ?_ (not_not.mpr ⟨hupdates, Or.inl hlarge⟩)
      rintro (⟨_, hle⟩ | ⟨result, pool, owed0, owed1, _, hreturn, _, _, hadds⟩)
      · omega
      · rw [hreturn] at hmoved
        dsimp only at hmoved
        omega
  · refine iff_of_true (Or.inl ⟨mint_refused ht hne fun h => hrefused (hpermits.mp h).1, ?_⟩)
      fun h => hrefused h.1
    exact le_of_eq hkept.symm

theorem received_ne_err {overflowChecks : Bool} {delta feeDelta : Int} {e : Error} :
    received overflowChecks delta feeDelta ≠ .err e := by
  intro h
  unfold received negI128 at h
  rcases bind_eq_err.mp h with h | ⟨negated, _, h⟩
  · by_cases hover : NegOverflows overflowChecks delta
    · rw [Outcome.panicIf_of hover] at h
      cases h
    · rw [Outcome.panicIf_of_not hover] at h
      cases h
  · rcases bind_eq_err.mp h with h | ⟨principal, _, h⟩
    · exact u256FromI128_ne_err h
    · rcases bind_eq_err.mp h with h | ⟨fees, _, h⟩
      · exact u256FromI128_ne_err h
      · cases h

theorem received_eq_ok {overflowChecks : Bool} {delta feeDelta : Int} {n : Nat}
    (hdelta : 0 ≤ delta) (hfee : 0 ≤ feeDelta) (hfits : feeDelta < 2 ^ 256) :
    received overflowChecks delta feeDelta = .ok n ↔ delta = 0 ∧ (n : Int) = feeDelta := by
  unfold received
  rw [negI128_of_nonneg overflowChecks hdelta, Outcome.ok_bind]
  rcases eq_or_lt_of_le hdelta with hzero | hpos
  · have hsmall : feeDelta.toNat < 2 ^ 256 := by omega
    rw [← hzero, u256FromI128_of_nonneg (by norm_num), Outcome.ok_bind,
      u256FromI128_of_nonneg hfee, Outcome.ok_bind, Outcome.ok.injEq,
      show (-(0 : Int)).toNat + feeDelta.toNat = feeDelta.toNat from Nat.zero_add _,
      wrap_of_lt hsmall]
    omega
  · rw [u256FromI128_of_neg (by omega), Outcome.panic_bind]
    simp only [reduceCtorEq, false_iff]
    omega

theorem burn_of_ok {overflowChecks : Bool} {result : ModifyLiquidityResult}
    {pool : RmUniswap.Pool Positions A} (hneg : ¬ NegOverflows overflowChecks (asI128 amount))
    (h : p.pool.modifyLiquidity (r.burnChange amount) = (.ok result, pool)) :
    burn overflowChecks p r amount = (do
      let amount0 <- received overflowChecks result.delta.amount0 result.feeDelta.amount0
      let amount1 <- received overflowChecks result.delta.amount1 result.feeDelta.amount1
      .ok (amount0, amount1), { pool }) := by
  unfold burn
  rw [if_neg hneg, h]

theorem burn_ne_err {overflowChecks : Bool} {result : ModifyLiquidityResult}
    {pool : RmUniswap.Pool Positions A}
    (h : p.pool.modifyLiquidity (r.burnChange amount) = (.ok result, pool)) (e : Error) :
    (burn overflowChecks p r amount).1 ≠ .err e := by
  intro he
  by_cases hneg : NegOverflows overflowChecks (asI128 amount)
  · unfold burn at he
    rw [if_pos hneg] at he
    cases he
  · rw [burn_of_ok hneg h] at he
    rcases bind_eq_err.mp he with he | ⟨amount0, _, he⟩
    · exact received_ne_err he
    · rcases bind_eq_err.mp he with he | ⟨amount1, _, he⟩
      · exact received_ne_err he
      · cases he

theorem burn_eq_ok {overflowChecks : Bool} {result : ModifyLiquidityResult}
    {pool : RmUniswap.Pool Positions A} {paid0 paid1 : Nat}
    (hneg : ¬ NegOverflows overflowChecks (asI128 amount))
    (h : p.pool.modifyLiquidity (r.burnChange amount) = (.ok result, pool))
    (hdelta : 0 ≤ result.delta.amount0 ∧ 0 ≤ result.delta.amount1)
    (hfee : (0 ≤ result.feeDelta.amount0 ∧ result.feeDelta.amount0 < 2 ^ 127) ∧
      0 ≤ result.feeDelta.amount1 ∧ result.feeDelta.amount1 < 2 ^ 127) :
    burn overflowChecks p r amount = (.ok (paid0, paid1), { pool }) ↔
      (result.delta.amount0 = 0 ∧ (paid0 : Int) = result.feeDelta.amount0) ∧
        result.delta.amount1 = 0 ∧ (paid1 : Int) = result.feeDelta.amount1 := by
  have hwide {x : Int} (hx : x < 2 ^ 127) : x < 2 ^ 256 := hx.trans (by norm_num)
  rw [← @received_eq_ok overflowChecks _ _ _ hdelta.1 hfee.1.1 (hwide hfee.1.2),
    ← @received_eq_ok overflowChecks _ _ _ hdelta.2 hfee.2.1 (hwide hfee.2.2), burn_of_ok hneg h]
  constructor
  · intro heq
    rcases Outcome.bind_eq_ok.mp (congrArg Prod.fst heq) with ⟨amount0, hr0, hrest⟩
    rcases Outcome.bind_eq_ok.mp hrest with ⟨amount1, hr1, hok⟩
    cases hok
    exact ⟨hr0, hr1⟩
  · rintro ⟨hr0, hr1⟩
    rw [hr0, Outcome.ok_bind, hr1, Outcome.ok_bind]

/-- A burn that the pool accepts as a removal is reported exactly when it pays fees alone. -/
theorem burnReports_removed {overflowChecks : Bool} {result : ModifyLiquidityResult}
    {pool : RmUniswap.Pool Positions A} (ht : p.pool.Typed) (h0 : 0 < amount)
    (hsmall : amount ≤ 2 ^ 127) (hneg : ¬ NegOverflows overflowChecks (asI128 amount))
    (hr : p.pool.modifyLiquidity (r.burnChange amount) = (.ok result, pool)) :
    BurnReports overflowChecks p r amount ↔
      forall token0, (r.burnChange amount).exactPrincipal p.pool.state token0 < 1 := by
  have hlt : amount < 2 ^ 128 := lt_of_le_of_lt hsmall (by norm_num)
  rcases RmUniswap.Pool.modify_permitted ht.ticks ht.price (ht.positions _)
    (burnChange_ne h0 hlt) hr with ⟨_, hdelta, hfees, hposition⟩
  have hindex : (r.burnChange amount).index = r.index := rfl
  rw [hindex, burnChange_eq hlt, if_pos hsmall] at hposition
  have hadds : (r.burnChange amount).adds = false := by
    refine decide_eq_false ?_
    rw [burnChange_eq hlt, if_pos hsmall]
    omega
  unfold ModifyLiquidityParams.principalDelta signedPrincipal at hdelta
  simp only [hadds, Bool.false_eq_true, if_false] at hdelta
  rw [← ModifyLiquidityParams.principal_eq_zero_iff ht.price hadds]
  generalize (r.burnChange amount).principal p.pool.state = principal at hdelta ⊢
  have hnonneg : 0 ≤ result.delta.amount0 ∧ 0 ≤ result.delta.amount1 := by
    rw [hdelta]
    exact ⟨Int.natCast_nonneg _, Int.natCast_nonneg _⟩
  constructor
  · rintro (⟨e, he⟩ | ⟨result', pool', paid0, paid1, hok, hreturn, _⟩)
    · exact absurd he (burn_ne_err hr e)
    · rw [hr] at hok
      cases hok
      have hzero := (burn_eq_ok hneg hr hnonneg hfees).mp hreturn
      rw [hdelta] at hzero
      exact Prod.ext (Int.natCast_eq_zero.mp hzero.1.1) (Int.natCast_eq_zero.mp hzero.2.1)
  · intro hprincipal
    rw [hprincipal] at hdelta
    refine Or.inr ⟨result, pool, result.feeDelta.amount0.toNat, result.feeDelta.amount1.toNat, hr,
      ?_, ?_, ?_, by omega⟩
    · rw [burn_eq_ok hneg hr hnonneg hfees, hdelta]
      exact ⟨⟨rfl, Int.toNat_of_nonneg hfees.1.1⟩, rfl, Int.toNat_of_nonneg hfees.2.1⟩
    · rw [hdelta, Int.toNat_of_nonneg hfees.1.1]
      exact (zero_add _).symm
    · rw [hdelta, Int.toNat_of_nonneg hfees.2.1]
      exact (zero_add _).symm

/-- Past the width of the cast a burn adds liquidity, and never reports it. -/
theorem not_burnReports_added {overflowChecks : Bool} {result : ModifyLiquidityResult}
    {pool : RmUniswap.Pool Positions A} (ht : p.pool.Typed) (hlarge : 2 ^ 127 < amount)
    (hlt : amount < 2 ^ 128)
    (hr : p.pool.modifyLiquidity (r.burnChange amount) = (.ok result, pool)) :
    ¬ BurnReports overflowChecks p r amount := by
  have hposition := (RmUniswap.Pool.modify_permitted ht.ticks ht.price (ht.positions _)
    (burnChange_ne (by omega) hlt) hr).2.2.2
  have hindex : (r.burnChange amount).index = r.index := rfl
  rw [hindex, burnChange_eq hlt, if_neg (not_le.mpr hlarge)] at hposition
  rintro (⟨e, he⟩ | ⟨result', pool', paid0, paid1, hok, _, _, _, hremoved⟩)
  · exact burn_ne_err hr e he
  · rw [hr] at hok
    cases hok
    norm_num at hposition
    omega

theorem burnReports_iff (overflowChecks : Bool) (hp : p.Reachable) (h0 : 0 < amount)
    (hlt : amount < 2 ^ 128) :
    BurnReports overflowChecks p r amount ↔
      ¬ NegOverflows overflowChecks (asI128 amount) ∧
        (¬ (p.pool.UpdatesPosition (r.burnChange amount) ∧
            p.pool.SettlesChange (r.burnChange amount)) ∨
          amount ≤ 2 ^ 127 ∧
            forall token0, (r.burnChange amount).exactPrincipal p.pool.state token0 < 1) := by
  have ht := hp.typed
  have hne := burnChange_ne (r := r) h0 hlt
  rw [← RmUniswap.Pool.permits_iff ht.price hne]
  by_cases hneg : NegOverflows overflowChecks (asI128 amount)
  · have hpanic : burn overflowChecks p r amount = (.panic, p) := if_pos hneg
    simp only [hneg, not_true, false_and, iff_false]
    rintro (⟨e, he⟩ | ⟨_, _, _, _, _, he, _⟩)
    · rw [hpanic] at he
      cases he
    · rw [hpanic] at he
      cases he
  · rw [and_iff_right hneg]
    cases hr : p.pool.modifyLiquidity (r.burnChange amount) with
    | mk result pool =>
        cases result with
        | error e =>
            have hrefused : ¬ p.pool.Permits (r.burnChange amount) := by
              intro hpermits
              rcases RmUniswap.Pool.modify_ok_of_permits ht.ticks ht.price (ht.positions _) hne
                hpermits with ⟨_, _, hok⟩
              rw [hr] at hok
              cases hok
            refine iff_of_true (Or.inl ⟨e, ?_⟩) (Or.inl hrefused)
            unfold burn
            rw [if_neg hneg, hr]
        | ok result =>
            have hpermits := (RmUniswap.Pool.modify_permitted ht.ticks ht.price
              (ht.positions _) hne hr).1
            rw [or_iff_right (not_not.mpr hpermits)]
            rcases le_or_gt amount (2 ^ 127) with hsmall | hlarge
            · rw [and_iff_right hsmall]
              exact burnReports_removed ht h0 hsmall hneg hr
            · exact iff_of_false (not_burnReports_added ht hlarge hlt hr)
                (fun h => not_le.mpr hlarge h.1)

/-- The facade reports what the pool did exactly when a limit of the pool stops the change,
or a burn pays fees alone. -/
theorem reports_iff (hp : p.Reachable) (overflowChecks : Bool) (r : Range) (h0 : 0 < amount)
    (hlt : amount < 2 ^ 128) :
    (p.MintReports r amount ↔
      ¬ (p.pool.UpdatesPosition (r.mintChange amount) ∧
        (2 ^ 127 ≤ amount ∨ p.pool.SettlesChange (r.mintChange amount)))) ∧
      (BurnReports overflowChecks p r amount ↔
        ¬ NegOverflows overflowChecks (asI128 amount) ∧
          (¬ (p.pool.UpdatesPosition (r.burnChange amount) ∧
              p.pool.SettlesChange (r.burnChange amount)) ∨
            amount ≤ 2 ^ 127 ∧
              forall token0, (r.burnChange amount).exactPrincipal p.pool.state token0 < 1)) :=
  ⟨mintReports_iff hp h0 hlt, burnReports_iff overflowChecks hp h0 hlt⟩

end Reports

end Pool

/-!
# A facade that panics
-/

namespace Sample

def facade : Pool :=
  Pool.new (2 ^ 96) 0 0 RmUniswap.Sample.swapFee RmUniswap.Sample.tickSpacing
    RmUniswap.Sample.tickSpacing_isPositive

theorem facade_reachable : facade.Reachable :=
  Pool.Reachable.new 0 RmUniswap.Sample.swapFee (by decide) (by decide) (by decide)

def range : Range :=
  { owner := 1
    tickLower := -60
    tickUpper := 60
    lowerInRange := RmUniswap.Sample.add.lowerInRange
    upperInRange := RmUniswap.Sample.add.upperInRange }

def minted : Pool := (facade.mint range (10 ^ 18)).2

theorem facade_mint : (facade.mint range (10 ^ 18)).1 = .panic := by
  decide +kernel

theorem minted_burn : (Pool.burn true minted range (10 ^ 18)).1 = .panic := by
  decide +kernel

theorem minted_mint : (minted.mint range (2 ^ 128 - 1)).1 = .ok (0, 0) ∧
    ((minted.mint range (2 ^ 128 - 1)).2.pool.positions.stateAt range.index).liquidity =
      10 ^ 18 - 1 := by
  decide +kernel

theorem wideRange_lowerInRange : TickInRange (-887220) := by
  decide

theorem wideRange_upperInRange : TickInRange 887220 := by
  decide

def wideRange : Range :=
  { owner := 1
    tickLower := -887220
    tickUpper := 887220
    lowerInRange := wideRange_lowerInRange
    upperInRange := wideRange_upperInRange }

def cheap : Pool :=
  ((Pool.new minSqrtPrice minTick 0 RmUniswap.Sample.swapFee RmUniswap.Sample.tickSpacing
    RmUniswap.Sample.tickSpacing_isPositive).mint wideRange (2 ^ 64)).2

theorem cheap_reachable : cheap.Reachable :=
  (Pool.Reachable.new 0 RmUniswap.Sample.swapFee (by decide) (by decide) (by decide)).mint _ _

theorem cheap_mint : (cheap.mint wideRange (2 ^ 128 - 2 ^ 64)).1 = .err .amountOverflow ∧
    ((cheap.mint wideRange (2 ^ 128 - 2 ^ 64)).2.pool.positions.stateAt
      wideRange.index).liquidity < (cheap.pool.positions.stateAt wideRange.index).liquidity := by
  decide +kernel

end Sample

/-- A mint panics once it owes principal, so does a burn that pays some back, and a mint
of an amount above the signed range removes liquidity, also where it fails. -/
theorem facade_misreports :
    (exists (p q : Pool) (r : Range) (amount large : Nat), p.Reachable ∧ q.Reachable ∧
      0 < amount ∧ amount < 2 ^ 127 ∧ large < 2 ^ 128 ∧
      (p.mint r amount).1 = .panic ∧ ¬ p.MintReports r amount ∧
      (Pool.burn true q r amount).1 = .panic ∧ ¬ Pool.BurnReports true q r amount ∧
      (q.mint r large).1 = .ok (0, 0) ∧
      ((q.mint r large).2.pool.positions.stateAt r.index).liquidity <
        (q.pool.positions.stateAt r.index).liquidity) ∧
    exists (p : Pool) (r : Range) (large : Nat), p.Reachable ∧ large < 2 ^ 128 ∧
      (p.mint r large).1 = .err .amountOverflow ∧
      ((p.mint r large).2.pool.positions.stateAt r.index).liquidity <
        (p.pool.positions.stateAt r.index).liquidity := by
  refine ⟨?_, Sample.cheap, Sample.wideRange, 2 ^ 128 - 2 ^ 64, Sample.cheap_reachable,
    by norm_num, Sample.cheap_mint⟩
  refine ⟨Sample.facade, Sample.minted, Sample.range, 10 ^ 18, 2 ^ 128 - 1,
    Sample.facade_reachable, Sample.facade_reachable.mint _ _, by norm_num, by norm_num,
    by norm_num, Sample.facade_mint, ?_, Sample.minted_burn, ?_, Sample.minted_mint.1, ?_⟩
  · rintro (⟨⟨e, he⟩, _⟩ | ⟨_, _, _, _, _, he, _⟩)
    · rw [Sample.facade_mint] at he
      cases he
    · have hfst := congrArg Prod.fst he
      rw [Sample.facade_mint] at hfst
      cases hfst
  · rintro (⟨e, he⟩ | ⟨_, _, _, _, _, he, _⟩)
    · rw [Sample.minted_burn] at he
      cases he
    · have hfst := congrArg Prod.fst he
      rw [Sample.minted_burn] at hfst
      cases hfst
  · rw [Sample.minted_mint.2]
    have hfunded : (Sample.minted.pool.positions.stateAt Sample.range.index).liquidity =
        10 ^ 18 := by
      decide +kernel
    rw [hfunded]
    norm_num

theorem Pool.reports_iff_sample :
    (Sample.facade.MintReports Sample.range (10 ^ 18) ↔
      ¬ (Sample.facade.pool.UpdatesPosition (Sample.range.mintChange (10 ^ 18)) ∧
        (2 ^ 127 ≤ 10 ^ 18 ∨
          Sample.facade.pool.SettlesChange (Sample.range.mintChange (10 ^ 18))))) ∧
      (BurnReports true Sample.facade Sample.range (10 ^ 18) ↔
        ¬ NegOverflows true (asI128 (10 ^ 18)) ∧
          (¬ (Sample.facade.pool.UpdatesPosition (Sample.range.burnChange (10 ^ 18)) ∧
              Sample.facade.pool.SettlesChange (Sample.range.burnChange (10 ^ 18))) ∨
            10 ^ 18 ≤ 2 ^ 127 ∧ forall token0,
              (Sample.range.burnChange (10 ^ 18)).exactPrincipal Sample.facade.pool.state token0 <
                1)) :=
  Pool.reports_iff Sample.facade_reachable true Sample.range (by norm_num) (by norm_num)

end V3
end RmUniswap
