import RmUniswap.Foundation.Simulation
import RmUniswap.Pool.Collect
import RmUniswap.Pool.Exit
import RmUniswap.Pool.Fork
import RmUniswap.Pool.Undo

/-!
# Additions in any order

An addition acts on the ticks, on the positions and on the active liquidity of a pool.
Two additions act alike in either order, because a tick that has been started keeps its
growth. So a list of additions has one effect, and succeeds in every order or in none.
-/

namespace RmUniswap

open Foundation

variable {A : Type} [LawfulAllocator TickSlabValue A]

/-!
# Ticks
-/

namespace TickInfoInner

variable {info : TickInfoInner} {state : PoolState} {t d d' : Int}

def started (info : TickInfoInner) (state : PoolState) (t : Int) (token0 : Bool) : Nat :=
  if info.liquidityGross = 0 ∧ t ≤ state.tick then state.growth token0 else info.outside token0

theorem change_started (info : TickInfoInner) (state : PoolState) (t d : Int)
    (upper token0 : Bool) :
    (info.change state t d upper).outside token0 = info.started state t token0 := by
  unfold started change outside PoolState.growth ofToken
  dsimp only
  cases token0 <;> split <;> rfl

theorem started_change (hd : 0 < d) (upper token0 : Bool) :
    (info.change state t d upper).started state t token0 = info.started state t token0 := by
  rw [← change_started info state t d upper, started,
    if_neg fun h => change_gross_pos hd state t upper h.1]

theorem ext_outside {info' : TickInfoInner} (hgross : info.liquidityGross = info'.liquidityGross)
    (hnet : info.liquidityNet = info'.liquidityNet)
    (houtside : forall token0, info.outside token0 = info'.outside token0) : info = info' := by
  have houtside0 := houtside true
  have houtside1 := houtside false
  cases info
  cases info'
  cases hgross
  cases hnet
  cases houtside0
  cases houtside1
  rfl

theorem change_comm (hd : 0 < d) (hd' : 0 < d') (upper upper' : Bool) :
    (info.change state t d upper).change state t d' upper' =
      (info.change state t d' upper').change state t d upper := by
  have houtside (token0 : Bool) :
      ((info.change state t d upper).change state t d' upper').outside token0 =
        ((info.change state t d' upper').change state t d upper).outside token0 := by
    rw [change_started, change_started, started_change hd, started_change hd']
  have hgross : ((info.change state t d upper).change state t d' upper').liquidityGross =
      ((info.change state t d' upper').change state t d upper).liquidityGross := by
    unfold change
    dsimp only
    omega
  have hnet : ((info.change state t d upper).change state t d' upper').liquidityNet =
      ((info.change state t d' upper').change state t d upper).liquidityNet := by
    unfold change netAfter
    dsimp only
    split <;> split <;> ring
  exact ext_outside hgross hnet houtside

end TickInfoInner

namespace ModifyLiquidityParams

variable {params : ModifyLiquidityParams} {state : PoolState} {t : Int} {info : TickInfoInner}

def changeAt (params : ModifyLiquidityParams) (state : PoolState) (t : Int)
    (info : TickInfoInner) : TickInfoInner :=
  if t = params.tickLower then info.change state t params.liquidityDelta false
  else if t = params.tickUpper then info.change state t params.liquidityDelta true
  else info

theorem tickAt_changeTicks (hd : 0 < params.liquidityDelta)
    (hlt : params.tickLower < params.tickUpper) (state : PoolState)
    (ticks : SortedMap Int TickInfoInner) (t : Int) :
    tickAt (params.changeTicks state ticks) t = params.changeAt state t (tickAt ticks t) := by
  unfold changeTicks changeAt
  by_cases hu : t = params.tickUpper
  · rw [hu, if_neg (ne_of_gt hlt), if_pos rfl]
    exact tickAt_storeTick_self (TickInfoInner.change_gross_pos hd _ _ _)
  · rw [tickAt_storeTick_ne hu]
    by_cases hl : t = params.tickLower
    · rw [hl, if_pos rfl]
      exact tickAt_storeTick_self (TickInfoInner.change_gross_pos hd _ _ _)
    · rw [tickAt_storeTick_ne hl, if_neg hl, if_neg hu]

theorem changeAt_comm {other : ModifyLiquidityParams} (hd : 0 < params.liquidityDelta)
    (hd' : 0 < other.liquidityDelta) :
    other.changeAt state t (params.changeAt state t info) =
      params.changeAt state t (other.changeAt state t info) := by
  unfold changeAt
  split_ifs <;> first | rfl | exact TickInfoInner.change_comm hd hd' _ _

theorem changeAt_started (h : t = params.tickLower ∨ t = params.tickUpper) (token0 : Bool) :
    (params.changeAt state t info).outside token0 = info.started state t token0 := by
  unfold changeAt
  split_ifs with hl hu
  · exact TickInfoInner.change_started _ _ _ _ _ _
  · exact TickInfoInner.change_started _ _ _ _ _ _
  · exact absurd h (not_or.mpr ⟨hl, hu⟩)

theorem started_changeAt (hd : 0 < params.liquidityDelta) (token0 : Bool) :
    (params.changeAt state t info).started state t token0 = info.started state t token0 := by
  unfold changeAt
  split_ifs
  · exact TickInfoInner.started_change hd _ _
  · exact TickInfoInner.started_change hd _ _
  · rfl

end ModifyLiquidityParams

/-!
# The books of a pool
-/

@[ext] structure Books where
  ticks : Int -> TickInfoInner
  positions : PositionIndex -> Option PositionState
  liquidity : Int

namespace Books

variable {state : PoolState} {books : Books} {params other : ModifyLiquidityParams}

def inside (state : PoolState) (books : Books) (params : ModifyLiquidityParams) : Nat × Nat :=
  Pool.feeGrowthInside state params.tickLower params.tickUpper
    ((params.changeAt state params.tickLower (books.ticks params.tickLower)).boundary
      params.tickLower)
    ((params.changeAt state params.tickUpper (books.ticks params.tickUpper)).boundary
      params.tickUpper)

/-- The effect of an addition. -/
def add (state : PoolState) (books : Books) (params : ModifyLiquidityParams) : Books :=
  { ticks := fun t => params.changeAt state t (books.ticks t)
    positions := fun i =>
      if i = params.index then
        some (((books.positions i).getD PositionState.default).updated params.liquidityDelta
          (inside state books params))
      else books.positions i
    liquidity := books.liquidity +
      params.liquidityDelta * Positions.covering state.tick params.index }

theorem inside_congr (hl : other.tickLower = params.tickLower)
    (hu : other.tickUpper = params.tickUpper) :
    inside state books other = inside state books params := by
  have htoken (token0 : Bool) : ofToken token0 (inside state books other) =
      ofToken token0 (inside state books params) := by
    unfold inside
    rw [hl, hu]
    refine feeGrowthInside_congr rfl rfl ?_ ?_
    · rw [ModifyLiquidityParams.changeAt_started (Or.inl hl.symm),
        ModifyLiquidityParams.changeAt_started (Or.inl rfl)]
    · rw [ModifyLiquidityParams.changeAt_started (Or.inr hu.symm),
        ModifyLiquidityParams.changeAt_started (Or.inr rfl)]
  exact Prod.ext (htoken true) (htoken false)

theorem inside_add (hd : 0 < other.liquidityDelta) :
    inside state (add state books other) params = inside state books params := by
  have htoken (token0 : Bool) : ofToken token0 (inside state (add state books other) params) =
      ofToken token0 (inside state books params) := by
    unfold inside add
    refine feeGrowthInside_congr rfl rfl ?_ ?_
    · rw [ModifyLiquidityParams.changeAt_started (Or.inl rfl),
        ModifyLiquidityParams.changeAt_started (Or.inl rfl),
        ModifyLiquidityParams.started_changeAt hd]
    · rw [ModifyLiquidityParams.changeAt_started (Or.inr rfl),
        ModifyLiquidityParams.changeAt_started (Or.inr rfl),
        ModifyLiquidityParams.started_changeAt hd]
  exact Prod.ext (htoken true) (htoken false)

theorem add_comm (hd : 0 < params.liquidityDelta) (hd' : 0 < other.liquidityDelta) :
    add state (add state books params) other = add state (add state books other) params := by
  refine Books.ext ?_ ?_ ?_
  · funext t
    exact ModifyLiquidityParams.changeAt_comm hd hd'
  · funext i
    show (if i = other.index then some (PositionState.updated _ _
        (inside state (add state books params) other)) else _) =
      if i = params.index then some (PositionState.updated _ _
        (inside state (add state books other) params)) else _
    rw [inside_add hd, inside_add hd']
    unfold add
    dsimp only
    by_cases hi : i = params.index
    · by_cases hi' : i = other.index
      · have hsame : other.index = params.index := hi'.symm.trans hi
        have hinside : inside state books other = inside state books params :=
          inside_congr (congrArg PositionIndex.tickLower hsame)
            (congrArg PositionIndex.tickUpper hsame)
        rw [if_pos hi, if_pos hi', if_pos hi', if_pos hi, hinside]
        unfold PositionState.updated
        dsimp only [Option.getD_some]
        congr 2
        omega
      · rw [if_neg hi', if_pos hi, if_pos hi, if_neg hi']
    · by_cases hi' : i = other.index
      · rw [if_pos hi', if_neg hi, if_neg hi, if_pos hi']
      · rw [if_neg hi', if_neg hi, if_neg hi, if_neg hi']
  · show books.liquidity + _ + _ = books.liquidity + _ + _
    ring

end Books

namespace Pool

section Books

variable {p p' q : Pool Positions A} {params : ModifyLiquidityParams}
  {result : ModifyLiquidityResult}

def books (p : Pool Positions A) : Books :=
  { ticks := tickAt p.ticks.snapshot
    positions := p.positions.map.get?
    liquidity := p.state.liquidity }

/-- Two pools at one price over one spacing with the same fees. -/
structure SameMarket (p q : Pool Positions A) : Prop where
  state : q.state = { p.state with liquidity := q.state.liquidity }
  swapFee : q.swapFee = p.swapFee
  tickSpacing : q.tickSpacing = p.tickSpacing

theorem SameMarket.refl (p : Pool Positions A) : SameMarket p p := ⟨rfl, rfl, rfl⟩

theorem SameMarket.trans (h : SameMarket p p') (h' : SameMarket p' q) : SameMarket p q := by
  refine ⟨?_, h'.swapFee.trans h.swapFee, h'.tickSpacing.trans h.tickSpacing⟩
  rw [h'.state, h.state]

theorem Backed.books_add (hp : p.Backed) (hd : 0 < params.liquidityDelta)
    (h : p.modifyLiquidity params = (.ok result, p')) :
    p'.books = p.books.add p.state params ∧ SameMarket p p' := by
  have hchanged := modify_changed hp.sound.toUsable (ne_of_gt hd) h
  have hpositions := (realizeFees_ok hp hchanged.fees).2.2
  have hlt := hchanged.range.1
  refine ⟨Books.ext ?_ ?_ hchanged.liquidity, ?_⟩
  · funext t
    show tickAt p'.ticks.snapshot t = params.changeAt p.state t (tickAt p.ticks.snapshot t)
    rw [hchanged.ticks]
    exact ModifyLiquidityParams.tickAt_changeTicks hd hlt _ _ _
  · funext i
    have hinside : Books.inside p.state p.books params =
        p.insideAt params (params.lowerAfter p.state p.ticks.snapshot)
          (params.upperAfter p.state p.ticks.snapshot) := by
      unfold Books.inside ModifyLiquidityParams.changeAt
      rw [if_pos rfl, if_neg (ne_of_gt hlt), if_pos rfl]
      rfl
    show p'.positions.map.get? i = if i = params.index then
      some (PositionState.updated _ _ (Books.inside p.state p.books params)) else _
    rw [hinside, hpositions]
    unfold Positions.put
    rw [SortedMap.get?_insert]
    split
    · rename_i hi
      rw [hi]
      rfl
    · rfl
  · have hcases := modify_cases hp.sound.holds params
    rw [h] at hcases
    cases hcases with
    | done _ _ _ hprincipal => exact ⟨(settlePrincipal_ok hprincipal).1, rfl, rfl⟩

theorem SameMarket.twin (h : SameMarket p q) (hp : p.Backed) (hq : q.Backed)
    (hbooks : q.books = p.books) : Twin p q := by
  have hliquidity : q.state.liquidity = p.state.liquidity :=
    Int.ofNat.inj (congrArg Books.liquidity hbooks)
  have htick (t : Int) : tickAt q.ticks.snapshot t = tickAt p.ticks.snapshot t :=
    congrFun (congrArg Books.ticks hbooks) t
  refine ⟨?_, h.swapFee, h.tickSpacing, ?_, ?_⟩
  · rw [h.state, hliquidity]
  · apply SortedMap.ext
    intro t
    have hsame := htick t
    cases hget : p.ticks.snapshot.get? t with
    | none =>
        cases hget' : q.ticks.snapshot.get? t with
        | none => rfl
        | some info =>
            have hpos := hq.reconciled.positive t info hget'
            rw [tickAt_none hget, tickAt_some hget'] at hsame
            rw [hsame] at hpos
            exact absurd hpos (by decide)
    | some info =>
        cases hget' : q.ticks.snapshot.get? t with
        | none =>
            have hpos := hp.reconciled.positive t info hget
            rw [tickAt_some hget, tickAt_none hget'] at hsame
            rw [← hsame] at hpos
            exact absurd hpos (by decide)
        | some info' =>
            rw [tickAt_some hget, tickAt_some hget'] at hsame
            rw [hsame]
  · have hmap : q.positions.map = p.positions.map :=
      SortedMap.ext fun i => congrFun (congrArg Books.positions hbooks) i
    cases hp' : p.positions
    cases hq' : q.positions
    rw [hp', hq'] at hmap
    cases hmap
    rfl

end Books

/-!
# Room for additions
-/

def due (p : Pool Positions A) (token0 : Bool) (i : PositionIndex) : Nat :=
  (p.positions.stateAt i).liquidity * p.growthSince token0 i / 2 ^ 128

structure Welcomes (p : Pool Positions A) (additions : List ModifyLiquidityParams) : Prop where
  positive : forall e, e ∈ additions -> 0 < e.liquidityDelta
  range : forall e, e ∈ additions -> e.RangeValid p.tickSpacing
  room : forall t, p.positions.grossAt t +
    (additions.map fun e => e.liquidityDelta * Positions.touching t e.index).sum ≤
      p.tickSpacing.maxLiquidityPerTick
  fees : forall e, e ∈ additions -> forall token0, p.due token0 e.index < 2 ^ 127
  principal : forall e, e ∈ additions -> PrincipalFits e.adds (e.principal p.state).1 ∧
    PrincipalFits e.adds (e.principal p.state).2

section Welcomes

variable {p p' : Pool Positions A} {e : ModifyLiquidityParams}
  {additions additions' : List ModifyLiquidityParams} {result : ModifyLiquidityResult}

theorem Backed.welcomes_nil (hp : p.Backed) : p.Welcomes [] := by
  refine ⟨fun _ he => ?_, fun _ he => ?_, fun t => ?_, fun _ he => ?_, fun _ he => ?_⟩
  · cases he
  · cases he
  · have hgross := hp.reconciled.gross t
    have hcap := hp.reconciled.cap t
    rw [List.map_nil, List.sum_nil, add_zero, ← hgross]
    exact_mod_cast hcap
  · cases he
  · cases he

theorem Welcomes.perm (h : p.Welcomes additions) (hperm : additions.Perm additions') :
    p.Welcomes additions' :=
  { positive := fun e he => h.positive e (hperm.mem_iff.mpr he)
    range := fun e he => h.range e (hperm.mem_iff.mpr he)
    room := fun t => by
      rw [← (hperm.map _).sum_eq]
      exact h.room t
    fees := fun e he => h.fees e (hperm.mem_iff.mpr he)
    principal := fun e he => h.principal e (hperm.mem_iff.mpr he) }

theorem Welcomes.room_head (h : p.Welcomes (e :: additions)) {t : Int}
    (ht : e.tickLower = t ∨ e.tickUpper = t) :
    p.positions.grossAt t + e.liquidityDelta ≤ p.tickSpacing.maxLiquidityPerTick := by
  have hroom := h.room t
  have hpos := h.positive e List.mem_cons_self
  have hrest :
      0 ≤ (additions.map fun e => e.liquidityDelta * Positions.touching t e.index).sum := by
    apply List.sum_nonneg
    intro x hx
    rcases List.mem_map.mp hx with ⟨e', he', rfl⟩
    exact mul_nonneg (le_of_lt (h.positive e' (List.mem_cons_of_mem _ he')))
      (Positions.touching_nonneg t _)
  have hone := Positions.one_le_touching (i := e.index) ht
  rw [List.map_cons, List.sum_cons] at hroom
  nlinarith

theorem Welcomes.admits (h : p.Welcomes (e :: additions)) (hp : p.Backed) {t : Int}
    (ht : e.tickLower = t ∨ e.tickUpper = t) (upper : Bool) :
    (tickAt p.ticks.snapshot t).Admits p.tickSpacing.maxLiquidityPerTick e.liquidityDelta
      upper := by
  have hpos := h.positive e List.mem_cons_self
  have hroom := h.room_head ht
  rw [← hp.reconciled.gross t] at hroom
  exact hp.admits (by omega) hroom upper

theorem Welcomes.head (h : p.Welcomes (e :: additions)) (hp : p.Backed) (hr : p.Ranged) :
    p.Permits e := by
  have hpos := h.positive e List.mem_cons_self
  have hroom := h.room_head (Or.inl rfl)
  have hcap := TickSpacing.maxLiquidityPerTick_lt hp.sound.positive
  have hheld := hp.stateAt_le_gross (i := e.index) (Or.inl rfl)
  rw [← hp.reconciled.gross] at hroom
  have hdelta : e.liquidityDelta ≠ 0 := ne_of_gt hpos
  have hearned (token0 : Bool) :=
    (hp.earned_changed hdelta token0).trans_lt (h.fees e List.mem_cons_self token0)
  refine
    { range := h.range e List.mem_cons_self
      lower := h.admits hp (Or.inl rfl) false
      upper := h.admits hp (Or.inr rfl) true
      position := ?_
      fees := ⟨hearned true, hearned false⟩
      active := fun _ => ?_
      principal := h.principal e List.mem_cons_self }
  · have hheld : (p.positions.stateAt e.index).liquidity ≤
        (tickAt p.ticks.snapshot e.tickLower).liquidityGross := hheld
    unfold PositionState.Updatable
    rw [if_neg (ne_of_gt hpos)]
    norm_num at hcap ⊢
    omega
  · have hactive := (hr.netBelow_bounds hp p.state.tick).2
    rw [← hp.sound.active] at hactive
    norm_num at hcap hactive ⊢
    omega

theorem Backed.grossAt_modify (hp : p.Backed) (h : p.modifyLiquidity e = (.ok result, p'))
    (t : Int) : p'.positions.grossAt t =
      p.positions.grossAt t + e.liquidityDelta * Positions.touching t e.index := by
  have hrealizes := hp.realizes h
  rw [hrealizes.positions]
  exact weighted_put hrealizes.updatable _ _

theorem Backed.due_add (hp : p.Backed) (hd : 0 < e.liquidityDelta)
    (h : p.modifyLiquidity e = (.ok result, p')) (token0 : Bool) (i : PositionIndex) :
    p'.due token0 i = if i = e.index then 0 else p.due token0 i := by
  have hrealizes := hp.realizes h
  have hliquidity := hp.liquidity_modify h i
  unfold due
  split
  · rename_i hi
    rw [hi, if_pos rfl] at hliquidity
    rw [hi, hrealizes.restarts token0 (by omega), Nat.mul_zero, Nat.zero_div]
  · rename_i hi
    rw [hrealizes.positions, stateAt_put_ne _ hi]
    by_cases hl : (p.positions.stateAt i).liquidity = 0
    · rw [hl, Nat.zero_mul, Nat.zero_mul]
    · rw [hrealizes.others token0 i hi hl]

theorem Welcomes.tail (h : p.Welcomes (e :: additions)) (hp : p.Backed)
    (hm : p.modifyLiquidity e = (.ok result, p')) : p'.Welcomes additions := by
  have hpos := h.positive e List.mem_cons_self
  have hmarket := (hp.books_add hpos hm).2
  refine ⟨fun e he => h.positive e (List.mem_cons_of_mem _ he), fun e' he' => ?_, fun t => ?_,
    fun e' he' token0 => ?_, fun e' he' => ?_⟩
  · rw [hmarket.tickSpacing]
    exact h.range e' (List.mem_cons_of_mem _ he')
  · have hroom := h.room t
    rw [List.map_cons, List.sum_cons] at hroom
    rw [hmarket.tickSpacing, hp.grossAt_modify hm]
    omega
  · rw [hp.due_add hpos hm]
    split
    · exact Nat.two_pow_pos 127
    · exact h.fees e' (List.mem_cons_of_mem _ he') token0
  · rw [hmarket.state]
    exact h.principal e' (List.mem_cons_of_mem _ he')

theorem Welcomes.cons (h : p'.Welcomes additions) (hp : p.Backed) (hpos : 0 < e.liquidityDelta)
    (hm : p.modifyLiquidity e = (.ok result, p')) : p.Welcomes (e :: additions) := by
  have hmarket := (hp.books_add hpos hm).2
  have hpermitted := modify_permitted hp.sound.holds hp.sound.price (hp.position_lt _)
    (ne_of_gt hpos) hm
  have hfirst (token0 : Bool) : p.due token0 e.index < 2 ^ 127 := by
    have hpaid := (hp.realizes hm).fees token0
    have hfits : result.feeDelta.amount token0 < 2 ^ 127 := by
      cases token0 with
      | true => exact hpermitted.2.2.1.1.2
      | false => exact hpermitted.2.2.1.2.2
    rw [hpaid] at hfits
    exact_mod_cast hfits
  refine ⟨fun e' he' => ?_, fun e' he' => ?_, fun t => ?_, fun e' he' token0 => ?_,
    fun e' he' => ?_⟩
  · rcases List.mem_cons.mp he' with rfl | he'
    · exact hpos
    · exact h.positive e' he'
  · rcases List.mem_cons.mp he' with rfl | he'
    · exact hpermitted.1.range
    · rw [← hmarket.tickSpacing]
      exact h.range e' he'
  · have hroom := h.room t
    rw [hmarket.tickSpacing, hp.grossAt_modify hm] at hroom
    rw [List.map_cons, List.sum_cons]
    omega
  · rcases List.mem_cons.mp he' with rfl | he'
    · exact hfirst token0
    · have hdue := h.fees e' he' token0
      rw [hp.due_add hpos hm] at hdue
      split at hdue
      · rename_i hsame
        rw [hsame]
        exact hfirst token0
      · exact hdue
  · rcases List.mem_cons.mp he' with rfl | he'
    · exact hpermitted.1.principal
    · have hprincipal := h.principal e' he'
      rw [hmarket.state] at hprincipal
      exact hprincipal

end Welcomes

/-!
# Runs of additions
-/

structure Added (additions : List ModifyLiquidityParams) (ops : List Operation)
    (p p' : Pool Positions A) : Prop where
  welcome : p.Welcomes additions
  books : p'.books = additions.foldl (Books.add p.state) p.books
  market : SameMarket p p'
  paid : forall i token0, Operation.paid i token0 ops =
    if i ∈ additions.map ModifyLiquidityParams.index then (p.due token0 i : Int) else 0
  principal : forall params result, Operation.modifyLiquidity params result ∈ ops ->
    result.delta = params.principalDelta p.state

section Added

variable {p0 p p' p'' : Pool Positions A} {e : ModifyLiquidityParams}
  {additions additions' : List ModifyLiquidityParams} {result : ModifyLiquidityResult}
  {history ops ops' : List Operation}

theorem Added.cons (h : Added additions ops p' p'') (hp : p.Backed) (hpos : 0 < e.liquidityDelta)
    (hm : p.modifyLiquidity e = (.ok result, p')) :
    Added (e :: additions) (.modifyLiquidity e result :: ops) p p'' := by
  have hbooks := hp.books_add hpos hm
  have hadd : Books.add p'.state = Books.add p.state := by
    rw [hbooks.2.state]
    rfl
  refine ⟨h.welcome.cons hp hpos hm, ?_, hbooks.2.trans h.market, fun i token0 => ?_,
    fun params result' hmem => ?_⟩
  · rw [List.foldl_cons, ← hbooks.1, h.books, hadd]
  · have hrest := h.paid i token0
    rw [hp.due_add hpos hm] at hrest
    show (if e.index = i then result.feeDelta.amount token0 else 0) +
      Operation.paid i token0 ops = _
    rw [hrest, List.map_cons]
    by_cases hi : i = e.index
    · rw [if_pos hi.symm, if_pos hi, if_pos (List.mem_cons.mpr (Or.inl hi)), Nat.cast_zero,
        ite_self, add_zero, (hp.realizes hm).fees token0, hi]
      rfl
    · have hmem : i ∈ e.index :: additions.map ModifyLiquidityParams.index ↔
          i ∈ additions.map ModifyLiquidityParams.index := by
        rw [List.mem_cons]
        exact or_iff_right hi
      rw [if_neg (fun h => hi h.symm), if_neg hi, zero_add, if_congr hmem rfl rfl]
  · rcases List.mem_cons.mp hmem with heq | hmem
    · cases heq
      exact (modify_changed hp.sound.toUsable (ne_of_gt hpos) hm).delta
    · rw [h.principal params result' hmem, hbooks.2.state]
      rfl

theorem Backed.run_added (hp : p.Backed) (h : Run Performs p ops p')
    (hops : ops.map Operation.request = additions.map Request.modifyLiquidity)
    (hpos : forall e, e ∈ additions -> 0 < e.liquidityDelta) : Added additions ops p p' := by
  induction h generalizing additions with
  | nil p =>
      rw [List.map_nil, eq_comm, List.map_eq_nil_iff] at hops
      rw [hops]
      exact ⟨hp.welcomes_nil, rfl, SameMarket.refl p, fun _ _ => rfl, fun _ _ h => by cases h⟩
  | @cons p mid p' o ops ho hrest ih =>
      cases additions with
      | nil => cases hops
      | cons e additions =>
          rw [List.map_cons, List.map_cons, List.cons.injEq] at hops
          have hmid := hp.performs ho
          cases ho with
          | modifyLiquidity hm =>
              cases hops.1
              exact (ih hmid hops.2 fun e' he' => hpos e' (List.mem_cons_of_mem _ he')).cons hp
                (hpos e List.mem_cons_self) hm
          | swap _ => cases hops.1
          | setProtocolFee _ => cases hops.1

structure Welcoming (rest : List ModifyLiquidityParams) (s : Pool Positions A) : Prop where
  backed : s.Backed
  ranged : s.Ranged
  ahead : s.Welcomes rest

theorem Welcoming.serve (h : Welcoming (e :: additions) p) :
    exists o p', Performs p o p' ∧ o.request = Request.modifyLiquidity e ∧
      Welcoming additions p' := by
  have hsound := h.backed.sound
  have hpermits := h.ahead.head h.backed h.ranged
  rcases modify_ok_of_permits hsound.holds hsound.price (h.backed.position_lt e.index)
    (ne_of_gt (h.ahead.positive e List.mem_cons_self)) hpermits with ⟨result, p', hm⟩
  have hperforms : Performs p (.modifyLiquidity e result) p' := Performs.modifyLiquidity hm
  exact ⟨_, p', hperforms, rfl, h.backed.performs hperforms, h.ranged.performs h.backed hperforms,
    h.ahead.tail h.backed hm⟩

theorem Welcomes.run (h : p.Welcomes additions) (hp : p.Backed) (hr : p.Ranged) :
    exists ops p', Run Performs p ops p' ∧
      ops.map Operation.request = additions.map Request.modifyLiquidity := by
  rcases Run.exists_of_serves (I := Welcoming) (fun _ _ _ hs => hs.serve)
    (⟨hp, hr, h⟩ : Welcoming additions p) with ⟨ops, p', hrun, hmap, _⟩
  exact ⟨ops, p', hrun, hmap⟩

/-- Additions that succeed in one order succeed in every other one. The pools that they
leave answer alike after every later list of requests, every addition puts in the same
principal, and every position is paid the same fees. -/
theorem run_additions (h0 : p0.Fresh) (hhistory : Run Performs p0 history p)
    (h : Run Performs p ops p')
    (hops : ops.map Operation.request = additions.map Request.modifyLiquidity)
    (hpos : forall e, e ∈ additions -> 0 < e.liquidityDelta)
    (hperm : additions.Perm additions') :
    exists ops' p'', Run Performs p ops' p'' ∧
      ops'.map Operation.request = additions'.map Request.modifyLiquidity ∧
      (forall requests q, Run Attempts p' requests q ->
        exists q', Run Attempts p'' requests q' ∧ q.AnswersAlike q') ∧
      (forall i token0, Operation.paid i token0 ops' = Operation.paid i token0 ops) ∧
      forall params result result', Operation.modifyLiquidity params result ∈ ops ->
        Operation.modifyLiquidity params result' ∈ ops' -> result'.delta = result.delta := by
  have hp := h0.run hhistory
  have hadded := hp.1.run_added h hops hpos
  have hwelcome := hadded.welcome.perm hperm
  rcases hwelcome.run hp.1 hp.2 with ⟨ops', p'', hrun, hmap⟩
  have hadded' := hp.1.run_added hrun hmap hwelcome.positive
  have hbacked := hp.1.run h
  have hbacked' := hp.1.run hrun
  have hbooks : p''.books = p'.books := by
    rw [hadded'.books, hadded.books]
    exact (hperm.foldl_eq' (fun x hx y hy books =>
      (Books.add_comm (hpos x hx) (hpos y hy))) p.books).symm
  have hmarket : SameMarket p' p'' := by
    refine ⟨?_, hadded'.market.swapFee.trans hadded.market.swapFee.symm,
      hadded'.market.tickSpacing.trans hadded.market.tickSpacing.symm⟩
    rw [hadded.market.state, hadded'.market.state]
  have htwin := hmarket.twin hbacked hbacked' hbooks
  refine ⟨ops', p'', hrun, hmap,
    fun _ _ => htwin.run hbacked.sound.toUsable hbacked'.sound.toUsable, fun i token0 => ?_,
    fun params result result' hmem hmem' => ?_⟩
  · rw [hadded'.paid, hadded.paid]
    exact if_congr (hperm.map _).mem_iff.symm rfl rfl
  · rw [hadded.principal params result hmem, hadded'.principal params result' hmem']

end Added

end Pool

/-!
# Example
-/

namespace Sample

/-- A range inside the one of {lit}`add`. -/
def inner : ModifyLiquidityParams :=
  { add with
    tickLower := -60
    tickUpper := 0
    liquidityDelta := 10 ^ 17
    salt := 1
    lowerInRange := add.lowerInRange
    upperInRange := by decide
    deltaFits := by decide }

def innerAdded : ModifyLiquidityResult := ((funded.modifyLiquidity inner).1.toOption).getD added

def again : ModifyLiquidityResult :=
  (((funded.modifyLiquidity inner).2.modifyLiquidity add).1.toOption).getD added

def crowded : Pool Positions := ((funded.modifyLiquidity inner).2.modifyLiquidity add).2

theorem funded_crowded :
    Run Pool.Performs funded [.modifyLiquidity inner innerAdded, .modifyLiquidity add again]
      crowded := by
  have hfirst : (funded.modifyLiquidity inner).1 = .ok innerAdded := by
    decide +kernel
  have hsecond : ((funded.modifyLiquidity inner).2.modifyLiquidity add).1 = .ok again := by
    decide +kernel
  exact Run.cons (Pool.Performs.modifyLiquidity (Prod.ext hfirst rfl))
    (Run.cons (Pool.Performs.modifyLiquidity (Prod.ext hsecond rfl)) (Run.nil crowded))

end Sample

theorem Pool.run_additions_sample :
    exists ops' p'', Run Pool.Performs Sample.funded ops' p'' ∧
      ops'.map Operation.request =
        [Request.modifyLiquidity Sample.add, Request.modifyLiquidity Sample.inner] ∧
      forall requests q, Run Pool.Attempts Sample.crowded requests q ->
        exists q', Run Pool.Attempts p'' requests q' ∧ q.AnswersAlike q' := by
  have hhistory : Run Pool.Performs Sample.empty [.modifyLiquidity Sample.add Sample.added]
      Sample.funded :=
    Run.cons (Pool.Performs.modifyLiquidity Sample.empty_add) (Run.nil Sample.funded)
  have hops : [Operation.modifyLiquidity Sample.inner Sample.innerAdded,
      .modifyLiquidity Sample.add Sample.again].map Operation.request =
      [Sample.inner, Sample.add].map Request.modifyLiquidity := rfl
  have hpos : forall e, e ∈ [Sample.inner, Sample.add] -> 0 < e.liquidityDelta := by
    decide
  have hperm : [Sample.inner, Sample.add].Perm [Sample.add, Sample.inner] :=
    List.Perm.swap Sample.add Sample.inner []
  rcases Pool.run_additions Sample.empty_fresh hhistory Sample.funded_crowded hops hpos hperm with
    ⟨ops', p'', hrun, hmap, halike, _⟩
  exact ⟨ops', p'', hrun, hmap, halike⟩

end RmUniswap
