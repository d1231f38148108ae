import RmUniswap.Pool.Solvency

/-!
# What a caller can take out

A caller swaps as it likes and changes positions of its own. If none of them has
liquidity before or after, the liquidity of every price is as it was, and the other
positions are owed no less. What the caller took out then comes from moving the
price, which gives of one token and takes of the other.
-/

namespace RmUniswap

open Foundation

variable {A : Type} [LawfulAllocator TickSlabValue A]

namespace Operation

def gain (token0 : Bool) : Operation -> Int
  | .modifyLiquidity _ result => result.delta.amount token0 + result.feeDelta.amount token0
  | .swap _ result => result.swapDelta.amount token0
  | .setProtocolFee _ => 0

/-- What a run pays its caller minus what the caller paid in. -/
def gains (ops : List Operation) (token0 : Bool) : Int := (ops.map (gain token0)).sum

/-- Only positions of a set are changed. -/
def Within (mine : PositionIndex -> Prop) : Operation -> Prop
  | .modifyLiquidity params _ => mine params.index
  | .swap _ _ => True
  | .setProtocolFee _ => True

theorem gain_le (token0 : Bool) (o : Operation) : o.gain token0 ≤ -o.received token0 := by
  cases o with
  | modifyLiquidity params result =>
      unfold gain received
      rw [neg_neg]
  | swap params result =>
      unfold gain received
      dsimp only
      split <;> omega
  | setProtocolFee protocolFee =>
      exact le_refl 0

theorem gains_le (ops : List Operation) (token0 : Bool) :
    gains ops token0 ≤ -balance ops token0 := by
  unfold gains balance
  induction ops with
  | nil =>
      exact le_refl 0
  | cons o ops ih =>
      have hle := gain_le token0 o
      rw [List.map_cons, List.sum_cons, List.map_cons, List.sum_cons]
      omega

end Operation

namespace Pool

variable {p p' : Pool Positions A} {mine : PositionIndex -> Prop} {ops : List Operation}

/-!
# Positions that are left alone
-/

/-- Every position outside a set is as it was, and has accrued no less. -/
structure Spares (mine : PositionIndex -> Prop) (p p' : Pool Positions A) : Prop where
  kept : forall i, ¬ mine i -> p'.positions.stateAt i = p.positions.stateAt i
  accrued : forall token0 i, ¬ mine i -> (p.positions.stateAt i).liquidity ≠ 0 ->
    p.growthSince token0 i ≤ p'.growthSince token0 i

theorem Spares.refl (mine : PositionIndex -> Prop) (p : Pool Positions A) : Spares mine p p :=
  ⟨fun _ _ => rfl, fun _ _ _ _ => le_refl _⟩

theorem Spares.trans {p'' : Pool Positions A} (h : Spares mine p p') (h' : Spares mine p' p'') :
    Spares mine p p'' := by
  constructor
  · intro i hi
    rw [h'.kept i hi, h.kept i hi]
  · intro token0 i hi hl
    have hl' : (p'.positions.stateAt i).liquidity ≠ 0 := by rwa [h.kept i hi]
    exact (h.accrued token0 i hi hl).trans (h'.accrued token0 i hi hl')

theorem Performs.spares {o : Operation} (hp : p.Accruing) (h : Performs p o p')
    (ho : o.Within mine) : Spares mine p p' := by
  cases h with
  | @modifyLiquidity params result p' h =>
      have hrealizes := hp.realizes h
      have hne {i : PositionIndex} (hi : ¬ mine i) : i ≠ params.index := by
        rintro rfl
        exact hi ho
      constructor
      · intro i hi
        rw [hrealizes.positions, stateAt_put_ne _ (hne hi)]
      · intro token0 i hi hl
        rw [hrealizes.others token0 i (hne hi) hl]
  | @swap params result p' h =>
      rcases h with ⟨fuel, h⟩
      generalize hlist : p.swapComputations params fuel = list
      have hcases := swap_cases h
      rw [hlist] at hcases
      cases hcases with
      | empty _ =>
          exact Spares.refl mine p
      | done hrun _ _ =>
          constructor
          · intro i _
            rfl
          · intro token0 i _ hl
            have hgrowth := hrun.growthSince hp hl token0
            show p.growthSince token0 i ≤ (p.committed params _).growthSince token0 i
            omega
  | setProtocolFee h =>
      rcases setProtocolFee_ok h with ⟨swapFee, _, rfl⟩
      exact ⟨fun _ _ => rfl, fun _ _ _ _ => le_refl _⟩

theorem Accruing.spares (hp : p.Accruing) (h : Run Performs p ops p')
    (hwithin : forall o, o ∈ ops -> o.Within mine) : Spares mine p p' :=
  h.related_of_labels (Spares.refl mine) (fun _ _ _ => Spares.trans)
    (fun s o _ (hs : s.Accruing) (ho : o.Within mine) hstep => hstep.spares hs ho)
    (fun _ _ _ hs ho => hs.performs ho) hp hwithin

/-!
# A caller without liquidity
-/

/-- No position of a set has liquidity. -/
def Without (mine : PositionIndex -> Prop) (p : Pool Positions A) : Prop :=
  forall i, mine i -> (p.positions.stateAt i).liquidity = 0

section Without

variable (hspares : Spares mine p p') (hstart : p.Without mine) (hend : p'.Without mine)

include hspares hstart hend

theorem Spares.sizeAt (i : PositionIndex) :
    p.positions.map.sizeAt Positions.size i = p'.positions.map.sizeAt Positions.size i := by
  rw [sizeAt_eq, sizeAt_eq]
  by_cases hi : mine i
  · rw [hstart i hi, hend i hi]
  · rw [hspares.kept i hi]

theorem Spares.owed_le (token0 : Bool) : p.owed token0 ≤ p'.owed token0 := by
  apply SortedMap.weighted_le_of_sizeAt
  intro i
  rw [← hspares.sizeAt hstart hend, sizeAt_eq]
  by_cases hl : (p.positions.stateAt i).liquidity = 0
  · rw [hl, Nat.cast_zero, zero_mul, zero_mul]
  · have hi : ¬ mine i := fun hi => hl (hstart i hi)
    have hle := hspares.accrued token0 i hi hl
    exact_mod_cast Nat.mul_le_mul_left _ hle

theorem Spares.profile_eq (hp : p.Backed) (hp' : p'.Backed) :
    profile p'.ticks.snapshot = profile p.ticks.snapshot := by
  funext x
  rw [hp.profile_eq, hp'.profile_eq]
  unfold Positions.activeAt
  rw [SortedMap.weighted_eq_of_sizeAt (hspares.sizeAt hstart hend)]

end Without

theorem Backed.reserve_lt (hp : p.Backed) (hp' : p'.Backed)
    (hprofile : profile p'.ticks.snapshot = profile p.ticks.snapshot) {token0 : Bool}
    (h : p'.reserve token0 < p.reserve token0) : p.reserve (!token0) < p'.reserve (!token0) := by
  have hprice := hp.sound.price
  have hprice' := hp'.sound.price
  have hlo := hprice.1
  have hhi := hprice.2
  have hlo' := hprice'.1
  have hhi' := hprice'.2
  have hpos (t : Bool) (x : Nat) (hx : Between p.state.sqrtPriceX96 p'.state.sqrtPriceX96 x) :
      0 < unitReserve t x := by
    have h1 := hprice.pos
    have h2 := hprice'.pos
    unfold Between at hx
    exact unitReserve_pos (by omega)
  unfold reserve reserveBetween at h ⊢
  rw [hprofile] at h ⊢
  refine held_lt_of_lt ?_ (hpos token0) (hpos !token0) (fun x _ => ?_) h
  · unfold ModifyLiquidityParams.farPrice
    cases token0 with
    | true => exact Or.inl ⟨hlo, hlo', hhi, hhi'⟩
    | false => exact Or.inr ⟨hlo, hlo', hhi, hhi'⟩
  · rw [hp.profile_eq]
    exact_mod_cast activeAt_nonneg p.positions _

/-- A caller that holds no liquidity before and after a run of its own gains of one
token only what it pays for with the other. -/
theorem no_extraction {p0 : Pool Positions A} {before : List Operation} (hp0 : p0.Fresh)
    (hbefore : Run Performs p0 before p) (h : Run Performs p ops p')
    (hwithin : forall o, o ∈ ops -> o.Within mine) (hstart : p.Without mine)
    (hend : p'.Without mine) {token0 : Bool} (hgain : 0 < Operation.gains ops token0) :
    Operation.gains ops (!token0) < 0 := by
  have hp := hp0.accruing.run hbefore
  have hp' := hp.run h
  have hspares := hp.spares h hwithin
  rcases run_records h with ⟨entries, hrecords, hmap⟩
  have hkeep (s : Pool Positions A) (e : Entry) (s' : Pool Positions A) (hs : s.Accruing)
      (he : Records s e s') : s'.Accruing := hs.performs he.performs
  -- The caller gains no more than the principal it took out.
  have hpaid (t : Bool) : Operation.gains ops t ≤ -(entries.map (Entry.principal t)).sum := by
    have hfees := hrecords.sum_le (f := fun s => s.owed t)
      (fun s e s' hs he => ⟨hkeep s e s' hs he, he.owed_le hs t⟩) hp
    have howed := hspares.owed_le hstart hend t
    have hlabels := hrecords.forall_labels
      (Q := fun e => e.operation.received t = e.principal t + e.retained t)
      (fun s e s' hs he => ⟨hkeep s e s' hs he, he.received hs.sound.toUsable t⟩) hp
    have hbalance : Operation.balance ops t =
        (entries.map (Entry.principal t)).sum + (entries.map (Entry.retained t)).sum := by
      unfold Operation.balance
      rw [← hmap, List.map_map, ← List.sum_map_add]
      exact congrArg List.sum (List.map_congr_left hlabels)
    have hle := Operation.gains_le ops t
    rw [List.sum_map_mul_left] at hfees
    omega
  have hreserve (t : Bool) : p'.reserve t ≤
      p.reserve t + ((entries.map (Entry.principal t)).sum : Int) := by
    have hsum := hrecords.sum_le (f := fun s => s.reserve t)
      (g := fun e => (e.principal t : ℚ))
      (fun s e s' hs he => ⟨hkeep s e s' hs he, he.reserve_le hs.toBacked t⟩) hp
    rw [Int.cast_list_sum, List.map_map]
    exact hsum
  have hfalls : p'.reserve token0 < p.reserve token0 := by
    have hneg : (entries.map (Entry.principal token0)).sum < 0 := by
      have hle := hpaid token0
      omega
    have hneg' : (((entries.map (Entry.principal token0)).sum : Int) : ℚ) < 0 := by
      exact_mod_cast hneg
    have hle := hreserve token0
    linarith
  have hrises := hp.toBacked.reserve_lt hp'.toBacked
    (hspares.profile_eq hstart hend hp.toBacked hp'.toBacked) hfalls
  have hpos : (0 : ℚ) < ((entries.map (Entry.principal !token0)).sum : Int) := by
    have hle := hreserve !token0
    linarith
  have hpos' : 0 < (entries.map (Entry.principal !token0)).sum := by
    exact_mod_cast hpos
  have hle := hpaid !token0
  omega

theorem no_extraction_sample : Operation.gains [.swap Sample.sell Sample.result] true < 0 := by
  have hadd : Run Performs Sample.empty [.modifyLiquidity Sample.add Sample.added] Sample.funded :=
    Run.cons (Performs.modifyLiquidity Sample.empty_add) (Run.nil _)
  have hsell : Run Performs Sample.funded [.swap Sample.sell Sample.result] Sample.sold :=
    Run.cons (Performs.swap Sample.funded_sell) (Run.nil _)
  have hempty : Sample.empty.Accruing := Sample.empty_fresh.accruing
  have hother (o : Operation) (ho : o ∈ [Operation.modifyLiquidity Sample.add Sample.added,
      .swap Sample.sell Sample.result]) : o.Within fun i => i.owner = 1 := by
    rcases List.mem_cons.mp ho with rfl | ho
    · rfl
    · rcases List.mem_singleton.mp ho with rfl
      trivial
  -- The owner of the only position is another one.
  have hwithout {p : Pool Positions} (hspares : Spares (fun i => i.owner = 1) Sample.empty p) :
      p.Without fun i => i.owner = 2 := by
    intro i hi
    have hne : ¬ i.owner = 1 := by omega
    rw [hspares.kept i hne]
    rfl
  have hown (o : Operation) (ho : o ∈ [Operation.swap Sample.sell Sample.result]) :
      o.Within fun i => i.owner = 2 := by
    rcases List.mem_singleton.mp ho with rfl
    trivial
  have hgain : 0 < Operation.gains [.swap Sample.sell Sample.result] false := by decide
  refine no_extraction Sample.empty_fresh hadd hsell hown
    (hwithout (hempty.spares hadd fun o ho => ?_)) (hwithout (hempty.spares Sample.run hother))
    hgain
  exact hother o (List.mem_cons.mpr (Or.inl (List.mem_singleton.mp ho)))

end Pool

end RmUniswap
