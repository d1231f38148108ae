import RmUniswap.Types.Basic

/-!
# Fees

Fees are in pips, a million to the whole. A pool charges the protocol fee and
the fee of its liquidity providers as one effective fee per direction.
-/

namespace RmUniswap

open Foundation

def maxFee : Nat := 1000000

def dynamicFeeFlag : Nat := 0x800000

/-- A fee with its cached complement: a static fee, or the placeholder of a pool
whose fee is still unresolved. -/
structure Fee where
  pips : Nat
  complement : Nat
  wf : (pips ≤ maxFee ∧ complement = maxFee - pips) ∨
    (pips = dynamicFeeFlag ∧ complement = 0)

namespace Fee

instance : DecidableEq Fee := fun a b =>
  decidable_of_iff (a.pips = b.pips ∧ a.complement = b.complement)
    ⟨fun h => by cases a; cases b; cases h.1; cases h.2; rfl,
      fun h => by rw [h]; exact ⟨rfl, rfl⟩⟩

def new (feePips : Nat) : Option Fee :=
  if h : feePips ≤ maxFee then some ⟨feePips, maxFee - feePips, Or.inl ⟨h, rfl⟩⟩
  else none

def zero : Fee := ⟨0, maxFee, Or.inl ⟨Nat.zero_le _, rfl⟩⟩

def isZero (f : Fee) : Bool := f.pips == 0

def isMax (f : Fee) : Bool := f.pips == maxFee

def isValid (f : Fee) : Bool := decide (f.pips ≤ maxFee)

theorem complement_eq {f : Fee} (h : f.isValid = true) : f.complement = maxFee - f.pips := by
  unfold isValid at h
  rw [decide_eq_true_iff] at h
  rcases f.wf with hwf | hwf
  · exact hwf.2
  · have : dynamicFeeFlag ≤ maxFee := hwf.1 ▸ h
    exact absurd this (by decide)

theorem pips_lt (f : Fee) : f.pips < 2 ^ 32 := by
  rcases f.wf with hwf | hwf
  · exact Nat.lt_of_le_of_lt hwf.1 (by decide)
  · rw [hwf.1]
    decide

theorem new_isValid {n : Nat} {f : Fee} (h : Fee.new n = some f) :
    f.isValid = true ∧ f.pips = n := by
  unfold new at h
  split at h
  · rename_i hle
    cases h
    exact ⟨by simpa [isValid] using hle, rfl⟩
  · cases h

theorem isValid_zero : Fee.zero.isValid = true := by decide

end Fee

/-!
# Protocol fee
-/

def maxProtocolFee : Nat := 1000

def pipsDenominator : Nat := 1000000

structure ProtocolFee where
  zeroForOneFee : Nat
  oneForZeroFee : Nat
deriving DecidableEq, Repr

namespace ProtocolFee

def pips (f : ProtocolFee) (zeroForOne : Bool) : Nat :=
  if zeroForOne then f.zeroForOneFee else f.oneForZeroFee

def isValid (f : ProtocolFee) : Bool :=
  decide (f.zeroForOneFee ≤ maxProtocolFee) && decide (f.oneForZeroFee ≤ maxProtocolFee)

def calculateSwapFee (f : ProtocolFee) (zeroForOne : Bool) (lpFee : Fee) :
    Except Error Fee :=
  if !lpFee.isValid then
    .error .invalidLpFee
  else
    let protocolFee := f.pips zeroForOne
    if protocolFee = 0 then
      .ok lpFee
    else
      let overlap := protocolFee * lpFee.pips / pipsDenominator
      let combined := protocolFee + lpFee.pips - overlap
      okOr .feeTooLarge (Fee.new combined)

theorem pips_le {f : ProtocolFee} (h : f.isValid = true) (z : Bool) :
    f.pips z ≤ maxProtocolFee := by
  unfold isValid at h
  rw [Bool.and_eq_true, decide_eq_true_iff, decide_eq_true_iff] at h
  cases z with
  | true => exact h.1
  | false => exact h.2

theorem calculateSwapFee_isValid {f : ProtocolFee} {z : Bool} {lpFee fee : Fee}
    (h : f.calculateSwapFee z lpFee = .ok fee) : fee.isValid = true := by
  unfold calculateSwapFee at h
  split at h
  · cases h
  · rename_i hvalid
    simp only at h
    split at h
    · cases h
      simpa using hvalid
    · exact (Fee.new_isValid (okOr_eq_ok.mp h)).1

theorem calculateSwapFee_total {f : ProtocolFee} {lpFee : Fee} (hf : f.isValid = true)
    (hl : lpFee.isValid = true) (z : Bool) : exists fee, f.calculateSwapFee z lpFee = .ok fee := by
  have hpips := pips_le hf z
  have hle : lpFee.pips ≤ maxFee := of_decide_eq_true hl
  unfold calculateSwapFee
  rw [hl, Bool.not_true, if_neg (by decide)]
  dsimp only
  split
  · exact ⟨lpFee, rfl⟩
  · have hcombined : f.pips z + lpFee.pips - f.pips z * lpFee.pips / pipsDenominator ≤ maxFee := by
      unfold maxProtocolFee at hpips
      unfold maxFee at hle ⊢
      unfold pipsDenominator
      have hcross : (1000000 : Int) * (f.pips z + lpFee.pips) ≤
          1000000 * 1000000 + f.pips z * lpFee.pips := by
        nlinarith
      generalize hproduct : f.pips z * lpFee.pips = product
      have hcast : (f.pips z : Int) * lpFee.pips = product := by exact_mod_cast hproduct
      rw [hcast] at hcross
      omega
    unfold Fee.new
    rw [dif_pos hcombined]
    exact ⟨_, rfl⟩

end ProtocolFee

/-!
# Effective swap fee
-/

def calculateEffectiveFee (lpFee : Fee) (protocolFee : ProtocolFee) :
    Except Error (Fee × Fee) := do
  let zeroForOne <- protocolFee.calculateSwapFee true lpFee
  let oneForZero <- protocolFee.calculateSwapFee false lpFee
  .ok (zeroForOne, oneForZero)

structure SwapFee where
  lpFee : Option Fee
  protocolFee : ProtocolFee
  zeroForOneSwapFee : Fee
  oneForZeroSwapFee : Fee
deriving DecidableEq

namespace SwapFee

/-- The effective fees of an optional fee, zero while it is unresolved. -/
def effectiveFees (lpFee : Option Fee) (protocolFee : ProtocolFee) :
    Except Error (Fee × Fee) :=
  match lpFee with
  | some fee => calculateEffectiveFee fee protocolFee
  | none => .ok (Fee.zero, Fee.zero)

def fromLpFee (lpFee : Option Fee) (protocolFee : ProtocolFee) : Except Error SwapFee := do
  let fees <- effectiveFees lpFee protocolFee
  .ok { lpFee, protocolFee, zeroForOneSwapFee := fees.1, oneForZeroSwapFee := fees.2 }

def new (lpFee : Fee) (protocolFee : ProtocolFee) : Except Error SwapFee :=
  fromLpFee (some lpFee) protocolFee

def newDynamic (protocolFee : ProtocolFee) : SwapFee :=
  { lpFee := none
    protocolFee
    zeroForOneSwapFee := Fee.zero
    oneForZeroSwapFee := Fee.zero }

def swapFee (f : SwapFee) (zeroForOne : Bool) : Fee :=
  if zeroForOne then f.zeroForOneSwapFee else f.oneForZeroSwapFee

def setLpFee (f : SwapFee) (lpFee : Fee) : Except Error SwapFee :=
  if f.lpFee = some lpFee then
    .ok f
  else do
    let fees <- calculateEffectiveFee lpFee f.protocolFee
    .ok { f with
      lpFee := some lpFee
      zeroForOneSwapFee := fees.1
      oneForZeroSwapFee := fees.2 }

def setProtocolFee (f : SwapFee) (protocolFee : ProtocolFee) : Except Error SwapFee :=
  if f.protocolFee = protocolFee then
    .ok f
  else do
    let fees <- effectiveFees f.lpFee protocolFee
    .ok { f with
      protocolFee
      zeroForOneSwapFee := fees.1
      oneForZeroSwapFee := fees.2 }

/-- The cached effective fees are the ones its two fees give. -/
def Consistent (f : SwapFee) : Prop :=
  effectiveFees f.lpFee f.protocolFee = .ok (f.zeroForOneSwapFee, f.oneForZeroSwapFee)

theorem fromLpFee_eq_ok {lpFee : Option Fee} {protocolFee : ProtocolFee} {f : SwapFee} :
    fromLpFee lpFee protocolFee = .ok f ↔
      f.lpFee = lpFee ∧ f.protocolFee = protocolFee ∧ f.Consistent := by
  unfold fromLpFee
  rw [bind_eq_ok]
  constructor
  · intro h
    rcases h with ⟨fees, hfees, hf⟩
    cases hf
    exact ⟨rfl, rfl, hfees⟩
  · intro h
    cases f
    rcases h with ⟨h1, h2, h3⟩
    cases h1
    cases h2
    exact ⟨_, h3, rfl⟩

theorem fromLpFee_total {lpFee : Option Fee} {protocolFee : ProtocolFee}
    (hf : protocolFee.isValid = true) (hl : forall fee, lpFee = some fee -> fee.isValid = true) :
    exists f, fromLpFee lpFee protocolFee = .ok f := by
  cases lpFee with
  | none =>
      exact ⟨_, rfl⟩
  | some fee =>
      rcases ProtocolFee.calculateSwapFee_total hf (hl fee rfl) true with ⟨a, ha⟩
      rcases ProtocolFee.calculateSwapFee_total hf (hl fee rfl) false with ⟨b, hb⟩
      unfold fromLpFee effectiveFees calculateEffectiveFee
      dsimp only
      rw [ha, ok_bind, hb, ok_bind, ok_bind]
      exact ⟨_, rfl⟩

theorem setLpFee_consistent {f f' : SwapFee} {lpFee : Fee} (hf : f.Consistent)
    (h : f.setLpFee lpFee = .ok f') :
    f'.Consistent ∧ f'.lpFee = some lpFee ∧ f'.protocolFee = f.protocolFee := by
  unfold setLpFee at h
  split at h
  · rename_i heq
    cases h
    exact ⟨hf, heq, rfl⟩
  · rcases bind_eq_ok.mp h with ⟨fees, hfees, hok⟩
    cases hok
    exact ⟨hfees, rfl, rfl⟩

theorem setProtocolFee_consistent {f f' : SwapFee} {protocolFee : ProtocolFee}
    (hf : f.Consistent) (h : f.setProtocolFee protocolFee = .ok f') :
    f'.Consistent ∧ f'.lpFee = f.lpFee ∧ f'.protocolFee = protocolFee := by
  unfold setProtocolFee at h
  split at h
  · rename_i heq
    cases h
    exact ⟨hf, rfl, heq⟩
  · rcases bind_eq_ok.mp h with ⟨fees, hfees, hok⟩
    cases hok
    exact ⟨hfees, rfl, rfl⟩

theorem Consistent.isValid {f : SwapFee} (h : f.Consistent) (z : Bool) :
    (f.swapFee z).isValid = true := by
  unfold Consistent effectiveFees at h
  split at h
  · rename_i fee _
    unfold calculateEffectiveFee at h
    rcases bind_eq_ok.mp h with ⟨a, ha, hrest⟩
    rcases bind_eq_ok.mp hrest with ⟨b, hb, hok⟩
    injection hok with hok
    injection hok with h1 h2
    unfold swapFee
    cases z with
    | false =>
        rw [if_neg (by decide), ← h2]
        exact ProtocolFee.calculateSwapFee_isValid hb
    | true =>
        rw [if_pos rfl, ← h1]
        exact ProtocolFee.calculateSwapFee_isValid ha
  · injection h with h
    injection h with h1 h2
    unfold swapFee
    rw [← h1, ← h2, ite_self]
    exact Fee.isValid_zero

end SwapFee

end RmUniswap
