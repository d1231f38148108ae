import Mathlib

/-!
# Spans and their deltas

A span covers the points from its lower end up to its upper end with a size. The
spans of a list add up to a delta at every point: what enters there less what
leaves. Deltas at sorted points are those of some spans exactly when no prefix sum
is negative and all of them cancel.
-/

namespace RmUniswap
namespace Foundation

universe u

variable {K : Type u} [LinearOrder K]

structure Span (K : Type u) [LinearOrder K] where
  lower : K
  upper : K
  size : Nat
  ordered : lower < upper

namespace Span

def entering (s : Span K) (t : K) : Int :=
  (if s.lower = t then (s.size : Int) else 0) - if s.upper = t then (s.size : Int) else 0

def covering (s : Span K) (t : K) : Int :=
  if s.lower ≤ t ∧ t < s.upper then s.size else 0

def enteringSum (spans : List (Span K)) (t : K) : Int := (spans.map fun s => s.entering t).sum

def coveringSum (spans : List (Span K)) (t : K) : Int := (spans.map fun s => s.covering t).sum

theorem enteringSum_cons (s : Span K) (spans : List (Span K)) (t : K) :
    enteringSum (s :: spans) t = s.entering t + enteringSum spans t := by
  unfold enteringSum
  rw [List.map_cons, List.sum_cons]

theorem coveringSum_cons (s : Span K) (spans : List (Span K)) (t : K) :
    coveringSum (s :: spans) t = s.covering t + coveringSum spans t := by
  unfold coveringSum
  rw [List.map_cons, List.sum_cons]

theorem coveringSum_nonneg (spans : List (Span K)) (t : K) : 0 ≤ coveringSum spans t := by
  apply List.sum_nonneg
  intro x hx
  rcases List.mem_map.mp hx with ⟨s, _, rfl⟩
  unfold covering
  split
  · exact Int.natCast_nonneg _
  · exact le_refl 0

theorem sum_entering (s : Span K) {S : Finset K} (hlower : s.lower ∈ S) (hupper : s.upper ∈ S)
    (t : K) : ∑ k ∈ S.filter (· ≤ t), s.entering k = s.covering t := by
  have hlt := s.ordered
  have hmem (k : K) (hk : k ∈ S) : k ∈ S.filter (· ≤ t) ↔ k ≤ t := by
    rw [Finset.mem_filter]
    exact and_iff_right hk
  unfold entering covering
  rw [Finset.sum_sub_distrib, Finset.sum_ite_eq, Finset.sum_ite_eq,
    if_congr (hmem _ hlower) rfl rfl, if_congr (hmem _ hupper) rfl rfl]
  by_cases hl : s.lower ≤ t
  · by_cases hu : s.upper ≤ t
    · rw [if_pos hl, if_pos hu, if_neg (fun hc => absurd hc.2 (not_lt.mpr hu)), sub_self]
    · rw [if_pos hl, if_neg hu, if_pos ⟨hl, not_le.mp hu⟩, sub_zero]
  · rw [if_neg hl, if_neg (fun hu => hl (le_of_lt (hlt.trans_le hu))), if_neg (fun hc => hl hc.1),
      sub_self]

theorem sum_enteringSum {spans : List (Span K)} {S : Finset K}
    (hS : forall s, s ∈ spans -> s.lower ∈ S ∧ s.upper ∈ S) (t : K) :
    ∑ k ∈ S.filter (· ≤ t), enteringSum spans k = coveringSum spans t := by
  induction spans with
  | nil =>
      unfold enteringSum coveringSum
      exact Finset.sum_const_zero
  | cons s spans ih =>
      have hs := hS s List.mem_cons_self
      rw [coveringSum_cons, ← sum_entering s hs.1 hs.2,
        ← ih (fun s hs => hS s (List.mem_cons_of_mem _ hs)), ← Finset.sum_add_distrib]
      exact Finset.sum_congr rfl fun k _ => enteringSum_cons s spans k

end Span

/-!
# Deltas at sorted points
-/

namespace Deltas

def deltaAt (l : List (K × Int)) (t : K) : Int := (l.map fun e => if e.1 = t then e.2 else 0).sum

def upTo (l : List (K × Int)) (t : K) : Int := (l.map fun e => if e.1 ≤ t then e.2 else 0).sum

def total {K : Type u} (l : List (K × Int)) : Int := (l.map Prod.snd).sum

theorem deltaAt_cons (e : K × Int) (l : List (K × Int)) (t : K) :
    deltaAt (e :: l) t = (if e.1 = t then e.2 else 0) + deltaAt l t := by
  unfold deltaAt
  rw [List.map_cons, List.sum_cons]

theorem upTo_cons (e : K × Int) (l : List (K × Int)) (t : K) :
    upTo (e :: l) t = (if e.1 ≤ t then e.2 else 0) + upTo l t := by
  unfold upTo
  rw [List.map_cons, List.sum_cons]

theorem total_cons {K : Type u} (e : K × Int) (l : List (K × Int)) :
    total (e :: l) = e.2 + total l := by
  unfold total
  rw [List.map_cons, List.sum_cons]

theorem upTo_eq_sum {l : List (K × Int)} {S : Finset K} (hS : forall e, e ∈ l -> e.1 ∈ S) (t : K) :
    upTo l t = ∑ k ∈ S.filter (· ≤ t), deltaAt l k := by
  induction l with
  | nil =>
      unfold upTo deltaAt
      exact Finset.sum_const_zero.symm
  | cons e l ih =>
      have he := hS e List.mem_cons_self
      have hhead : (∑ k ∈ S.filter (· ≤ t), if e.1 = k then e.2 else 0) =
          if e.1 ≤ t then e.2 else 0 := by
        rw [Finset.sum_ite_eq]
        exact if_congr (by rw [Finset.mem_filter]; exact and_iff_right he) rfl rfl
      rw [upTo_cons, ih (fun e he => hS e (List.mem_cons_of_mem _ he)), ← hhead,
        ← Finset.sum_add_distrib]
      exact Finset.sum_congr rfl fun k _ => (deltaAt_cons e l k).symm

theorem upTo_eq_zero {l : List (K × Int)} {t : K} (h : forall e, e ∈ l -> t < e.1) :
    upTo l t = 0 := by
  unfold upTo
  apply List.sum_eq_zero
  intro x hx
  rcases List.mem_map.mp hx with ⟨e, he, rfl⟩
  exact if_neg (not_le.mpr (h e he))

theorem upTo_eq_total {l : List (K × Int)} {t : K} (h : forall e, e ∈ l -> e.1 ≤ t) :
    upTo l t = total l := by
  unfold upTo total
  apply congrArg List.sum
  apply List.map_congr_left
  intro e he
  exact if_pos (h e he)

theorem upTo_of_spans {l : List (K × Int)} {spans : List (Span K)}
    (h : forall t, deltaAt l t = Span.enteringSum spans t) (t : K) :
    upTo l t = Span.coveringSum spans t := by
  classical
  let S : Finset K := (l.map Prod.fst).toFinset ∪
    ((spans.map Span.lower).toFinset ∪ (spans.map Span.upper).toFinset)
  have hl (e : K × Int) (he : e ∈ l) : e.1 ∈ S := by
    apply Finset.mem_union_left
    exact List.mem_toFinset.mpr (List.mem_map_of_mem he)
  have hspans (s : Span K) (hs : s ∈ spans) : s.lower ∈ S ∧ s.upper ∈ S := by
    constructor
    · apply Finset.mem_union_right
      apply Finset.mem_union_left
      exact List.mem_toFinset.mpr (List.mem_map_of_mem hs)
    · apply Finset.mem_union_right
      apply Finset.mem_union_right
      exact List.mem_toFinset.mpr (List.mem_map_of_mem hs)
  rw [upTo_eq_sum hl, ← Span.sum_enteringSum hspans]
  exact Finset.sum_congr rfl fun k _ => h k

theorem total_of_spans {l : List (K × Int)} {spans : List (Span K)}
    (h : forall t, deltaAt l t = Span.enteringSum spans t) : total l = 0 := by
  cases hlast : l.map Prod.fst with
  | nil =>
      rw [List.map_eq_nil_iff.mp hlast]
      rfl
  | cons k rest =>
      rcases (Finset.exists_max_image ((k :: rest).toFinset ∪
        (spans.map Span.upper).toFinset) id ⟨k, by simp⟩) with ⟨m, _, hm⟩
      have hl (e : K × Int) (he : e ∈ l) : e.1 ≤ m := by
        apply hm
        apply Finset.mem_union_left
        rw [← hlast]
        exact List.mem_toFinset.mpr (List.mem_map_of_mem he)
      rw [← upTo_eq_total hl, upTo_of_spans h]
      apply List.sum_eq_zero
      intro x hx
      rcases List.mem_map.mp hx with ⟨s, hs, rfl⟩
      have hle : s.upper ≤ m := by
        apply hm
        apply Finset.mem_union_right
        exact List.mem_toFinset.mpr (List.mem_map_of_mem hs)
      exact if_neg fun hc => absurd hc.2 (not_lt.mpr hle)

theorem exists_spans_from {k : K} {d : Int} {rest : List (K × Int)} {acc : Int}
    (hsorted : ((k, d) :: rest).Pairwise fun a b => a.1 < b.1)
    (hpre : forall e, e ∈ (k, d) :: rest -> 0 ≤ acc + upTo ((k, d) :: rest) e.1)
    (htotal : acc + total ((k, d) :: rest) = 0) :
    exists spans : List (Span K), forall t,
      Span.enteringSum spans t = deltaAt ((k, d) :: rest) t + if k = t then acc else 0 := by
  induction rest generalizing k d acc with
  | nil =>
      refine ⟨[], fun t => ?_⟩
      rw [total_cons] at htotal
      rw [deltaAt_cons]
      show (0 : Int) = (if k = t then d else 0) + 0 + _
      change acc + (d + 0) = 0 at htotal
      split <;> omega
  | cons e rest ih =>
      obtain ⟨k', d'⟩ := e
      have hlt := (List.pairwise_cons.mp hsorted).1
      have hhead : 0 ≤ acc + d := by
        have hself := hpre _ List.mem_cons_self
        rw [upTo_cons, if_pos (le_refl _), upTo_eq_zero hlt, add_zero] at hself
        exact hself
      have htail (e : K × Int) (he : e ∈ (k', d') :: rest) :
          0 ≤ acc + d + upTo ((k', d') :: rest) e.1 := by
        have hmem := hpre e (List.mem_cons_of_mem _ he)
        rw [upTo_cons, if_pos (le_of_lt (hlt e he)), ← add_assoc] at hmem
        exact hmem
      rw [total_cons, ← add_assoc] at htotal
      rcases ih (List.pairwise_cons.mp hsorted).2 htail htotal with ⟨spans, hspans⟩
      refine ⟨⟨k, k', (acc + d).toNat, hlt (k', d') List.mem_cons_self⟩ :: spans, fun t => ?_⟩
      rw [Span.enteringSum_cons, hspans, deltaAt_cons (k, d)]
      unfold Span.entering
      dsimp only
      rw [Int.toNat_of_nonneg hhead]
      split <;> split <;> omega

/-- Deltas at sorted points come from spans exactly when no prefix sum is negative and
all of them cancel. -/
theorem exists_spans_iff {l : List (K × Int)} (hsorted : l.Pairwise fun a b => a.1 < b.1) :
    (exists spans : List (Span K), forall t, deltaAt l t = Span.enteringSum spans t) ↔
      (forall e, e ∈ l -> 0 ≤ upTo l e.1) ∧ total l = 0 := by
  constructor
  · rintro ⟨spans, h⟩
    refine ⟨fun e _ => ?_, total_of_spans h⟩
    rw [upTo_of_spans h]
    exact Span.coveringSum_nonneg spans e.1
  · rintro ⟨hpre, htotal⟩
    cases l with
    | nil =>
        exact ⟨[], fun _ => rfl⟩
    | cons e rest =>
        rcases @exists_spans_from K _ e.1 e.2 rest 0 hsorted
          (fun e he => by rw [zero_add]; exact hpre e he) (by rw [zero_add]; exact htotal)
          with ⟨spans, hspans⟩
        refine ⟨spans, fun t => ?_⟩
        rw [hspans, ite_self, add_zero]

end Deltas

end Foundation
end RmUniswap
