import Mathlib

/-!
# Runs of a labelled transition system

A run is a finite sequence of labelled steps. What one step preserves a run
preserves, and what one step adds a run adds up over its labels.
-/

namespace RmUniswap
namespace Foundation

universe u v w

variable {S : Type u} {L : Type v}

inductive Run (step : S -> L -> S -> Prop) : S -> List L -> S -> Prop
  | nil (s : S) : Run step s [] s
  | cons {s s' s'' : S} {l : L} {ls : List L} :
      step s l s' -> Run step s' ls s'' -> Run step s (l :: ls) s''

namespace Run

variable {step : S -> L -> S -> Prop} {s s' s'' : S} {l : L} {ls ls' : List L}

theorem append (h : Run step s ls s') (h' : Run step s' ls' s'') :
    Run step s (ls ++ ls') s'' := by
  induction h with
  | nil s =>
      exact h'
  | cons hl _ ih =>
      exact cons hl (ih h')

theorem snoc (h : Run step s ls s') (hl : step s' l s'') : Run step s (ls ++ [l]) s'' :=
  h.append (cons hl (nil s''))

theorem invariant {I : S -> Prop} (hstep : forall s l s', I s -> step s l s' -> I s')
    (h : Run step s ls s') (hs : I s) : I s' := by
  induction h with
  | nil s =>
      exact hs
  | cons hl _ ih =>
      exact ih (hstep _ _ _ hs hl)

theorem forall_labels {I : S -> Prop} {Q : L -> Prop}
    (hstep : forall s l s', I s -> step s l s' -> I s' ∧ Q l)
    (h : Run step s ls s') (hs : I s) : forall l, l ∈ ls -> Q l := by
  induction h with
  | nil s =>
      intro l hl
      cases hl
  | cons hl _ ih =>
      have hone := hstep _ _ _ hs hl
      intro l' hl'
      rcases List.mem_cons.mp hl' with rfl | hmem
      · exact hone.2
      · exact ih hone.1 l' hmem

theorem map {S' : Type w} {step' : S' -> L -> S' -> Prop} {I : S -> Prop} (f : S -> S')
    (hstep : forall s l s', I s -> step s l s' -> I s' ∧ step' (f s) l (f s'))
    (h : Run step s ls s') (hs : I s) : Run step' (f s) ls (f s') := by
  induction h with
  | nil s =>
      exact nil (f s)
  | cons hl _ ih =>
      have hone := hstep _ _ _ hs hl
      exact cons hone.2 (ih hone.1)

theorem sum_eq {M : Type w} [AddCommMonoid M] {I : S -> Prop} {f : S -> M} {g : L -> M}
    (hstep : forall s l s', I s -> step s l s' -> I s' ∧ f s' = f s + g l)
    (h : Run step s ls s') (hs : I s) : f s' = f s + (ls.map g).sum := by
  induction h with
  | nil s =>
      rw [List.map_nil, List.sum_nil, add_zero]
  | cons hl _ ih =>
      have hone := hstep _ _ _ hs hl
      rw [ih hone.1, hone.2, List.map_cons, List.sum_cons, add_assoc]

theorem sum_le {M : Type w} [AddCommMonoid M] [PartialOrder M] [IsOrderedAddMonoid M]
    {I : S -> Prop} {f : S -> M} {g : L -> M}
    (hstep : forall s l s', I s -> step s l s' -> I s' ∧ f s' ≤ f s + g l)
    (h : Run step s ls s') (hs : I s) : f s' ≤ f s + (ls.map g).sum := by
  induction h with
  | nil s =>
      rw [List.map_nil, List.sum_nil, add_zero]
  | cons hl _ ih =>
      have hone := hstep _ _ _ hs hl
      rw [List.map_cons, List.sum_cons, ← add_assoc]
      exact (ih hone.1).trans (add_le_add_left hone.2 _)

theorem preserved {M : Type w} {I : S -> Prop} (f : S -> M)
    (hstep : forall s l s', I s -> step s l s' -> I s' ∧ f s' = f s)
    (h : Run step s ls s') (hs : I s) : f s' = f s := by
  induction h with
  | nil s =>
      rfl
  | cons hl _ ih =>
      have hone := hstep _ _ _ hs hl
      exact (ih hone.1).trans hone.2

theorem preserved_of_labels {M : Type w} {I : S -> Prop} {Q : L -> Prop} (f : S -> M)
    (hstep : forall s l s', I s -> Q l -> step s l s' -> f s' = f s)
    (hkeep : forall s l s', I s -> step s l s' -> I s')
    (h : Run step s ls s') (hs : I s) (hls : forall l, l ∈ ls -> Q l) : f s' = f s := by
  induction h with
  | nil s =>
      rfl
  | cons hl _ ih =>
      have hrest := ih (hkeep _ _ _ hs hl) (fun l hmem => hls l (List.mem_cons_of_mem _ hmem))
      exact hrest.trans (hstep _ _ _ hs (hls _ List.mem_cons_self) hl)

theorem related_of_labels {I : S -> Prop} {Q : L -> Prop} {R : S -> S -> Prop}
    (hrefl : forall s, R s s) (htrans : forall s s' s'', R s s' -> R s' s'' -> R s s'')
    (hstep : forall s l s', I s -> Q l -> step s l s' -> R s s')
    (hkeep : forall s l s', I s -> step s l s' -> I s')
    (h : Run step s ls s') (hs : I s) (hls : forall l, l ∈ ls -> Q l) : R s s' := by
  induction h with
  | nil s =>
      exact hrefl s
  | cons hl _ ih =>
      have hfirst := hstep _ _ _ hs (hls _ List.mem_cons_self) hl
      have hrest := ih (hkeep _ _ _ hs hl) (fun l hmem => hls l (List.mem_cons_of_mem _ hmem))
      exact htrans _ _ _ hfirst hrest

theorem noted {E : Type w} {S' : Type*} {step' : S' -> L -> S' -> Prop} {I : S -> Prop}
    {Q : L -> List E -> Prop} (view : S -> List E -> S')
    (hstep : forall s l s' log, I s -> step s l s' ->
      I s' ∧ exists events, step' (view s log) l (view s' (log ++ events)) ∧ Q l events)
    (h : Run step s ls s') (hs : I s) (log : List E) :
    exists sessions, Run step' (view s log) ls (view s' (log ++ sessions.flatten)) ∧
      List.Forall₂ Q ls sessions := by
  induction h generalizing log with
  | nil s =>
      refine ⟨[], ?_, List.Forall₂.nil⟩
      rw [List.flatten_nil, List.append_nil]
      exact nil _
  | cons hl _ ih =>
      rcases hstep _ _ _ log hs hl with ⟨hnext, events, hnoted, hevents⟩
      rcases ih hnext (log ++ events) with ⟨sessions, hrest, hsessions⟩
      refine ⟨events :: sessions, ?_, List.Forall₂.cons hevents hsessions⟩
      rw [List.flatten_cons, ← List.append_assoc]
      exact cons hnoted hrest

section Measure

variable {I live : S -> Prop} {m : S -> Nat}

theorem length_add_le
    (hstep : forall s l s', I s -> step s l s' -> I s' ∧ (live s' -> m s' < m s))
    (hlive : forall s l s', step s l s' -> live s)
    (h : Run step s ls s') (hs : I s) (hs' : live s') : ls.length + m s' ≤ m s := by
  induction h with
  | nil s =>
      rw [List.length_nil, Nat.zero_add]
  | @cons s mid s' l ls hl hrest ih =>
      have hone := hstep _ _ _ hs hl
      have hmid := ih hone.1 hs'
      have hgo : live mid := by
        cases hrest with
        | nil _ => exact hs'
        | cons hnext _ => exact hlive _ _ _ hnext
      have hlt := hone.2 hgo
      rw [List.length_cons]
      omega

theorem length_le_succ
    (hstep : forall s l s', I s -> step s l s' -> I s' ∧ (live s' -> m s' < m s))
    (hlive : forall s l s', step s l s' -> live s)
    (h : Run step s ls s') (hs : I s) : ls.length ≤ m s + 1 := by
  induction h with
  | nil s =>
      exact Nat.zero_le _
  | @cons s mid s' l ls hl hrest ih =>
      have hone := hstep _ _ _ hs hl
      cases hrest with
      | nil _ =>
          exact Nat.le_add_left _ _
      | cons hnext hlast =>
          have hlt := hone.2 (hlive _ _ _ hnext)
          have hle := ih hone.1
          rw [List.length_cons]
          omega

end Measure

end Run

end Foundation
end RmUniswap
