import RmUniswap.Foundation.Transition

/-!
# A system seen through another one

A system that takes exactly the steps of another one, seen through maps of the
states and of the labels, has exactly its runs. A system that can serve any request
of a list can serve the list.
-/

namespace RmUniswap
namespace Foundation

universe u v w x

namespace Run

variable {S : Type u} {L : Type v} {S' : Type w} {L' : Type x}
  {step : S -> L -> S -> Prop} {step' : S' -> L' -> S' -> Prop}
  {view : S' -> S} {label : L' -> L} {I : S' -> Prop} {Q : L -> Prop}

theorem viewed_iff
    (hstep : forall s l t, I s -> Q l ->
      (step (view s) l t <-> exists l' s', label l' = l ∧ view s' = t ∧ step' s l' s'))
    (hkeep : forall s l' s', I s -> Q (label l') -> step' s l' s' -> I s')
    {s : S'} {t : S} {ls : List L} (hs : I s) (hls : forall l, l ∈ ls -> Q l) :
    Run step (view s) ls t <->
      exists ls' s', ls'.map label = ls ∧ view s' = t ∧ Run step' s ls' s' := by
  induction ls generalizing s with
  | nil =>
      constructor
      · intro h
        cases h
        exact ⟨[], s, rfl, rfl, nil s⟩
      · rintro ⟨ls', s', hmap, rfl, h⟩
        rw [List.map_eq_nil_iff.mp hmap] at h
        cases h
        exact nil (view s)
  | cons l ls ih =>
      have hl := hls l List.mem_cons_self
      have hrest := fun k hk => hls k (List.mem_cons_of_mem l hk)
      constructor
      · intro h
        cases h with
        | cons hfirst hlast =>
            rcases (hstep s l _ hs hl).mp hfirst with ⟨l', mid, rfl, rfl, hfirst'⟩
            rcases (ih (hkeep s l' mid hs hl hfirst') hrest).mp hlast with
              ⟨ls', s', rfl, rfl, hlast'⟩
            exact ⟨l' :: ls', s', rfl, rfl, cons hfirst' hlast'⟩
      · rintro ⟨ls', s', hmap, rfl, h⟩
        cases h with
        | nil _ => cases hmap
        | @cons _ mid _ l' ls' hfirst hlast =>
            rw [List.map_cons, List.cons.injEq] at hmap
            rcases hmap with ⟨rfl, rfl⟩
            have hmid := hkeep s l' mid hs hl hfirst
            exact cons ((hstep s _ _ hs hl).mpr ⟨l', mid, rfl, rfl, hfirst⟩)
              ((ih hmid hrest).mpr ⟨ls', s', rfl, rfl, hlast⟩)

/-!
# Requests that are served
-/

/-- Where some step serves the first request and leaves an invariant for the rest, a
run serves all of them. -/
theorem exists_of_serves {R : Type w} {C : Type x} {request : L -> C} {asked : R -> C}
    {I : List R -> S -> Prop}
    (hserve : forall r rs s, I (r :: rs) s ->
      exists l s', step s l s' ∧ request l = asked r ∧ I rs s')
    {rs : List R} {s : S} (hs : I rs s) :
    exists ls s', Run step s ls s' ∧ ls.map request = rs.map asked ∧ I [] s' := by
  induction rs generalizing s with
  | nil =>
      exact ⟨[], s, nil s, rfl, hs⟩
  | cons r rs ih =>
      rcases hserve r rs s hs with ⟨l, mid, hfirst, hrequest, hmid⟩
      rcases ih hmid with ⟨ls, s', hrest, hmap, hend⟩
      exact ⟨l :: ls, s', cons hfirst hrest,
        by rw [List.map_cons, List.map_cons, hrequest, hmap], hend⟩

end Run

end Foundation
end RmUniswap
