import Mathlib.Order.WellFounded

/-! # Loops

A loop repeats a step that yields either the next state or a result. It is run
with a bound on the number of steps; a total-correctness rule shows that some
bound suffices.
-/

namespace Foundation.Loop

variable {σ ρ : Type*}

/-- Repeat `step` until it yields a result, at most `fuel` times. -/
def run (step : σ → σ ⊕ ρ) : Nat → σ → Option ρ
  | 0, _ => none
  | fuel + 1, s =>
    match step s with
    | .inl s' => run step fuel s'
    | .inr r => some r

lemma run_inl (hstep : step s = .inl s') : run step (fuel + 1) s = run step fuel s' := by
  rw [run, hstep]

lemma run_inr (fuel : Nat) (hstep : step s = .inr r) : run step (fuel + 1) s = some r := by
  rw [run, hstep]

/-- A larger bound does not change the result. -/
lemma run_mono (hle : n ≤ m) (hrun : run step n s = some r) : run step m s = some r := by
  induction n generalizing m s with
  | zero => cases hrun
  | succ n ih =>
    cases m with
    | zero => exact absurd hle (Nat.not_succ_le_zero n)
    | succ m =>
      cases hstep : step s with
      | inl s' =>
        rw [run_inl hstep] at hrun
        rw [run_inl hstep]
        exact ih (Nat.le_of_succ_le_succ hle) hrun
      | inr r' =>
        rw [run_inr n hstep] at hrun
        rw [run_inr m hstep, hrun]

/-- Runs of a loop with different bounds end in the same way. -/
lemma run_unique (hr : run step n s = some r) (hr' : run step m s = some r') : r = r' := by
  have hmax := run_mono (le_max_left n m) hr
  exact Option.some.inj (hmax.symm.trans (run_mono (le_max_right n m) hr'))

/-- Partial correctness: what every step keeps holds for the result. -/
lemma run_post (Inv : σ → Prop) (Post : ρ → Prop)
    (hinl : ∀ s s', Inv s → step s = .inl s' → Inv s')
    (hinr : ∀ s r, Inv s → step s = .inr r → Post r) (hs : Inv s)
    (hrun : run step fuel s = some r) : Post r := by
  induction fuel generalizing s with
  | zero => cases hrun
  | succ fuel ih =>
    cases hstep : step s with
    | inl s' =>
      rw [run_inl hstep] at hrun
      exact ih (hinl s s' hs hstep) hrun
    | inr r' =>
      rw [run_inr fuel hstep] at hrun
      cases hrun
      exact hinr s r hs hstep

/-- Total correctness: if every step from a state with the invariant either keeps
it and decreases the measure, or yields a good result, the loop yields one. -/
lemma run_total [LT μ] [WellFoundedLT μ] (measure : σ → μ) {Inv : σ → Prop} {Post : ρ → Prop}
    (hstep : ∀ s, Inv s → (∃ s', step s = .inl s' ∧ Inv s' ∧ measure s' < measure s) ∨
      ∃ r, step s = .inr r ∧ Post r) (hs : Inv s) :
    ∃ fuel r, run step fuel s = some r ∧ Post r := by
  generalize hm : measure s = m
  induction m using WellFoundedLT.induction generalizing s with
  | ind m ih =>
    rcases hstep s hs with ⟨s', hnext, hs', hlt⟩ | ⟨r, hend, hpost⟩
    · rw [hm] at hlt
      obtain ⟨fuel, r, hrun, hpost⟩ := ih (measure s') hlt hs' rfl
      exact ⟨fuel + 1, r, by rw [run_inl hnext, hrun], hpost⟩
    · exact ⟨1, r, run_inr 0 hend, hpost⟩

end Foundation.Loop
