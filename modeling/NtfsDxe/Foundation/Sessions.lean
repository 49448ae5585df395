import Mathlib.Tactic.TypeStar

/-! # Sessions of calls

A component answers calls; a call that its caller is not allowed to make has no
answer. A property of the states in a session is compared with a condition on
the calls that are made.
-/

namespace Foundation.Sessions

variable {σ κ : Type*}

/-- `Good` holds in every state of the session, the first and the last included. -/
def Throughout (step : σ → κ → Option σ) (Good : σ → Prop) : σ → List κ → Prop
  | s, [] => Good s
  | s, c :: calls => Good s ∧ ∀ s', step s c = some s' → Throughout step Good s' calls

/-- Every call of the session is `Proper` in the state in which it is made. -/
def EachCall (step : σ → κ → Option σ) (Proper : σ → κ → Prop) : σ → List κ → Prop
  | _, [] => True
  | s, c :: calls => ∀ s', step s c = some s' → Proper s c ∧ EachCall step Proper s' calls

def run (step : σ → κ → Option σ) : σ → List κ → Option σ
  | s, [] => some s
  | s, c :: calls => (step s c).bind fun s' => run step s' calls

variable {step : σ → κ → Option σ} {Good Inv : σ → Prop} {Proper : σ → κ → Prop}

theorem Throughout.first (h : Throughout step Good s calls) : Good s := by
  cases calls with
  | nil => exact h
  | cons c calls => exact h.1

theorem Throughout.last (h : Throughout step Good s calls)
    (hrun : run step s calls = some s') : Good s' := by
  induction calls generalizing s with
  | nil =>
    obtain rfl := Option.some.inj hrun
    exact h
  | cons c calls ih =>
    obtain ⟨t, hstep, hrun⟩ := Option.bind_eq_some_iff.mp hrun
    exact ih (h.2 t hstep) hrun

/-- If proper calls keep an invariant that implies `Good`, and an improper one destroys
`Good`, then `Good` holds throughout a session exactly if all its calls are proper. -/
theorem throughout_iff_eachCall (good : ∀ s, Inv s → Good s)
    (keeps : ∀ s c s', Inv s → step s c = some s' → Proper s c → Inv s')
    (destroys : ∀ s c s', Inv s → step s c = some s' → ¬ Proper s c → ¬ Good s')
    (hinv : Inv s) (calls : List κ) :
    Throughout step Good s calls ↔ EachCall step Proper s calls := by
  induction calls generalizing s with
  | nil => exact iff_of_true (good s hinv) trivial
  | cons c calls ih =>
    constructor
    · intro h s' hstep
      have hproper : Proper s c := by
        apply Classical.byContradiction
        intro hnot
        exact destroys s c s' hinv hstep hnot (h.2 s' hstep).first
      exact ⟨hproper, (ih (keeps s c s' hinv hstep hproper)).mp (h.2 s' hstep)⟩
    · intro h
      refine ⟨good s hinv, ?_⟩
      intro s' hstep
      obtain ⟨hproper, hrest⟩ := h s' hstep
      exact (ih (keeps s c s' hinv hstep hproper)).mpr hrest

end Foundation.Sessions
