import Mathlib.Logic.Basic

/-! # Programs with a state and errors

A program changes a state and ends with a value or an error; in both cases the
state it has reached remains. Its weakest precondition says what holds of the
final state, separately for the two ways to end.
-/

namespace Foundation

/-- A program over states `σ` that yields an `α` or fails with an `ε`. -/
def Prog (σ ε α : Type) : Type := σ → Except ε α × σ

namespace Prog

variable {σ ε α β : Type}

def bind (c : Prog σ ε α) (f : α → Prog σ ε β) : Prog σ ε β := fun s =>
  match c s with
  | (.ok a, s') => f a s'
  | (.error e, s') => (.error e, s')

instance : Monad (Prog σ ε) where
  pure a := fun s => (.ok a, s)
  bind := bind

def fail (e : ε) : Prog σ ε α := fun s => (.error e, s)

def reads (f : σ → α) : Prog σ ε α := fun s => (.ok (f s), s)

def modify (f : σ → σ) : Prog σ ε Unit := fun s => (.ok (), f s)

def attempt (c : Prog σ ε α) : Prog σ ε (Except ε α) := fun s =>
  match c s with
  | (r, s') => (.ok r, s')

/-- Run a program on a part of the state, with its errors translated. -/
def zoom {τ ε' : Type} (get : σ → τ) (put : τ → σ → σ) (err : ε' → ε) (c : Prog τ ε' α) :
    Prog σ ε α := fun s =>
  match c (get s) with
  | (.ok a, t) => (.ok a, put t s)
  | (.error e, t) => (.error (err e), put t s)

/-- What has to hold before `c` so that `Q` holds if it yields a value and `E` if
it fails. -/
def wp (c : Prog σ ε α) (Q : α → σ → Prop) (E : ε → σ → Prop) (s : σ) : Prop :=
  match c s with
  | (.ok a, s') => Q a s'
  | (.error e, s') => E e s'

@[simp] lemma wp_pure : wp (pure a : Prog σ ε α) Q E s ↔ Q a s := Iff.rfl

@[simp] lemma wp_fail : wp (fail e : Prog σ ε α) Q E s ↔ E e s := Iff.rfl

@[simp] lemma wp_reads (f : σ → α) : wp (reads f : Prog σ ε α) Q E s ↔ Q (f s) s := Iff.rfl

@[simp] lemma wp_modify {Q : Unit → σ → Prop} :
    wp (modify f : Prog σ ε Unit) Q E s ↔ Q () (f s) := Iff.rfl

@[simp] lemma wp_bind (c : Prog σ ε α) : wp (c >>= f) R E s ↔ wp c (fun a => wp (f a) R E) E s := by
  change wp (bind c f) R E s ↔ _
  unfold wp bind
  rcases c s with ⟨_ | _, _⟩ <;> rfl

@[simp] lemma wp_attempt :
    wp (attempt c) R E s ↔ wp c (fun a => R (.ok a)) (fun e => R (.error e)) s := by
  unfold wp attempt
  rcases c s with ⟨_ | _, _⟩ <;> rfl

@[simp] lemma wp_zoom (get : σ → τ) :
    wp (zoom get put err c) R E s ↔
      wp c (fun a t => R a (put t s)) (fun e t => E (err e) (put t s)) (get s) := by
  unfold wp zoom
  rcases c (get s) with ⟨_ | _, _⟩ <;> rfl

@[simp] lemma wp_ite (p : Prop) [Decidable p] :
    wp (if p then c else d) Q E s ↔ if p then wp c Q E s else wp d Q E s := by
  split <;> rfl

lemma wp_mono (hwp : wp c Q E s) (hQ : ∀ a s', Q a s' → Q' a s') (hE : ∀ e s', E e s' → E' e s') :
    wp c Q' E' s := by
  unfold wp at hwp ⊢
  generalize c s = r at hwp ⊢
  obtain ⟨_ | _, s'⟩ := r
  · exact hE _ _ hwp
  · exact hQ _ _ hwp

/-- The rule of sequence, where nothing is asked of a failure. -/
lemma wp_then (hwp : wp c Q E s) (hQ : ∀ a s', Q a s' → wp (f a) R (fun _ _ => True) s') :
    wp (c >>= f) R (fun _ _ => True) s :=
  (wp_bind c).mpr (wp_mono hwp hQ fun _ _ _ => trivial)

lemma wp_of_forall (hQ : ∀ a s', Q a s') (hE : ∀ e s', E e s') : wp c Q E s := by
  unfold wp
  generalize c s = r
  obtain ⟨_ | _, s'⟩ := r
  · exact hE _ _
  · exact hQ _ _

/-- What the weakest precondition says of a run that yields a value. -/
lemma wp_ok (hwp : wp c Q E s) (hrun : c s = (.ok a, s')) : Q a s' := by
  unfold wp at hwp
  rw [hrun] at hwp
  exact hwp

/-- What the weakest precondition says of a run that fails. -/
lemma wp_error (hwp : wp c Q E s) (hrun : c s = (.error e, s')) : E e s' := by
  unfold wp at hwp
  rw [hrun] at hwp
  exact hwp

end Prog

end Foundation
