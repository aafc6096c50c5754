import Mathlib.Algebra.BigOperators.Group.List.Basic
import Mathlib.Algebra.Group.Hom.Defs
import Mathlib.Data.List.Basic

/-!
# `Lib.Run` — finite runs of a labelled step relation

A run is recorded as the list of the steps it took, oldest first, each as the triple *state before,
label, state after*: a condition on steps and a property of the states reached are then both statements
about the members of one list.

* `Run.split` — a run taken apart at one of its steps;
* `Run.invariant` — a property kept by every step holds wherever a run ends;
* `Run.invariant_of_good` — the same when only the steps that meet a condition `C` keep it;
* `Run.always_iff_good` — the exact form: when in addition a step that misses `C` breaks the property
  at once, the property holds along a run iff every step of the run meets `C`;
* `Run.balance` — what each step passes on, gains and gives away, the run does;
* `Run.custody` — what a run loses is what its steps lose, in quantity;
* `Run.simulates`, `Run.simulated` — a step-by-step simulation, by a function or along a relation, lifts to whole runs.
-/

namespace Machine

variable {σ ι : Type*}

/-- `Run step s tr t`: the steps `tr`, taken in order from `s`, end in `t`. -/
inductive Run (step : σ → ι → σ → Prop) (s : σ) : List (σ × ι × σ) → σ → Prop
  | refl : Run step s [] s
  | tail {tr : List (σ × ι × σ)} {t u : σ} {i : ι} :
      Run step s tr t → step t i u → Run step s (tr ++ [(t, i, u)]) u

variable {step : σ → ι → σ → Prop} {s t : σ} {tr : List (σ × ι × σ)}

/-- A single step is a run. -/
theorem Run.single {i : ι} (h : step s i t) : Run step s [(s, i, t)] t :=
  Run.tail Run.refl h

/-- A run behind a run. -/
theorem Run.append {tr' : List (σ × ι × σ)} {u : σ} (h : Run step s tr t) (h' : Run step t tr' u) :
    Run step s (tr ++ tr') u := by
  induction h' with
  | refl => rwa [List.append_nil]
  | tail _ hlast ih =>
      rw [← List.append_assoc]
      exact ih.tail hlast

/-- A run taken apart at one of its steps. -/
theorem Run.split {pre post : List (σ × ι × σ)} {x : σ × ι × σ}
    (h : Run step s (pre ++ x :: post) t) :
    Run step s pre x.1 ∧ step x.1 x.2.1 x.2.2 ∧ Run step x.2.2 post t := by
  generalize htr : pre ++ x :: post = tr at h
  induction h generalizing post with
  | refl => simp at htr
  | @tail tr t u i hrun hlast ih =>
      rcases List.eq_nil_or_concat post with rfl | ⟨post', y, rfl⟩
      · obtain ⟨rfl, hx⟩ := List.append_inj' htr rfl
        cases hx
        exact ⟨hrun, hlast, Run.refl⟩
      · rw [List.concat_eq_append, ← List.cons_append, ← List.append_assoc] at htr
        obtain ⟨htr', hy⟩ := List.append_inj' htr rfl
        cases hy
        obtain ⟨hpre, hx, hpost⟩ := ih htr'
        refine ⟨hpre, hx, ?_⟩
        rw [List.concat_eq_append]
        exact Run.tail hpost hlast

/-- A run whose steps all meet `C` is one of the steps that do. -/
theorem Run.restrict {C : σ → ι → Prop} (h : Run step s tr t) (hgood : ∀ x ∈ tr, C x.1 x.2.1) :
    Run (fun s i t => C s i ∧ step s i t) s tr t := by
  induction h with
  | refl => exact Run.refl
  | @tail tr t u i _ hlast ih =>
      have hpre := ih fun x hx => hgood x (List.mem_append_left _ hx)
      exact Run.tail hpre ⟨hgood (t, i, u) (by simp), hlast⟩

/-- **Step lemma to run lemma.** A property every step keeps holds where the run ends. -/
theorem Run.invariant {I : σ → Prop} (hstep : ∀ t i u, I t → step t i u → I u)
    (h : Run step s tr t) (hs : I s) : I t := by
  induction h with
  | refl => exact hs
  | tail _ hlast ih => exact hstep _ _ _ ih hlast

/-- **Conditional invariant.** If the steps that meet `C` keep `I`, a run all of whose steps meet `C`
    ends in `I`. -/
theorem Run.invariant_of_good {I : σ → Prop} {C : σ → ι → Prop}
    (hstep : ∀ t i u, I t → C t i → step t i u → I u)
    (h : Run step s tr t) (hs : I s) (hgood : ∀ x ∈ tr, C x.1 x.2.1) : I t := by
  induction h with
  | refl => exact hs
  | @tail tr t u i _ hlast ih =>
      have hpre : ∀ x ∈ tr, C x.1 x.2.1 := fun x hx => hgood x (List.mem_append_left _ hx)
      have hC : C t i := hgood (t, i, u) (by simp)
      exact hstep _ _ _ (ih hpre) hC hlast

/-- **Exact form.** `Q` is what is asked of each step (and of the state it reaches). When a step that
    meets `C` keeps the invariant `I` and satisfies `Q`, and a step from `I` that misses `C` violates
    `Q`, then `Q` holds of all steps of a run exactly when all of them meet `C`. -/
theorem Run.always_iff_good {I : σ → Prop} {C : σ → ι → Prop} {Q : σ → ι → σ → Prop}
    (hgood : ∀ t i u, I t → C t i → step t i u → I u ∧ Q t i u)
    (hbad : ∀ t i u, I t → ¬ C t i → step t i u → ¬ Q t i u)
    (h : Run step s tr t) (hs : I s) :
    (∀ x ∈ tr, Q x.1 x.2.1 x.2.2) ↔ ∀ x ∈ tr, C x.1 x.2.1 := by
  induction h with
  | refl => simp
  | @tail tr t u i hrun hlast ih =>
      have hkeep : (∀ x ∈ tr, C x.1 x.2.1) → I t :=
        hrun.invariant_of_good (fun t i u hI hC hst => (hgood t i u hI hC hst).1) hs
      constructor
      · intro hQ
        have hpre := ih.mp (fun x hx => hQ x (List.mem_append_left _ hx))
        have hlastQ : Q t i u := hQ (t, i, u) (by simp)
        have hlastC : C t i := Classical.byContradiction
          (fun hC => hbad t i u (hkeep hpre) hC hlast hlastQ)
        intro x hx
        rcases List.mem_append.mp hx with hx | hx
        · exact hpre x hx
        · rw [List.mem_singleton] at hx; subst hx; exact hlastC
      · intro hC
        have hpre : ∀ x ∈ tr, C x.1 x.2.1 := fun x hx => hC x (List.mem_append_left _ hx)
        have hlastC : C t i := hC (t, i, u) (by simp)
        intro x hx
        rcases List.mem_append.mp hx with hx | hx
        · exact ih.mpr hpre x hx
        · rw [List.mem_singleton] at hx; subst hx
          exact (hgood t i u (hkeep hpre) hlastC hlast).2

/-- **Nothing is lost or made up.** When every step passes on what it had and gained, as what it has and gave away,
    so does a run. -/
theorem Run.balance {δ : Type*} {I : σ → Prop} (held : σ → List δ) (gained lost : σ → ι → σ → List δ)
    (hstep : ∀ t i u, I t → step t i u → I u ∧ (held t ++ gained t i u).Perm (lost t i u ++ held u))
    (h : Run step s tr t) (hs : I s) :
    I t ∧ (held s ++ tr.flatMap fun x => gained x.1 x.2.1 x.2.2).Perm
      ((tr.flatMap fun x => lost x.1 x.2.1 x.2.2) ++ held t) := by
  induction h with
  | refl => exact ⟨hs, by simp⟩
  | @tail tr t u i hrun hlast ih =>
      obtain ⟨ht, hperm⟩ := ih
      obtain ⟨hu, hbal⟩ := hstep t i u ht hlast
      refine ⟨hu, ?_⟩
      simp only [List.flatMap_append, List.flatMap_cons, List.flatMap_nil, List.append_nil]
      rw [← List.append_assoc, List.append_assoc (tr.flatMap _) (lost t i u)]
      refine (hperm.append_right _).trans ?_
      rw [List.append_assoc]
      exact hbal.append_left _

/-- **What is there is held, or was lost.** `total` is what there is and `held` what has a holder. When all that a step
    adds to the rest `r` has the quantity `lost`, what a run adds to it has the quantity its steps add up to. -/
theorem Run.custody {M N : Type*} [AddCommMonoid M] [AddCommMonoid N] {I : σ → Prop} (total held : σ → M)
    (size : M →+ N) (lost : σ → ι → σ → N)
    (hstep : ∀ t i u r, I t → step t i u → total t = held t + r →
      I u ∧ ∃ d, size d = lost t i u ∧ total u = held u + (d + r))
    (h : Run step s tr t) (hs : I s) {r : M} (hr : total s = held s + r) :
    I t ∧ ∃ d, size d = (tr.map fun x => lost x.1 x.2.1 x.2.2).sum ∧ total t = held t + (d + r) := by
  induction h with
  | refl => exact ⟨hs, 0, size.map_zero, by rw [zero_add, hr]⟩
  | @tail tr t u i hrun hlast ih =>
      obtain ⟨ht, d, hd, htotal⟩ := ih
      obtain ⟨hu, d', hd', hlost⟩ := hstep t i u _ ht hlast htotal
      refine ⟨hu, d' + d, ?_, by rw [hlost, add_assoc]⟩
      rw [size.map_add, hd, hd', List.map_append, List.sum_append, add_comm]
      simp

/-! ## Simulation -/

variable {α κ : Type*} {astep : α → κ → α → Prop}

/-- **Forward simulation.** When every step from an invariant state is one step of the abstract machine
    on the abstracted state, a whole run is a run of the abstract machine with the abstracted labels.
    The abstract label may depend on the step taken (`obs`), e.g. to carry the answer it gave. -/
theorem Run.simulates {I : σ → Prop} {abs : σ → α} (obs : σ → ι → σ → κ)
    (hstep : ∀ t i u, I t → step t i u → I u ∧ astep (abs t) (obs t i u) (abs u))
    (h : Run step s tr t) (hs : I s) :
    Run astep (abs s) (tr.map fun x => (abs x.1, obs x.1 x.2.1 x.2.2, abs x.2.2)) (abs t) := by
  induction h with
  | refl => exact Run.refl
  | tail hrun hlast ih =>
      have ht := hrun.invariant (fun t i u hI hst => (hstep t i u hI hst).1) hs
      rw [List.map_append]
      exact Run.tail ih (hstep _ _ _ ht hlast).2

/-- **Forward simulation along a relation.** When from related states every step is matched by one of the abstract
    machine, to related states, a whole run is matched by a run. -/
theorem Run.simulated {R : σ → α → Prop} (lab : ι → κ)
    (hstep : ∀ t i u a, R t a → step t i u → ∃ b, astep a (lab i) b ∧ R u b)
    (h : Run step s tr t) {a : α} (ha : R s a) :
    ∃ tr' b, Run astep a tr' b ∧ tr'.map (·.2.1) = tr.map (fun x => lab x.2.1) ∧ R t b := by
  induction h with
  | refl => exact ⟨[], a, Run.refl, rfl, ha⟩
  | @tail tr t u i _ hlast ih =>
      obtain ⟨tr', b, hrun, hlab, hb⟩ := ih
      obtain ⟨b', hmatch, hb'⟩ := hstep t i u b hb hlast
      exact ⟨_, b', Run.tail hrun hmatch, by rw [List.map_append, List.map_append, hlab]; rfl, hb'⟩

end Machine
