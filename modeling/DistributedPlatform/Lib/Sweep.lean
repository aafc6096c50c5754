import Mathlib.Data.List.Basic

/-!
# `Lib.Sweep` — erasing from a list while walking over it

`sweep hit drop xs` walks over `xs`. An element that is `hit` is visited; one that is visited and is to be
dropped is erased, and the element after it is passed over unvisited, as happens when a loop moves its
iterator on after `erase` has already done so. It gives the elements kept and the elements visited, or
nothing when the element erased was the last one: there the iterator leaves the list.

Such a walk visits all that it should and drops all that it should exactly when each element to be dropped
is followed by one that nobody misses: `sweep_complete_iff`.
-/

namespace Sweep

variable {α : Type*} (hit drop : α → Bool)

def sweep : List α → Option (List α × List α)
  | [] => some ([], [])
  | [x] => if hit x then if drop x then none else some ([x], [x]) else some ([x], [])
  | x :: y :: ys =>
      if hit x then
        if drop x then (sweep ys).map fun r => (y :: r.1, x :: r.2)
        else (sweep (y :: ys)).map fun r => (x :: r.1, x :: r.2)
      else (sweep (y :: ys)).map fun r => (x :: r.1, r.2)

/-- Each element to be dropped is followed by one that is not to be visited. -/
def NoSkip (xs : List α) : Prop :=
  ∀ i x, xs[i]? = some x → hit x = true → drop x = true → ∃ y, xs[i + 1]? = some y ∧ hit y = false

variable {hit drop}

theorem noSkip_nil : NoSkip hit drop [] := fun i x hx => by simp at hx

theorem noSkip_cons {x : α} {xs : List α} :
    NoSkip hit drop (x :: xs) ↔
      (hit x = true → drop x = true → ∃ y, xs[0]? = some y ∧ hit y = false) ∧ NoSkip hit drop xs := by
  constructor
  · intro h
    exact ⟨fun hh hd => by simpa using h 0 x (by simp) hh hd,
      fun i y hy hh hd => by simpa using h (i + 1) y (by simpa using hy) hh hd⟩
  · rintro ⟨hhead, htail⟩ i y hy hh hd
    cases i with
    | zero =>
        simp only [List.getElem?_cons_zero, Option.some.injEq] at hy
        subst hy
        simpa using hhead hh hd
    | succ i => simpa using htail i y (by simpa using hy) hh hd

/-- A step that erases nothing, whatever comes after. -/
theorem sweep_keep (hit drop : α → Bool) {x : α} (xs : List α)
    (h : ¬ (hit x = true ∧ drop x = true)) :
    sweep hit drop (x :: xs) =
      (sweep hit drop xs).map fun r => (x :: r.1, (if hit x then [x] else []) ++ r.2) := by
  cases xs with
  | nil =>
      by_cases hh : hit x = true
      · have hd : ¬ drop x = true := fun hd => h ⟨hh, hd⟩
        simp [sweep, hh, hd]
      · simp [sweep, hh]
  | cons y ys =>
      by_cases hh : hit x = true
      · have hd : ¬ drop x = true := fun hd => h ⟨hh, hd⟩
        simp [sweep, hh, hd]
      · simp [sweep, hh]

/-- Only elements that should be are visited, in the order of the list. -/
theorem visited_sublist {xs : List α} {r : List α × List α} (h : sweep hit drop xs = some r) :
    r.2.Sublist (xs.filter hit) := by
  induction xs using sweep.induct hit drop generalizing r with
  | case1 => cases h; exact List.Sublist.slnil
  | case2 x hh hd => simp [sweep, hh, hd] at h
  | case3 x hh hd =>
      simp only [sweep, hh, hd, if_true, Bool.false_eq_true, if_false, Option.some.injEq] at h
      subst h; simp [hh]
  | case4 x hh =>
      simp only [sweep, hh, Bool.false_eq_true, if_false, Option.some.injEq] at h
      subst h; simp
  | case5 x y ys hh hd ih =>
      simp only [sweep, hh, hd, if_true, Option.map_eq_some_iff] at h
      obtain ⟨r', hr', rfl⟩ := h
      rw [List.filter_cons_of_pos hh]
      refine List.Sublist.cons_cons x ((ih hr').trans ?_)
      exact (List.sublist_cons_self y ys).filter hit
  | case6 x y ys hh hd ih =>
      simp only [sweep, hh, hd, if_true, Bool.false_eq_true, if_false, Option.map_eq_some_iff] at h
      obtain ⟨r', hr', rfl⟩ := h
      rw [List.filter_cons_of_pos hh]
      exact List.Sublist.cons_cons x (ih hr')
  | case7 x y ys hh ih =>
      simp only [sweep, hh, Bool.false_eq_true, if_false, Option.map_eq_some_iff] at h
      obtain ⟨r', hr', rfl⟩ := h
      rw [List.filter_cons_of_neg hh]
      have hsub := ih hr'
      exact hsub

/-- **When a sweep is complete.** It stays inside the list, visits every element it should and keeps exactly
    the others and those not to be dropped, if and only if no element to be dropped is followed by one to be
    visited, or by nothing. -/
theorem sweep_complete_iff (xs : List α) :
    sweep hit drop xs = some (xs.filter fun x => ! (hit x && drop x), xs.filter hit) ↔
      NoSkip hit drop xs := by
  induction xs using sweep.induct hit drop with
  | case1 => simp [sweep, noSkip_nil]
  | case2 x hh hd => simp [sweep, hh, hd, noSkip_cons]
  | case3 x hh hd => simp [sweep, hh, hd, noSkip_cons, noSkip_nil]
  | case4 x hh => simp [sweep, hh, noSkip_cons, noSkip_nil]
  | case5 x y ys hh hd ih =>
      simp only [sweep, hh, hd, if_true, noSkip_cons (x := x)]
      by_cases hy : hit y = true
      · -- `y` is passed over although it should be visited
        constructor
        · intro h
          obtain ⟨r, hr, heq⟩ := Option.map_eq_some_iff.mp h
          have hlen := (visited_sublist hr).length_le
          have hvis := congrArg (fun p => p.2.length) heq
          simp [hh, hy] at hvis
          omega
        · rintro ⟨hnext, -⟩
          obtain ⟨z, hz, hzf⟩ := hnext trivial trivial
          simp only [List.getElem?_cons_zero, Option.some.injEq] at hz
          rw [hz, hzf] at hy; cases hy
      · rw [noSkip_cons, ← ih]
        simp [hh, hd, hy, Option.map_eq_some_iff]
  | case6 x y ys hh hd ih =>
      rw [noSkip_cons, ← ih]
      simp [sweep, hh, hd, Option.map_eq_some_iff]
  | case7 x y ys hh ih =>
      rw [noSkip_cons, ← ih]
      simp [sweep, hh, Option.map_eq_some_iff]

end Sweep
