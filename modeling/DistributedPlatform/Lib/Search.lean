import Mathlib.Data.List.Infix

/-!
# `Lib.Search` — where a list occurs in another

Occurrences may overlap. What a search is for is a property of its result (`First`, `Last`), of which there is one.

* `First.cons`, `First.last` — a search by moving on, and one that goes on behind each hit;
* `Last.unique` — the last place is one.
-/

namespace Search

variable {α : Type*} {w s : List α} {b : α} {i j : ℕ} {r r' : Option ℕ}

/-- `w` stands in `s` from the place `i` on. -/
def OccursAt (w s : List α) (i : ℕ) : Prop := w <+: s.drop i

/-- The first place of `w`, if there is any. -/
def First (w s : List α) : Option ℕ → Prop
  | none => ∀ i, ¬ OccursAt w s i
  | some i => OccursAt w s i ∧ ∀ j, OccursAt w s j → i ≤ j

/-- The last place of `w`, if there is any. -/
def Last (w s : List α) : Option ℕ → Prop
  | none => ∀ i, ¬ OccursAt w s i
  | some i => OccursAt w s i ∧ ∀ j, OccursAt w s j → j ≤ i

theorem occursAt_drop : OccursAt w (s.drop j) i ↔ OccursAt w s (j + i) := by
  unfold OccursAt
  rw [List.drop_drop]

/-- All of it is inside. -/
theorem OccursAt.add_length_le (h : OccursAt w s i) (hw : w ≠ []) : i + w.length ≤ s.length := by
  have hle := h.length_le
  have hpos := List.length_pos_iff.mpr hw
  rw [List.length_drop] at hle
  omega

theorem OccursAt.lt_length (h : OccursAt w s i) (hw : w ≠ []) : i < s.length := by
  have hle := h.add_length_le hw
  have hpos := List.length_pos_iff.mpr hw
  omega

/-- The first place is not the start, so it is that in the rest. -/
theorem First.cons (hstart : ¬ w <+: b :: s) (h : First w s r) : First w (b :: s) (r.map (· + 1)) := by
  cases r with
  | none =>
      intro i hi
      cases i with
      | zero => exact hstart hi
      | succ i => exact h i hi
  | some k =>
      refine ⟨h.1, fun i hi => ?_⟩
      cases i with
      | zero => exact absurd hi hstart
      | succ i => exact Nat.succ_le_succ (h.2 i hi)

/-- The last place is that behind the first, or the first. -/
theorem First.last (h : First w s (some i)) (hrest : Last w (s.drop (i + 1)) r) :
    Last w s (some ((r.map (i + 1 + ·)).getD i)) := by
  have hbehind : ∀ j, OccursAt w s j → j ≠ i → ∃ k, j = i + 1 + k ∧ OccursAt w (s.drop (i + 1)) k := by
    intro j hj hne
    have hle := h.2 j hj
    obtain ⟨k, rfl⟩ := Nat.exists_eq_add_of_le (Nat.lt_of_le_of_ne hle hne.symm)
    exact ⟨k, rfl, occursAt_drop.mpr hj⟩
  cases r with
  | none =>
      refine ⟨h.1, fun j hj => ?_⟩
      by_contra hlt
      obtain ⟨k, -, hk⟩ := hbehind j hj fun heq => hlt (le_of_eq heq)
      exact hrest k hk
  | some k =>
      refine ⟨occursAt_drop.mp hrest.1, fun j hj => ?_⟩
      show j ≤ i + 1 + k
      by_cases hne : j = i
      · omega
      · obtain ⟨k', rfl, hk'⟩ := hbehind j hj hne
        exact Nat.add_le_add_left (hrest.2 k' hk') _

theorem Last.unique (h : Last w s r) (h' : Last w s r') : r = r' := by
  cases r with
  | none =>
      cases r' with
      | none => rfl
      | some j => exact absurd h'.1 (h j)
  | some i =>
      cases r' with
      | none => exact absurd h.1 (h' i)
      | some j => exact congrArg some (le_antisymm (h'.2 i h.1) (h.2 j h'.1))

/-- A single element, with none behind. -/
theorem last_singleton (hs : b ∉ s) (l : List α) : Last [b] (l ++ b :: s) (some l.length) := by
  constructor
  · unfold OccursAt
    rw [List.drop_left]
    exact ⟨s, rfl⟩
  · intro j hj
    by_contra hlt
    obtain ⟨k, rfl⟩ := Nat.exists_eq_add_of_lt (not_le.mp hlt)
    refine hs (List.mem_of_mem_drop (i := k) ?_)
    have hdrop : (l ++ b :: s).drop (l.length + k + 1) = s.drop k := by
      rw [Nat.add_assoc, ← List.drop_drop, List.drop_left, List.drop_succ_cons]
    unfold OccursAt at hj
    rw [hdrop] at hj
    exact hj.subset List.mem_cons_self

end Search
