import Mathlib.Data.List.Basic
import Mathlib.Data.List.Induction

/-!
# `Lib.Slots` — taking the first free slot of a list

`place free xs x` puts `x` into the first slot of `xs` that `free` accepts, or appends it when there is
none, and says where it went: the allocation discipline of descriptor tables. Three facts describe it
completely: `getElem?_place` (only that slot changes), `place_isFree` (it was not in use) and
`place_least` (every lower slot was).

`values f n` is what stands in the first `n` slots of a table given as a function; `values_update` says what becomes of
it when one slot changes.
-/

namespace Slots

variable {α : Type*}

/-- Put `x` into the first slot accepted by `free`, or append it; with the position taken. -/
def place (free : α → Bool) (xs : List α) (x : α) : Nat × List α :=
  match xs.findIdx? free with
  | some i => (i, xs.set i x)
  | none => (xs.length, xs ++ [x])

variable {free : α → Bool} {xs : List α} {x : α}

/-- A search that finds nothing leaves no slot accepted. -/
theorem not_free_of_findIdx?_eq_none (h : xs.findIdx? free = none) {k : Nat} {y : α}
    (hk : xs[k]? = some y) : free y = false := by
  have hall := List.findIdx?_eq_none_iff.mp h y (List.mem_of_getElem? hk)
  simpa using hall

/-- **Only the slot taken changes.** -/
theorem getElem?_place (k : Nat) :
    (place free xs x).2[k]? = if k = (place free xs x).1 then some x else xs[k]? := by
  unfold place
  split
  · next i hi =>
      have hlt : i < xs.length := (List.findIdx?_eq_some_iff_getElem.mp hi).1
      by_cases hki : k = i
      · subst hki; simp [hlt]
      · simp [hki, List.getElem?_set_ne (Ne.symm hki)]
  · by_cases hk : k = xs.length
    · subst hk; simp
    · rw [if_neg hk]
      by_cases hlt : k < xs.length
      · rw [List.getElem?_append_left hlt]
      · rw [List.getElem?_eq_none (by simp; omega), List.getElem?_eq_none (by omega)]

/-- The slot taken was not in use, … -/
theorem place_isFree {y : α} (h : xs[(place free xs x).1]? = some y) : free y = true := by
  unfold place at h
  split at h
  · next i hi =>
      obtain ⟨hlt, hfree, -⟩ := List.findIdx?_eq_some_iff_getElem.mp hi
      rw [List.getElem?_eq_getElem hlt] at h
      exact Option.some.inj h ▸ hfree
  · simp at h

/-- … and every lower slot was. -/
theorem place_least {k : Nat} (hk : k < (place free xs x).1) :
    ∃ y, xs[k]? = some y ∧ free y = false := by
  unfold place at hk
  split at hk
  · next i hi =>
      obtain ⟨hlt, -, hlow⟩ := List.findIdx?_eq_some_iff_getElem.mp hi
      have hklt : k < xs.length := by omega
      refine ⟨xs[k], List.getElem?_eq_getElem hklt, ?_⟩
      simpa using hlow k hk
  · next hnone =>
      refine ⟨xs[k], List.getElem?_eq_getElem hk, ?_⟩
      exact not_free_of_findIdx?_eq_none hnone (List.getElem?_eq_getElem hk)

/-! ## What the slots hold -/

variable {β : Type*} {f g : Nat → Option β} {n m : Nat}

def values (f : Nat → Option β) (n : Nat) : List β := (List.range n).filterMap f

theorem values_succ (f : Nat → Option β) (n : Nat) : values f (n + 1) = values f n ++ (f n).toList := by
  simp only [values, List.range_succ, List.filterMap_append, List.filterMap_cons, List.filterMap_nil]
  cases f n <;> rfl

theorem values_congr (h : ∀ k < n, g k = f k) : values g n = values f n :=
  List.filterMap_congr fun k hk => h k (List.mem_range.mp hk)

/-- Slots that hold nothing add nothing. -/
theorem values_extend (hnone : ∀ k, n ≤ k → f k = none) (hle : n ≤ m) : values f m = values f n := by
  induction hle with
  | refl => rfl
  | @step m hle ih => rw [values_succ, ih, hnone m hle, Option.toList_none, List.append_nil]

/-- The slots of a list. -/
theorem values_getElem? (φ : α → Option β) (hle : xs.length ≤ n) :
    values (fun k => xs[k]?.bind φ) n = xs.filterMap φ := by
  rw [values_extend (n := xs.length) (fun k hk => by simp [List.getElem?_eq_none hk]) hle]
  clear hle
  induction xs using List.reverseRecOn with
  | nil => rfl
  | append_singleton xs x ih =>
      rw [List.length_append, List.length_singleton, values_succ, List.filterMap_append, ← ih]
      congr 1
      · exact values_congr fun k hk => by rw [List.getElem?_append_left hk]
      · simp only [List.getElem?_concat_length, Option.bind_some]
        cases hx : φ x <;> simp [hx]

/-- **When one slot changes**, what stood in it goes and what stands in it comes. -/
theorem values_update {i : Nat} (hi : i < n) (hne : ∀ k, k ≠ i → g k = f k) :
    ((g i).toList ++ values f n).Perm ((f i).toList ++ values g n) := by
  induction n with
  | zero => omega
  | succ n ih =>
      rw [values_succ, values_succ]
      by_cases hin : i = n
      · subst hin
        rw [values_congr fun k hk => hne k (by omega)]
        have hswap : (values f i ++ (f i).toList ++ (g i).toList).Perm ((f i).toList ++ values f i ++ (g i).toList) :=
          List.perm_append_comm.append_right _
        rw [List.append_assoc (f i).toList] at hswap
        exact List.perm_append_comm.trans hswap
      · rw [hne n (fun h => hin h.symm), ← List.append_assoc, ← List.append_assoc]
        exact (ih (by omega)).append_right _

end Slots
