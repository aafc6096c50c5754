import Mathlib.Data.List.Basic

/-!
# `Lib.Buffer` — blocks of fixed size

A block is a list; its length is its size. Reading and writing a stretch of it answers `none` when the
stretch does not lie inside, so a computation that answers never left the block.

* `write` keeps the size (`length_of_write`) and everything behind the stretch (`drop_of_write`); item by item,
  `getElem?_of_write`;
* `write_append`, `read_append` — the two operations on a block given by its parts.
-/

namespace Buffer

variable {α : Type*} {b b' l m r xs : List α} {i n : Nat}

/-- The block with `xs` from position `i` on. -/
def write (b : List α) (i : Nat) (xs : List α) : Option (List α) :=
  if i + xs.length ≤ b.length then some (b.take i ++ xs ++ b.drop (i + xs.length)) else none

/-- The `n` items from position `i` on. -/
def read (b : List α) (i n : Nat) : Option (List α) :=
  if i + n ≤ b.length then some ((b.drop i).take n) else none

theorem write_of_le (h : i + xs.length ≤ b.length) :
    write b i xs = some (b.take i ++ xs ++ b.drop (i + xs.length)) := if_pos h

theorem write_of_lt (h : b.length < i + xs.length) : write b i xs = none := if_neg (by omega)

/-- A write happens inside the block, and this is what it leaves. -/
theorem write_eq_some_iff :
    write b i xs = some b' ↔ i + xs.length ≤ b.length ∧ b' = b.take i ++ xs ++ b.drop (i + xs.length) := by
  unfold write
  by_cases h : i + xs.length ≤ b.length
  · rw [if_pos h, Option.some.injEq]
    exact ⟨fun he => ⟨h, he.symm⟩, fun he => he.2.symm⟩
  · rw [if_neg h]
    exact iff_of_false nofun (fun he => h he.1)

theorem length_of_write (h : write b i xs = some b') : b'.length = b.length := by
  obtain ⟨hle, rfl⟩ := write_eq_some_iff.mp h
  simp only [List.length_append, List.length_take, List.length_drop]
  omega

/-- What lies behind the stretch stays. -/
theorem drop_of_write (h : write b i xs = some b') (hn : i + xs.length ≤ n) : b'.drop n = b.drop n := by
  obtain ⟨hle, rfl⟩ := write_eq_some_iff.mp h
  have hlen : (b.take i ++ xs).length = i + xs.length := by
    rw [List.length_append, List.length_take]
    omega
  rw [List.drop_append, List.drop_of_length_le (by omega), List.nil_append, List.drop_drop, hlen]
  congr 1
  omega

/-- The items afterwards: those written, and elsewhere the old ones. -/
theorem getElem?_of_write (h : write b i xs = some b') (k : Nat) :
    b'[k]? = if k < i then b[k]? else if k < i + xs.length then xs[k - i]? else b[k]? := by
  obtain ⟨hle, rfl⟩ := write_eq_some_iff.mp h
  have hlen : (b.take i).length = i := by
    rw [List.length_take]
    omega
  by_cases hk : k < i
  · rw [if_pos hk, List.append_assoc, List.getElem?_append_left (by omega), List.getElem?_take_of_lt hk]
  · rw [if_neg hk, List.append_assoc, List.getElem?_append_right (by omega), hlen]
    by_cases hk' : k < i + xs.length
    · rw [if_pos hk', List.getElem?_append_left (by omega)]
    · rw [if_neg hk', List.getElem?_append_right (by omega), List.getElem?_drop]
      congr 1
      omega

theorem write_append (h : xs.length = m.length) : write (l ++ m ++ r) l.length xs = some (l ++ xs ++ r) := by
  rw [write_of_le (by simp [h])]
  simp [h]

theorem read_append : read (l ++ m ++ r) l.length m.length = some m := by
  unfold read
  rw [if_pos (by simp)]
  simp

end Buffer
