import Mathlib.Logic.Function.Basic

/-!
# `Lib.Heap` — what allocation calls may do to the live blocks

A heap gives the size of the live block at an address. The calls of an allocator are relations between the
heap before, the answer (`none` is the null pointer) and the heap after; an allocator is free in where it puts
a block and when it fails.

* `Allocates` — a new block of a given size, or nothing;
* `Resizes` — a block replaced by one of a given size, or nothing;
* `Frees` — a block gone.
-/

namespace Blocks

variable {A : Type*}

/-- The live blocks: the size of the block at each address. -/
def Heap (A : Type*) := A → Option Nat

namespace Heap

/-- The block at `a` is live. -/
def Live (h : Heap A) (a : A) : Prop := h a ≠ none

variable [DecidableEq A]

/-- The heap with what is at `a` changed. -/
def put (h : Heap A) (a : A) (size : Option Nat) : Heap A := Function.update h a size

@[simp] theorem put_self (h : Heap A) (a : A) (size : Option Nat) : h.put a size a = size :=
  Function.update_self _ _ _

theorem put_of_ne {a b : A} (hab : b ≠ a) (h : Heap A) (size : Option Nat) : h.put a size b = h b :=
  Function.update_of_ne hab _ _

/-- An allocation of `n` bytes. -/
inductive Allocates (h : Heap A) (n : Nat) : Option A → Heap A → Prop
  | failed : Allocates h n none h
  | block {a : A} : ¬ h.Live a → Allocates h n (some a) (h.put a (some n))

/-- The block at `a`, live before, replaced by one of `n` bytes. -/
inductive Resizes (h : Heap A) (a : A) (n : Nat) : Option A → Heap A → Prop
  | failed : h.Live a → Resizes h a n none h
  | block {b : A} : h.Live a → ¬ (h.put a none).Live b →
      Resizes h a n (some b) ((h.put a none).put b (some n))

/-- The block at `a`, live before, gone. -/
inductive Frees (h : Heap A) (a : A) : Heap A → Prop
  | gone : h.Live a → Frees h a (h.put a none)

variable {h h' : Heap A} {a : A} {n : Nat}

/-- A block that was allocated has the size asked for, … -/
theorem Allocates.size (hal : h.Allocates n (some a) h') : h' a = some n := by
  cases hal with
  | block _ => exact put_self _ _ _

/-- … and is one more than before. -/
theorem Allocates.ne (hal : h.Allocates n (some a) h') : h' ≠ h := by
  intro heq
  cases hal with
  | block hfree =>
      apply hfree
      rw [← heq]
      show Heap.put h a (some n) a ≠ none
      rw [put_self]
      exact Option.some_ne_none n

/-- An allocation that fails changes nothing. -/
theorem Allocates.eq (hal : h.Allocates n none h') : h' = h := by
  cases hal
  rfl

end Heap

end Blocks
