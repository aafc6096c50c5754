import Mathlib.Data.List.Basic

/-!
# `Lib.Lexical` — walking a tree by names

A place in a tree is the list of names that leads to it from the root. A path is a list of moves, *up* one
level (the root is its own parent) or *down* to a name, and `walk` takes it from a place.

Read by itself, without a place to start from, a path comes down to a number of levels it climbs and the
names it goes down after that (`reduce`). Two facts make this the right summary:

* `walk_eq_apply` — where a path leads depends on its reduced form only;
* `prefix_walk_iff` — it leads to or below its starting place exactly when the names it goes down begin
  with those of the levels it climbed.

`components` cuts a string at a separator and drops the empty pieces.
-/

namespace Lexical

variable {α : Type*}

inductive Move (α : Type*)
  | up
  | down (a : α)
  deriving DecidableEq, Repr

/-- One move from a place. -/
def step (pos : List α) : Move α → List α
  | .up => pos.dropLast
  | .down a => pos ++ [a]

def walk (pos : List α) (ms : List (Move α)) : List α := ms.foldl step pos

theorem walk_append (pos : List α) (ms ns : List (Move α)) :
    walk pos (ms ++ ns) = walk (walk pos ms) ns := List.foldl_append

/-! ## The reduced form -/

/-- A path that climbs `ups` levels and then goes down `names`. -/
structure Reduced (α : Type*) where
  ups : Nat := 0
  names : List α := []
  deriving DecidableEq, Repr

/-- The reduced form with one more move: *up* takes back the last name, if there is one. -/
def Reduced.push (r : Reduced α) : Move α → Reduced α
  | .up => if r.names = [] then { ups := r.ups + 1 } else { r with names := r.names.dropLast }
  | .down a => { r with names := r.names ++ [a] }

def reduce (ms : List (Move α)) : Reduced α := ms.foldl Reduced.push {}

/-- Where a reduced path leads from a place. -/
def Reduced.apply (r : Reduced α) (pos : List α) : List α := pos.take (pos.length - r.ups) ++ r.names

theorem Reduced.apply_push (r : Reduced α) (m : Move α) (pos : List α) :
    (r.push m).apply pos = step (r.apply pos) m := by
  cases m with
  | up =>
      unfold Reduced.push Reduced.apply step
      by_cases h : r.names = []
      · rw [if_pos h, h]
        simp only [List.append_nil, List.dropLast_eq_take, List.length_take, List.take_take]
        congr 1
        omega
      · rw [if_neg h]
        exact (List.dropLast_append_of_ne_nil h).symm
  | down a => simp [Reduced.push, Reduced.apply, step]

theorem foldl_push_apply (ms : List (Move α)) (pos : List α) :
    ∀ r : Reduced α, (ms.foldl Reduced.push r).apply pos = walk (r.apply pos) ms := by
  induction ms with
  | nil => intro r; rfl
  | cons m ms ih =>
      intro r
      rw [List.foldl_cons, ih, Reduced.apply_push]
      rfl

/-- **A path leads where its reduced form leads.** -/
theorem walk_eq_apply (pos : List α) (ms : List (Move α)) : walk pos ms = (reduce ms).apply pos := by
  unfold reduce
  rw [foldl_push_apply]
  simp [Reduced.apply]

/-- **Staying inside.** A path ends at or below the place it starts from exactly when it names again the
    levels it climbed. -/
theorem prefix_walk_iff (pos : List α) (ms : List (Move α)) :
    pos <+: walk pos ms ↔ pos.drop (pos.length - (reduce ms).ups) <+: (reduce ms).names := by
  rw [walk_eq_apply, Reduced.apply]
  conv_lhs => rw [← List.take_append_drop (pos.length - (reduce ms).ups) pos]
  rw [List.take_left' (by simp)]
  exact List.prefix_append_right_inj _

/-! ## Components -/

variable [BEq α]

/-- The non-empty pieces of a string between separators. -/
def components (sep : α) (s : List α) : List (List α) := (s.splitOn sep).filter fun c => !c.isEmpty

@[simp] theorem components_nil (sep : α) : components sep [] = [] := rfl

variable [LawfulBEq α]

/-- A separator between two strings separates their components. -/
theorem components_append (sep : α) (s t : List α) :
    components sep (s ++ sep :: t) = components sep s ++ components sep t := by
  unfold components
  rw [List.splitOn_append_cons_self, List.filter_append]

theorem components_cons_sep (sep : α) (s : List α) : components sep (sep :: s) = components sep s := by
  have h := components_append sep [] s
  rwa [List.nil_append, components_nil, List.nil_append] at h

end Lexical
