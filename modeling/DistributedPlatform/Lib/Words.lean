import Mathlib.Data.List.TakeWhile
import DistributedPlatform.Lib.Lexical

/-!
# `Lib.Words` — taking words off a list

`next sep s` is the first word of `s`, a maximal run of elements other than `sep`, with what is left after
the one separator that ends it. The function is characterised by how its argument is written out:

* `next_eq_none_iff` — it consists of separators;
* `next_eq_some_iff` — it starts with the word (`StartsWith`).

Taken one after the other, the words are the components of the list (`components_of_next`).
-/

namespace Words

variable {α : Type*} [BEq α] {sep : α} {s w rest : List α}

def next (sep : α) (s : List α) : Option (List α × List α) :=
  match s.dropWhile (· == sep) with
  | [] => none
  | b :: t => some ((b :: t).takeWhile (· != sep), ((b :: t).dropWhile (· != sep)).drop 1)

/-- A word: something, without a separator in it. -/
structure IsWord (sep : α) (w : List α) : Prop where
  ne_nil : w ≠ []
  notMem : sep ∉ w

/-- `s` consists of separators, the word `w`, and nothing or a separator and the rest. -/
def StartsWith (sep : α) (w rest s : List α) : Prop :=
  IsWord sep w ∧ ∃ k,
    (s = List.replicate k sep ++ w ∧ rest = []) ∨ s = List.replicate k sep ++ (w ++ sep :: rest)

/-- Every list is separators and a list that starts with none. -/
theorem eq_replicate_append [LawfulBEq α] (sep : α) (s : List α) :
    ∃ k t, s = List.replicate k sep ++ t ∧ t.head? ≠ some sep := by
  induction s with
  | nil => exact ⟨0, [], rfl, nofun⟩
  | cons b s ih =>
      by_cases hb : (b == sep) = true
      · obtain ⟨k, t, hs, ht⟩ := ih
        exact ⟨k + 1, t, by rw [List.replicate_succ, List.cons_append, ← hs, eq_of_beq hb], ht⟩
      · exact ⟨0, b :: s, rfl, fun heq => hb (beq_of_eq (Option.some.inj heq))⟩

variable [LawfulBEq α]

theorem bne_of_notMem (h : sep ∉ w) : ∀ b ∈ w, (b != sep) = true := by
  intro b hb
  have hne : b ≠ sep := fun heq => h (heq ▸ hb)
  simpa using hne

/-- Separators in front are skipped. -/
theorem next_replicate (k : ℕ) (s : List α) : next sep (List.replicate k sep ++ s) = next sep s := by
  induction k with
  | zero => rfl
  | succ k ih =>
      rw [← ih]
      unfold next
      rw [List.replicate_succ, List.cons_append, List.dropWhile_cons_of_pos (by simp)]

theorem next_of_head {b : α} {t : List α} (hb : b ≠ sep) :
    next sep (b :: t) = some ((b :: t).takeWhile (· != sep), ((b :: t).dropWhile (· != sep)).drop 1) := by
  unfold next
  rw [List.dropWhile_cons_of_neg (by simpa using hb)]

theorem next_eq_none_iff : next sep s = none ↔ ∀ b ∈ s, b = sep := by
  have hall : s.dropWhile (· == sep) = [] ↔ ∀ b ∈ s, b = sep := by simp
  rw [← hall]
  unfold next
  cases s.dropWhile (· == sep) with
  | nil => exact iff_of_true rfl rfl
  | cons b t => exact iff_of_false nofun nofun

/-- A word that nothing follows. -/
theorem next_word (h : IsWord sep w) : next sep w = some (w, []) := by
  obtain ⟨b, v, rfl⟩ := List.exists_cons_of_ne_nil h.ne_nil
  have hb : b ≠ sep := fun heq => h.notMem (heq ▸ List.mem_cons_self)
  have hall := bne_of_notMem h.notMem
  rw [next_of_head hb, List.takeWhile_eq_self_iff.mpr hall, List.dropWhile_eq_nil_iff.mpr hall]
  rfl

/-- A word up to a separator. -/
theorem next_word_sep (h : IsWord sep w) (rest : List α) : next sep (w ++ sep :: rest) = some (w, rest) := by
  obtain ⟨b, v, rfl⟩ := List.exists_cons_of_ne_nil h.ne_nil
  have hb : b ≠ sep := fun heq => h.notMem (heq ▸ List.mem_cons_self)
  have hall := bne_of_notMem h.notMem
  rw [List.cons_append, next_of_head hb, ← List.cons_append, List.takeWhile_append_of_pos hall,
    List.dropWhile_append_of_pos hall, List.takeWhile_cons_of_neg (by simp),
    List.dropWhile_cons_of_neg (by simp), List.append_nil]
  rfl

theorem next_eq_some_iff : next sep s = some (w, rest) ↔ StartsWith sep w rest s := by
  constructor
  · intro h
    obtain ⟨k, t, rfl, ht⟩ := eq_replicate_append sep s
    rw [next_replicate] at h
    cases t with
    | nil => cases h
    | cons b t =>
        have hb : b ≠ sep := fun heq => ht (congrArg some heq)
        rw [next_of_head hb] at h
        cases h
        have hparts := List.takeWhile_append_dropWhile (p := (· != sep)) (l := b :: t)
        have hword : IsWord sep ((b :: t).takeWhile (· != sep)) := by
          refine ⟨?_, ?_⟩
          · rw [List.takeWhile_cons_of_pos (by simpa using hb)]
            exact List.cons_ne_nil _ _
          · intro hmem
            have hne := List.mem_takeWhile_imp hmem
            simp at hne
        refine ⟨hword, k, ?_⟩
        cases hd : (b :: t).dropWhile (· != sep) with
        | nil =>
            rw [hd, List.append_nil] at hparts
            exact Or.inl ⟨by rw [hparts], rfl⟩
        | cons c u =>
            -- what stops the word is the separator
            have hc : c = sep := by
              have hhead := List.head?_dropWhile_not (· != sep) (b :: t)
              rw [hd] at hhead
              simpa using hhead
            rw [hd, hc] at hparts
            refine Or.inr ?_
            show _ = List.replicate k sep ++ ((b :: t).takeWhile (· != sep) ++ sep :: u)
            rw [hparts]
  · rintro ⟨hword, k, ⟨rfl, rfl⟩ | rfl⟩
    · rw [next_replicate]
      exact next_word hword
    · rw [next_replicate]
      exact next_word_sep hword rest

/-! ## Words and components -/

open Lexical

theorem components_replicate (k : ℕ) (s : List α) :
    components sep (List.replicate k sep ++ s) = components sep s := by
  induction k with
  | zero => rfl
  | succ k ih =>
      have hcut := components_append sep [] (List.replicate k sep ++ s)
      rw [List.replicate_succ, List.cons_append]
      rw [List.nil_append, components_nil, List.nil_append] at hcut
      rw [hcut, ih]

/-- A word is its one component. -/
theorem components_word (h : IsWord sep w) : components sep w = [w] := by
  unfold components
  rw [List.splitOn_eq_singleton h.notMem, List.filter_cons_of_pos (by simpa using h.ne_nil)]
  rfl

theorem components_of_none (h : next sep s = none) : components sep s = [] := by
  have hall := next_eq_none_iff.mp h
  rw [List.eq_replicate_of_mem hall, ← List.append_nil (List.replicate _ _), components_replicate, components_nil]

/-- **The first word is the first component**, and the others are those of the rest. -/
theorem components_of_next (h : next sep s = some (w, rest)) :
    components sep s = w :: components sep rest := by
  obtain ⟨hword, k, ⟨rfl, rfl⟩ | rfl⟩ := next_eq_some_iff.mp h
  · rw [components_replicate, components_word hword, components_nil]
  · rw [components_replicate, components_append, components_word hword]
    rfl

end Words
