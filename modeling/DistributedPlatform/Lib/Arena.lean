import Mathlib.Data.Finset.Basic
import Mathlib.Data.Finset.Lattice.Lemmas

/-!
# `Lib.Arena` — which blocks are live

An arena is the set of the live blocks of a heap. Blocks are numbered in the order in which they were made,
and no number is given twice; that the next one is free is carried by the structure. Whether an allocation
succeeds is an argument, and freeing what is not live is no operation at all.

* `Grown` — what a sequence of allocations did: the blocks it made, and the arena after;
* `Grown.freeAll` — freeing what was made leaves what was made after it;
* `Grown.live_eq`, `Grown.live_ne` — the blocks are those there were when nothing is left, and only then;
* `Grown.val`, `free_val`, `freeAll_val` — allocating and freeing, on the multiset of the live blocks.
-/

structure Arena where
  live : Finset ℕ
  next : ℕ
  below : ∀ b ∈ live, b < next

namespace Arena

theorem below_empty : ∀ b ∈ (∅ : Finset ℕ), b < 0 := fun _ hb => absurd hb (Finset.notMem_empty _)

/-- No block is live, and none was. -/
def empty : Arena := ⟨∅, 0, below_empty⟩

/-- One more block. -/
def push (m : Arena) : Arena where
  live := insert m.next m.live
  next := m.next + 1
  below b hb := by
    rcases Finset.mem_insert.mp hb with rfl | hb
    · exact Nat.lt_succ_self _
    · exact Nat.lt_succ_of_lt (m.below b hb)

/-- An allocation; `ok` is whether it succeeds. -/
def alloc (m : Arena) (ok : Bool) : Option ℕ × Arena := if ok then (some m.next, m.push) else (none, m)

/-- A block gone. -/
def drop (m : Arena) (b : ℕ) : Arena where
  live := m.live.erase b
  next := m.next
  below c hc := m.below c (Finset.mem_of_mem_erase hc)

def free (m : Arena) (b : ℕ) : Option Arena := if b ∈ m.live then some (m.drop b) else none

def freeAll : Arena → List ℕ → Option Arena
  | m, [] => some m
  | m, b :: bs =>
      match m.free b with
      | none => none
      | some m => m.freeAll bs

/-- The number of a new block is not that of a live one. -/
theorem next_notMem (m : Arena) : m.next ∉ m.live := fun h => Nat.lt_irrefl _ (m.below _ h)

/-- Live blocks can be freed, each once, and the others stay. -/
theorem freeAll_live {bs : List ℕ} {m : Arena} (hnd : bs.Nodup) (hlive : ∀ b ∈ bs, b ∈ m.live) :
    ∃ m', m.freeAll bs = some m' ∧ m'.live = m.live \ bs.toFinset := by
  induction bs generalizing m with
  | nil => exact ⟨m, rfl, by simp⟩
  | cons b bs ih =>
      obtain ⟨hb, hnd⟩ := List.nodup_cons.mp hnd
      have hrest : ∀ c ∈ bs, c ∈ (m.drop b).live := by
        intro c hc
        refine Finset.mem_erase.mpr ⟨?_, hlive c (List.mem_cons_of_mem b hc)⟩
        rintro rfl
        exact hb hc
      obtain ⟨m', hfree, hm'⟩ := ih hnd hrest
      refine ⟨m', ?_, ?_⟩
      · show (match m.free b with | none => none | some m => m.freeAll bs) = some m'
        unfold free
        rw [if_pos (hlive b List.mem_cons_self)]
        exact hfree
      · rw [hm', List.toFinset_cons, Finset.sdiff_insert]
        exact Finset.erase_sdiff_comm _ _ _

theorem live_of_free {m m' : Arena} {b : ℕ} (h : m.free b = some m') : m'.live = m.live.erase b := by
  unfold free at h
  split at h
  · cases h
    rfl
  · cases h

/-- What is freed is gone, and nothing else. -/
theorem live_of_freeAll {bs : List ℕ} {m m' : Arena} (h : m.freeAll bs = some m') :
    m'.live = m.live \ bs.toFinset := by
  induction bs generalizing m with
  | nil =>
      cases h
      simp
  | cons b bs ih =>
      unfold freeAll at h
      split at h
      · cases h
      · next m₁ hfree =>
          rw [ih h, live_of_free hfree, List.toFinset_cons, Finset.sdiff_insert]
          exact Finset.erase_sdiff_comm _ _ _

/-- The blocks `bs` were made, and those there were are still live. -/
structure Grown (m : Arena) (bs : List ℕ) (m' : Arena) : Prop where
  nodup : bs.Nodup
  fresh : ∀ b ∈ bs, b ∉ m.live
  live : m'.live = m.live ∪ bs.toFinset

variable {m m' m'' : Arena} {bs cs : List ℕ}

theorem Grown.refl (m : Arena) : Grown m [] m := ⟨List.nodup_nil, nofun, by simp⟩

theorem Grown.push (m : Arena) : Grown m [m.next] m.push where
  nodup := List.nodup_singleton _
  fresh b hb := by
    rw [List.mem_singleton] at hb
    exact hb ▸ m.next_notMem
  live := by
    show insert m.next m.live = _
    rw [Finset.insert_eq, Finset.union_comm]
    rfl

theorem Grown.trans (h : Grown m bs m') (h' : Grown m' cs m'') : Grown m (bs ++ cs) m'' where
  nodup := by
    refine List.nodup_append.mpr ⟨h.nodup, h'.nodup, ?_⟩
    rintro b hb c hc rfl
    refine h'.fresh b hc ?_
    rw [h.live]
    exact Finset.mem_union_right _ (List.mem_toFinset.mpr hb)
  fresh b hb := by
    rcases List.mem_append.mp hb with hb | hb
    · exact h.fresh b hb
    · intro hm
      refine h'.fresh b hb ?_
      rw [h.live]
      exact Finset.mem_union_left _ hm
  live := by rw [h'.live, h.live, List.toFinset_append, Finset.union_assoc]

/-- Freeing the blocks of an earlier growth, in whatever order, leaves the later one. -/
theorem Grown.freeAll (h : Grown m bs m') (h' : Grown m' cs m'') {ds : List ℕ} (hperm : ds.Perm bs) :
    ∃ n, m''.freeAll ds = some n ∧ Grown m cs n := by
  have hnd : ds.Nodup := hperm.nodup_iff.mpr h.nodup
  have hlive : ∀ b ∈ ds, b ∈ m''.live := by
    intro b hb
    rw [h'.live, h.live]
    exact Finset.mem_union_left _ (Finset.mem_union_right _ (List.mem_toFinset.mpr (hperm.mem_iff.mp hb)))
  obtain ⟨n, hfree, hn⟩ := freeAll_live hnd hlive
  have hold : ∀ b ∈ cs, b ∉ m.live ∪ bs.toFinset := fun b hb => h.live ▸ h'.fresh b hb
  have hdisj : Disjoint (m.live ∪ cs.toFinset) bs.toFinset := by
    rw [Finset.disjoint_right]
    intro b hb hmem
    rcases Finset.mem_union.mp hmem with hm | hc
    · exact h.fresh b (List.mem_toFinset.mp hb) hm
    · exact hold b (List.mem_toFinset.mp hc) (Finset.mem_union_right _ hb)
  refine ⟨n, hfree, h'.nodup, fun b hb hm => hold b hb (Finset.mem_union_left _ hm), ?_⟩
  rw [hn, h'.live, h.live, List.toFinset_eq_of_perm _ _ hperm, Finset.union_right_comm]
  exact Finset.union_sdiff_cancel_right hdisj

theorem Grown.free {b : ℕ} (h : Grown m [b] m') (h' : Grown m' cs m'') :
    ∃ n, m''.free b = some n ∧ Grown m cs n := by
  obtain ⟨n, hfree, hn⟩ := h.freeAll h' (List.Perm.refl _)
  refine ⟨n, ?_, hn⟩
  unfold Arena.freeAll at hfree
  split at hfree
  · cases hfree
  · next k hk => rw [hk]; exact hfree

theorem Grown.live_eq (h : Grown m [] m') : m'.live = m.live := by
  rw [h.live]
  exact Finset.union_empty _

/-- With a block made the arena is not the one before. -/
theorem Grown.live_ne (h : Grown m bs m') (hbs : bs ≠ []) : m'.live ≠ m.live := by
  obtain ⟨b, cs, rfl⟩ := List.exists_cons_of_ne_nil hbs
  intro heq
  refine h.fresh b List.mem_cons_self ?_
  rw [← heq, h.live]
  exact Finset.mem_union_right _ (List.mem_toFinset.mpr List.mem_cons_self)

/-! ## The live blocks as a multiset -/

theorem Grown.val (h : Grown m bs m') : m'.live.val = (bs : Multiset ℕ) + m.live.val := by
  have hdisj : Disjoint (bs : Multiset ℕ) m.live.val := Multiset.disjoint_left.mpr fun hb hm => h.fresh _ hb hm
  have hnodup := Multiset.nodup_add.mpr ⟨Multiset.coe_nodup.mpr h.nodup, m.live.nodup, hdisj⟩
  refine (Multiset.Nodup.ext m'.live.nodup hnodup).mpr fun b => ?_
  rw [Finset.mem_val, h.live, Finset.mem_union, List.mem_toFinset, Multiset.mem_add, Multiset.mem_coe, Finset.mem_val,
    or_comm]

/-- What is accounted for can be freed, and the rest is what stays. -/
theorem free_val {b : ℕ} {r : Multiset ℕ} (h : m.live.val = b ::ₘ r) : ∃ m', m.free b = some m' ∧ m'.live.val = r := by
  have hb : b ∈ m.live := Finset.mem_val.mp (h ▸ Multiset.mem_cons_self b r)
  refine ⟨m.drop b, if_pos hb, ?_⟩
  show (m.live.erase b).val = r
  rw [Finset.erase_val, h, Multiset.erase_cons_head]

theorem freeAll_val {r : Multiset ℕ} (h : m.live.val = (bs : Multiset ℕ) + r) :
    ∃ m', m.freeAll bs = some m' ∧ m'.live.val = r := by
  induction bs generalizing m with
  | nil => exact ⟨m, rfl, h.trans (Multiset.zero_add r)⟩
  | cons b bs ih =>
      obtain ⟨m₁, hfree, hm₁⟩ := free_val (h.trans (Multiset.cons_add b (bs : Multiset ℕ) r))
      obtain ⟨m', hrest, hm'⟩ := ih hm₁
      refine ⟨m', ?_, hm'⟩
      simp only [freeAll, hfree, hrest]

end Arena
