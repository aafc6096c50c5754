import Mathlib.Algebra.Order.BigOperators.Group.List
import Mathlib.Algebra.Order.Group.Nat
import DistributedPlatform.Programs.Cat

/-!
# `Correctness.Cat` — what cat writes

Every access to the buffer is inside it, and of each chunk the bytes in front of its first NUL are written.

* `readFile_eq`, `cat_eq` — what is written;
* `cat_iff` — when that is what is in the files.
-/

namespace DistributedPlatform
namespace Cat

/-- A way to read a file: chunks that fit in front of the NUL. -/
structure Split (content : List Byte) (chunks : List (List Byte)) : Prop where
  whole : chunks.flatten = content
  small : ∀ c ∈ chunks, c ≠ [] ∧ c.length ≤ bufSize - 1

variable {contents : List (List Byte)} {splits : List (List (List Byte))} {chunks : List (List Byte)} {buf : Block}

/-- A chunk in the buffer, with a NUL behind it. -/
theorem fill_eq (hbuf : buf.length = bufSize) {c : List Byte} (hc : c.length ≤ bufSize - 1) :
    ∃ b r, memcpy buf 0 c = .ok b ∧ store b c.length 0 = .ok (c ++ 0 :: r) ∧ (c ++ 0 :: r).length = bufSize := by
  have hsize : bufSize = 128 := rfl
  obtain ⟨m, r, rfl, hm, hr⟩ := exists_parts (b := buf) (n := c.length) (m := bufSize - c.length) (by omega)
  obtain ⟨x, r, rfl⟩ : ∃ x r', r = x :: r' := List.exists_cons_of_length_pos (by omega)
  have hcopy : memcpy ([] ++ m ++ x :: r) ([] : Block).length c = .ok ([] ++ c ++ x :: r) := memcpy_append hm.symm
  refine ⟨c ++ x :: r, r, hcopy, store_append c r x 0, ?_⟩
  rw [List.length_cons] at hr
  rw [List.length_append, List.length_cons]
  omega

/-- **One file**, in any buffer: the strings its chunks start with. -/
theorem readFile_eq (hbuf : buf.length = bufSize) (hsmall : ∀ c ∈ chunks, c ≠ [] ∧ c.length ≤ bufSize - 1) :
    readFile buf (chunks.map some) = .ok (chunks.flatMap cstr) := by
  induction chunks generalizing buf with
  | nil => rfl
  | cons c chunks ih =>
      obtain ⟨hne, hlen⟩ := hsmall c List.mem_cons_self
      obtain ⟨b, r, hcopy, hstore, hbuf'⟩ := fill_eq hbuf hlen
      have hcount : ReadAns.nbytes (some c) > 0 := by
        have hpos := List.length_pos_iff.mpr hne
        show (c.length : Int) > 0
        omega
      have hstring : strAt (c ++ 0 :: r) 0 = .ok (cstr c) := by
        rw [strAt_of_mem (by simp), cstr_append_zero]
      have htoNat : (ReadAns.nbytes (some c)).toNat = c.length := Int.toNat_natCast _
      have hrest := ih hbuf' fun d hd => hsmall d (List.mem_cons_of_mem c hd)
      rw [List.map_cons, readFile, List.flatMap_cons]
      simp only [if_pos hcount, Option.getD_some, hcopy, htoNat, hstore, hstring, hrest, bind, Except.bind]

/-- **All files**: nothing is written behind the buffer. -/
theorem cat_eq (fill : Nat → Nat → Byte) (hsplits : List.Forall₂ Split contents splits) (i : Nat) :
    cat fill i (splits.map fun chunks => some (chunks.map some)) = .ok (splits.flatten.flatMap cstr) := by
  induction hsplits generalizing i with
  | nil => rfl
  | cons hsplit _ ih =>
      have hfile := readFile_eq (length_fresh (fill i) bufSize) hsplit.small
      rw [List.map_cons, cat, List.flatten_cons, List.flatMap_append]
      simp only [hfile, ih, bind, Except.bind]

theorem cstr_eq_self_iff {s : List Byte} : cstr s = s ↔ 0 ∉ s := by
  refine ⟨fun h h0 => ?_, cstr_of_notMem⟩
  rw [← h] at h0
  have hpos := List.mem_takeWhile_imp h0
  simp at hpos

theorem length_cstr_le (s : List Byte) : (cstr s).length ≤ s.length := (List.takeWhile_prefix _).length_le

/-- What is lost of one chunk is not made up for by another. -/
theorem flatMap_cstr_eq_iff : chunks.flatMap cstr = chunks.flatten ↔ ∀ c ∈ chunks, 0 ∉ c := by
  induction chunks with
  | nil => exact iff_of_true rfl nofun
  | cons c chunks ih =>
      rw [List.flatMap_cons, List.flatten_cons, List.forall_mem_cons, ← ih, ← cstr_eq_self_iff]
      constructor
      · intro h
        have hlen := congrArg List.length h
        have hle := length_cstr_le c
        have hrest : (chunks.flatMap cstr).length ≤ chunks.flatten.length := by
          rw [List.length_flatMap, List.length_flatten]
          exact List.sum_le_sum fun d _ => length_cstr_le d
        rw [List.length_append, List.length_append] at hlen
        exact List.append_inj h (by omega)
      · rintro ⟨hc, hrest⟩
        rw [hc, hrest]

theorem flatten_splits (hsplits : List.Forall₂ Split contents splits) : splits.flatten.flatten = contents.flatten := by
  induction hsplits with
  | nil => rfl
  | cons hsplit _ ih => rw [List.flatten_cons, List.flatten_append, hsplit.whole, ih, List.flatten_cons]

theorem notMem_flatten {b : Byte} {l : List (List Byte)} : (∀ s ∈ l, b ∉ s) ↔ b ∉ l.flatten := by
  rw [List.mem_flatten]
  exact ⟨fun h ⟨s, hs, hb⟩ => h s hs hb, fun h s hs hb => h ⟨s, hs, hb⟩⟩

/-- **What is written is what is in the files**, for every way to read them, exactly when there is no NUL in any. -/
theorem cat_iff (fill : Nat → Nat → Byte) (hsplits : List.Forall₂ Split contents splits) :
    cat fill 0 (splits.map fun chunks => some (chunks.map some)) = .ok contents.flatten ↔
      ∀ content ∈ contents, 0 ∉ content := by
  rw [cat_eq fill hsplits, ← flatten_splits hsplits, Except.ok.injEq, flatMap_cstr_eq_iff, notMem_flatten,
    flatten_splits hsplits, notMem_flatten]

theorem cat_iff_two :
    cat (fun _ _ => 7) 0 [some [some (bytes "ab"), some (bytes "c")], some [some (bytes "d")]] =
      .ok (bytes "abcd") := by
  have hsplit : ∀ chunks : List (List Byte), (∀ c ∈ chunks, c ≠ [] ∧ c.length ≤ bufSize - 1) →
      Split chunks.flatten chunks := fun _ h => ⟨rfl, h⟩
  have hfiles := List.Forall₂.cons (hsplit [bytes "ab", bytes "c"] (by decide))
    (List.Forall₂.cons (hsplit [bytes "d"] (by decide)) .nil)
  exact (cat_iff (fun _ _ => 7) hfiles).mpr (by decide)

/-- A NUL, and what is behind it in its chunk, is lost. -/
theorem nul_lost :
    ¬ ∀ (contents : List (List Byte)) (splits : List (List (List Byte))), List.Forall₂ Split contents splits →
      cat (fun _ _ => 7) 0 (splits.map fun chunks => some (chunks.map some)) = .ok contents.flatten := by
  intro hall
  have hsplit : Split [65, 0, 66] [[65, 0, 66]] := ⟨rfl, by decide⟩
  have hcat := hall [[65, 0, 66]] [[[65, 0, 66]]] (.cons hsplit .nil)
  rw [cat_eq _ (.cons hsplit .nil), Except.ok.injEq] at hcat
  revert hcat
  decide

end Cat
end DistributedPlatform
