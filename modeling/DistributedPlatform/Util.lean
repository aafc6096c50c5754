import Mathlib.Data.List.DropRight
import DistributedPlatform.Host
import DistributedPlatform.Lib.Search
import DistributedPlatform.Lib.Words

/-!
# `Util` — searching strings

`strstr` and `dirname` of the C library, and the server's own `strstrrev` (`util.cpp`). Results are offsets
into the string searched.

* `strstr_first`, `strstrrevLoop_eq` — what the searches find;
* `strstrrev_last` — the last occurrence.
-/

namespace DistributedPlatform

/-- `strstr`: where `needle` first occurs. -/
def strstr (needle : CStr) : CStr → Option Nat
  | [] => if needle.isPrefixOf [] then some 0 else none
  | b :: rest =>
      if needle.isPrefixOf (b :: rest) then some 0 else (strstr needle rest).map (· + 1)

/-- The loop of `strstrrev`: search on from one past each hit. `base` is the offset of `haystack` in the
    original string; each round shortens it, so its length bounds the rounds. -/
def strstrrevLoop (needle : CStr) : (fuel : Nat) → (haystack : CStr) → (base : Nat) →
    (result : Option Nat) → Option Nat
  | 0, _, _, result => result
  | fuel + 1, haystack, base, result =>
      match strstr needle haystack with
      | none => result
      | some i => strstrrevLoop needle fuel (haystack.drop (i + 1)) (base + i + 1) (some (base + i))

/-- `strstrrev`: where `needle` last occurs (the start for an empty needle). -/
def strstrrev (haystack needle : CStr) : Option Nat :=
  if needle = [] then some 0
  else strstrrevLoop needle (haystack.length + 1) haystack 0 none

/-- Everything up to the last byte other than `b`. -/
def trimRight (b : Byte) (s : CStr) : CStr := s.rdropWhile (· == b)

/-- POSIX `dirname`. -/
def dirname (path : CStr) : CStr :=
  let slash := 47
  let p := trimRight slash path
  if p = [] then (if path = [] then bytes "." else bytes "/")
  else if slash ∉ p then bytes "."
  else
    let d := trimRight slash (p.rdropWhile (· != slash))
    if d = [] then bytes "/" else d

/-- The part of a path behind its last slash. -/
def lastPart (p : CStr) : CStr := p.rtakeWhile (· != 47)

/-- `strtok_r` takes words off a string. -/
theorem strtok_eq_next (delim : Byte) (s : CStr) : strtok delim s = Words.next delim s := by
  unfold strtok Words.next
  cases s.dropWhile (· == delim) <;> rfl

/-- The directory of an absolute path is a part of it. -/
theorem dirname_initial {path : CStr} (h : path.head? = some 47) : dirname path <+: path := by
  obtain ⟨rest, rfl⟩ : ∃ rest, path = 47 :: rest := by
    cases path with
    | nil => cases h
    | cons b rest => exact ⟨rest, by cases h; rfl⟩
  have hroot : bytes "/" <+: (47 : Byte) :: rest := ⟨rest, rfl⟩
  have htrim : ∀ s : CStr, trimRight 47 s <+: s := fun s => List.rdropWhile_prefix _ s
  unfold dirname
  dsimp only
  split
  · rw [if_neg (List.cons_ne_nil _ _)]
    exact hroot
  · next hne =>
      split
      · next hslash =>
          -- what is left of the path still starts with its slash
          obtain ⟨b, t, hbt⟩ := List.exists_cons_of_ne_nil hne
          obtain ⟨u, hu⟩ := htrim (47 :: rest)
          rw [hbt, List.cons_append] at hu
          rw [hbt, (List.cons.inj hu).1] at hslash
          exact absurd List.mem_cons_self hslash
      · split
        · exact hroot
        · exact (htrim _).trans ((List.rdropWhile_prefix _ _).trans (htrim _))

/-! ## What is found -/

open Search (OccursAt First Last)

variable {needle s : CStr} {b : Byte}

theorem strstr_first (needle s : CStr) : First needle s (strstr needle s) := by
  induction s with
  | nil =>
      unfold strstr
      split
      · next h => exact ⟨List.isPrefixOf_iff_prefix.mp h, fun _ _ => Nat.zero_le _⟩
      · next h =>
          intro i hi
          unfold OccursAt at hi
          rw [List.drop_nil] at hi
          exact h (List.isPrefixOf_iff_prefix.mpr hi)
  | cons b rest ih =>
      unfold strstr
      split
      · next h => exact ⟨List.isPrefixOf_iff_prefix.mp h, fun _ _ => Nat.zero_le _⟩
      · next h => exact First.cons (fun hi => h (List.isPrefixOf_iff_prefix.mpr hi)) ih

/-- Behind a hit there is still the end of the string. -/
theorem strstr_lt_length {i : Nat} (hne : needle ≠ []) (h : strstr needle s = some i) : i < s.length := by
  have hfirst := strstr_first needle s
  rw [h] at hfirst
  exact hfirst.1.lt_length hne

/-- The loop goes over all hits: it finds the last one, or keeps the result it had. -/
theorem strstrrevLoop_eq (hne : needle ≠ []) (fuel : Nat) :
    ∀ (haystack : CStr) (base : Nat) (result : Option Nat), haystack.length < fuel →
      ∃ r, Last needle haystack r ∧
        strstrrevLoop needle fuel haystack base result = (r.map (base + ·)).or result := by
  induction fuel with
  | zero => exact fun _ _ _ h => absurd h (Nat.not_lt_zero _)
  | succ fuel ih =>
      intro haystack base result hfuel
      have hfirst := strstr_first needle haystack
      unfold strstrrevLoop
      cases hi : strstr needle haystack with
      | none =>
          rw [hi] at hfirst
          exact ⟨none, hfirst, rfl⟩
      | some i =>
          rw [hi] at hfirst
          have hlt := strstr_lt_length hne hi
          have hshort : (haystack.drop (i + 1)).length < fuel := by
            rw [List.length_drop]
            omega
          obtain ⟨r, hr, hloop⟩ := ih (haystack.drop (i + 1)) (base + i + 1) (some (base + i)) hshort
          refine ⟨_, hfirst.last hr, ?_⟩
          dsimp only
          rw [hloop]
          cases r with
          | none => rfl
          | some k =>
              show some (base + i + 1 + k) = some (base + (i + 1 + k))
              congr 1
              omega

theorem strstrrevLoop_last (hne : needle ≠ []) {fuel : Nat} {haystack : CStr} (hfuel : haystack.length < fuel) :
    Last needle haystack (strstrrevLoop needle fuel haystack 0 none) := by
  obtain ⟨r, hr, hloop⟩ := strstrrevLoop_eq hne fuel haystack 0 none hfuel
  rw [hloop, Option.or_none]
  simpa using hr

theorem last_strstrrev (hne : needle ≠ []) (haystack : CStr) : Last needle haystack (strstrrev haystack needle) := by
  unfold strstrrev
  rw [if_neg hne]
  exact strstrrevLoop_last hne (Nat.lt_succ_self _)

/-- **The last occurrence.** The loop ends, in as many rounds as there are characters and one more, and never
    searches from behind the end of the string; the result is the last place at which the needle occurs, and `NULL`
    if there is none. -/
theorem strstrrev_last (hne : needle ≠ []) (haystack : CStr) :
    (∀ fuel, haystack.length < fuel → strstrrevLoop needle fuel haystack 0 none = strstrrev haystack needle) ∧
      (∀ s i, strstr needle s = some i → i + 1 ≤ s.length) ∧
      (∀ i, strstrrev haystack needle = some i ↔
        OccursAt needle haystack i ∧ ∀ j, OccursAt needle haystack j → j ≤ i) ∧
      (strstrrev haystack needle = none ↔ ∀ i, ¬ OccursAt needle haystack i) := by
  have hlast := last_strstrrev hne haystack
  refine ⟨fun fuel hfuel => (strstrrevLoop_last hne hfuel).unique hlast, fun s i hi => strstr_lt_length hne hi,
    fun i => ⟨fun h => ?_, fun h => ?_⟩, fun h => ?_, fun h => ?_⟩
  · rw [h] at hlast
    exact hlast
  · have hi : Last needle haystack (some i) := h
    exact hlast.unique hi
  · rw [h] at hlast
    exact hlast
  · have hnone : Last needle haystack none := h
    exact hlast.unique hnone

/-- The two occurrences overlap. -/
theorem strstrrev_last_overlap : strstrrev (bytes "banana") (bytes "ana") = some 3 := by
  refine ((strstrrev_last (by decide) (bytes "banana")).2.2.1 3).mpr ⟨⟨[], rfl⟩, fun j hj => ?_⟩
  have hle := hj.add_length_le (by decide)
  have hlength : (bytes "banana").length = 6 ∧ (bytes "ana").length = 3 := by decide
  omega

theorem strstrrev_singleton (hs : b ∉ s) (l : CStr) : strstrrev (l ++ b :: s) [b] = some l.length :=
  (last_strstrrev (List.cons_ne_nil _ _) _).unique (Search.last_singleton hs l)

/-- The search for a slash finds the last one of an absolute path, behind whatever stands before it. -/
theorem lastPart_eq (c : CStr) {p : CStr} (habs : p.head? = some 47) :
    ∃ i, strstrrev (c ++ p) (bytes "/") = some i ∧ (c ++ p).drop (i + 1) = lastPart p := by
  have hmem : 47 ∈ p.reverse := List.mem_reverse.mpr (List.mem_of_mem_head? habs)
  obtain ⟨r, q, hrev, hr⟩ := List.eq_append_cons_of_mem hmem
  have hsplit : p = q.reverse ++ 47 :: r.reverse := by
    rw [← List.reverse_reverse p, hrev]
    simp
  have hlast : 47 ∉ r.reverse := by simpa using hr
  refine ⟨(c ++ q.reverse).length, ?_, ?_⟩
  · have hfind := strstrrev_singleton hlast (c ++ q.reverse)
    rw [hsplit, ← List.append_assoc]
    exact hfind
  · have htake : r.takeWhile (· != 47) = r := by
      rw [List.takeWhile_eq_self_iff]
      intro x hx
      simpa using fun h : x = 47 => hr (h ▸ hx)
    have hpart : lastPart p = r.reverse := by
      unfold lastPart List.rtakeWhile
      rw [hrev, List.takeWhile_append_of_pos, List.takeWhile_cons_of_neg (by simp), List.append_nil]
      intro x hx
      simpa using fun h : x = 47 => hr (h ▸ hx)
    rw [hpart, hsplit, ← List.append_assoc, ← List.drop_drop, List.drop_left, List.drop_one, List.tail_cons]

theorem strstrrev_singleton_ne_none (h : b ∈ s) : strstrrev s [b] ≠ none := by
  intro hnone
  have hlast := last_strstrrev (List.cons_ne_nil b []) s
  rw [hnone] at hlast
  obtain ⟨l, r, rfl⟩ := List.append_of_mem h
  refine hlast l.length ?_
  unfold OccursAt
  rw [List.drop_left]
  exact ⟨r, rfl⟩

end DistributedPlatform
