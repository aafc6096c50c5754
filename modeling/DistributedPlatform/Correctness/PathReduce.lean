import DistributedPlatform.Lib.Spelling
import DistributedPlatform.Programs.ShellPath

/-!
# `Correctness.PathReduce` — what `shellPathReduce` leaves

The function works on the bytes of one string in place, with two cursors over the same bytes. On a block that
holds a string and its NUL it leaves the tidy form of the string and its NUL, and the bytes behind the string
as they were.

* `shiftDown_eq`, `squeezeSlashes_eq`, `reducePass_eq` — one statement for each loop, on a block given by its
  parts;
* `squeezeSlashes_skip`, `squeezeSlashes_run` — what the scan does at a byte;
* `reduceLoop_eq` — two rounds are enough;
* `reduces` — the result, in the terms of slashes and components.
-/

namespace DistributedPlatform
namespace PathReduce

open Shell Lexical Spelling

variable {z : Block}

/-! ## The inner loops -/

theorem slashRun_eq {x : Byte} (hx : x ≠ 47) (y : Block) (k : Nat) :
    ∀ {n : Nat} (l : Block), k < n →
      slashRun (l ++ List.replicate k 47 ++ x :: y) n l.length = .ok (l.length + k) := by
  induction k with
  | zero =>
      intro n l hlt
      obtain ⟨n, rfl⟩ : ∃ j, n = j + 1 := ⟨n - 1, by omega⟩
      simp [slashRun, hx, bind, Except.bind]
  | succ k ih =>
      intro n l hlt
      obtain ⟨n, rfl⟩ : ∃ j, n = j + 1 := ⟨n - 1, by omega⟩
      have hblock : l ++ List.replicate (k + 1) 47 ++ x :: y = l ++ 47 :: (List.replicate k 47 ++ x :: y) := by
        rw [List.replicate_succ, List.append_assoc, List.cons_append]
      have hblock' : l ++ 47 :: (List.replicate k 47 ++ x :: y) =
          (l ++ [47]) ++ List.replicate k 47 ++ x :: y := by
        simp
      have hrest := ih (n := n) (l ++ [47]) (by omega)
      rw [List.length_append, List.length_singleton, ← hblock'] at hrest
      simp only [slashRun, hblock, load_append, bind, Except.bind, if_true, hrest]
      congr 1
      omega

/-- The run of slashes at a cursor in a string ends at the next byte that is none, or at the NUL. -/
theorem slashRun_string (l : Block) (k : Nat) {t : CStr} (z : Block) (ht : t.head? ≠ some 47) :
    slashRun (l ++ (List.replicate k 47 ++ t) ++ 0 :: z)
      ((l ++ (List.replicate k 47 ++ t) ++ 0 :: z).length - l.length) l.length = .ok (l.length + k) := by
  obtain ⟨x, y, hxy, hx⟩ : ∃ x y, t ++ 0 :: z = x :: y ∧ x ≠ 47 := by
    cases t with
    | nil => exact ⟨0, z, rfl, by decide⟩
    | cons a t => exact ⟨a, t ++ 0 :: z, rfl, fun h => ht (congrArg some h)⟩
  have hblock : l ++ (List.replicate k 47 ++ t) ++ 0 :: z = l ++ List.replicate k 47 ++ x :: y := by
    rw [← hxy]
    simp only [List.append_assoc]
  rw [hblock]
  exact slashRun_eq hx y k l (by simp)

/-- The string `x` at distance `m` is moved down over it: what it leaves behind is the end of what stood there,
    NUL included. -/
theorem shiftDown_eq (z : Block) (x : CStr) : ∀ {n : Nat} (l m : Block), 0 ∉ x → x.length < n →
    shiftDown n (l ++ m ++ x ++ 0 :: z) l.length (l.length + m.length) =
      .ok (l ++ x ++ 0 :: ((m ++ x ++ [0]).drop (x.length + 1) ++ z)) := by
  induction x with
  | nil =>
      intro n l m _ hlt
      obtain ⟨n, rfl⟩ : ∃ j, n = j + 1 := ⟨n - 1, by omega⟩
      -- the byte at `u` is the first of `m` and the NUL
      obtain ⟨c, m', hm⟩ :=
        List.exists_cons_of_ne_nil (List.append_ne_nil_of_right_ne_nil m (List.cons_ne_nil 0 []))
      have hload : load (l ++ m ++ [] ++ 0 :: z) (l.length + m.length) = .ok 0 := by
        rw [List.append_nil, ← List.length_append, load_append]
      have hblock : l ++ m ++ [] ++ 0 :: z = l ++ c :: (m' ++ z) := by
        rw [List.append_nil, List.append_assoc, ← List.singleton_append, ← List.append_assoc m, hm]
        rfl
      simp only [shiftDown, hload, bind, Except.bind, if_true]
      rw [hblock, store_append, List.append_nil, List.append_nil, hm]
      rfl
  | cons a x ih =>
      intro n l m hnul hlt
      obtain ⟨n, rfl⟩ : ∃ j, n = j + 1 := ⟨n - 1, by omega⟩
      obtain ⟨ha, hx⟩ : (0 : Byte) ≠ a ∧ 0 ∉ x := by simpa using hnul
      obtain ⟨c, m', hm⟩ :=
        List.exists_cons_of_ne_nil (List.append_ne_nil_of_right_ne_nil m (List.cons_ne_nil a []))
      have hlen : m.length = m'.length := by
        have h := congrArg List.length hm
        simpa using h
      have hload : load (l ++ m ++ a :: x ++ 0 :: z) (l.length + m.length) = .ok a := by
        rw [List.append_assoc, List.cons_append, ← List.length_append, load_append]
      have hshift : m ++ a :: x = c :: (m' ++ x) := by
        rw [← List.singleton_append, ← List.append_assoc, hm]
        rfl
      have hblock : l ++ m ++ a :: x ++ 0 :: z = l ++ c :: (m' ++ x ++ 0 :: z) := by
        rw [List.append_assoc l, hshift]
        simp
      have hblock' : l ++ a :: (m' ++ x ++ 0 :: z) = (l ++ [a]) ++ m' ++ x ++ 0 :: z := by simp
      have hdrop : (m ++ a :: x ++ [0]).drop (x.length + 1 + 1) = (m' ++ x ++ [0]).drop (x.length + 1) := by
        rw [hshift]
        rfl
      have hrest := ih (n := n) (l ++ [a]) m' hx (by simpa using hlt)
      rw [List.length_append, List.length_singleton] at hrest
      simp only [shiftDown, hload, bind, Except.bind, if_neg ha.symm]
      rw [hblock, store_append, hblock']
      dsimp only
      rw [show l.length + m.length + 1 = l.length + 1 + m'.length by omega, hrest, List.length_cons, hdrop]
      simp

/-- The scan ends at the NUL. -/
theorem squeezeSlashes_nul {left s : Nat} {b : Block} (h : load b s = .ok 0) :
    squeezeSlashes (left + 1) b s = .ok b := by
  simp only [squeezeSlashes, h, bind, Except.bind, if_true]

/-- It passes over a byte that is no slash. -/
theorem squeezeSlashes_skip {left : Nat} (l : Block) {a : Byte} (t : CStr) (z : Block) (ha : a ≠ 47)
    (ha' : a ≠ 0) :
    squeezeSlashes (left + 1) (l ++ a :: t ++ 0 :: z) l.length =
      squeezeSlashes left (l ++ [a] ++ t ++ 0 :: z) (l ++ [a]).length := by
  have hrun := slashRun_string l 0 (t := a :: t) z (fun h => ha (Option.some.inj h))
  have hload : load (l ++ a :: t ++ 0 :: z) l.length = .ok a := by
    rw [List.append_assoc, List.cons_append, load_append]
  rw [List.replicate_zero, List.nil_append] at hrun
  simp only [squeezeSlashes, hload, bind, Except.bind, if_neg ha', hrun]
  rw [if_pos (by omega), List.length_append, List.length_singleton]
  simp

/-- At a run of slashes the string from the last of them on moves down to the first. -/
theorem squeezeSlashes_run {left : Nat} (l : Block) (k : Nat) {t : CStr} (z : Block) (ht : t.head? ≠ some 47)
    (hnul : 0 ∉ t) :
    squeezeSlashes (left + 1) (l ++ (List.replicate (k + 1) 47 ++ t) ++ 0 :: z) l.length =
      squeezeSlashes left
        (l ++ [47] ++ t ++ 0 :: ((List.replicate k 47 ++ 47 :: t ++ [0]).drop (t.length + 2) ++ z))
        (l ++ [47]).length := by
  have hrun := slashRun_string l (k + 1) z ht
  have hload : load (l ++ (List.replicate (k + 1) 47 ++ t) ++ 0 :: z) l.length = .ok 47 := by
    rw [List.replicate_succ, List.cons_append, List.append_assoc, List.cons_append, load_append]
  have hblock : l ++ List.replicate k 47 ++ 47 :: t ++ 0 :: z =
      l ++ (List.replicate (k + 1) 47 ++ t) ++ 0 :: z := by
    rw [List.replicate_succ']
    simp
  have hmove := shiftDown_eq z (47 :: t)
    (n := (l ++ (List.replicate (k + 1) 47 ++ t) ++ 0 :: z).length - (l.length + k)) l
    (List.replicate k 47) (by simpa using hnul) (by simp; omega)
  rw [hblock, List.length_replicate] at hmove
  simp only [squeezeSlashes, hload, bind, Except.bind, hrun]
  rw [if_neg (by decide), if_neg (by omega), show l.length + (k + 1) - 1 = l.length + k by omega, hmove,
    List.length_append, List.length_singleton]
  simp

/-- The scan leaves the squeezed string. The bytes it gives up stand behind the new NUL. -/
theorem squeezeSlashes_eq (n : Nat) : ∀ r : CStr, 0 ∉ r → r.length < n →
    ∃ w, w.length + (squeeze 47 r).length = r.length ∧ ∀ (left : Nat) (l z : Block), r.length < left →
      squeezeSlashes left (l ++ r ++ 0 :: z) l.length = .ok (l ++ squeeze 47 r ++ 0 :: (w ++ z)) := by
  induction n with
  | zero => intro r _ hlt; exact absurd hlt (Nat.not_lt_zero _)
  | succ n ih =>
      intro r hnul hlt
      obtain ⟨k, t, rfl, ht⟩ := Words.eq_replicate_append (47 : Byte) r
      have htnul : 0 ∉ t := fun h => hnul (List.mem_append_right _ h)
      rw [List.length_append, List.length_replicate] at hlt
      cases k with
      | zero =>
          cases t with
          | nil =>
              refine ⟨[], rfl, ?_⟩
              intro left l z hleft
              obtain ⟨left, rfl⟩ : ∃ n, left = n + 1 := ⟨left - 1, by omega⟩
              exact squeezeSlashes_nul (by simp)
          | cons a t =>
              have ha : a ≠ 47 := fun h => ht (congrArg some h)
              have ha' : a ≠ 0 := fun h => htnul (h ▸ List.mem_cons_self)
              have hsq : squeeze 47 (a :: t) = a :: squeeze 47 t := squeeze_cons fun h => ha h.1
              obtain ⟨w, hw, hrest⟩ := ih t (fun h => htnul (List.mem_cons_of_mem _ h)) (by simp at hlt; omega)
              refine ⟨w, by simp [hsq, ← hw, Nat.add_assoc], ?_⟩
              intro left l z hleft
              obtain ⟨left, rfl⟩ : ∃ n, left = n + 1 := ⟨left - 1, by omega⟩
              rw [List.replicate_zero, List.nil_append, squeezeSlashes_skip l t z ha ha',
                hrest left (l ++ [a]) z (by simpa using hleft), hsq]
              simp
      | succ k =>
          obtain ⟨w, hw, hrest⟩ := ih t htnul (by omega)
          refine ⟨w ++ (List.replicate k 47 ++ 47 :: t ++ [0]).drop (t.length + 2), ?_, ?_⟩
          · rw [squeeze_replicate k ht]
            simp
            omega
          · intro left l z hleft
            obtain ⟨left, rfl⟩ : ∃ n, left = n + 1 := ⟨left - 1, by omega⟩
            rw [squeezeSlashes_run l k z ht htnul, hrest left (l ++ [47]) _ (by simp at hleft; omega),
              squeeze_replicate k ht]
            simp

/-! ## The rounds -/

/-- One round leaves the tidy form. -/
theorem reducePass_eq {p : CStr} (hp : p ≠ []) (hnul : 0 ∉ p) :
    ∃ w, w.length + (tidy 47 p).length = p.length ∧
      ∀ z, reducePass (p ++ 0 :: z) = .ok (tidy 47 p ++ 0 :: (w ++ z)) := by
  obtain ⟨w, hw, hscan⟩ := squeezeSlashes_eq (p.length + 1) p hnul (Nat.lt_succ_self _)
  have hscan : ∀ z, squeezeSlashes (p ++ 0 :: z).length (p ++ 0 :: z) 0 = .ok (squeeze 47 p ++ 0 :: (w ++ z)) :=
    fun z => hscan (p ++ 0 :: z).length [] z (by simp)
  have hsqnul : 0 ∉ squeeze 47 p := fun h => hnul ((squeeze_sublist 47 p).subset h)
  have hslash : bytes "/" = [47] := by decide
  simp only [reducePass, hscan, bind, Except.bind, strlen_append hsqnul, cstr_append hsqnul, hslash]
  by_cases hone : squeeze 47 p = [47]
  · have htidy : tidy 47 p = squeeze 47 p := if_neg fun h => h.1 hone
    exact ⟨w, by rw [htidy, hw], fun z => by rw [if_pos hone, htidy]⟩
  · rcases List.eq_nil_or_concat (squeeze 47 p) with hnil | ⟨i, a, hsq⟩
    · exact absurd hnil (squeeze_ne_nil hp)
    · -- the last byte of the squeezed string
      rw [List.concat_eq_append] at hsq
      have hlen : (squeeze 47 p).length - 1 = i.length := by
        rw [hsq]
        simp
      have hblock : ∀ z, squeeze 47 p ++ 0 :: (w ++ z) = i ++ a :: (0 :: (w ++ z)) := by
        intro z
        rw [hsq]
        simp
      have hlast : (squeeze 47 p).getLast? = some a := by rw [hsq, List.getLast?_concat]
      have hpos : (squeeze 47 p).length ≠ 0 := fun h => squeeze_ne_nil hp (List.eq_nil_of_length_eq_zero h)
      simp only [if_neg hone, if_neg hpos, hlen, hblock, load_append, store_append]
      by_cases ha : a = 47
      · have htidy : tidy 47 p = i := by
          rw [tidy, if_pos ⟨hone, by rw [hlast, ha]⟩, hsq, List.dropLast_concat]
        refine ⟨0 :: w, ?_, fun z => by rw [if_pos ha, htidy]; rfl⟩
        rw [htidy, ← hw, hsq]
        simp
        omega
      · have htidy : tidy 47 p = squeeze 47 p := if_neg fun h => ha (Option.some.inj (hlast.symm.trans h.2))
        exact ⟨w, by rw [htidy, hw], fun z => by rw [if_neg ha, htidy, hblock]⟩

/-- The second round finds nothing to do. -/
theorem reduceLoop_eq {p : CStr} (hp : p ≠ []) (hnul : 0 ∉ p) :
    ∃ w, w.length + (tidy 47 p).length = p.length ∧ ∀ z fuel, 2 ≤ fuel →
      reduceLoop fuel (p ++ 0 :: z) p.length = .ok (some (tidy 47 p ++ 0 :: (w ++ z))) := by
  have htnul : 0 ∉ tidy 47 p := notMem_tidy hnul 47
  obtain ⟨w, hw, hpass⟩ := reducePass_eq hp hnul
  obtain ⟨w', hw', hagain⟩ := reducePass_eq (tidy_ne_nil hp) htnul
  rw [tidy_tidy] at hw'
  simp only [tidy_tidy] at hagain
  obtain rfl : w' = [] := List.eq_nil_of_length_eq_zero (by omega)
  refine ⟨w, hw, ?_⟩
  intro z fuel hfuel
  obtain ⟨fuel, rfl⟩ : ∃ n, fuel = n + 2 := ⟨fuel - 2, by omega⟩
  simp only [reduceLoop, hpass, bind, Except.bind, strlen_append htnul]
  by_cases hlen : (tidy 47 p).length = p.length
  · rw [if_neg (not_not_intro hlen)]
  · rw [if_pos hlen, hagain]
    dsimp only
    rw [List.nil_append, strlen_append htnul]
    dsimp only
    rw [if_neg (not_not_intro rfl)]

/-- The last byte of the empty string is looked for in front of it. -/
theorem shellPathReduce_nil (z : Block) : shellPathReduce (0 :: z) = .error .outOfBounds := by
  have hstr : strlen (0 :: z) = .ok 0 := strlen_append (p := []) List.not_mem_nil z
  have hscan : squeezeSlashes (0 :: z).length (0 :: z) 0 = .ok (0 :: z) := by
    simp [squeezeSlashes, load, inBounds, bind, Except.bind]
  have hcstr : cstr (0 :: z) = [] := cstr_append (p := []) List.not_mem_nil z
  have hpass : reducePass (0 :: z) = .error .outOfBounds := by
    simp only [reducePass, hscan, hstr, hcstr, bind, Except.bind]
    rw [if_neg (by decide), if_pos trivial]
  simp only [shellPathReduce, hstr, reduceLoop, hpass, bind, Except.bind]

/-! ## The string that is left -/

/-- `p` becomes `q` in place, whatever number of rounds is allowed from two on. The bytes `z` behind the string and
    its NUL are neither needed nor changed. -/
def ReducesTo (p q : CStr) : Prop :=
  0 ∉ q ∧ ∃ w, w.length + q.length = p.length ∧ ∀ z,
    shellPathReduce (p ++ 0 :: z) = .ok (q ++ 0 :: (w ++ z)) ∧
      ∀ fuel, 2 ≤ fuel → reduceLoop fuel (p ++ 0 :: z) p.length = .ok (some (q ++ 0 :: (w ++ z)))

theorem reducesTo_tidy {p : CStr} (hp : p ≠ []) (hnul : 0 ∉ p) : ReducesTo p (tidy 47 p) := by
  obtain ⟨w, hw, hloop⟩ := reduceLoop_eq hp hnul
  refine ⟨notMem_tidy hnul 47, w, hw, ?_⟩
  intro z
  have hfuel : 2 ≤ (p ++ 0 :: z).length + 1 := by
    simp
    omega
  refine ⟨?_, hloop z⟩
  simp only [shellPathReduce, strlen_append hnul, bind, Except.bind, hloop z _ hfuel]
  rfl

/-- There is one result. -/
theorem ReducesTo.unique {p q q' : CStr} (h : ReducesTo p q) (h' : ReducesTo p q') : q = q' := by
  obtain ⟨hq, w, -, hw⟩ := h
  obtain ⟨hq', w', -, hw'⟩ := h'
  have heq := (hw []).1.symm.trans (hw' []).1
  rw [← cstr_append hq (w ++ []), ← cstr_append hq' (w' ++ []), Except.ok.inj heq]

/-- **What `shellPathReduce` leaves**: a string without adjacent slashes and without one at its end unless it is
    `/`, with the components of the path and rooted if the path is. It is no longer than the path, stays as it is
    the next time, and is shared exactly by the paths that agree in root and components. -/
theorem reduces {p : CStr} (hp : p ≠ []) (hnul : 0 ∉ p) :
    ∃ q, ReducesTo p q ∧
      (∀ l r, q ≠ l ++ 47 :: 47 :: r) ∧ (q ≠ [47] → q.getLast? ≠ some 47) ∧
      components 47 q = components 47 p ∧ (q.head? = some 47 ↔ p.head? = some 47) ∧
      q.length ≤ p.length ∧ ReducesTo q q ∧
      ∀ p' q', p' ≠ [] → 0 ∉ p' → ReducesTo p' q' →
        (q = q' ↔ (p.head? = some 47 ↔ p'.head? = some 47) ∧ components 47 p = components 47 p') := by
  have hq := reducesTo_tidy hp hnul
  refine ⟨tidy 47 p, hq, tidy_no_adjacent 47 p, getLast?_tidy, components_tidy 47 p, head?_tidy 47 p,
    length_tidy_le 47 p, ?_, ?_⟩
  · have hagain := reducesTo_tidy (tidy_ne_nil hp) hq.1
    rwa [tidy_tidy] at hagain
  · intro p' q' hp' hnul' hq'
    rw [hq'.unique (reducesTo_tidy hp' hnul')]
    exact tidy_eq_tidy_iff

/-- Of `/a//`. -/
theorem reduces_slashes : ∃ q, ReducesTo (bytes "/a//") q ∧
    (∀ l r, q ≠ l ++ 47 :: 47 :: r) ∧ (q ≠ [47] → q.getLast? ≠ some 47) ∧
    components 47 q = components 47 (bytes "/a//") ∧ (q.head? = some 47 ↔ (bytes "/a//").head? = some 47) ∧
    q.length ≤ (bytes "/a//").length ∧ ReducesTo q q ∧
    ∀ p' q', p' ≠ [] → 0 ∉ p' → ReducesTo p' q' →
      (q = q' ↔ ((bytes "/a//").head? = some 47 ↔ p'.head? = some 47) ∧
        components 47 (bytes "/a//") = components 47 p') :=
  reduces (by decide) (by decide)

end PathReduce
end DistributedPlatform
