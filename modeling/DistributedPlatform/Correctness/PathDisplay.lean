import DistributedPlatform.Correctness.PathReduce

/-!
# `Correctness.PathDisplay` — what `shellPathDisplay` shows

The display form of a path is made in the block `shellPathAbsolute` returns. The test for the home directory
looks at the path as it was given, what is cut off is counted in the reduced one, and `realloc` is asked for
more room without its answer being used.

* `absolute_eq`, `display_inPlace` — the two functions, as far as the branches go;
* `putTilde_le`, `putTilde_succ`, `putTilde_fault` — the replacement, by the length of the home directory;
* `expands_back_iff` — when expanding what is shown gives the reduced path back;
* `safe_iff` — when every access is to memory of the function's own.
-/

namespace DistributedPlatform
namespace PathDisplay

open Shell Lexical Spelling PathReduce

variable {HOME : Option CStr} {home path p : CStr}

/-! ## `shellPathAbsolute` -/

theorem joinPath_none (path : CStr) (fill : Nat → Byte) :
    joinPath none path (some fill) = (shellPathReduce (path ++ [0])).map some := by
  have hcopy := memcpy_append (l := []) (m := fresh fill (0 + path.length + 1)) (r := []) (s := path ++ [0])
    (by simp [length_fresh])
  simp only [List.nil_append, List.append_nil, List.length_nil] at hcopy
  simp only [joinPath, bind, Except.bind, hcopy]
  cases shellPathReduce (path ++ [0]) <;> rfl

theorem joinPath_some (home path : CStr) (fill : Nat → Byte) :
    joinPath (some home) path (some fill) = (shellPathReduce (home ++ 47 :: path ++ [0])).map some := by
  -- the room for the home directory and its slash, and that for the path and the NUL
  obtain ⟨m, r, hblock, hm, hr⟩ : ∃ m r, fresh fill (home.length + 1 + path.length + 1) = m ++ r ∧
      m.length = home.length + 1 ∧ r.length = path.length + 1 := by
    refine ⟨_, _, (List.take_append_drop (home.length + 1) _).symm, ?_, ?_⟩
    · rw [List.length_take, length_fresh]
      omega
    · rw [List.length_drop, length_fresh]
      omega
  have hhome := memcpy_append (l := []) (m := m) (r := r) (s := home ++ [0]) (by simp [hm])
  have hpath := memcpy_append (l := home ++ [47]) (m := r) (r := []) (s := path ++ [0]) (by simp [hr])
  have hsplit : home ++ [0] ++ r = home ++ 0 :: r := by simp
  have hsplit' : home ++ 47 :: r = home ++ [47] ++ r := by simp
  simp only [List.nil_append, List.append_nil, List.length_nil, List.length_append, List.length_singleton]
    at hhome hpath
  simp only [joinPath, bind, Except.bind, hblock, hhome, hsplit, Nat.add_sub_cancel, store_append, hsplit', hpath]
  rw [show home ++ [47] ++ (path ++ [0]) = home ++ 47 :: path ++ [0] by simp]
  cases shellPathReduce (home ++ 47 :: path ++ [0]) <;> rfl

/-- The path with the home directory in the place of a `~` in front. -/
def expand (home path : CStr) : CStr := if path.head? = some 126 then home ++ 47 :: path.drop 1 else path

theorem expand_of_root (h : path.head? = some 47) : expand home path = path := by
  apply if_neg
  rw [h]
  decide

theorem expand_ne_nil (h : path ≠ []) : expand home path ≠ [] := by
  unfold expand
  split
  · exact List.append_ne_nil_of_right_ne_nil _ (List.cons_ne_nil _ _)
  · exact h

theorem notMem_expand (hhome : 0 ∉ home) (hpath : 0 ∉ path) : 0 ∉ expand home path := by
  unfold expand
  split
  · have hdrop : 0 ∉ path.drop 1 := fun h => hpath (List.mem_of_mem_drop h)
    simpa [hhome] using hdrop
  · exact hpath

/-- What `shellPathAbsolute` reduces. -/
theorem shellPathAbsolute_eq (HOME : Option CStr) (path : CStr) (fill : Nat → Byte)
    (h : path.head? = some 126 → HOME ≠ none) :
    shellPathAbsolute HOME (some path) (some fill) =
      (shellPathReduce (expand (HOME.getD []) path ++ [0])).map some := by
  unfold shellPathAbsolute expand
  by_cases htilde : path.head? = some 126
  · obtain ⟨home, rfl⟩ := Option.ne_none_iff_exists'.mp (h htilde)
    dsimp only
    rw [if_pos htilde, if_pos htilde]
    exact joinPath_some home (path.drop 1) fill
  · dsimp only
    rw [if_neg htilde, if_neg htilde]
    exact joinPath_none path fill

theorem absolute_eq (HOME : Option CStr) (path : CStr) (fill : Nat → Byte)
    (h : path.head? = some 126 → HOME ≠ none) (hne : path ≠ []) (hhome : 0 ∉ HOME.getD []) (hpath : 0 ∉ path) :
    ∃ w, w.length + (tidy 47 (expand (HOME.getD []) path)).length = (expand (HOME.getD []) path).length ∧
      shellPathAbsolute HOME (some path) (some fill) =
        .ok (some (tidy 47 (expand (HOME.getD []) path) ++ 0 :: w)) := by
  obtain ⟨-, w, hw, hreduce⟩ := reducesTo_tidy (expand_ne_nil hne) (notMem_expand hhome hpath)
  refine ⟨w, hw, ?_⟩
  rw [shellPathAbsolute_eq HOME path fill h, (hreduce []).1, List.append_nil]
  rfl

/-! ## The replacement -/

variable {s : CStr} {c : Byte} {n : Nat}

theorem putTilde_fault (h : n = 0 ∨ s.length + 1 < n) :
    putTilde (s ++ [0, c]) s.length n = .error .outOfBounds := by
  unfold putTilde
  rcases h with rfl | h
  · -- the whole string and its NUL do not fit behind the two bytes
    have hread : Buffer.read (s ++ [0, c]) 0 (s.length + 1 - 0) = some (s ++ [0]) := by
      have h := Buffer.read_append (l := []) (m := s ++ [0]) (r := [c])
      simpa using h
    have hwrite : Buffer.write (s ++ [0, c]) 2 (s ++ [0]) = none := by
      apply Buffer.write_of_lt
      simp only [List.length_append, List.length_cons, List.length_nil]
      omega
    rw [if_neg (Nat.not_lt_zero _)]
    simp only [memmove, hread, hwrite, inBounds, bind, Except.bind]
  · rw [if_pos h]
    rfl

/-- The bytes behind the first `n`, NUL included, moved behind the two that are new. -/
theorem putTilde_eq (hpos : 0 < n) (hle : n ≤ s.length + 1) :
    putTilde (s ++ [0, c]) s.length n =
      .ok (126 :: 47 :: ((s ++ [0, c]).drop n).take (s.length + 1 - n) ++
        (s ++ [0, c]).drop (2 + (s.length + 1 - n))) := by
  have hread : Buffer.read (s ++ [0, c]) n (s.length + 1 - n) =
      some (((s ++ [0, c]).drop n).take (s.length + 1 - n)) := by
    unfold Buffer.read
    rw [if_pos (by simp; omega)]
  have hlen : (((s ++ [0, c]).drop n).take (s.length + 1 - n)).length = s.length + 1 - n := by
    simp
    omega
  obtain ⟨a, b, hab⟩ : ∃ a b, (s ++ [0, c]).take 2 = [a, b] := by
    have htwo : ((s ++ [0, c]).take 2).length = 2 := by simp
    exact List.length_eq_two.mp htwo
  have hwrite : Buffer.write (s ++ [0, c]) 2 (((s ++ [0, c]).drop n).take (s.length + 1 - n)) = _ :=
    Buffer.write_of_le (by rw [hlen]; simp; omega)
  rw [hlen, hab] at hwrite
  simp only [putTilde, memmove, if_neg (Nat.not_lt.mpr hle), hread, hwrite, inBounds, bind, Except.bind]
  rfl

theorem putTilde_le (hpos : 0 < n) (hle : n ≤ s.length) :
    ∃ y, putTilde (s ++ [0, c]) s.length n = .ok (126 :: 47 :: s.drop n ++ 0 :: y) := by
  have hmoved : ((s ++ [0, c]).drop n).take (s.length + 1 - n) = s.drop n ++ [0] := by
    have hlen : s.length + 1 - n = (s.drop n ++ [0]).length := by
      simp
      omega
    rw [List.drop_append_of_le_length hle, hlen, show s.drop n ++ [0, c] = s.drop n ++ [0] ++ [c] by simp,
      List.take_left]
  rw [putTilde_eq hpos (Nat.le_succ_of_le hle), hmoved]
  exact ⟨(s ++ [0, c]).drop (2 + (s.length + 1 - n)), by simp⟩

/-- A home directory one longer than the string: nothing is moved. -/
theorem putTilde_succ : putTilde (s ++ [0, c]) s.length (s.length + 1) = .ok (126 :: 47 :: (s ++ [0, c]).drop 2) := by
  rw [putTilde_eq (Nat.succ_pos _) (le_refl _), Nat.sub_self]
  rfl

/-! ## `shellPathDisplay` -/

theorem resize_eq (s : CStr) (w : Block) (fill : Nat → Byte) :
    resize (s ++ 0 :: w) (s.length + 2) fill = s ++ [0, w.headD (fill 0)] := by
  cases w with
  | nil =>
      have hmore : s.length + 2 - List.length (s ++ [0]) = 1 := by
        simp only [List.length_append, List.length_singleton]
        omega
      rw [resize, List.take_of_length_le (by simp), hmore]
      simp [fresh]
  | cons a w =>
      have hfull : s.length + 2 - (s ++ 0 :: a :: w).length = 0 := by
        simp only [List.length_append, List.length_cons]
        omega
      have htake : (s ++ 0 :: a :: w).take (s.length + 2) = s ++ [0, a] := by
        rw [List.take_length_add_append]
        rfl
      rw [resize, hfull, htake]
      simp [fresh]

/-- The path is not in the home directory by its bytes: the reduced path. -/
theorem display_away {h : PathHost} {w : Block} (hs : s ≠ []) (hnul : 0 ∉ s) (htidy : tidy 47 s = s)
    (habs : shellPathAbsolute HOME (some path) h.malloc = .ok (some (s ++ 0 :: w)))
    (hpre : ∀ home, HOME = some home → ¬ home <+: path) :
    shellPathDisplay HOME (some path) h = .ok { ret := some (s ++ 0 :: w) } := by
  cases HOME with
  | none => simp only [shellPathDisplay, habs, bind, Except.bind]
  | some home =>
      have hfalse : home.isPrefixOf path = false := by
        rw [← Bool.not_eq_true, List.isPrefixOf_iff_prefix]
        exact hpre home rfl
      obtain ⟨-, v, hv, hreduce⟩ := reducesTo_tidy hs hnul
      rw [htidy] at hv hreduce
      obtain rfl : v = [] := List.eq_nil_of_length_eq_zero (by omega)
      simp only [shellPathDisplay, habs, hfalse, (hreduce w).1, bind, Except.bind, List.nil_append]
      rfl

section Prefix

variable {h : PathHost} {w : Block} (hnul : 0 ∉ s) (hpre : home <+: path)
  (habs : shellPathAbsolute (some home) (some path) h.malloc = .ok (some (s ++ 0 :: w)))

include hnul hpre habs

/-- The branch with `realloc`, by its answer. -/
theorem display_failed (hr : h.realloc = .failed) : shellPathDisplay (some home) (some path) h = .ok {} := by
  have htrue := List.isPrefixOf_iff_prefix.mpr hpre
  simp only [shellPathDisplay, habs, htrue, hr, strlen_append hnul, bind, Except.bind, if_true]

theorem display_moved (hr : h.realloc = .moved) :
    shellPathDisplay (some home) (some path) h = .error .dangling := by
  have htrue := List.isPrefixOf_iff_prefix.mpr hpre
  simp only [shellPathDisplay, habs, htrue, hr, strlen_append hnul, bind, Except.bind, if_true]

theorem display_inPlace {fill : Nat → Byte} (hr : h.realloc = .inPlace fill) :
    shellPathDisplay (some home) (some path) h =
      (putTilde (s ++ [0, w.headD (fill 0)]) s.length home.length >>= fun str =>
        shellPathReduce str >>= fun str => .ok { ret := some str, sub := some (s.length, home.length) }) := by
  have htrue := List.isPrefixOf_iff_prefix.mpr hpre
  simp only [shellPathDisplay, habs, htrue, hr, strlen_append hnul, resize_eq, bind, Except.bind, if_true]

end Prefix

/-! ## Staying inside -/

/-- The function returns, without a subtraction of lengths that goes below zero. -/
def Safe (HOME : Option CStr) (path : CStr) (h : PathHost) : Prop :=
  ∃ r, shellPathDisplay HOME (some path) h = .ok r ∧
    ∀ strLen homeLen, r.sub = some (strLen, homeLen) → homeLen ≤ strLen

/-- The replacement stays inside exactly for a home directory that has a byte and no more of them than the string. -/
theorem replaced_iff (hnul : 0 ∉ s) (c : Byte) (n : Nat) :
    (∃ r : Displayed, (putTilde (s ++ [0, c]) s.length n >>= fun str =>
        shellPathReduce str >>= fun str => .ok { ret := some str, sub := some (s.length, n) }) = .ok r ∧
      ∀ strLen homeLen, r.sub = some (strLen, homeLen) → homeLen ≤ strLen) ↔ n ≠ 0 ∧ n ≤ s.length := by
  constructor
  · rintro ⟨r, hr, hsub⟩
    obtain ⟨str, hput, hr⟩ := Eff.bind_eq_ok.mp hr
    obtain ⟨str', -, hr⟩ := Eff.bind_eq_ok.mp hr
    cases hr
    refine ⟨?_, hsub _ _ rfl⟩
    intro hzero
    rw [putTilde_fault (Or.inl hzero)] at hput
    cases hput
  · rintro ⟨hpos, hle⟩
    obtain ⟨y, hput⟩ := putTilde_le (c := c) (Nat.pos_of_ne_zero hpos) hle
    have hnul' : 0 ∉ 126 :: 47 :: s.drop n := by
      have hdrop : 0 ∉ s.drop n := fun h => hnul (List.mem_of_mem_drop h)
      simpa using hdrop
    obtain ⟨-, w, -, hreduce⟩ := reducesTo_tidy (List.cons_ne_nil 126 (47 :: s.drop n)) hnul'
    refine ⟨_, Eff.bind_eq_ok.mpr ⟨_, hput, Eff.bind_eq_ok.mpr ⟨_, (hreduce y).1, rfl⟩⟩, ?_⟩
    intro strLen homeLen heq
    cases heq
    exact hle

theorem safe_of_eq {ret : Option Block} {h : PathHost}
    (heq : shellPathDisplay HOME (some path) h = .ok { ret := ret }) : Safe HOME path h := ⟨_, heq, nofun⟩

/-- … for a path that has its reduced form `s` in a block. -/
theorem safe_iff_of_absolute {h : PathHost} {w : Block} (hs : s ≠ []) (hnul : 0 ∉ s) (htidy : tidy 47 s = s)
    (habs : shellPathAbsolute HOME (some path) h.malloc = .ok (some (s ++ 0 :: w))) :
    Safe HOME path h ↔ ∀ home, HOME = some home → home <+: path →
      h.realloc = .failed ∨ (∃ fill, h.realloc = .inPlace fill) ∧ home ≠ [] ∧ home.length ≤ s.length := by
  by_cases hpre : ∃ home, HOME = some home ∧ home <+: path
  · obtain ⟨home, rfl, hpre⟩ := hpre
    have hone : (∀ home', some home = some home' → home' <+: path →
        h.realloc = .failed ∨ (∃ fill, h.realloc = .inPlace fill) ∧ home' ≠ [] ∧ home'.length ≤ s.length) ↔
        h.realloc = .failed ∨ (∃ fill, h.realloc = .inPlace fill) ∧ home ≠ [] ∧ home.length ≤ s.length :=
      ⟨fun h' => h' home rfl hpre, fun h' home' heq _ => Option.some.inj heq ▸ h'⟩
    rw [hone]
    cases hr : h.realloc with
    | failed => exact iff_of_true (safe_of_eq (display_failed hnul hpre habs hr)) (Or.inl rfl)
    | moved =>
        refine iff_of_false ?_ (fun h' => h'.elim nofun fun h' => nomatch h'.1)
        rintro ⟨r, hret, -⟩
        rw [display_moved hnul hpre habs hr] at hret
        cases hret
    | inPlace fill =>
        have hiff := replaced_iff hnul (w.headD (fill 0)) home.length
        rw [← display_inPlace hnul hpre habs hr] at hiff
        refine hiff.trans ⟨fun h' => Or.inr ⟨⟨fill, rfl⟩, ?_, h'.2⟩, ?_⟩
        · exact fun hnil => h'.1 (by rw [hnil]; rfl)
        · rintro (h' | ⟨-, hne, hle⟩)
          · cases h'
          · exact ⟨fun h0 => hne (List.eq_nil_of_length_eq_zero h0), hle⟩
  · have haway : ∀ home, HOME = some home → ¬ home <+: path := fun home heq hp => hpre ⟨home, heq, hp⟩
    exact iff_of_true (safe_of_eq (display_away hs hnul htidy habs haway))
      (fun home heq hp => absurd hp (haway home heq))

/-- **When the display of a directory stays inside its buffers**: when there is no memory for it at all, or the
    directory is not empty and, if it begins with the bytes of the home directory, `realloc` fails, or it leaves
    the block where it is, the home directory is not empty and it is no longer than the directory in reduced form. -/
theorem safe_iff {h : PathHost} (hpath : 0 ∉ path) (hhome : ∀ home, HOME = some home → 0 ∉ home) :
    Safe HOME path h ↔ h.malloc = none ∨ path ≠ [] ∧ ∀ home, HOME = some home → home <+: path →
      h.realloc = .failed ∨ (∃ fill, h.realloc = .inPlace fill) ∧
        home ≠ [] ∧ home.length ≤ (tidy 47 (expand home path)).length := by
  have hnone : shellPathAbsolute HOME (some path) h.malloc = .ok none → Safe HOME path h := by
    intro habs
    have hdisp : shellPathDisplay HOME (some path) h = .ok {} := by
      simp only [shellPathDisplay, habs, bind, Except.bind]
    exact safe_of_eq hdisp
  cases hm : h.malloc with
  | none =>
      refine iff_of_true (hnone ?_) (Or.inl rfl)
      rw [hm]
      unfold shellPathAbsolute
      dsimp only
      split
      · cases HOME <;> rfl
      · rfl
  | some fill =>
      rw [or_iff_right nofun]
      by_cases hne : path = []
      · -- nothing to reduce
        subst hne
        refine iff_of_false ?_ (fun h' => h'.1 rfl)
        rintro ⟨r, hr, -⟩
        have habs : shellPathAbsolute HOME (some []) h.malloc = .error .outOfBounds := by
          rw [hm, shellPathAbsolute_eq HOME [] fill (fun h0 => by cases h0)]
          exact congrArg (Except.map some) (shellPathReduce_nil [])
        simp only [shellPathDisplay, habs, bind, Except.bind] at hr
        cases hr
      · rw [and_iff_right hne]
        by_cases htilde : path.head? = some 126 ∧ HOME = none
        · -- there is nothing to put in the place of the `~`
          obtain ⟨hhead, rfl⟩ := htilde
          exact iff_of_true (hnone (if_pos hhead)) nofun
        · have hhome' : 0 ∉ HOME.getD [] := by
            cases HOME with
            | none => exact List.not_mem_nil
            | some home => exact hhome home rfl
          obtain ⟨w, -, habs⟩ := absolute_eq HOME path fill (fun h1 h2 => htilde ⟨h1, h2⟩) hne hhome' hpath
          rw [← hm] at habs
          have hnul : 0 ∉ tidy 47 (expand (HOME.getD []) path) := notMem_tidy (notMem_expand hhome' hpath) 47
          refine (safe_iff_of_absolute (tidy_ne_nil (expand_ne_nil hne)) hnul (tidy_tidy 47 _) habs).trans ?_
          constructor
          · rintro h' home rfl hpre
            exact h' home rfl hpre
          · rintro h' home rfl hpre
            exact h' home rfl hpre

/-- A home directory that the path begins with. -/
theorem safe_iff_home : Safe (some (bytes "/home")) (bytes "/home/a")
      { malloc := some fun _ => 0, realloc := .inPlace fun _ => 0 } ↔
    some (fun _ : Nat => (0 : Byte)) = none ∨ bytes "/home/a" ≠ [] ∧
      ∀ home, some (bytes "/home") = some home → home <+: bytes "/home/a" →
        ReallocAns.inPlace (fun _ => 0) = .failed ∨ (∃ fill, ReallocAns.inPlace (fun _ => 0) = .inPlace fill) ∧
          home ≠ [] ∧ home.length ≤ (tidy 47 (expand home (bytes "/home/a"))).length :=
  safe_iff (by decide) (fun home heq => by cases heq; decide)

/-- The empty directory, one that is the home directory as it is written, with its slash, and one whose block
    is moved. -/
theorem leaves_its_buffers :
    ¬ Safe none [] { malloc := some fun _ => 0, realloc := .inPlace fun _ => 0 } ∧
    ¬ Safe (some (bytes "/home/")) (bytes "/home/") { malloc := some fun _ => 0, realloc := .inPlace fun _ => 0 } ∧
    ¬ Safe (some (bytes "/home")) (bytes "/home") { malloc := some fun _ => 0, realloc := .moved } := by
  refine ⟨?_, ?_, ?_⟩
  · rintro ⟨r, hrun, -⟩
    cases hrun
  · rintro ⟨r, hrun, hsub⟩
    obtain rfl := Except.ok.inj hrun
    exact absurd (hsub 5 6 rfl) (by decide)
  · rintro ⟨r, hrun, -⟩
    cases hrun

/-! ## There and back -/

/-- The block begins with the string and its NUL. -/
def Holds (b : Block) (s : CStr) : Prop := 0 ∉ s ∧ ∃ z, b = s ++ 0 :: z

theorem Holds.unique {b : Block} {s t : CStr} (hs : Holds b s) (ht : Holds b t) : s = t := by
  obtain ⟨hs, z, rfl⟩ := hs
  obtain ⟨ht, y, heq⟩ := ht
  rw [← cstr_append hs z, heq, cstr_append ht]

/-- What is shown for `p` expands to the reduced form of `p`, and a `~` is shown only for the home directory and
    what lies below it. -/
def RoundTrips (home p : CStr) (h : PathHost) (fill : Nat → Byte) : Prop :=
  ∃ r d shown a q, shellPathDisplay (some home) (some p) h = .ok r ∧ r.ret = some d ∧ Holds d shown ∧
    shellPathAbsolute (some home) (some shown) (some fill) = .ok (some a) ∧ Holds a q ∧ ReducesTo p q ∧
    (shown.head? = some 126 → components 47 home <+: components 47 p)

theorem tidy_tilde (tail : CStr) :
    ∃ u, tidy 47 (126 :: 47 :: tail) = 126 :: u ∧ components 47 u = components 47 tail := by
  have hwords : ∀ c ∈ components 47 tail, Words.IsWord 47 c := fun c hc => isWord_of_mem hc
  rw [tidy_eq_spell, components_cons_cons_sep (by decide)]
  by_cases hnil : components 47 tail = []
  · rw [hnil]
    exact ⟨[], rfl, rfl⟩
  · refine ⟨47 :: [47].intercalate (components 47 tail), ?_, ?_⟩
    · rw [spell, List.intercalate_cons_of_ne_nil hnil]
      rfl
    · rw [components_cons_sep, components_intercalate hwords]

/-- What a string with a `~` expands to. -/
theorem expands_iff {u : CStr} (fill : Nat → Byte) (hp : p.head? = some 47) (hpnul : 0 ∉ p)
    (hhome : home.head? = some 47) (hhnul : 0 ∉ home) (hu : 0 ∉ u) :
    (∃ a q, shellPathAbsolute (some home) (some (126 :: u)) (some fill) = .ok (some a) ∧ Holds a q ∧
        ReducesTo p q) ↔
      components 47 home ++ components 47 u = components 47 p := by
  have hpne : p ≠ [] := fun h0 => by simp [h0] at hp
  obtain ⟨w, -, habs⟩ := absolute_eq (some home) (126 :: u) fill nofun (List.cons_ne_nil _ _) hhnul
    (by simpa using hu)
  have hnul : 0 ∉ expand home (126 :: u) := notMem_expand hhnul (by simpa using hu)
  have hholds : Holds (tidy 47 (expand home (126 :: u)) ++ 0 :: w) (tidy 47 (expand home (126 :: u))) :=
    ⟨notMem_tidy hnul 47, w, rfl⟩
  have hroot : (home ++ 47 :: u).head? = some 47 := by
    rw [List.head?_append, hhome]
    rfl
  have hiff : tidy 47 (expand home (126 :: u)) = tidy 47 p ↔
      components 47 home ++ components 47 u = components 47 p := by
    rw [tidy_eq_tidy_iff]
    show ((home ++ 47 :: u).head? = some 47 ↔ p.head? = some 47) ∧
      components 47 (home ++ 47 :: u) = components 47 p ↔ _
    rw [components_append, and_iff_right (iff_of_true hroot hp)]
  rw [← hiff]
  constructor
  · rintro ⟨a, q, ha, hq, hred⟩
    obtain rfl := Option.some.inj (Except.ok.inj (habs.symm.trans ha))
    rw [← hred.unique (reducesTo_tidy hpne hpnul), hq.unique hholds]
  · intro heq
    have hred := reducesTo_tidy hpne hpnul
    rw [← heq] at hred
    exact ⟨_, _, habs, hholds, hred⟩

section Expand

variable {h : PathHost} {r : Displayed} {fill : Nat → Byte}
  (hp : p.head? = some 47) (hpnul : 0 ∉ p) (hhome : home.head? = some 47) (hhnul : 0 ∉ home)

include hp hpnul hhome hhnul

theorem roundTrips_of_tilde {tail : CStr} {y : Block} (hdisp : shellPathDisplay (some home) (some p) h = .ok r)
    (hret : r.ret = some (tidy 47 (126 :: 47 :: tail) ++ 0 :: y)) (htail : 0 ∉ tail) :
    RoundTrips home p h fill ↔ components 47 home ++ components 47 tail = components 47 p := by
  obtain ⟨u, hu, hcomp⟩ := tidy_tilde tail
  have hshown : 0 ∉ 126 :: u := by
    rw [← hu]
    exact notMem_tidy (by simpa using htail) 47
  have hiff := expands_iff fill hp hpnul hhome hhnul (u := u) (fun h0 => hshown (List.mem_cons_of_mem _ h0))
  rw [hcomp] at hiff
  rw [hu] at hret
  rw [← hiff]
  constructor
  · rintro ⟨r', d, shown, a, q, hr', hd, hholds, habs, hq, hred, -⟩
    obtain rfl := Except.ok.inj (hdisp.symm.trans hr')
    obtain rfl := Option.some.inj (hret.symm.trans hd)
    obtain rfl := hholds.unique ⟨hshown, y, rfl⟩
    exact ⟨a, q, habs, hq, hred⟩
  · rintro ⟨a, q, habs, hq, hred⟩
    refine ⟨r, _, 126 :: u, a, q, hdisp, hret, ⟨hshown, y, rfl⟩, habs, hq, hred, fun _ => ?_⟩
    exact ⟨components 47 tail, hiff.mp ⟨a, q, habs, hq, hred⟩⟩

end Expand

/-! ### The block behind the reduced path -/

/-- Of a path of slashes all but two are left behind the first and its NUL. -/
theorem shellPathReduce_slashes (k : Nat) :
    shellPathReduce (List.replicate (k + 2) 47 ++ [0]) = .ok ([47] ++ 0 :: (List.replicate k 47 ++ [0])) := by
  have hlen : (List.replicate (k + 2) (47 : Byte) ++ [0]).length = k + 2 + 1 := by simp
  have hstr : strlen (List.replicate (k + 2) 47 ++ [0]) = .ok (k + 2) := by
    have h := strlen_append (p := List.replicate (k + 2) 47) (by simp) []
    rwa [List.length_replicate] at h
  have hscan : squeezeSlashes (k + 2 + 1) (List.replicate (k + 2) 47 ++ [0]) 0 =
      .ok ([47] ++ 0 :: (List.replicate k 47 ++ [0])) := by
    have hrun : squeezeSlashes (k + 1 + 1 + 1) _ _ = _ :=
      squeezeSlashes_run [] (k + 1) (t := []) [] nofun List.not_mem_nil
    have hblock : List.replicate (k + 1) (47 : Byte) ++ [47] = List.replicate (k + 2) 47 := by
      rw [List.replicate_succ' (n := k + 1)]
    simp only [List.nil_append, List.append_nil, List.length_nil, List.length_singleton, hblock] at hrun
    exact hrun.trans (squeezeSlashes_nul rfl)
  have hone : strlen ([47] ++ 0 :: (List.replicate k 47 ++ [0])) = .ok 1 := strlen_append (by decide) _
  have hcstr : cstr ([47] ++ 0 :: (List.replicate k 47 ++ [0])) = bytes "/" := cstr_append (by decide) _
  have hpass : reducePass (List.replicate (k + 2) 47 ++ [0]) = .ok ([47] ++ 0 :: (List.replicate k 47 ++ [0])) := by
    simp only [reducePass, hlen, hscan, hone, hcstr, bind, Except.bind, if_true]
  obtain ⟨w, hw, hagain⟩ := reducePass_eq (p := [47]) (by decide) (by decide)
  have htidy : tidy (47 : Byte) [47] = [47] := by decide
  rw [htidy] at hw hagain
  obtain rfl : w = [] := List.eq_nil_of_length_eq_zero (Nat.succ.inj hw)
  have hagain := hagain (List.replicate k 47 ++ [0])
  rw [List.nil_append] at hagain
  have hlt : 1 ≠ k + 2 := by omega
  simp only [shellPathReduce, hlen, hstr, reduceLoop, hpass, hone, hagain, bind, Except.bind, if_pos hlt, ne_eq,
    not_true, if_false]
  rfl

/-! ### A home directory the path begins with -/

theorem tidy_of_root (hp : p.head? = some 47) : tidy 47 p = spell 47 true (components 47 p) := by
  rw [tidy_eq_spell, hp]
  rfl

/-- As many bytes as the home directory has end, in the reduced path, with its components or the slash behind. -/
def Fits (home p : CStr) : Prop :=
  home.length = (tidy 47 home).length ∨
  home.length = (tidy 47 home).length + 1 ∧ components 47 home ≠ [] ∧ components 47 home ≠ components 47 p ∨
  -- one more than the reduced path has: nothing is moved, and two bytes of it are replaced
  home.length = (tidy 47 p).length + 1 ∧ ((tidy 47 home).length = 2 ∨ p = bytes "//")

/-- A path that becomes the root has no components. -/
theorem components_of_length_one (hp : p.head? = some 47) (hone : (tidy 47 p).length = 1) : components 47 p = [] := by
  by_contra hne
  have hpos : 0 < ([47].intercalate (components 47 p)).length :=
    List.length_pos_iff.mpr (intercalate_ne_nil (fun c hc => isWord_of_mem hc) hne)
  rw [tidy_of_root hp] at hone
  have hone' : 1 + ([47].intercalate (components 47 p)).length = 1 := (List.length_append).symm.trans hone
  omega

theorem fits_of_root (hhome : home.head? = some 47) (hnil : components 47 p = [])
    (hlen : home.length = (tidy 47 p).length + 1) (hone : (tidy 47 p).length = 1) :
    components 47 home <+: components 47 p ∧ Fits home p ↔ components 47 home = [] ∧ p = bytes "//" := by
  rw [hnil, List.prefix_nil]
  refine and_congr_right fun hnil' => ?_
  have hshort : (tidy 47 home).length = 1 := by
    rw [tidy_of_root hhome, hnil']
    rfl
  rw [Fits, hlen, hone, hshort, hnil']
  simp

section InPlace

variable {h : PathHost} {w : Block} {f fill : Nat → Byte}
  (hp : p.head? = some 47) (hpnul : 0 ∉ p) (hhome : home.head? = some 47) (hhnul : 0 ∉ home)
  (habs : shellPathAbsolute (some home) (some p) h.malloc = .ok (some (tidy 47 p ++ 0 :: w)))
  (hr : h.realloc = .inPlace f) (hpre : home <+: p)

include hp hpnul hhome habs hr hpre

/-- The home directory is longer than the reduced path and its NUL. -/
theorem roundTrips_of_lt (hlt : (tidy 47 p).length + 1 < home.length) :
    RoundTrips home p h fill ↔ components 47 home <+: components 47 p ∧ Fits home p := by
  have hnul : 0 ∉ tidy 47 p := notMem_tidy hpnul 47
  refine iff_of_false ?_ ?_
  · rintro ⟨r, -, -, -, -, hdisp, -⟩
    rw [display_inPlace hnul hpre habs hr, putTilde_fault (Or.inr hlt)] at hdisp
    cases hdisp
  · rintro ⟨hpre', hfits⟩
    have hshort : (spell 47 true (components 47 home)).length ≤ (spell 47 true (components 47 p)).length :=
      length_spell_le hpre'
    rw [← tidy_of_root hp, ← tidy_of_root hhome] at hshort
    rcases hfits with heq | ⟨heq, hne, hlt'⟩ | ⟨heq, -⟩
    · omega
    · omega
    · omega

include hhnul

/-- A replacement that leaves a string. -/
theorem roundTrips_of_putTilde {tail : CStr} {y : Block} (htail : 0 ∉ tail)
    (hput : putTilde (tidy 47 p ++ [0, w.headD (f 0)]) (tidy 47 p).length home.length =
      .ok (126 :: 47 :: tail ++ 0 :: y)) :
    RoundTrips home p h fill ↔ components 47 home ++ components 47 tail = components 47 p := by
  have hnul : 0 ∉ tidy 47 p := notMem_tidy hpnul 47
  obtain ⟨-, v, -, hreduce⟩ := reducesTo_tidy (List.cons_ne_nil 126 (47 :: tail)) (by simpa using htail)
  have hdisp := display_inPlace hnul hpre habs hr
  simp only [hput, (hreduce y).1, bind, Except.bind] at hdisp
  exact roundTrips_of_tilde hp hpnul hhome hhnul hdisp rfl htail

/-- It lies within the reduced path. -/
theorem roundTrips_of_le (hle : home.length ≤ (tidy 47 p).length) :
    RoundTrips home p h fill ↔ components 47 home <+: components 47 p ∧ Fits home p := by
  have hnul : 0 ∉ tidy 47 p := notMem_tidy hpnul 47
  have hpos : 0 < home.length := List.length_pos_iff.mpr fun h0 => by simp [h0] at hhome
  obtain ⟨y, hput⟩ := putTilde_le (c := w.headD (f 0)) hpos hle
  rw [roundTrips_of_putTilde hp hpnul hhome hhnul habs hr hpre (fun h0 => hnul (List.mem_of_mem_drop h0)) hput]
  rw [tidy_of_root hp] at hle ⊢
  rw [components_drop_spell_iff (fun c hc => isWord_of_mem hc) hpos hle, ← tidy_of_root hhome]
  have hlast : ¬ (home.length = (tidy 47 p).length + 1) := by
    rw [tidy_of_root hp]
    omega
  simp only [Fits, hlast, false_and, or_false]

/-- It is one longer. -/
theorem roundTrips_of_succ (hlen : home.length = (tidy 47 p).length + 1) (htwo : 2 ≤ (tidy 47 p).length) :
    RoundTrips home p h fill ↔ components 47 home <+: components 47 p ∧ Fits home p := by
  have hnul : 0 ∉ tidy 47 p := notMem_tidy hpnul 47
  have hput := putTilde_succ (s := tidy 47 p) (c := w.headD (f 0))
  rw [List.drop_append_of_le_length htwo, ← hlen] at hput
  rw [roundTrips_of_putTilde hp hpnul hhome hhnul habs hr hpre (fun h0 => hnul (List.mem_of_mem_drop h0)) hput]
  have hslashes : p ≠ bytes "//" := by
    rintro rfl
    exact absurd htwo (by decide)
  rw [tidy_of_root hp, components_drop_spell_iff (fun c hc => isWord_of_mem hc) Nat.two_pos
    (by rwa [← tidy_of_root hp]), ← tidy_of_root hhome]
  refine and_congr_right fun hpre' => ?_
  have hshort : (spell 47 true (components 47 home)).length ≤ (spell 47 true (components 47 p)).length :=
    length_spell_le hpre'
  rw [← tidy_of_root hp, ← tidy_of_root hhome] at hshort
  have hshorter : components 47 home ≠ [] → components 47 home ≠ components 47 p →
      (tidy 47 home).length + 2 ≤ (tidy 47 p).length := by
    intro hne hlt
    have hshorter := length_spell_lt (fun c hc => isWord_of_mem hc) hpre' hne hlt
    rwa [← tidy_of_root hp, ← tidy_of_root hhome] at hshorter
  have hone : components 47 home ≠ [] → 2 ≤ (tidy 47 home).length := by
    intro hne
    have hpos := List.length_pos_iff.mpr (intercalate_ne_nil (fun c hc => isWord_of_mem hc) hne)
    rw [tidy_of_root hhome, spell, List.length_append]
    exact Nat.succ_le_succ_iff.mpr hpos |>.trans (by simp [Nat.add_comm])
  constructor
  · rintro (heq | ⟨heq, hne, hlt⟩)
    · exact Or.inr (Or.inr ⟨hlen, Or.inl heq.symm⟩)
    · have h2 := hone hne
      omega
  · rintro (heq | ⟨heq, hne, hlt⟩ | ⟨-, heq | heq⟩)
    · omega
    · have h2 := hshorter hne hlt
      omega
    · exact Or.inl heq.symm
    · exact absurd heq hslashes

/-- It is one longer than the root. -/
theorem roundTrips_of_root {fill' : Nat → Byte} (hm : h.malloc = some fill')
    (hlen : home.length = (tidy 47 p).length + 1) (hone : (tidy 47 p).length = 1) :
    RoundTrips home p h fill ↔ components 47 home <+: components 47 p ∧ Fits home p := by
  have hnul : 0 ∉ tidy 47 p := notMem_tidy hpnul 47
  have hnil := components_of_length_one hp hone
  have htidy : tidy 47 p = [47] := by
    rw [tidy_of_root hp, hnil]
    rfl
  obtain ⟨k, hk⟩ : ∃ k, p = List.replicate (k + 2) 47 := by
    have hle := hpre.length_le
    refine ⟨p.length - 2, ?_⟩
    rw [show p.length - 2 + 2 = p.length by omega]
    exact List.eq_replicate_of_mem (eq_of_components_nil hnil)
  have hw : w = List.replicate k 47 ++ [0] := by
    rw [hm, shellPathAbsolute_eq (some home) p fill' (fun _ => nofun), Option.getD_some, expand_of_root hp, hk,
      shellPathReduce_slashes, ← hk, htidy] at habs
    have hblock := List.append_cancel_left (Option.some.inj (Except.ok.inj habs))
    exact (List.cons.inj hblock).2.symm
  have hput := putTilde_succ (s := tidy 47 p) (c := w.headD (f 0))
  rw [← hlen] at hput
  rw [fits_of_root hhome hnil hlen hone]
  cases k with
  | zero =>
      -- the byte that follows `~/` is the old NUL
      rw [htidy, hw] at hput
      have hput' : putTilde (tidy 47 p ++ [0, w.headD (f 0)]) (tidy 47 p).length home.length =
          .ok (126 :: 47 :: [] ++ 0 :: []) := by
        rw [htidy, hw]
        exact hput
      rw [roundTrips_of_putTilde hp hpnul hhome hhnul habs hr hpre List.not_mem_nil hput', hnil,
        and_iff_left (show p = bytes "//" from hk)]
      simp
  | succ k =>
      -- it is a slash, and no NUL is left in the block
      refine iff_of_false ?_ (fun h' => ?_)
      · rintro ⟨r, -, -, -, -, hdisp, -⟩
        rw [display_inPlace hnul hpre habs hr, hput, htidy, hw] at hdisp
        cases hdisp
      · have hlen := congrArg List.length (hk.symm.trans h'.2)
        simp [bytes] at hlen

end InPlace

/-- **When a displayed path expands to itself**: when it does not begin with the bytes of the home directory, or
    `realloc` leaves the block where it is, the path is the home directory or lies below it, and the bytes of the
    home directory fit. -/
theorem expands_back_iff {h : PathHost} {fill fill' : Nat → Byte} (hp : p.head? = some 47) (hpnul : 0 ∉ p)
    (hhome : home.head? = some 47) (hhnul : 0 ∉ home) (hm : h.malloc = some fill') (hr : h.realloc ≠ .failed) :
    RoundTrips home p h fill ↔ ¬ home <+: p ∨
      (∃ f, h.realloc = .inPlace f) ∧ components 47 home <+: components 47 p ∧ Fits home p := by
  have hpne : p ≠ [] := fun h0 => by simp [h0] at hp
  have hnul : 0 ∉ tidy 47 p := notMem_tidy hpnul 47
  obtain ⟨w, -, habs⟩ := absolute_eq (some home) p fill' (fun _ => nofun) hpne hhnul hpnul
  rw [← hm, Option.getD_some, expand_of_root hp] at habs
  by_cases hpre : home <+: p
  · rw [or_iff_right (not_not_intro hpre)]
    cases hr' : h.realloc with
    | failed => exact absurd hr' hr
    | moved =>
        refine iff_of_false ?_ (fun h' => nomatch h'.1)
        rintro ⟨r, -, -, -, -, hdisp, -⟩
        rw [display_moved hnul hpre habs hr'] at hdisp
        cases hdisp
    | inPlace f =>
        rw [and_iff_right ⟨f, rfl⟩]
        have hpos : 0 < (tidy 47 p).length := List.length_pos_iff.mpr (tidy_ne_nil hpne)
        rcases Nat.lt_trichotomy home.length ((tidy 47 p).length + 1) with hlt | heq | hgt
        · exact roundTrips_of_le hp hpnul hhome hhnul habs hr' hpre (Nat.le_of_lt_succ hlt)
        · by_cases htwo : 2 ≤ (tidy 47 p).length
          · exact roundTrips_of_succ hp hpnul hhome hhnul habs hr' hpre heq htwo
          · exact roundTrips_of_root hp hpnul hhome hhnul habs hr' hpre hm heq (by omega)
        · exact roundTrips_of_lt hp hpnul hhome habs hr' hpre hgt
  · -- the path is shown as it is, reduced
    refine iff_of_true ?_ (Or.inl hpre)
    have hdisp := display_away (tidy_ne_nil hpne) hnul (tidy_tidy 47 p) habs
      (fun home' heq => Option.some.inj heq ▸ hpre)
    have hhead : (tidy 47 p).head? ≠ some 126 := by
      rw [(head?_tidy 47 p).mpr hp]
      decide
    obtain ⟨w', -, habs'⟩ := absolute_eq (some home) (tidy 47 p) fill (fun h0 => absurd h0 hhead)
      (tidy_ne_nil hpne) hhnul hnul
    rw [Option.getD_some, expand, if_neg hhead, tidy_tidy] at habs'
    exact ⟨_, _, tidy 47 p, _, tidy 47 p, hdisp, rfl, ⟨hnul, w, rfl⟩, habs', ⟨hnul, w', rfl⟩,
      reducesTo_tidy hpne hpnul, fun h0 => absurd h0 hhead⟩

/-- `/home/a` below `/home`. -/
theorem expands_back_iff_below : RoundTrips (bytes "/home") (bytes "/home/a")
      { malloc := some fun _ => 0, realloc := .inPlace fun _ => 0 } (fun _ => 0) ↔
    ¬ bytes "/home" <+: bytes "/home/a" ∨ (∃ f, ReallocAns.inPlace (fun _ => 0) = .inPlace f) ∧
      components 47 (bytes "/home") <+: components 47 (bytes "/home/a") ∧ Fits (bytes "/home") (bytes "/home/a") :=
  expands_back_iff (by decide) (by decide) (by decide) (by decide) rfl nofun

/-- `/homework` is shown as `~/work`. -/
theorem sibling_shown_in_home : ¬ RoundTrips (bytes "/home") (bytes "/homework")
    { malloc := some fun _ => 0, realloc := .inPlace fun _ => 0 } (fun _ => 0) := by
  rintro ⟨r, d, shown, a, q, hdisp, hd, hshown, -, -, -, htilde⟩
  have hrun : shellPathDisplay (some (bytes "/home")) (some (bytes "/homework"))
      { malloc := some fun _ => 0, realloc := .inPlace fun _ => 0 } =
        .ok { ret := some (bytes "~/work" ++ [0, 114, 107, 0, 0]), sub := some (9, 5) } := rfl
  obtain rfl := Except.ok.inj (hrun.symm.trans hdisp)
  obtain rfl := Option.some.inj hd
  obtain rfl := hshown.unique ⟨by decide, _, rfl⟩
  exact absurd (htilde (by decide)) (by decide)

end PathDisplay
end DistributedPlatform
