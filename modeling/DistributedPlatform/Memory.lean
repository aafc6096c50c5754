import Mathlib.Data.List.TakeWhile
import DistributedPlatform.Host
import DistributedPlatform.Lib.Buffer
import DistributedPlatform.Lib.Words

/-!
# `Memory` — blocks of memory and the C library functions on them

Where it matters which bytes a function touches, a pointer is a block and an offset, and an access outside
the block is a fault. Elsewhere a C string is its bytes (`CStr`).
-/

namespace DistributedPlatform

/-- A block of memory. -/
abbrev Block := List Byte

/-- Memory from the allocator: `n` bytes of some contents. -/
def fresh (fill : Nat → Byte) (n : Nat) : Block := (List.range n).map fill

/-- An access that answers `none` lies outside the block. -/
def inBounds {α : Type} : Option α → Eff α
  | none => .error .outOfBounds
  | some a => .ok a

/-- Reading a byte. -/
def load (b : Block) (i : Nat) : Eff Byte := inBounds b[i]?

/-- Writing a byte. -/
def store (b : Block) (i : Nat) (x : Byte) : Eff Block := inBounds (Buffer.write b i [x])

/-- `memset` of `n` bytes. -/
def memset (b : Block) (i : Nat) (x : Byte) (n : Nat) : Eff Block :=
  inBounds (Buffer.write b i (List.replicate n x))

/-- `memmove` within a block. -/
def memmove (b : Block) (dst src n : Nat) : Eff Block := do
  let xs ← inBounds (Buffer.read b src n)
  inBounds (Buffer.write b dst xs)

/-- `memcpy` of bytes that lie outside the block. -/
def memcpy (b : Block) (i : Nat) (src : List Byte) : Eff Block := inBounds (Buffer.write b i src)

/-- `strncpy` to the start of a block: exactly `n` bytes are written, those of the string and then NULs. -/
def strncpy (b : Block) (s : CStr) (n : Nat) : Eff Block :=
  inBounds (Buffer.write b 0 (s.take n ++ List.replicate (n - s.length) 0))

/-- `strlen` of the string at the start of a block: a block without a NUL is read past its end. -/
def strlen (b : Block) : Eff Nat := if 0 ∈ b then .ok (cstr b).length else .error .outOfBounds

/-! ### Strings inside a block -/

/-- The first byte from `i` on at which a scan stops. -/
def scan (b : Block) (i : Nat) (stop : Byte → Bool) : Eff Nat :=
  inBounds (((b.drop i).findIdx? stop).map (i + ·))

/-- The string at `i`. -/
def strAt (b : Block) (i : Nat) : Eff CStr := do
  let e ← scan b i (· == 0)
  inBounds (Buffer.read b i (e - i))

/-- `strchr` on the string at `i`. -/
def strchr (b : Block) (i : Nat) (c : Byte) : Eff (Option Nat) := do
  let e ← scan b i fun x => x == c || x == 0
  let x ← load b e
  .ok (if x = c then some e else none)

/-- What `strtok_r` returns, what it leaves in `save`, and the block. -/
structure Strtok where
  token : Option Nat
  save : Nat
  block : Block
  deriving DecidableEq, Repr

/-- `strtok_r` from `s` on, with one separator. -/
def strtokR (b : Block) (s : Nat) (delim : Byte) : Eff Strtok := do
  let s ← scan b s (· != delim)
  let x ← load b s
  if x = 0 then .ok ⟨none, s, b⟩
  else do
    let e ← scan b s fun x => x == delim || x == 0
    let x ← load b e
    if x = 0 then .ok ⟨some s, e, b⟩
    else do
      let b ← store b e 0
      .ok ⟨some s, e + 1, b⟩

/-! ## What they do -/

theorem inBounds_eq_ok {α : Type} {x : Option α} {a : α} : inBounds x = .ok a ↔ x = some a := by
  cases x with
  | none => exact ⟨nofun, nofun⟩
  | some b => exact ⟨fun h => by cases h; rfl, fun h => by cases h; rfl⟩

/-- A block in two parts. -/
theorem exists_parts {b : Block} {n m : Nat} (h : b.length = n + m) :
    ∃ l r, b = l ++ r ∧ l.length = n ∧ r.length = m := by
  refine ⟨b.take n, b.drop n, (List.take_append_drop n b).symm, ?_, ?_⟩
  · rw [List.length_take, h]
    omega
  · rw [List.length_drop, h]
    omega

theorem length_fresh (fill : Nat → Byte) (n : Nat) : (fresh fill n).length = n := by simp [fresh]

/-- Access to the byte between two parts of a block. -/
@[simp] theorem load_append (l r : Block) (x : Byte) : load (l ++ x :: r) l.length = .ok x := by
  rw [load, inBounds_eq_ok, List.getElem?_append_right (le_refl _), Nat.sub_self]
  rfl

@[simp] theorem store_append (l r : Block) (x y : Byte) : store (l ++ x :: r) l.length y = .ok (l ++ y :: r) := by
  have h : Buffer.write (l ++ [x] ++ r) l.length [y] = some (l ++ [y] ++ r) := Buffer.write_append rfl
  simpa [store, inBounds_eq_ok] using h

/-- … and to a stretch of bytes. -/
theorem memcpy_append {l m r : Block} {s : List Byte} (h : s.length = m.length) :
    memcpy (l ++ m ++ r) l.length s = .ok (l ++ s ++ r) := by
  rw [memcpy, inBounds_eq_ok, Buffer.write_append h]

/-! ### The string in a block -/

theorem cstr_of_notMem {b : Block} (h : 0 ∉ b) : cstr b = b := by
  unfold cstr
  rw [List.takeWhile_eq_self_iff]
  intro x hx
  simpa using fun h0 : x = 0 => h (h0 ▸ hx)

/-- A block with a NUL is its string, that NUL and the rest. -/
theorem eq_cstr_append {b : Block} (h : 0 ∈ b) : ∃ r, b = cstr b ++ 0 :: r := by
  obtain ⟨s, t, rfl, hs⟩ := List.eq_append_cons_of_mem h
  exact ⟨t, by rw [cstr_append_zero, cstr_of_notMem hs]⟩

theorem cstr_append_of_mem {b : Block} (h : 0 ∈ b) (r : Block) : cstr (b ++ r) = cstr b := by
  obtain ⟨t, ht⟩ := eq_cstr_append h
  rw [ht, List.append_assoc, List.cons_append, cstr_append_zero, cstr_append_zero]

theorem cstr_append_of_notMem {b : Block} (h : 0 ∉ b) (r : Block) : cstr (b ++ r) = b ++ cstr r := by
  unfold cstr
  rw [List.takeWhile_append_of_pos]
  intro x hx
  simpa using fun h0 : x = 0 => h (h0 ▸ hx)

/-- The string of a block that starts with it. -/
theorem cstr_append {p : CStr} (hp : 0 ∉ p) (r : Block) : cstr (p ++ 0 :: r) = p := by
  rw [cstr_append_zero, cstr_of_notMem hp]

theorem strlen_append {p : CStr} (hp : 0 ∉ p) (r : Block) : strlen (p ++ 0 :: r) = .ok p.length := by
  unfold strlen
  rw [if_pos (by simp), cstr_append hp]

/-! ### … and a string inside one -/

section Inside

variable {s w : CStr} {c delim : Byte}

/-- A scan passes over what it does not stop at. -/
theorem scan_append {m : List Byte} {x : Byte} {stop : Byte → Bool} (hm : ∀ y ∈ m, stop y = false)
    (hx : stop x = true) (l r : Block) : scan (l ++ m ++ x :: r) l.length stop = .ok (l.length + m.length) := by
  have hfind : (m ++ x :: r).findIdx? stop = some m.length := by
    rw [List.findIdx?_append, List.findIdx?_eq_none_iff.mpr hm, List.findIdx?_cons, hx]
    simp
  rw [scan, List.append_assoc, List.drop_left, hfind]
  rfl

theorem strAt_append (hs : 0 ∉ s) (l r : Block) : strAt (l ++ s ++ 0 :: r) l.length = .ok s := by
  have hscan : scan (l ++ s ++ 0 :: r) l.length (· == 0) = .ok (l.length + s.length) := by
    refine scan_append (fun y hy => ?_) rfl l r
    simpa using fun h0 : y = 0 => hs (h0 ▸ hy)
  simp only [strAt, hscan, bind, Except.bind, Nat.add_sub_cancel_left, Buffer.read_append]
  rfl

/-- The string at the start of a block. -/
theorem strAt_of_mem {b : Block} (hb : 0 ∈ b) : strAt b 0 = .ok (cstr b) := by
  obtain ⟨r, hr⟩ := eq_cstr_append hb
  have hnul : 0 ∉ cstr b := by
    intro h0
    have hpos := List.mem_takeWhile_imp h0
    simp at hpos
  have h := strAt_append hnul [] r
  rwa [List.nil_append, ← hr] at h

/-- A string that can be read ends with a NUL inside the block. -/
theorem exists_of_strAt {b : Block} {i : Nat} (h : strAt b i = .ok s) :
    ∃ l r, b = l ++ s ++ 0 :: r ∧ l.length = i ∧ 0 ∉ s := by
  obtain ⟨e, hscan, hread⟩ := Eff.bind_eq_ok.mp h
  obtain ⟨k, hk, rfl⟩ := Option.map_eq_some_iff.mp (inBounds_eq_ok.mp hscan)
  obtain ⟨hlt, hnul, hbefore⟩ := List.findIdx?_eq_some_iff_getElem.mp hk
  have hread := inBounds_eq_ok.mp hread
  rw [Nat.add_sub_cancel_left] at hread
  unfold Buffer.read at hread
  split at hread
  · next hle =>
      cases hread
      have hsplit : b.drop i = (b.drop i).take k ++ 0 :: (b.drop i).drop (k + 1) := by
        have hzero : (b.drop i)[k] = 0 := by simpa using hnul
        rw [← hzero, List.getElem_cons_drop, List.take_append_drop]
      refine ⟨b.take i, (b.drop i).drop (k + 1), ?_, ?_, ?_⟩
      · rw [List.append_assoc, ← hsplit, List.take_append_drop]
      · rw [List.length_take]
        omega
      · intro h0
        obtain ⟨j, hj, hget⟩ := List.mem_take_iff_getElem.mp h0
        have hne := hbefore j (by omega)
        simp [hget] at hne
  · cases hread

/-- Scanning for a byte or the end of the string. -/
theorem scan_upTo (hs : 0 ∉ s) (hc : c ∉ s) {x : Byte} (hx : x = c ∨ x = 0) (l r : Block) :
    scan (l ++ s ++ x :: r) l.length (fun y => y == c || y == 0) = .ok (l.length + s.length) := by
  refine scan_append (fun y hy => ?_) ?_ l r
  · have hyc : y ≠ c := fun h => hc (h ▸ hy)
    have hy0 : y ≠ 0 := fun h => hs (h ▸ hy)
    simp [hyc, hy0]
  · rcases hx with rfl | rfl <;> simp

theorem strchr_of_notMem (hs : 0 ∉ s) (hc : c ∉ s) (hc0 : c ≠ 0) (l r : Block) :
    strchr (l ++ s ++ 0 :: r) l.length c = .ok none := by
  have hscan := scan_upTo hs hc (Or.inr rfl) l r
  have hload : load (l ++ s ++ 0 :: r) (l.length + s.length) = .ok 0 := by
    rw [← List.length_append, load_append]
  simp only [strchr, hscan, hload, bind, Except.bind, if_neg hc0.symm]

theorem strchr_of_mem (hs : 0 ∉ s) (hc : c ∉ s) (l r : Block) :
    strchr (l ++ s ++ c :: r) l.length c = .ok (some (l.length + s.length)) := by
  have hscan := scan_upTo hs hc (Or.inl rfl) l r
  have hload : load (l ++ s ++ c :: r) (l.length + s.length) = .ok c := by
    rw [← List.length_append, load_append]
  simp only [strchr, hscan, hload, bind, Except.bind, if_true]

theorem strtokR_blank (hd : delim ≠ 0) (k : Nat) (l r : Block) :
    strtokR (l ++ List.replicate k delim ++ 0 :: r) l.length delim =
      .ok ⟨none, l.length + k, l ++ List.replicate k delim ++ 0 :: r⟩ := by
  have hskip : ∀ y ∈ List.replicate k delim, (y != delim) = false :=
    fun y hy => by simp [List.eq_of_mem_replicate hy]
  have hscan := scan_append hskip (by simpa using hd.symm) l r
  have hload : load (l ++ List.replicate k delim ++ 0 :: r) (l.length + k) = .ok 0 := by
    have h := load_append (l ++ List.replicate k delim) r 0
    rwa [List.length_append, List.length_replicate] at h
  rw [List.length_replicate] at hscan
  simp only [strtokR, hscan, hload, bind, Except.bind, if_true]

/-- A word is ended by a NUL, which is there already or takes the place of the separator behind it. -/
theorem strtokR_word (hd : delim ≠ 0) (hw : Words.IsWord delim w) (hw0 : 0 ∉ w) (k : Nat) {x : Byte}
    (hx : x = delim ∨ x = 0) (l r : Block) :
    strtokR (l ++ List.replicate k delim ++ w ++ x :: r) l.length delim =
      .ok ⟨some (l.length + k), l.length + k + w.length + (if x = 0 then 0 else 1),
        l ++ List.replicate k delim ++ w ++ 0 :: r⟩ := by
  obtain ⟨a, v, rfl⟩ := List.exists_cons_of_ne_nil hw.ne_nil
  have had : a ≠ delim := fun h => hw.notMem (h ▸ List.mem_cons_self)
  have ha0 : a ≠ 0 := fun h => hw0 (h ▸ List.mem_cons_self)
  have hblank : ∀ y ∈ List.replicate k delim, (y != delim) = false :=
    fun y hy => by simp [List.eq_of_mem_replicate hy]
  have hskip := scan_append hblank (by simpa using had) l (v ++ x :: r)
  have hfirst := load_append (l ++ List.replicate k delim) (v ++ x :: r) a
  have hend := scan_upTo hw0 hw.notMem hx (l ++ List.replicate k delim) r
  have hlast := load_append (l ++ List.replicate k delim ++ a :: v) r x
  have hcut := store_append (l ++ List.replicate k delim ++ a :: v) r x 0
  have hblock : l ++ List.replicate k delim ++ a :: v ++ x :: r =
      l ++ List.replicate k delim ++ a :: (v ++ x :: r) := by
    rw [List.append_assoc, List.cons_append]
  rw [← hblock, List.length_replicate] at hskip
  rw [← hblock, List.length_append, List.length_replicate] at hfirst
  rw [List.length_append, List.length_replicate] at hend
  rw [List.length_append, List.length_append, List.length_replicate] at hlast hcut
  rcases hx with rfl | rfl
  · simp only [strtokR, hskip, hfirst, hend, hlast, hcut, bind, Except.bind, if_neg ha0, if_neg hd]
  · simp only [strtokR, hskip, hfirst, hend, hlast, bind, Except.bind, if_neg ha0, if_true, Nat.add_zero]

end Inside

end DistributedPlatform
