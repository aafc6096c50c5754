import Mathlib.Algebra.Ring.Int.Defs
import Mathlib.Algebra.Ring.Nat
import Mathlib.Data.List.Basic

/-!
# `Host` — bytes, C strings, host integers

What the modelled C and C++ code shares: byte strings, the few C library functions it calls on them,
the integer conversions of its fixed-width types, and the ways an execution can leave the language.
-/

namespace DistributedPlatform

abbrev Byte := UInt8

/-- The bytes of a C string, without the terminating NUL. -/
abbrev CStr := List Byte

/-- Ways an execution leaves the defined behaviour of the source language. -/
inductive Fault
  | outOfBounds
  | nullDeref
  | dangling
  | pastEnd
  | assertFailed
  | badVaArg
  deriving DecidableEq, Repr

abbrev Eff (α : Type) := Except Fault α

/-- A sequence of two computations returns exactly when both do. -/
theorem Eff.bind_eq_ok {α β : Type} {x : Eff α} {f : α → Eff β} {r : β} :
    (x >>= f) = .ok r ↔ ∃ a, x = .ok a ∧ f a = .ok r := by
  cases x with
  | error e => exact ⟨fun h => (nomatch h), fun ⟨_, h, _⟩ => nomatch h⟩
  | ok a => exact ⟨fun h => ⟨a, rfl, h⟩, fun ⟨_, h, hf⟩ => by cases h; exact hf⟩

/-- Host calls on descriptors, with the host's answer where it matters later. -/
inductive HostCall
  | socket (ret : Int)
  | connect (fd : Int) (ret : Int)
  | open (path : CStr) (flags : Int) (mode : Nat) (ret : Int)
  | read (fd : Int) (count : Nat)
  | write (fd : Int) (count : Nat)
  | close (fd : Int) (ret : Int)
  deriving DecidableEq, Repr

/-- A `close(2)` the host refused. -/
def HostCall.closeFailed : HostCall → Bool
  | .close _ ret => ret == -1
  | _ => false

/-- The host's answer to `read(2)`: `-1`, or the bytes delivered. -/
abbrev ReadAns := Option (List Byte)

/-- … as the returned `ssize_t`. -/
def ReadAns.nbytes : ReadAns → Int
  | none => -1
  | some bs => bs.length

/-- A string literal of the source. -/
def bytes (s : String) : CStr := s.toList.map fun c => UInt8.ofNat c.toNat

/-! ## Fixed-width integers -/

/-- Conversion to `uint32_t`. -/
def toU32 (x : Int) : Nat := (x % 2 ^ 32).toNat

/-- Conversion to `int32_t` (and to `int`). -/
def toI32 (x : Int) : Int := (x + 2 ^ 31) % 2 ^ 32 - 2 ^ 31

/-- `x` is a value of `int32_t`. -/
def FitsI32 (x : Int) : Prop := -2 ^ 31 ≤ x ∧ x < 2 ^ 31

instance (x : Int) : Decidable (FitsI32 x) := inferInstanceAs (Decidable (_ ∧ _))

theorem toI32_eq_self_iff {x : Int} : toI32 x = x ↔ FitsI32 x := by
  unfold toI32 FitsI32; omega

theorem toU32_of_lt {n : Nat} (h : n < 2 ^ 32) : toU32 n = n := by
  unfold toU32; omega

theorem toU32_natCast (n : Nat) : toU32 n = n % 2 ^ 32 := by
  unfold toU32; omega

theorem toU32_lt (x : Int) : toU32 x < 2 ^ 32 := by
  unfold toU32; omega

theorem toU32_le (n : Nat) : toU32 n ≤ n := by
  unfold toU32; omega

/-- An `int` that passes through `uint32_t` and back is unchanged. -/
theorem toI32_toU32 {x : Int} (h : FitsI32 x) : toI32 (toU32 x) = x := by
  unfold FitsI32 at h
  unfold toI32 toU32; omega

/-- A `uint32_t` that passes through `int` and back is unchanged. -/
theorem toU32_toI32 {n : Nat} (h : n < 2 ^ 32) : toU32 (toI32 n) = n := by
  unfold toI32 toU32; omega

theorem fitsI32_toI32 (x : Int) : FitsI32 (toI32 x) := by
  unfold toI32 FitsI32; omega

/-! ## C strings -/

/-- The string a buffer holds: its bytes up to the first NUL. -/
def cstr (buf : List Byte) : CStr := buf.takeWhile (· != 0)

/-- What stands behind a NUL is no part of the string. -/
theorem cstr_append_zero (a b : List Byte) : cstr (a ++ 0 :: b) = cstr a := by
  unfold cstr
  induction a with
  | nil => rfl
  | cons x xs ih =>
      rw [List.cons_append, List.takeWhile_cons, List.takeWhile_cons, ih]

/-- `strtok_r` with a one-character separator set: the next token and what is left to scan (`save`), or
    `NULL` when only separators are left. -/
def strtok (delim : Byte) (s : CStr) : Option (CStr × CStr) :=
  match s.dropWhile (· == delim) with
  | [] => none
  | b :: rest =>
      let t := b :: rest
      some (t.takeWhile (· != delim), (t.dropWhile (· != delim)).drop 1)

/-- `sprintf("%u", n)`. -/
def decimal (n : Nat) : CStr := (Nat.toDigits 10 n).map fun c => UInt8.ofNat c.toNat

/-- The digits can be read back from the bytes. -/
theorem decimal_map_char (n : Nat) :
    (decimal n).map (fun b => Char.ofNat b.toNat) = Nat.toDigits 10 n := by
  unfold decimal
  rw [List.map_map]
  conv_rhs => rw [← List.map_id (Nat.toDigits 10 n)]
  apply List.map_congr_left
  intro c hc
  have hd : c.isDigit = true := Nat.isDigit_of_mem_toDigits (by decide) (by decide) hc
  have hle : c.toNat ≤ 57 := by
    simp only [Char.isDigit, Bool.and_eq_true, decide_eq_true_eq] at hd
    exact hd.2
  have hmod : c.toNat % 256 = c.toNat := Nat.mod_eq_of_lt (by omega)
  simp only [Function.comp_apply, id_eq, UInt8.toNat_ofNat', Nat.reducePow, hmod]
  exact Char.ofNat_toNat c

theorem decimal_injective : Function.Injective decimal := by
  intro m n h
  have hd : Nat.toDigits 10 m = Nat.toDigits 10 n := by
    rw [← decimal_map_char m, ← decimal_map_char n, h]
  rw [← Nat.ofDigitChars_ten_toDigits (n := m), hd, Nat.ofDigitChars_ten_toDigits]

end DistributedPlatform
