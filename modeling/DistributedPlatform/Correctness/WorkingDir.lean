import DistributedPlatform.Correctness.FdTable
import DistributedPlatform.Stdlib.Sys

/-!
# `Correctness.WorkingDir` — `chdir` and `getcwd`

`getcwd` has the size of its buffer as a `size_t` and sends it as a `uint32_t`, and the length it gets back is
one as well; the server copies by the size it was sent, and the library compares by the sizes it has. As long
as size and length are below `2^32` these are the same numbers.

* `getCwdInto_ok` — the copy stays within the buffer and what it leaves there;
* `roundTrips_iff` — after a `chdir` the buffer comes back with the directory exactly when it is large
  enough, if and only if neither number was cut to a different one that matters.
-/

namespace DistributedPlatform
namespace WorkingDir

open Server

variable {s t : Server} {pid : Nat} {p : CStr} {size : Nat} {buf : Block}

/-- What `getcwd` is to do in a process whose directory is `p`: the buffer is returned exactly when it is large
    enough, it then holds the directory with its NUL, and nothing behind its first `size` bytes is touched. -/
def RoundTrips (s : Server) (pid : Nat) (p : CStr) (size : Nat) (buf : Block) : Prop :=
  ∃ ret buf', getcwd s pid buf size = .ok (ret, buf') ∧ (ret = true ↔ p.length + 1 ≤ size) ∧
    (ret = true → buf'.take (p.length + 1) = p ++ [0]) ∧ buf'.length = buf.length ∧
    buf'.drop size = buf.drop size

/-! ## The message -/

/-- The server is asked for the directory with the size as a `uint32_t`. -/
theorem parse_getcwd {addr : Nat} {m : Message} (hm : (LibCall.getcwd (.mem addr) size).message = some m) :
    m.id.parse m.args = .ok (.getCwd (.mem addr) (toU32 size)) := by
  simp only [LibCall.message] at hm
  split at hm
  · cases hm
  · cases hm
    rfl

/-- The length compared is the one the system call stores. -/
theorem getCwdInto_value {n : Nat} {buf' : Block} (h : s.getCwdInto pid size buf = .ok (n, buf')) (addr : Nat) :
    s.syscallGetCwd pid (.mem addr) = .ok (some n) := by
  unfold getCwdInto at h
  unfold syscallGetCwd
  cases hp : s.proc pid with
  | none => rw [hp] at h; cases h
  | some curr =>
      rw [hp] at h
      dsimp only at h ⊢
      cases hcwd : curr.cwd with
      | none => rw [hcwd] at h; cases h; rfl
      | some cwd =>
          rw [hcwd] at h
          obtain ⟨b₁, -, h⟩ := Eff.bind_eq_ok.mp h
          obtain ⟨b₂, -, h⟩ := Eff.bind_eq_ok.mp h
          cases h
          rfl

/-- A `chdir` that returned 0 has set the directory. -/
theorem cwd_of_chdir {alloc : Bool} (h : s.syscallChDir pid p alloc = .ok (0, t)) :
    ∃ curr, t.proc pid = some curr ∧ curr.cwd = some p := by
  obtain ⟨curr, hp, rfl⟩ := syscallChDir_only h
  refine ⟨_, proc_setProc_self (lt_of_proc hp) _, ?_⟩
  cases alloc with
  | true => rfl
  | false =>
      simp only [syscallChDir, hp, Process.setCwd] at h
      cases h

/-! ## The copy -/

/-- The last byte written lies in the buffer, also where the size sent is 0 and one less wraps. -/
theorem lastByte_lt (h : size ≠ 0) : toU32 ((toU32 size : Int) - 1) < size := by
  unfold toU32
  omega

/-- The copy is inside the buffer for every size; what it leaves: the string and NULs up to the size, the last
    byte of the buffer a NUL. -/
theorem getCwdInto_ok {curr : Process} (hp : s.proc pid = some curr) (hcwd : curr.cwd = some p)
    (hsize : size ≠ 0) (hbuf : size ≤ buf.length) :
    ∃ b₁ b₂, s.getCwdInto pid (toU32 size) buf = .ok (toU32 (p.length + 1), b₂) ∧
      Buffer.write buf 0 (p.take (toU32 size) ++ List.replicate (toU32 size - p.length) 0) = some b₁ ∧
      Buffer.write b₁ (toU32 ((toU32 size : Int) - 1)) [0] = some b₂ := by
  have hle := toU32_le size
  have hlast := lastByte_lt hsize
  obtain ⟨b₁, h₁⟩ : ∃ b₁, Buffer.write buf 0
      (p.take (toU32 size) ++ List.replicate (toU32 size - p.length) 0) = some b₁ :=
    ⟨_, Buffer.write_of_le (by simp; omega)⟩
  obtain ⟨b₂, h₂⟩ : ∃ b₂, Buffer.write b₁ (toU32 ((toU32 size : Int) - 1)) [0] = some b₂ :=
    ⟨_, Buffer.write_of_le (by rw [Buffer.length_of_write h₁, List.length_singleton]; omega)⟩
  refine ⟨b₁, b₂, ?_, h₁, h₂⟩
  simp only [getCwdInto, hp, hcwd, strncpy, store, inBounds, h₁, h₂, bind, Except.bind]

/-- `getcwd` with a buffer that is not empty: the range check, and the buffer the copy leaves. -/
theorem getcwd_ok {curr : Process} (hp : s.proc pid = some curr) (hcwd : curr.cwd = some p)
    (hsize : size ≠ 0) (hbuf : size ≤ buf.length) :
    ∃ b₁ b₂, getcwd s pid buf size = .ok (!decide (toU32 (p.length + 1) > size), b₂) ∧
      Buffer.write buf 0 (p.take (toU32 size) ++ List.replicate (toU32 size - p.length) 0) = some b₁ ∧
      Buffer.write b₁ (toU32 ((toU32 size : Int) - 1)) [0] = some b₂ := by
  obtain ⟨b₁, b₂, h, h₁, h₂⟩ := getCwdInto_ok hp hcwd hsize hbuf
  refine ⟨b₁, b₂, ?_, h₁, h₂⟩
  unfold getcwd
  rw [if_neg hsize, h]
  rfl

/-- **Nothing behind the first `size` bytes is touched**, whatever the sizes. -/
theorem getcwd_frame {curr : Process} (hp : s.proc pid = some curr) (hcwd : curr.cwd = some p)
    (hbuf : size ≤ buf.length) {ret : Bool} {buf' : Block} (h : getcwd s pid buf size = .ok (ret, buf')) :
    buf'.length = buf.length ∧ buf'.drop size = buf.drop size := by
  by_cases hsize : size = 0
  · unfold getcwd at h
    rw [if_pos hsize] at h
    cases h
    exact ⟨rfl, rfl⟩
  · obtain ⟨b₁, b₂, h', h₁, h₂⟩ := getcwd_ok hp hcwd hsize hbuf
    rw [h'] at h
    cases h
    have hle := toU32_le size
    have hlast := lastByte_lt hsize
    refine ⟨(Buffer.length_of_write h₂).trans (Buffer.length_of_write h₁), ?_⟩
    rw [Buffer.drop_of_write h₂ (by simp; omega), Buffer.drop_of_write h₁ (by simp; omega)]

/-- A directory that fits the size sent is in the buffer, with its NUL. -/
theorem copied {n : Nat} {b₁ b₂ : Block} (hn : n < 2 ^ 32) (hfits : p.length + 1 ≤ n)
    (h₁ : Buffer.write buf 0 (p.take n ++ List.replicate (n - p.length) 0) = some b₁)
    (h₂ : Buffer.write b₁ (toU32 ((n : Int) - 1)) [0] = some b₂) :
    b₂.take (p.length + 1) = p ++ [0] := by
  -- the padding is at least one NUL, and the last one is written twice
  have hpad : List.replicate (n - p.length) (0 : Byte) = List.replicate (n - 1 - p.length) 0 ++ [0] := by
    rw [← List.replicate_succ']
    congr 1
    omega
  have hlast : toU32 ((n : Int) - 1) = (p ++ List.replicate (n - 1 - p.length) (0 : Byte)).length := by
    rw [List.length_append, List.length_replicate]
    unfold toU32
    omega
  obtain ⟨-, hb₁⟩ := Buffer.write_eq_some_iff.mp h₁
  rw [List.take_zero, List.nil_append, List.take_of_length_le (by omega), hpad, ← List.append_assoc] at hb₁
  rw [hb₁, hlast, Buffer.write_append rfl] at h₂
  cases h₂
  have hfront : p ++ List.replicate (n - 1 - p.length) (0 : Byte) ++ [0] =
      p ++ [0] ++ List.replicate (n - 1 - p.length) 0 := by
    rw [List.append_assoc, ← List.replicate_succ', List.replicate_succ, List.append_assoc]
    rfl
  rw [hfront, List.append_assoc, List.take_append_of_le_length (by simp), List.take_of_length_le (by simp)]

/-- A directory that is longer than the size sent is not, for some buffer: it is cut, and with a size of 0
    nothing is copied at all. -/
theorem not_copied {n : Nat} (hnul : 0 ∉ p) (hn : n < 2 ^ 32) (hcut : n < p.length + 1)
    (hsize : p.length + 1 ≤ size) :
    ∃ buf : Block, buf.length = size ∧ ∀ b₁ b₂ : Block,
      Buffer.write buf 0 (p.take n ++ List.replicate (n - p.length) 0) = some b₁ →
      Buffer.write b₁ (toU32 ((n : Int) - 1)) [0] = some b₂ → b₂.take (p.length + 1) ≠ p ++ [0] := by
  obtain ⟨c, hc⟩ : ∃ c, (p ++ [0])[0]? = some c := by
    cases p with
    | nil => exact ⟨0, rfl⟩
    | cons c p => exact ⟨c, rfl⟩
  -- a buffer that does not start as the directory does
  refine ⟨List.replicate size (c + 1), List.length_replicate, fun b₁ b₂ h₁ h₂ htake => ?_⟩
  have hitem : ∀ k < p.length + 1, b₂[k]? = (p ++ [0])[k]? := by
    intro k hk
    rw [← htake, List.getElem?_take_of_lt hk]
  by_cases hzero : n = 0
  · have hlast : toU32 ((n : Int) - 1) = 2 ^ 32 - 1 := by
      rw [hzero]
      decide
    have hfirst := hitem 0 (by omega)
    rw [Buffer.getElem?_of_write h₂, if_pos (by omega), Buffer.getElem?_of_write h₁, if_neg (by omega),
      if_neg (by simp; omega), List.getElem?_replicate_of_lt (by omega), hc] at hfirst
    have hne := congrArg UInt8.toNat (Option.some.inj hfirst)
    rw [UInt8.toNat_add, show (1 : Byte).toNat = 1 from rfl] at hne
    have hlt := c.toNat_lt
    omega
  · have hlast : toU32 ((n : Int) - 1) = n - 1 := by
      unfold toU32
      omega
    -- the last byte written is a NUL where the directory has a character
    have hend := hitem (n - 1) (by omega)
    rw [Buffer.getElem?_of_write h₂, hlast, if_neg (by omega), if_pos (by simp),
      List.getElem?_append_left (by omega), Nat.sub_self] at hend
    exact hnul (List.mem_of_getElem? hend.symm)

/-! ## The round trip -/

/-- A size that was cut below the directory, or a length that was cut down to the size. -/
theorem not_roundTrips {curr : Process} (hnul : 0 ∉ p) (hp : s.proc pid = some curr) (hcwd : curr.cwd = some p)
    (hsize : size ≠ 0) (hcut : toU32 size < p.length + 1) (hcutL : toU32 (p.length + 1) ≤ size) :
    ∃ buf : Block, size ≤ buf.length ∧ ¬ RoundTrips s pid p size buf := by
  by_cases hle : p.length + 1 ≤ size
  · obtain ⟨buf, hlen, hno⟩ := not_copied hnul (toU32_lt size) hcut hle
    refine ⟨buf, by omega, ?_⟩
    rintro ⟨ret, buf', h, hret, hholds, -, -⟩
    obtain ⟨b₁, b₂, h', h₁, h₂⟩ := getcwd_ok hp hcwd hsize (Nat.le_of_eq hlen.symm)
    rw [h] at h'
    cases h'
    exact hno b₁ buf' h₁ h₂ (hholds (hret.mpr hle))
  · -- the length was cut and passes the range check
    have hlen : size ≤ (List.replicate size (0 : Byte)).length := by simp
    refine ⟨_, hlen, ?_⟩
    rintro ⟨ret, buf', h, hret, -⟩
    obtain ⟨b₁, b₂, h', -⟩ := getcwd_ok hp hcwd hsize hlen
    rw [h] at h'
    cases h'
    exact hle (hret.mp (by simpa using hcutL))

/-- **When `getcwd` gives the directory back.** After a `chdir` to `p` that succeeded, for every size and every
    buffer of that size at least: `getcwd` returns the buffer exactly when the size is at least that of `p`
    with its NUL, the buffer then holds `p`, and nothing behind its first `size` bytes is touched; if and only
    if the size is 0, or `p` fits the size modulo `2^32`, or the length of `p` modulo `2^32` is still too
    large for the size. -/
theorem roundTrips_iff {alloc : Bool} (hnul : 0 ∉ p) (hchdir : s.syscallChDir pid p alloc = .ok (0, t)) :
    (∀ buf : Block, size ≤ buf.length → RoundTrips t pid p size buf) ↔
      size = 0 ∨ p.length + 1 ≤ size % 2 ^ 32 ∨ size < (p.length + 1) % 2 ^ 32 := by
  obtain ⟨curr, hp, hcwd⟩ := cwd_of_chdir hchdir
  have hmodL : toU32 (p.length + 1) = (p.length + 1) % 2 ^ 32 := toU32_natCast (p.length + 1)
  rw [← toU32_natCast size, ← hmodL]
  by_cases hsize : size = 0
  · refine iff_of_true (fun buf _ => ⟨false, buf, ?_, ?_, nofun, rfl, rfl⟩) (Or.inl hsize)
    · rw [getcwd, if_pos hsize]
    · exact iff_of_false nofun (by omega)
  · constructor
    · intro hall
      by_contra hbad
      obtain ⟨buf, hbuf, hno⟩ := not_roundTrips hnul hp hcwd hsize (by omega) (by omega)
      exact hno (hall buf hbuf)
    · intro hgood buf hbuf
      obtain ⟨b₁, b₂, h, h₁, h₂⟩ := getcwd_ok hp hcwd hsize hbuf
      have hframe := getcwd_frame hp hcwd hbuf h
      have hle := toU32_le size
      have hleL := toU32_le (p.length + 1)
      refine ⟨_, b₂, h, ?_, ?_, hframe.1, hframe.2⟩
      · simp
        omega
      · intro hret
        have hfits : p.length + 1 ≤ toU32 size := by
          simp at hret
          omega
        exact copied (toU32_lt size) hfits h₁ h₂

/-- A buffer of three bytes is enough for "/a". -/
theorem roundTrips_iff_small :
    ∃ t, FdTable.booted.syscallChDir 1 (bytes "/a") true = .ok (0, t) ∧
      ((∀ buf : Block, 3 ≤ buf.length → RoundTrips t 1 (bytes "/a") 3 buf) ↔
        3 = 0 ∨ (bytes "/a").length + 1 ≤ 3 % 2 ^ 32 ∨ 3 < ((bytes "/a").length + 1) % 2 ^ 32) := by
  have hchdir : ∃ t, FdTable.booted.syscallChDir 1 (bytes "/a") true = .ok (0, t) := ⟨_, rfl⟩
  obtain ⟨t, hchdir⟩ := hchdir
  exact ⟨t, hchdir, roundTrips_iff (by decide) hchdir⟩

/-- In a buffer of `2^32` bytes nothing is put, and it is returned all the same. -/
theorem nothing_copied :
    ¬ ∀ (s t : Server) (pid : Nat) (p : CStr) (alloc : Bool) (size : Nat) (buf : Block), 0 ∉ p →
      s.syscallChDir pid p alloc = .ok (0, t) → size < 2 ^ 64 → size ≤ buf.length →
      RoundTrips t pid p size buf := by
  intro hall
  have hchdir : ∃ t, FdTable.booted.syscallChDir 1 (bytes "/") true = .ok (0, t) := ⟨_, rfl⟩
  obtain ⟨t, hchdir⟩ := hchdir
  obtain ⟨curr, hp, hcwd⟩ := cwd_of_chdir hchdir
  have hcut : toU32 (2 ^ 32 : Nat) < (bytes "/").length + 1 := by decide
  have hcutL : toU32 ((bytes "/").length + 1) ≤ 2 ^ 32 := by decide
  obtain ⟨buf, hbuf, hno⟩ := not_roundTrips (by decide) hp hcwd (by decide) hcut hcutL
  exact hno (hall FdTable.booted t 1 (bytes "/") true (2 ^ 32) buf (by decide) hchdir (by decide) hbuf)

end WorkingDir
end DistributedPlatform
