import DistributedPlatform.Correctness.Messages

/-!
# `Correctness.Transfers` — the value of a read or a write

A count is a `size_t` in the program, a `uint32_t` in the message and a `size_t` again in the server; the
number of bytes is a `ssize_t` in the server, an `int32_t` in the message and a `ssize_t` again in the
program. The first narrowing only makes a transfer shorter. The second one is harmless for an amount below
`2^31` and turns any other into a negative number.

* `fdRead_amount`, `fdWrite_amount` — what the operation returns for an open descriptor;
* `reports_iff` — the program gets the outcome if and only if the amount fits.
-/

namespace DistributedPlatform

/-- `read` or `write`. -/
inductive Transfer
  | read
  | write
  deriving DecidableEq, Repr

namespace Transfer

/-- The library call. -/
def call : Transfer → Int → Ptr → Nat → LibCall
  | read, fd, buf, count => .read fd buf count
  | write, fd, buf, count => .write fd buf count

/-- The host's answer, should the call reach the host. -/
def answer (h : SysHost) : Transfer → Int
  | read => h.read.nbytes
  | write => h.write

/-- The amount the object transfers fits an `int32_t`. -/
def Fits (s : Server) (count : Nat) (h : SysHost) (o : FdType) : Transfer → Prop
  | read => Messages.ReadFits s count h.read o
  | write => Messages.WriteFits s count h.write o

end Transfer

namespace Transfers

open Server Messages

/-- An outcome of a transfer of at most `count` bytes: it failed, or a number of bytes. -/
def Amount (count : Nat) (n : Int) : Prop := n = -1 ∨ 0 ≤ n ∧ n ≤ count

/-- The objects behind a descriptor exist. -/
def Live (s : Server) : FdType → Prop
  | .fdTypeNone => True
  | .fdTypeFd _ => True
  | .fdTypeSocket j => j < s.socks.length
  | .fdTypeDevice k => ∃ dev, s.devs[k]? = some dev ∧ ∀ j, dev = .socket (some j) → j < s.socks.length

variable {s : Server} {count : Nat}

/-! ## The operations -/

theorem amount_socketRead (sock : SocketTcp) {ans : ReadAns} (h : Amount count ans.nbytes) :
    Amount count (sock.read count ans).1.nbytes := by
  by_cases hn : sock.state = .stateNone
  · rw [SocketTcp.read_of_none hn]
    exact Or.inl rfl
  · rw [SocketTcp.read_of_open hn]
    exact h

theorem amount_socketWrite (sock : SocketTcp) {ans : Int} (h : Amount count ans) :
    Amount count (sock.write count ans).1 := by
  by_cases hn : sock.state = .stateNone
  · rw [SocketTcp.write_of_none hn]
    exact Or.inl rfl
  · rw [SocketTcp.write_of_open hn]
    exact h

/-- A device at most fills the buffer. -/
theorem amount_deviceRead {dev : Device} {ans : ReadAns} (h : Amount count ans.nbytes)
    {r : ReadAns × List HostCall} (hr : dev.read s.socks count ans = .ok r) : Amount count r.1.nbytes := by
  cases dev with
  | full => cases hr; exact Or.inr (by simp [ReadAns.nbytes])
  | null => cases hr; exact Or.inr (by simp [ReadAns.nbytes])
  | zero => cases hr; exact Or.inr (by simp [ReadAns.nbytes])
  | socket sock =>
      cases sock with
      | none => cases hr; exact Or.inl rfl
      | some j =>
          cases hj : s.socks[j]? with
          | none => simp only [Device.read, hj] at hr; cases hr
          | some sock =>
              simp only [Device.read, hj] at hr
              cases hr
              exact amount_socketRead sock h

theorem amount_deviceWrite {dev : Device} {ans : Int} (h : Amount count ans) {r : Int × List HostCall}
    (hr : dev.write s.socks count ans = .ok r) : Amount count r.1 := by
  cases dev with
  | full => cases hr; exact Or.inl rfl
  | null => cases hr; exact Or.inr ⟨Int.natCast_nonneg _, le_refl _⟩
  | zero => cases hr; exact Or.inr ⟨Int.natCast_nonneg _, le_refl _⟩
  | socket sock =>
      cases sock with
      | none => cases hr; exact Or.inl rfl
      | some j =>
          cases hj : s.socks[j]? with
          | none => simp only [Device.write, hj] at hr; cases hr
          | some sock =>
              simp only [Device.write, hj] at hr
              cases hr
              exact amount_socketWrite sock h

/-- A read of an entry whose objects exist returns: a failure, or a number of bytes up to the count. -/
theorem fdRead_amount {v : Int} {e : FdEntry} (hv : s.fdGet v = some e) (hlive : Live s e.type)
    {ans : ReadAns} (h : Amount count ans.nbytes) :
    ∃ r, s.fdRead v count ans = .ok r ∧ Amount count r.ret.nbytes := by
  unfold fdRead
  rw [hv]
  cases htype : e.type with
  | fdTypeNone => exact ⟨_, by simp only [htype]; rfl, Or.inl rfl⟩
  | fdTypeFd fd => exact ⟨_, by simp only [htype]; rfl, h⟩
  | fdTypeSocket j =>
      rw [htype] at hlive
      refine ⟨_, by simp only [htype, List.getElem?_eq_getElem hlive]; rfl, amount_socketRead _ h⟩
  | fdTypeDevice k =>
      rw [htype] at hlive
      obtain ⟨dev, hk, hsock⟩ := hlive
      obtain ⟨r, hr⟩ := Device.read_ok hsock count ans
      exact ⟨_, by simp only [htype, hk, hr]; rfl, amount_deviceRead h hr⟩

theorem fdWrite_amount {v : Int} {e : FdEntry} (hv : s.fdGet v = some e) (hlive : Live s e.type)
    {ans : Int} (h : Amount count ans) : ∃ r, s.fdWrite v count ans = .ok r ∧ Amount count r.ret := by
  unfold fdWrite
  rw [hv]
  cases htype : e.type with
  | fdTypeNone => exact ⟨_, by simp only [htype]; rfl, Or.inl rfl⟩
  | fdTypeFd fd => exact ⟨_, by simp only [htype]; rfl, h⟩
  | fdTypeSocket j =>
      rw [htype] at hlive
      refine ⟨_, by simp only [htype, List.getElem?_eq_getElem hlive]; rfl, amount_socketWrite _ h⟩
  | fdTypeDevice k =>
      rw [htype] at hlive
      obtain ⟨dev, hk, hsock⟩ := hlive
      obtain ⟨r, hr⟩ := Device.write_ok hsock count ans
      exact ⟨_, by simp only [htype, hk, hr]; rfl, amount_deviceWrite h hr⟩

/-! ## The system call -/

variable {pid : Nat} {fd : Int} {h : SysHost} {o : FdType}

/-- What stands behind an open descriptor of a process. -/
theorem entry_of_objectOf (ho : objectOf s pid fd = some o) :
    ∃ curr v e, s.proc pid = some curr ∧ serverFd curr fd = .ok v ∧ s.fdGet v = some e ∧ e.type = o := by
  unfold objectOf at ho
  cases hp : s.proc pid with
  | none => rw [hp] at ho; cases ho
  | some curr =>
      rw [hp] at ho
      dsimp only at ho
      cases hv : serverFd curr fd with
      | error e => rw [hv] at ho; cases ho
      | ok v =>
          rw [hv] at ho
          obtain ⟨e, he, htype⟩ := Option.map_eq_some_iff.mp ho
          exact ⟨curr, v, e, rfl, hv, he, htype⟩

/-- The operation behind the message returns an amount `n`, and stores it as an `int32_t`. -/
theorem syscall_transfer (t : Transfer) (buf : Ptr) (ho : objectOf s pid fd = some o) (hlive : Live s o)
    (hans : Amount (toU32 count) (t.answer h)) :
    ∃ m r n, (t.call fd buf count).message = some m ∧ s.syscall pid m.id.id m.args h = .ok r ∧
      Amount (toU32 count) n ∧ r.op = some (.int n) ∧ r.stored = some (.int (toI32 n)) ∧
      (FitsI32 n ↔ t.Fits s (toU32 count) h o) := by
  obtain ⟨curr, v, e, hp, hv, he, rfl⟩ := entry_of_objectOf ho
  cases t with
  | read =>
      obtain ⟨r, hr, hamount⟩ := fdRead_amount he hlive hans
      have hcall : s.syscallRead pid fd (toU32 count) h.read = .ok r := by
        simp only [syscallRead, hp]
        exact Eff.bind_eq_ok.mpr ⟨v, hv, hr⟩
      have hsys : s.syscall pid SysCommonSysCall.read.id (sysRead fd buf (toU32 count)).args h =
          .ok { stored := some (.int (toI32 r.ret.nbytes)), op := some (.int r.ret.nbytes), srv := s, on := r.on
                calls := r.calls } := by
        rw [syscall_id]
        exact Eff.bind_eq_ok.mpr ⟨.fdRead fd buf (toU32 count), rfl, Eff.bind_eq_ok.mpr ⟨r, hcall, rfl⟩⟩
      have hfits : FitsI32 r.ret.nbytes ↔ ReadFits s (toU32 count) h.read e.type := by
        rw [← fdRead_fits_iff he (toU32 count) h.read]
        exact ⟨fun hf r' hr' => by rw [hr] at hr'; cases hr'; exact hf, fun hall => hall r hr⟩
      exact ⟨_, _, r.ret.nbytes, rfl, hsys, hamount, rfl, rfl, hfits⟩
  | write =>
      have hans : Amount (toU32 count) h.write := hans
      obtain ⟨r, hr, hamount⟩ := fdWrite_amount he hlive hans
      have hcall : s.syscallWrite pid fd (toU32 count) h.write = .ok r := by
        simp only [syscallWrite, hp]
        exact Eff.bind_eq_ok.mpr ⟨v, hv, hr⟩
      have hsys : s.syscall pid SysCommonSysCall.write.id (sysWrite fd buf (toU32 count)).args h =
          .ok { stored := some (.int (toI32 r.ret)), op := some (.int r.ret), srv := s, on := r.on
                calls := r.calls } := by
        rw [syscall_id]
        exact Eff.bind_eq_ok.mpr ⟨.fdWrite fd buf (toU32 count), rfl, Eff.bind_eq_ok.mpr ⟨r, hcall, rfl⟩⟩
      have hfits : FitsI32 r.ret ↔ WriteFits s (toU32 count) h.write e.type := by
        rw [← fdWrite_fits_iff he (toU32 count) h.write]
        exact ⟨fun hf r' hr' => by rw [hr] at hr'; cases hr'; exact hf, fun hall => hall r hr⟩
      exact ⟨_, _, r.ret, rfl, hsys, hamount, rfl, rfl, hfits⟩

/-! ## What the program gets -/

/-- The call returns `v` for an operation that returned `n`: `-1` exactly when the operation failed, and
    otherwise the number of bytes it transferred, which is at most the count asked for. -/
structure Outcome (count : Nat) (n v : Int) : Prop where
  failed : v = -1 ↔ n = -1
  bytes : n ≠ -1 → v = n ∧ 0 ≤ v ∧ v ≤ count

/-- The transfer of process `pid` returns, and what the program gets is the outcome. -/
def Reports (s : Server) (pid : Nat) (c : LibCall) (count : Nat) (h : SysHost) : Prop :=
  ∃ m r n v, c.message = some m ∧ s.syscall pid m.id.id m.args h = .ok r ∧ r.op = some (.int n) ∧
    r.stored.map c.received = some (.int v) ∧ Outcome count n v

theorem outcome_iff {n : Int} (hn : Amount (toU32 count) n) : Outcome count n (toI32 n) ↔ FitsI32 n := by
  have hle := toU32_le count
  constructor
  · intro hout
    by_cases hfail : n = -1
    · rw [hfail]
      decide
    · exact toI32_eq_self_iff.mp (hout.bytes hfail).1
  · intro hfits
    rw [toI32_eq_self_iff.mpr hfits]
    refine ⟨Iff.rfl, fun hne => ⟨rfl, ?_⟩⟩
    have hpos := hn.resolve_left hne
    exact ⟨hpos.1, by omega⟩

/-- A transfer that returned, with the value stored for it. -/
theorem reports_of {c : LibCall} {m : Message} {r : SysResult} {n v : Int} (hm : c.message = some m)
    (hr : s.syscall pid m.id.id m.args h = .ok r) (hop : r.op = some (.int n))
    (hv : r.stored.map c.received = some (.int v)) : Reports s pid c count h ↔ Outcome count n v := by
  constructor
  · rintro ⟨m', r', n', v', hm', hr', hop', hv', hout⟩
    rw [hm] at hm'
    cases hm'
    rw [hr] at hr'
    cases hr'
    rw [hop] at hop'
    cases hop'
    rw [hv] at hv'
    cases hv'
    exact hout
  · intro hout
    exact ⟨m, r, n, v, hm, hr, hop, hv, hout⟩

/-- The value the program gets is the amount as an `int32_t`. -/
theorem reports_amount (t : Transfer) (buf : Ptr) (ho : objectOf s pid fd = some o) (hlive : Live s o)
    (hans : Amount (toU32 count) (t.answer h)) :
    ∃ n, (FitsI32 n ↔ t.Fits s (toU32 count) h o) ∧
      (Reports s pid (t.call fd buf count) count h ↔ FitsI32 n) := by
  obtain ⟨m, r, n, hm, hr, hn, hop, hstored, hfits⟩ := syscall_transfer t buf ho hlive hans
  have hreceived : r.stored.map (t.call fd buf count).received = some (.int (toI32 n)) := by
    rw [hstored]
    cases t <;> rfl
  exact ⟨n, hfits, (reports_of hm hr hop hreceived).trans (outcome_iff hn)⟩

/-- **When a read or write reports its outcome.** For every open descriptor whose objects exist, every buffer
    and every count, and with a host that answers `-1` or at most the count it was given: the call returns
    `-1` exactly when the operation failed and otherwise the number of bytes transferred, if and only if the
    amount is one an `int32_t` can hold. -/
theorem reports_iff (t : Transfer) (buf : Ptr) (ho : objectOf s pid fd = some o) (hlive : Live s o)
    (hans : Amount (toU32 count) (t.answer h)) :
    Reports s pid (t.call fd buf count) count h ↔ t.Fits s (toU32 count) h o := by
  obtain ⟨n, hfits, hrep⟩ := reports_amount t buf ho hlive hans
  exact hrep.trans hfits

/-- Descriptor 0 of the program is `/dev/zero`, … -/
def readsZero : Server :=
  { FdTable.booted with
    fdEntries := [some { fd := 0, type := .fdTypeDevice 2, refCount := 1 }]
    procs := [some {}, some { state := .running, posixPID := 100, fds := [0] }] }

theorem readsZero_live : Live readsZero (.fdTypeDevice 2) := ⟨_, rfl, nofun⟩

/-- … and it reads 1024 bytes from it. -/
theorem reports_iff_zero :
    Reports readsZero 1 (.read 0 (.mem 0) 1024) 1024 Messages.quietHost ↔
      ReadFits readsZero (toU32 1024) Messages.quietHost.read (.fdTypeDevice 2) :=
  reports_iff .read (.mem 0) rfl readsZero_live (Or.inr ⟨by decide, by decide⟩)

/-- A read of `2^31` bytes from `/dev/zero` fills the buffer and returns `-2^31`. -/
theorem zero_reports_negative :
    ¬ ∀ (t : Transfer) (s : Server) (pid : Nat) (fd : Int) (buf : Ptr) (count : Nat) (h : SysHost)
      (o : FdType), count < 2 ^ 64 → objectOf s pid fd = some o → Live s o →
      Amount (toU32 count) (t.answer h) → Reports s pid (t.call fd buf count) count h := by
  intro hall
  have hans : Amount (toU32 (2 ^ 31)) (Transfer.read.answer Messages.quietHost) :=
    Or.inr ⟨by decide, by decide⟩
  have ho : objectOf readsZero 1 0 = some (.fdTypeDevice 2) := rfl
  have hrep := hall .read readsZero 1 0 (.mem 0) (2 ^ 31) Messages.quietHost _ (by decide) ho readsZero_live hans
  obtain ⟨n, hfits, hiff⟩ := reports_amount .read (.mem 0) ho readsZero_live hans
  exact absurd (hfits.mp (hiff.mp hrep)) (by simp [Transfer.Fits, ReadFits, readsZero, FdTable.booted, toU32])

end Transfers
end DistributedPlatform
