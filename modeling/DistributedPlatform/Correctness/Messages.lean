import DistributedPlatform.Correctness.FdTable
import DistributedPlatform.Stdlib.Sys

/-!
# `Correctness.Messages` — a library call against the server operation it reaches

`intended` says which operation a library call is for, with every argument in the caller's role. A call is
`Delivered` when the message it sends is read back as that operation and the value the program gets is the
one the operation returned.

Two things stand in the way, and nothing else (`delivered_iff`): open hands its flags on as the mode and its
mode as the flags, and the value of a read or write passes through an `int32_t`.
-/

namespace DistributedPlatform

namespace LibCall

/-- The arguments fit the fields they travel in. -/
def Fits : LibCall → Prop
  | exit status => FitsI32 status
  | execv _ argv _ => argv.length < 2 ^ 32
  | getcwd _ size => size < 2 ^ 32
  | read fd _ count => FitsI32 fd ∧ count < 2 ^ 32
  | write fd _ count => FitsI32 fd ∧ count < 2 ^ 32
  | .open _ flags mode => FitsI32 flags ∧ mode < 2 ^ 32
  | close fd => FitsI32 fd
  | _ => True

/-- The operation of the server the call is for, with the arguments in the caller's roles. -/
def intended : LibCall → ServerOp
  | exit status => .syscallExit (toU32 status)
  | fork => .processFork
  | getpid => .getPid
  | malloc size => .realloc .null size
  | realloc ptr size => .realloc ptr size
  | execv path argv _ => .exec path argv.length argv
  | chdir path => .setCwd path
  | getcwd buf size => .getCwd buf size
  | read fd buf count => .fdRead fd buf count
  | write fd buf count => .fdWrite fd buf count
  | .open pathname flags mode => .fdOpenFdFromPath pathname flags mode
  | close fd => .fdClose fd

end LibCall

namespace Messages

open Server

/-- A library call of process `pid`: its message reaches the intended operation, an open of a file that
    reaches the host uses the caller's flags and mode, and the program gets what the operation returned. -/
structure Delivered (s : Server) (pid : Nat) (c : LibCall) (h : SysHost) : Prop where
  reaches : ∀ m, c.message = some m →
    SysCommonSysCall.ofId m.id.id = some m.id ∧ m.id.parse m.args = .ok c.intended
  opened : ∀ path flags mode m r, c = .open path flags mode → c.message = some m →
    s.syscall pid m.id.id m.args h = .ok r →
    ∀ path' flags' mode' ret, HostCall.open path' flags' mode' ret ∈ r.calls →
      flags' = flags ∧ mode' = mode
  returned : ∀ m r, c.message = some m → s.syscall pid m.id.id m.args h = .ok r →
    r.stored.map c.received = r.op

/-- The object behind a descriptor number of a process. -/
def objectOf (s : Server) (pid : Nat) (procFd : Int) : Option FdType :=
  match s.proc pid with
  | none => none
  | some curr =>
      match serverFd curr procFd with
      | .error _ => none
      | .ok v => (s.fdGet v).map (·.type)

/-- A socket object that is open hands the host's answer on. -/
def SocketFits (s : Server) (j : Nat) (amount : Int) : Prop :=
  ∀ sock, s.socks[j]? = some sock → sock.state ≠ .stateNone → FitsI32 amount

/-- What a read of the object delivers fits an `int32_t`: the host's answer, or the whole count for the
    devices that always fill the buffer. -/
def ReadFits (s : Server) (count : Nat) (ans : ReadAns) : FdType → Prop
  | .fdTypeNone => True
  | .fdTypeFd _ => FitsI32 ans.nbytes
  | .fdTypeSocket j => SocketFits s j ans.nbytes
  | .fdTypeDevice k =>
      match s.devs[k]? with
      | some .full => count < 2 ^ 31
      | some .zero => count < 2 ^ 31
      | some (.socket (some j)) => SocketFits s j ans.nbytes
      | _ => True

/-- What a write of the object takes fits an `int32_t`. -/
def WriteFits (s : Server) (count : Nat) (ans : Int) : FdType → Prop
  | .fdTypeNone => True
  | .fdTypeFd _ => FitsI32 ans
  | .fdTypeSocket j => SocketFits s j ans
  | .fdTypeDevice k =>
      match s.devs[k]? with
      | some .null => count < 2 ^ 31
      | some .zero => count < 2 ^ 31
      | some (.socket (some j)) => SocketFits s j ans
      | _ => True

/-- The calls nothing stands in the way of: an open whose flags and mode are the same 32 bits, a read or
    write of an amount that fits, and every other call. -/
def Unharmed (s : Server) (pid : Nat) (h : SysHost) : LibCall → Prop
  | .open _ flags mode => flags = toI32 mode
  | .read fd _ count => ∀ t, objectOf s pid fd = some t → ReadFits s count h.read t
  | .write fd _ count => ∀ t, objectOf s pid fd = some t → WriteFits s count h.write t
  | _ => True

/-! ## Amounts -/

theorem fitsI32_natCast {n : Nat} : FitsI32 n ↔ n < 2 ^ 31 := by
  unfold FitsI32; omega

theorem socketRead_fits {s : Server} {j count : Nat} {ans : ReadAns} {sock : SocketTcp}
    (hj : s.socks[j]? = some sock) :
    FitsI32 (sock.read count ans).1.nbytes ↔ SocketFits s j ans.nbytes := by
  unfold SocketFits
  by_cases hn : sock.state = .stateNone
  · rw [SocketTcp.read_of_none hn]
    refine ⟨fun _ sock' hs hne => ?_, fun _ => by decide⟩
    rw [hj] at hs; cases hs; exact absurd hn hne
  · rw [SocketTcp.read_of_open hn]
    refine ⟨fun hf sock' _ _ => hf, fun hf => hf sock hj hn⟩

theorem socketWrite_fits {s : Server} {j count : Nat} {ans : Int} {sock : SocketTcp}
    (hj : s.socks[j]? = some sock) : FitsI32 (sock.write count ans).1 ↔ SocketFits s j ans := by
  unfold SocketFits
  by_cases hn : sock.state = .stateNone
  · rw [SocketTcp.write_of_none hn]
    refine ⟨fun _ sock' hs hne => ?_, fun _ => by decide⟩
    rw [hj] at hs; cases hs; exact absurd hn hne
  · rw [SocketTcp.write_of_open hn]
    refine ⟨fun hf sock' _ _ => hf, fun hf => hf sock hj hn⟩

/-- A statement about the result of a computation that returns. -/
theorem forall_ok_iff {α : Type} {x : α} {P : α → Prop} : (∀ r, (Except.ok x : Eff α) = .ok r → P r) ↔ P x := by
  constructor
  · intro h; exact h x rfl
  · intro h r hr; cases hr; exact h

/-- … and of one that does not. -/
theorem forall_error {α : Type} {e : Fault} {P : α → Prop} : ∀ r, (Except.error e : Eff α) = .ok r → P r := by
  intro r hr; cases hr

/-- The value of a device's read fits exactly when `ReadFits` says so. -/
theorem deviceRead_fits_iff {s : Server} {k : Nat} {dev : Device} (hk : s.devs[k]? = some dev)
    (count : Nat) (ans : ReadAns) :
    (∀ r, dev.read s.socks count ans = .ok r → FitsI32 r.1.nbytes) ↔
      ReadFits s count ans (.fdTypeDevice k) := by
  simp only [ReadFits, hk]
  cases dev with
  | full => exact forall_ok_iff.trans (by simp [ReadAns.nbytes, fitsI32_natCast])
  | null => exact forall_ok_iff.trans (by simp only [iff_true]; decide)
  | zero => exact forall_ok_iff.trans (by simp [ReadAns.nbytes, fitsI32_natCast])
  | socket sock =>
      cases sock with
      | none => exact forall_ok_iff.trans (by simp only [iff_true]; decide)
      | some j =>
          cases hj : s.socks[j]? with
          | none =>
              simp only [Device.read, hj]
              refine ⟨fun _ sock' hs => ?_, fun _ => forall_error⟩
              rw [hj] at hs; cases hs
          | some sock =>
              simp only [Device.read, hj]
              exact forall_ok_iff.trans (socketRead_fits hj)

theorem deviceWrite_fits_iff {s : Server} {k : Nat} {dev : Device} (hk : s.devs[k]? = some dev)
    (count : Nat) (ans : Int) :
    (∀ r, dev.write s.socks count ans = .ok r → FitsI32 r.1) ↔
      WriteFits s count ans (.fdTypeDevice k) := by
  simp only [WriteFits, hk]
  cases dev with
  | full => exact forall_ok_iff.trans (by simp only [iff_true]; decide)
  | null => exact forall_ok_iff.trans fitsI32_natCast
  | zero => exact forall_ok_iff.trans fitsI32_natCast
  | socket sock =>
      cases sock with
      | none => exact forall_ok_iff.trans (by simp only [iff_true]; decide)
      | some j =>
          cases hj : s.socks[j]? with
          | none =>
              simp only [Device.write, hj]
              refine ⟨fun _ sock' hs => ?_, fun _ => forall_error⟩
              rw [hj] at hs; cases hs
          | some sock =>
              simp only [Device.write, hj]
              exact forall_ok_iff.trans (socketWrite_fits hj)

/-- A bind whose second part always returns: a statement about the result is one about the first part. -/
theorem forall_bind_ok {α β : Type} {x : Eff α} {f : α → β} {P : β → Prop} :
    (∀ r, (x >>= fun a => (Except.ok (f a) : Eff β)) = .ok r → P r) ↔ ∀ a, x = .ok a → P (f a) := by
  cases x with
  | error e => exact ⟨fun _ => forall_error, fun _ => forall_error⟩
  | ok a =>
      constructor
      · intro h b hb; cases hb; exact h _ rfl
      · intro h r hr; cases hr; exact h a rfl

theorem fdRead_fits_iff {s : Server} {v : Int} {e : FdEntry} (hv : s.fdGet v = some e) (count : Nat)
    (ans : ReadAns) :
    (∀ r, s.fdRead v count ans = .ok r → FitsI32 r.ret.nbytes) ↔ ReadFits s count ans e.type := by
  unfold fdRead
  rw [hv]
  cases htype : e.type with
  | fdTypeNone =>
      simp only [htype]
      exact forall_ok_iff.trans (by simp only [ReadFits, iff_true]; decide)
  | fdTypeFd fd =>
      simp only [htype]
      exact forall_ok_iff
  | fdTypeSocket j =>
      simp only [htype]
      cases hj : s.socks[j]? with
      | none =>
          refine ⟨fun _ sock' hs => ?_, fun _ => forall_error⟩
          rw [hj] at hs; cases hs
      | some sock => exact forall_ok_iff.trans (socketRead_fits hj)
  | fdTypeDevice k =>
      simp only [htype]
      cases hk : s.devs[k]? with
      | none => exact ⟨fun _ => by simp [ReadFits, hk], fun _ => forall_error⟩
      | some dev => exact forall_bind_ok.trans (deviceRead_fits_iff hk count ans)

theorem fdWrite_fits_iff {s : Server} {v : Int} {e : FdEntry} (hv : s.fdGet v = some e) (count : Nat)
    (ans : Int) :
    (∀ r, s.fdWrite v count ans = .ok r → FitsI32 r.ret) ↔ WriteFits s count ans e.type := by
  unfold fdWrite
  rw [hv]
  cases htype : e.type with
  | fdTypeNone =>
      simp only [htype]
      exact forall_ok_iff.trans (by simp only [WriteFits, iff_true]; decide)
  | fdTypeFd fd =>
      simp only [htype]
      exact forall_ok_iff
  | fdTypeSocket j =>
      simp only [htype]
      cases hj : s.socks[j]? with
      | none =>
          refine ⟨fun _ sock' hs => ?_, fun _ => forall_error⟩
          rw [hj] at hs; cases hs
      | some sock => exact forall_ok_iff.trans (socketWrite_fits hj)
  | fdTypeDevice k =>
      simp only [htype]
      cases hk : s.devs[k]? with
      | none => exact ⟨fun _ => by simp [WriteFits, hk], fun _ => forall_error⟩
      | some dev => exact forall_bind_ok.trans (deviceWrite_fits_iff hk count ans)

/-- The value of a read call fits exactly when the amount does, whatever the number denotes. -/
theorem syscallRead_fits_iff {s : Server} {pid : Nat} {procFd : Int} {count : Nat} {ans : ReadAns} :
    (∀ r, s.syscallRead pid procFd count ans = .ok r → FitsI32 r.ret.nbytes) ↔
      ∀ t, objectOf s pid procFd = some t → ReadFits s count ans t := by
  cases hp : s.proc pid with
  | none =>
      simp only [syscallRead, objectOf, hp]
      exact ⟨fun _ t ht => (nomatch ht), fun _ => forall_error⟩
  | some curr =>
      cases hv : serverFd curr procFd with
      | error e =>
          simp only [syscallRead, objectOf, hp, hv, bind, Except.bind]
          exact ⟨fun _ t ht => (nomatch ht), fun _ => forall_error⟩
      | ok v =>
          simp only [syscallRead, objectOf, hp, hv, bind, Except.bind]
          cases he : s.fdGet v with
          | none =>
              refine ⟨fun _ t ht => (nomatch ht), fun _ => ?_⟩
              simp only [fdRead, he]
              exact forall_ok_iff.mpr (by decide)
          | some e =>
              rw [fdRead_fits_iff he]
              exact ⟨fun hf t ht => by cases ht; exact hf, fun hf => hf _ rfl⟩

theorem syscallWrite_fits_iff {s : Server} {pid : Nat} {procFd : Int} {count : Nat} {ans : Int} :
    (∀ r, s.syscallWrite pid procFd count ans = .ok r → FitsI32 r.ret) ↔
      ∀ t, objectOf s pid procFd = some t → WriteFits s count ans t := by
  cases hp : s.proc pid with
  | none =>
      simp only [syscallWrite, objectOf, hp]
      exact ⟨fun _ t ht => (nomatch ht), fun _ => forall_error⟩
  | some curr =>
      cases hv : serverFd curr procFd with
      | error e =>
          simp only [syscallWrite, objectOf, hp, hv, bind, Except.bind]
          exact ⟨fun _ t ht => (nomatch ht), fun _ => forall_error⟩
      | ok v =>
          simp only [syscallWrite, objectOf, hp, hv, bind, Except.bind]
          cases he : s.fdGet v with
          | none =>
              refine ⟨fun _ t ht => (nomatch ht), fun _ => ?_⟩
              simp only [fdWrite, he]
              exact forall_ok_iff.mpr (by decide)
          | some e =>
              rw [fdWrite_fits_iff he]
              exact ⟨fun hf t ht => by cases ht; exact hf, fun hf => hf _ rfl⟩

/-! ## Messages -/

theorem ofId_id (c : SysCommonSysCall) : SysCommonSysCall.ofId c.id = some c := by
  cases c <;> decide

/-- A message with a known id is parsed and performed. -/
theorem syscall_id (s : Server) (pid : Nat) (c : SysCommonSysCall) (ap : VaList) (h : SysHost) :
    s.syscall pid c.id ap h = c.parse ap >>= fun op => s.perform pid op h := by
  simp only [syscall, ofId_id]

/-- **Every message but that of an open is read back as the operation it is for.** -/
theorem parse_message {c : LibCall} (hfits : c.Fits) (hopen : ∀ path flags mode, c ≠ .open path flags mode)
    {m : Message} (hm : c.message = some m) : m.id.parse m.args = .ok c.intended := by
  cases c with
  | exit status => cases hm; rfl
  | fork => cases hm; rfl
  | getpid => cases hm; rfl
  | malloc size => cases hm; rfl
  | realloc ptr size => cases hm; rfl
  | execv path argv copied =>
      cases copied with
      | false => cases hm
      | true =>
          cases hm
          show Except.ok (ServerOp.exec path (toU32 argv.length) argv) = _
          rw [toU32_of_lt hfits]; rfl
  | chdir path => cases hm; rfl
  | getcwd buf size =>
      by_cases hnone : buf = .null ∨ size = 0
      · simp [LibCall.message, hnone] at hm
      · simp only [LibCall.message, if_neg hnone, Option.some.injEq] at hm
        subst hm
        show Except.ok (ServerOp.getCwd buf (toU32 size)) = _
        rw [toU32_of_lt hfits]; rfl
  | read fd buf count =>
      cases hm
      show Except.ok (ServerOp.fdRead fd buf (toU32 count)) = _
      rw [toU32_of_lt hfits.2]; rfl
  | write fd buf count =>
      cases hm
      show Except.ok (ServerOp.fdWrite fd buf (toU32 count)) = _
      rw [toU32_of_lt hfits.2]; rfl
  -- the server hands flags and mode on in each other's place: `parse_open`
  | «open» path flags mode => exact absurd rfl (hopen path flags mode)
  | close fd => cases hm; rfl

/-- The message of an open is read back with flags and mode exchanged. -/
theorem parse_open (path : CStr) (flags : Int) (mode : Nat) :
    SysCommonSysCall.open.parse (sysOpen path (toU32 flags) mode).args =
      .ok (.fdOpenFdFromPath path (toI32 mode) (toU32 flags)) := rfl

/-! ## Results -/

/-- Every operation but read and write stores what it returned. -/
theorem perform_stored {s : Server} {pid : Nat} {op : ServerOp} {h : SysHost} {r : SysResult}
    (hread : ∀ fd buf n, op ≠ .fdRead fd buf n) (hwrite : ∀ fd buf n, op ≠ .fdWrite fd buf n)
    (hr : s.perform pid op h = .ok r) : r.stored = r.op := by
  cases op with
  | syscallExit status => obtain ⟨r', -, hr⟩ := Eff.bind_eq_ok.mp hr; cases hr; rfl
  | processFork => obtain ⟨r', -, hr⟩ := Eff.bind_eq_ok.mp hr; cases hr; rfl
  | getPid => cases hr; rfl
  | realloc ptr size => cases hr; rfl
  | exec path argc argv => obtain ⟨r', -, hr⟩ := Eff.bind_eq_ok.mp hr; cases hr; rfl
  | getCwd buf size => obtain ⟨r', -, hr⟩ := Eff.bind_eq_ok.mp hr; cases hr; rfl
  | setCwd path => obtain ⟨r', -, hr⟩ := Eff.bind_eq_ok.mp hr; cases hr; rfl
  | fdRead fd buf n => exact absurd rfl (hread fd buf n)
  | fdWrite fd buf n => exact absurd rfl (hwrite fd buf n)
  | fdOpenFdFromPath path flags mode => obtain ⟨r', -, hr⟩ := Eff.bind_eq_ok.mp hr; cases hr; rfl
  | fdClose fd => obtain ⟨r', -, hr⟩ := Eff.bind_eq_ok.mp hr; cases hr; rfl

/-- A process id survives its way through `uint32_t`. -/
theorem received_pid {c : LibCall} {s : Server} {pid : Nat} {op : ServerOp} {h : SysHost} {r : SysResult}
    (hop : op = .processFork ∨ op = .getPid) (hr : s.perform pid op h = .ok r) :
    r.stored.map c.received = r.stored := by
  have hstored : ∃ x, r.stored = some (.int (toI32 x)) := by
    rcases hop with rfl | rfl
    · obtain ⟨r', -, hr⟩ := Eff.bind_eq_ok.mp hr
      cases hr; exact ⟨_, rfl⟩
    · cases hr; exact ⟨_, rfl⟩
  obtain ⟨x, hx⟩ := hstored
  have hsame : toI32 (toU32 (toI32 x)) = toI32 x := toI32_toU32 (fitsI32_toI32 x)
  rw [hx]
  cases c <;> simp [LibCall.received, hsame]

/-- Other values are not converted. -/
theorem received_id {c : LibCall} (hfork : c ≠ .fork) (hgetpid : c ≠ .getpid) (x : Option RetVal) :
    x.map c.received = x := by
  cases x with
  | none => rfl
  | some v => cases c <;> simp_all [LibCall.received]

/-- A read hands on the value it returned exactly when that fits. -/
theorem returned_read {s : Server} {pid : Nat} {fd : Int} (buf : Ptr) {count : Nat} {h : SysHost} :
    (∀ r, s.perform pid (.fdRead fd buf count) h = .ok r → r.stored = r.op) ↔
      ∀ t, objectOf s pid fd = some t → ReadFits s count h.read t := by
  rw [← syscallRead_fits_iff]
  refine forall_bind_ok.trans (forall_congr' fun r => imp_congr_right fun _ => ?_)
  simp only [Option.some.injEq, RetVal.int.injEq]
  exact toI32_eq_self_iff

theorem returned_write {s : Server} {pid : Nat} {fd : Int} (buf : Ptr) {count : Nat} {h : SysHost} :
    (∀ r, s.perform pid (.fdWrite fd buf count) h = .ok r → r.stored = r.op) ↔
      ∀ t, objectOf s pid fd = some t → WriteFits s count h.write t := by
  rw [← syscallWrite_fits_iff]
  refine forall_bind_ok.trans (forall_congr' fun r => imp_congr_right fun _ => ?_)
  simp only [Option.some.injEq, RetVal.int.injEq]
  exact toI32_eq_self_iff

/-! ## The whole way -/

/-- A call that is not an open is delivered exactly when the value of its operation arrives. -/
theorem delivered_of_parse {s : Server} {pid : Nat} {c : LibCall} {h : SysHost} (hfits : c.Fits)
    (hopen : ∀ path flags mode, c ≠ .open path flags mode) :
    Delivered s pid c h ↔ ∀ m r, c.message = some m → s.perform pid c.intended h = .ok r →
      r.stored.map c.received = r.op := by
  have hsys : ∀ m, c.message = some m →
      s.syscall pid m.id.id m.args h = s.perform pid c.intended h := by
    intro m hm
    rw [syscall_id, parse_message hfits hopen hm]; rfl
  constructor
  · intro hd m r hm hr
    exact hd.returned m r hm (by rw [hsys m hm]; exact hr)
  · intro hret
    refine ⟨fun m hm => ⟨ofId_id m.id, parse_message hfits hopen hm⟩,
      fun path flags mode m r hc => absurd hc (hopen path flags mode), fun m r hm hr => ?_⟩
    rw [hsys m hm] at hr
    exact hret m r hm hr

/-- The cases with nothing to lose: the operation stores what it returned. -/
theorem delivered_plain {s : Server} {pid : Nat} {c : LibCall} {h : SysHost} (hfits : c.Fits)
    (hopen : ∀ path flags mode, c ≠ .open path flags mode)
    (hread : ∀ fd buf n, c.intended ≠ .fdRead fd buf n)
    (hwrite : ∀ fd buf n, c.intended ≠ .fdWrite fd buf n) : Delivered s pid c h := by
  rw [delivered_of_parse hfits hopen]
  intro m r hm hr
  have hstored := perform_stored hread hwrite hr
  by_cases hpid : c = .fork ∨ c = .getpid
  · have hop : c.intended = .processFork ∨ c.intended = .getPid := by
      rcases hpid with rfl | rfl
      · exact Or.inl rfl
      · exact Or.inr rfl
    rw [received_pid hop hr, hstored]
  · rw [received_id (fun hc => hpid (Or.inl hc)) (fun hc => hpid (Or.inr hc)), hstored]

/-- An open is delivered exactly when its flags and its mode are the same 32 bits. -/
theorem delivered_open_iff {s : Server} {pid : Nat} {path : CStr} {flags : Int} {mode : Nat} {h : SysHost}
    (hfits : (LibCall.open path flags mode).Fits) :
    Delivered s pid (.open path flags mode) h ↔ flags = toI32 mode := by
  constructor
  · intro hd
    have hparse := (hd.reaches _ rfl).2.symm.trans (parse_open path flags mode)
    exact (ServerOp.fdOpenFdFromPath.inj (Except.ok.inj hparse)).2.1
  · intro hsame
    have hmode : toU32 flags = mode := by rw [hsame]; exact toU32_toI32 hfits.2
    have hparse : SysCommonSysCall.open.parse (sysOpen path (toU32 flags) mode).args =
        .ok (.fdOpenFdFromPath path flags mode) := by
      rw [parse_open, ← hsame, hmode]
    have hsys : s.syscall pid SysCommonSysCall.open.id (sysOpen path (toU32 flags) mode).args h =
        s.perform pid (.fdOpenFdFromPath path flags mode) h := by
      rw [syscall_id, hparse]; rfl
    -- the operation performed is the one meant; what it opens on the host, and what it returns, follow
    refine ⟨?_, ?_, ?_⟩
    · rintro m ⟨⟩
      exact ⟨ofId_id .open, hparse⟩
    · rintro path₁ flags₁ mode₁ m r ⟨⟩ ⟨⟩ hr path' flags' mode' ret hmem
      rw [show (sysOpen path (toU32 flags) mode).id = SysCommonSysCall.open from rfl, hsys] at hr
      obtain ⟨r', hr', hr⟩ := Eff.bind_eq_ok.mp hr
      cases hr
      unfold syscallOpen at hr'
      cases hp : s.proc pid with
      | none => rw [hp] at hr'; cases hr'
      | some curr =>
          rw [hp] at hr'
          exact (open_calls hr' hmem).2
    · rintro m r ⟨⟩ hr
      rw [show (sysOpen path (toU32 flags) mode).id = SysCommonSysCall.open from rfl, hsys] at hr
      rw [received_id (c := .open path flags mode) nofun nofun]
      refine perform_stored ?_ ?_ hr
      · intro _ _ _; nofun
      · intro _ _ _; nofun

/-- **When a library call is delivered.** For every call whose arguments fit their 32-bit fields, in every
    state and for every answer of the host: the server operation gets every argument in the caller's role
    and the program gets its value if and only if the call is not an open whose flags and mode differ as
    32-bit values, nor a read or write of an amount that an `int32_t` cannot hold. -/
theorem delivered_iff (s : Server) (pid : Nat) (c : LibCall) (h : SysHost) (hfits : c.Fits) :
    Delivered s pid c h ↔ Unharmed s pid h c := by
  cases c with
  | «open» path flags mode => exact delivered_open_iff hfits
  | read fd buf count =>
      rw [delivered_of_parse hfits nofun]
      simp only [LibCall.intended, Unharmed]
      rw [← returned_read buf]
      refine ⟨fun hr r hp => ?_, fun hr m r _ hp => ?_⟩
      · rw [← hr _ r rfl hp, received_id (c := .read fd buf count) nofun nofun]
      · rw [received_id (c := .read fd buf count) nofun nofun]; exact hr r hp
  | write fd buf count =>
      rw [delivered_of_parse hfits nofun]
      simp only [LibCall.intended, Unharmed]
      rw [← returned_write buf]
      refine ⟨fun hr r hp => ?_, fun hr m r _ hp => ?_⟩
      · rw [← hr _ r rfl hp, received_id (c := .write fd buf count) nofun nofun]
      · rw [received_id (c := .write fd buf count) nofun nofun]; exact hr r hp
  | exit status => exact iff_of_true (delivered_plain hfits nofun nofun nofun) trivial
  | fork => exact iff_of_true (delivered_plain hfits nofun nofun nofun) trivial
  | getpid => exact iff_of_true (delivered_plain hfits nofun nofun nofun) trivial
  | malloc size => exact iff_of_true (delivered_plain hfits nofun nofun nofun) trivial
  | realloc ptr size => exact iff_of_true (delivered_plain hfits nofun nofun nofun) trivial
  | execv path argv copied => exact iff_of_true (delivered_plain hfits nofun nofun nofun) trivial
  | chdir path => exact iff_of_true (delivered_plain hfits nofun nofun nofun) trivial
  | getcwd buf size => exact iff_of_true (delivered_plain hfits nofun nofun nofun) trivial
  | close fd => exact iff_of_true (delivered_plain hfits nofun nofun nofun) trivial

/-- A host that opens files on descriptor 7 and has nothing to read. -/
def quietHost : SysHost where
  fork := ⟨⟨true, fun _ => true, true, true, true, true, true, true, fun _ => true⟩, 101⟩
  exec := ⟨⟨true, true, true, true, true, true⟩, true, fun _ => true, true, fun _ => 0⟩
  self := 100
  exitClose _ := 0
  realloc := .mem 0
  setCwd := true
  read := some []
  write := 0
  open_ := ⟨true, 7, true, 0⟩
  close := 0

/-- Opening for reading with no mode bits: flags and mode are both 0, so nothing is lost. -/
theorem delivered_open_zero : Delivered FdTable.booted 1 (.open (bytes "/a") 0 0) quietHost :=
  (delivered_iff FdTable.booted 1 (.open (bytes "/a") 0 0) quietHost ⟨by decide, by decide⟩).mpr rfl

/-- **Flags and mode arrive exchanged.** `open("/a", O_RDWR, 0644)`: the host's `open(2)` is called with
    flags 0644 and mode `O_RDWR`. -/
theorem open_exchanges_flags_and_mode :
    ¬ ∀ (s : Server) (pid : Nat) (c : LibCall) (h : SysHost), c.Fits → Delivered s pid c h := by
  intro hall
  have hd := hall FdTable.booted 1 (.open (bytes "/a") 2 420) quietHost ⟨by decide, by decide⟩
  have hopened := hd.opened (bytes "/a") 2 420 _ _ rfl rfl rfl (bytes "/a") 420 2 7
    (List.mem_singleton_self _)
  exact absurd hopened.1 (by decide)

end Messages
end DistributedPlatform
