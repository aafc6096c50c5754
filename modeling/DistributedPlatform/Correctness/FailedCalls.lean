import Mathlib.Data.Finset.Basic
import DistributedPlatform.Correctness.Messages

/-!
# `Correctness.FailedCalls` — what an open or a close that returns `-1` leaves behind

Here the tables of the server are arbitrary: nothing is assumed of the entries, the slots or the counts. A
close that is refused has changed nothing. An open takes a host descriptor or a reference to a device first
and an entry for it second; the path of files gives the descriptor back when there is no entry, the path of
devices keeps the reference.

* `fdCreate_taken` — when an entry can be had, whatever the table;
* `unchanged_iff` — a failed call leaves everything as it was unless it is an open that acquired something,
  found no entry and did not give back what it had acquired.
-/

namespace DistributedPlatform

/-! ## Host descriptors held -/

/-- The descriptors held once the host has answered a call. A call that fails changes nothing. -/
def HostCall.held (fds : Finset Int) : HostCall → Finset Int
  | .socket ret => if ret < 0 then fds else insert ret fds
  | .open _ _ _ ret => if ret < 0 then fds else insert ret fds
  | .close fd ret => if ret = -1 then fds else fds.erase fd
  | _ => fds

/-- The descriptors held after a list of calls. -/
def heldAfter (fds : Finset Int) (calls : List HostCall) : Finset Int := calls.foldl HostCall.held fds

/-- What `open(2)` answers: `-1`, or a descriptor that is not in use. -/
def OpenHost.Fresh (h : OpenHost) (fds : Finset Int) : Prop := h.open_ = -1 ∨ 0 ≤ h.open_ ∧ h.open_ ∉ fds

namespace Server

variable {s : Server} {proc : Process} {fds : Finset Int}

/-! ## Entries, whatever the table -/

/-- There is no entry for an open: the search of `fdCreate` ends where a new one is needed, and there is no
    memory for it. -/
def NoEntry (s : Server) (malloc : Bool) : Prop :=
  malloc = false ∧ ∀ i, s.fdEntries.findIdx? fdUnused = some i → (s.fdEntries[i]?).join = none

theorem fdCreate_taken (s : Server) (malloc : Bool) :
    (NoEntry s malloc ∧ s.fdCreate malloc = (-1, s)) ∨
    (¬ NoEntry s malloc ∧ ∃ (i : Nat) (t : Server) (e : FdEntry), s.fdCreate malloc = ((i : Int), t) ∧
      t.fdGet i = some e ∧ ∀ old, s.fdGet i = some old → old.type = .fdTypeNone) := by
  rcases fdCreate_inv s malloc with ⟨hm, hc, hnone⟩ | ⟨i, e, hi, he, htype, hc⟩ | ⟨hm, i, entries, hnone, hc, hget⟩
  · exact Or.inl ⟨⟨hm, hnone⟩, hc⟩
  · -- an untyped entry needs no memory
    refine Or.inr ⟨fun hno => ?_, i, s, e, hc, he, fun old hold => ?_⟩
    · have hjoin := hno.2 i hi
      rw [← fdGet_natCast, he] at hjoin
      cases hjoin
    · rw [he] at hold
      cases hold
      exact htype
  · refine Or.inr ⟨fun hno => ?_, i, _, _, hc, by rw [hget, Function.update_self], fun old hold => ?_⟩
    · rw [hm] at hno
      cases hno.1
    · rw [hnone] at hold
      cases hold

/-- The number of the slot does not depend on what is put there. -/
theorem fdAdd_number (p : Process) (v w : Int) : (p.fdAdd v).1 = (p.fdAdd w).1 := by
  unfold Process.fdAdd
  split <;> rfl

/-- An entry that had no type has one. -/
theorem set_entry_ne {t : Server} {i : Nat} {e e' : FdEntry} (he : t.fdGet i = some e)
    (hold : ∀ old, s.fdGet i = some old → old.type = .fdTypeNone) (htype : e'.type ≠ .fdTypeNone) :
    t.fdEntries.set i (some e') ≠ s.fdEntries := by
  intro hsame
  have hlt : i < t.fdEntries.length := by
    rw [fdGet_natCast] at he
    exact (List.getElem?_eq_some_iff.mp (Option.join_eq_some_iff.mp he)).1
  refine htype (hold e' ?_)
  rw [fdGet_natCast, ← hsame, List.getElem?_set_self hlt]
  rfl

theorem fileType_ne (fd : Int) : FdType.fdTypeFd fd ≠ .fdTypeNone := by
  simp

theorem deviceType_ne (device : Nat) : FdType.fdTypeDevice device ≠ .fdTypeNone := by
  simp

/-- An operation got the first free slot of the process. -/
structure GetsSlot (s : Server) (proc : Process) (r : FdResult) : Prop where
  number : r.ret = (proc.fdAdd 0).1
  taken : r.srv.fdEntries ≠ s.fdEntries

theorem GetsSlot.ret_ne {r : FdResult} (h : GetsSlot s proc r) : r.ret ≠ -1 := by
  rw [h.number]
  exact fdAdd_ne proc 0

/-- `fdBind`, whatever the table: nothing happens without an entry, and with one it succeeds. -/
theorem fdBind_taken (s : Server) (proc : Process) {type : FdType} (htype : type ≠ .fdTypeNone) (malloc : Bool) :
    (NoEntry s malloc ∧ s.fdBind proc type malloc = .ok { ret := -1, srv := s, proc := proc }) ∨
    (¬ NoEntry s malloc ∧ ∃ r, s.fdBind proc type malloc = .ok r ∧ GetsSlot s proc r) := by
  rcases fdCreate_taken s malloc with ⟨hno, hc⟩ | ⟨hyes, i, t, e, hc, he, hold⟩
  · exact Or.inl ⟨hno, by simp [fdBind, hc]⟩
  · have hi : (i : Int) ≠ -1 := by omega
    exact Or.inr ⟨hyes, _, by simp only [fdBind, hc, if_neg hi, he]; rfl, fdAdd_number _ _ _,
      set_entry_ne he hold htype⟩

/-! ## What stays -/

/-- Entries, the descriptors of every process, device counts and host descriptors are as they were. -/
structure Unchanged (s : Server) (fds : Finset Int) (t : Server) (calls : List HostCall) : Prop where
  entries : t.fdEntries = s.fdEntries
  slots : ∀ pid, (t.proc pid).map (·.fds) = (s.proc pid).map (·.fds)
  counts : t.devices.entries.map (·.refCount) = s.devices.entries.map (·.refCount)
  held : heldAfter fds calls = fds

/-- The process is put back as it was into a server with the same processes. -/
theorem unchanged_of {pid : Nat} (hp : s.proc pid = some proc) {t : Server} {calls : List HostCall}
    (hprocs : t.procs = s.procs) (hentries : t.fdEntries = s.fdEntries) (hdevices : t.devices = s.devices)
    (hheld : heldAfter fds calls = fds) : Unchanged s fds (t.setProc pid (some proc)) calls := by
  have hproc : t.proc = s.proc := by
    funext k
    simp only [Server.proc, hprocs]
  rw [setProc_self (by rw [hproc]; exact hp)]
  exact ⟨hentries, fun q => by rw [hproc], by rw [hdevices], hheld⟩

/-- Opening a registered device changes its count. -/
theorem open_counts {d : Devices Nat} {name : CStr} (h : d.exists_ name = true) :
    (d.open_ name).2.entries.map (·.refCount) ≠ d.entries.map (·.refCount) := by
  obtain ⟨e, he⟩ := Option.isSome_iff_exists.mp h
  obtain ⟨i, hi, hget⟩ := Option.bind_eq_some_iff.mp he
  intro hsame
  have hcount := congrArg (·[i]?) hsame
  have hne : toI32 (e.refCount + 1) ≠ e.refCount := by
    -- the count wraps, but never onto itself
    unfold toI32
    omega
  simp [Devices.open_, he, Devices.modifyCount, hi, hget] at hcount
  exact hne hcount

/-- A host descriptor that was opened and closed again. -/
theorem heldAfter_reopened {fd closeRet : Int} (hfd : 0 ≤ fd) (hfresh : fd ∉ fds) {path : CStr} {flags : Int}
    {mode : Nat} : heldAfter fds [.open path flags mode fd, .close fd closeRet] = fds ↔ closeRet ≠ -1 := by
  have hneg : ¬ fd < 0 := by omega
  simp only [heldAfter, List.foldl_cons, List.foldl_nil, HostCall.held, if_neg hneg]
  by_cases hc : closeRet = -1
  · rw [if_pos hc]
    exact iff_of_false (fun h => hfresh (by rw [← h]; exact Finset.mem_insert_self _ _)) (by simpa using hc)
  · rw [if_neg hc]
    exact iff_of_true (Finset.erase_insert hfresh) hc

/-! ## Open -/

/-- An open that acquires a device or a file, finds no entry for it and does not give it back: a device never
    is, a file is when its `close(2)` is not refused. -/
def LeavesBehind (s : Server) (op : ServerOp) (h : OpenHost) : Prop :=
  match op with
  | .fdOpenFdFromPath path _ _ =>
      NoEntry s h.entry ∧
        if (bytes "/dev/").isPrefixOf path then s.devices.exists_ (path.drop 5) = true
        else h.localPath = true ∧ 0 ≤ h.open_ ∧ h.close = -1
  | _ => False

/-- An open that gets a slot whose number is `-1` as an `int`. -/
def NumberLost (s : Server) (pid : Nat) (op : ServerOp) (h : OpenHost) : Prop :=
  match op with
  | .fdOpenFdFromPath path _ _ =>
      (¬ NoEntry s h.entry ∧
        if (bytes "/dev/").isPrefixOf path then s.devices.exists_ (path.drop 5) = true
        else h.localPath = true ∧ h.open_ ≠ -1) ∧
      ∃ curr, s.proc pid = some curr ∧ toI32 (curr.fdAdd 0).1 = -1
  | _ => False

variable {pid : Nat} {path : CStr} {flags : Int} {mode : Nat} {h : OpenHost} {r : FdResult}

/-- What an open comes to: `-1`, or a slot. -/
theorem open_taken (hr : s.fdOpenFdFromPath proc path flags mode h = .ok r) :
    (r.ret = -1 ∧ ¬ (¬ NoEntry s h.entry ∧
      if (bytes "/dev/").isPrefixOf path then s.devices.exists_ (path.drop 5) = true
      else h.localPath = true ∧ h.open_ ≠ -1)) ∨
    ((¬ NoEntry s h.entry ∧
      if (bytes "/dev/").isPrefixOf path then s.devices.exists_ (path.drop 5) = true
      else h.localPath = true ∧ h.open_ ≠ -1) ∧ GetsSlot s proc r) := by
  unfold fdOpenFdFromPath at hr
  by_cases hdev : (bytes "/dev/").isPrefixOf path = true
  · rw [if_pos hdev] at hr ⊢
    unfold fdOpenFdFromDevice Devices.open_ at hr
    cases hget : s.devices.get (path.drop 5) with
    | none =>
        rw [hget] at hr
        cases hr
        exact Or.inl ⟨rfl, by simp [Devices.exists_, hget]⟩
    | some e =>
        have hreg : s.devices.exists_ (path.drop 5) = true := by simp [Devices.exists_, hget]
        rw [hget] at hr
        dsimp only at hr
        rcases fdBind_taken { s with devices := s.devices.modifyCount (path.drop 5) fun n => toI32 (n + 1) } proc
          (deviceType_ne e.device) h.entry with ⟨hno, hb⟩ | ⟨hyes, b, hb, hslot⟩
        · rw [hb] at hr
          cases hr
          exact Or.inl ⟨rfl, fun hgets => hgets.1 hno⟩
        · rw [hb] at hr
          cases hr
          exact Or.inr ⟨⟨hyes, hreg⟩, hslot.number, hslot.taken⟩
  · rw [if_neg hdev] at hr ⊢
    unfold fdOpenFdFromFile fileLocalPath at hr
    cases hlocal : h.localPath with
    | false =>
        rw [hlocal] at hr
        cases hr
        exact Or.inl ⟨rfl, by simp⟩
    | true =>
        rw [hlocal, if_pos rfl] at hr
        dsimp only at hr
        by_cases hfail : h.open_ = -1
        · rw [if_pos hfail] at hr
          cases hr
          exact Or.inl ⟨rfl, by simp [hfail]⟩
        · rw [if_neg hfail] at hr
          rcases fdBind_taken s proc (fileType_ne h.open_) h.entry with ⟨hno, hb⟩ | ⟨hyes, b, hb, hslot⟩
          · rw [hb] at hr
            simp only [if_true] at hr
            cases hr
            exact Or.inl ⟨rfl, fun hgets => hgets.1 hno⟩
          · rw [hb] at hr
            simp only [if_neg hslot.ret_ne] at hr
            cases hr
            exact Or.inr ⟨⟨hyes, rfl, hfail⟩, hslot.number, hslot.taken⟩

/-- A device: the reference is kept when there is no entry. -/
theorem openDevice_unchanged (hp : s.proc pid = some proc) {name : CStr}
    (hr : s.fdOpenFdFromDevice proc name flags mode h = .ok r) :
    (r.ret = -1 → Unchanged s fds (r.commit pid) r.calls) ↔
      ¬ (NoEntry s h.entry ∧ s.devices.exists_ name = true) := by
  unfold fdOpenFdFromDevice at hr
  cases hreg : s.devices.exists_ name with
  | false =>
      have hget : s.devices.get name = none := by simpa [Devices.exists_] using hreg
      rw [show s.devices.open_ name = (none, s.devices) by simp [Devices.open_, hget]] at hr
      cases hr
      exact iff_of_true (fun _ => unchanged_of hp rfl rfl rfl rfl) (by simp)
  | true =>
      have hcounts := open_counts hreg
      obtain ⟨e, he⟩ := Option.isSome_iff_exists.mp hreg
      have hopen : s.devices.open_ name = (some e.device, (s.devices.open_ name).2) := by
        simp [Devices.open_, he]
      rw [hopen] at hr
      dsimp only at hr
      rcases fdBind_taken { s with devices := (s.devices.open_ name).2 } proc
        (deviceType_ne e.device) h.entry
        with ⟨hno, hb⟩ | ⟨hyes, b, hb, hslot⟩
      · rw [hb] at hr
        cases hr
        exact iff_of_false (fun hall => hcounts (hall rfl).counts) (not_not.mpr ⟨hno, rfl⟩)
      · rw [hb] at hr
        cases hr
        exact iff_of_true (fun hret => absurd hret hslot.ret_ne) (fun hno => hyes hno.1)

/-- A file: the descriptor is given back, unless the host refuses. -/
theorem openFile_unchanged (hp : s.proc pid = some proc) (hfresh : h.Fresh fds)
    (hr : s.fdOpenFdFromFile proc path flags mode h = .ok r) :
    (r.ret = -1 → Unchanged s fds (r.commit pid) r.calls) ↔
      ¬ (NoEntry s h.entry ∧ h.localPath = true ∧ 0 ≤ h.open_ ∧ h.close = -1) := by
  unfold fdOpenFdFromFile fileLocalPath at hr
  cases hlocal : h.localPath with
  | false =>
      rw [hlocal] at hr
      cases hr
      exact iff_of_true (fun _ => unchanged_of hp rfl rfl rfl rfl) (by simp)
  | true =>
      rw [hlocal] at hr
      rw [if_pos rfl] at hr
      dsimp only at hr
      by_cases hfail : h.open_ = -1
      · rw [if_pos hfail] at hr
        cases hr
        refine iff_of_true (fun _ => unchanged_of hp rfl rfl rfl ?_) (by omega)
        simp [heldAfter, HostCall.held, hfail]
      · obtain ⟨hpos, hnew⟩ := hfresh.resolve_left hfail
        rw [if_neg hfail] at hr
        rcases fdBind_taken s proc (fileType_ne h.open_) h.entry with ⟨hno, hb⟩ | ⟨hyes, b, hb, hslot⟩
        · rw [hb] at hr
          simp only [if_true, ge_iff_le, if_pos hpos] at hr
          cases hr
          have hback : ∀ {path' flags' mode'}, heldAfter fds
              [.open path' flags' mode' h.open_, .close h.open_ h.close] = fds ↔ h.close ≠ -1 :=
            heldAfter_reopened hpos hnew
          constructor
          · intro hall hbad
            exact hback.mp (hall rfl).held hbad.2.2.2
          · intro hgood _
            exact unchanged_of hp rfl rfl rfl (hback.mpr fun hc => hgood ⟨hno, rfl, hpos, hc⟩)
        · have hne := hslot.ret_ne
          rw [hb] at hr
          simp only [if_neg hne] at hr
          cases hr
          exact iff_of_true (fun hbad => absurd hbad hne) (fun hno => hyes hno.1)

theorem open_unchanged (hp : s.proc pid = some proc) (hfresh : h.Fresh fds)
    (hr : s.fdOpenFdFromPath proc path flags mode h = .ok r) :
    (r.ret = -1 → Unchanged s fds (r.commit pid) r.calls) ↔
      ¬ LeavesBehind s (.fdOpenFdFromPath path flags mode) h := by
  unfold fdOpenFdFromPath at hr
  unfold LeavesBehind
  dsimp only
  by_cases hdev : (bytes "/dev/").isPrefixOf path = true
  · rw [if_pos hdev] at hr ⊢
    exact openDevice_unchanged hp hr
  · rw [if_neg hdev] at hr ⊢
    exact openFile_unchanged hp hfresh hr

/-- The same of what the program gets to see: the number as an `int`. -/
theorem open_stored_unchanged (hp : s.proc pid = some proc) (hfresh : h.Fresh fds)
    (hr : s.fdOpenFdFromPath proc path flags mode h = .ok r) :
    (toI32 r.ret = -1 → Unchanged s fds (r.commit pid) r.calls) ↔
      ¬ LeavesBehind s (.fdOpenFdFromPath path flags mode) h ∧
        ¬ NumberLost s pid (.fdOpenFdFromPath path flags mode) h := by
  have hunch := open_unchanged hp hfresh hr
  rcases open_taken hr with ⟨hret, hno⟩ | ⟨hgets, hslot⟩
  · -- the open failed
    have hlost : ¬ NumberLost s pid (.fdOpenFdFromPath path flags mode) h := fun hlost => hno hlost.1
    rw [hret] at hunch ⊢
    rw [and_iff_left hlost, ← hunch]
    exact ⟨fun hall _ => hall rfl, fun hall _ => hall rfl⟩
  · -- it succeeded, and there is an entry for it
    have hleft : ¬ LeavesBehind s (.fdOpenFdFromPath path flags mode) h := fun hleft => hgets.1 hleft.1
    have hchanged : ¬ Unchanged s fds (r.commit pid) r.calls := by
      intro hsame
      exact hslot.taken hsame.entries
    rw [and_iff_right hleft, hslot.number]
    constructor
    · rintro hall ⟨-, curr, hcurr, hwrap⟩
      rw [hp] at hcurr
      cases hcurr
      exact hchanged (hall hwrap)
    · exact fun hlost hwrap => absurd ⟨hgets, proc, hp, hwrap⟩ hlost

/-! ## Close -/

/-- A close that is refused has changed nothing. -/
theorem close_unchanged (hp : s.proc pid = some proc) {fd closeRet : Int}
    (hr : s.fdClose proc fd closeRet = .ok r) (hret : r.ret ≠ 1) :
    Unchanged s fds (r.commit pid) r.calls := by
  rcases fdClose_inv hr with ⟨-, hproc, ⟨socks, hsrv⟩, hcalls⟩ | ⟨hone, -⟩
  · have hheld : heldAfter fds r.calls = fds := by
      rcases hcalls with hcalls | ⟨hrefused, hostFd, hcalls⟩
      · rw [hcalls]
        rfl
      · rw [hcalls]
        exact if_pos hrefused
    rw [FdResult.commit, hproc, hsrv]
    exact unchanged_of hp rfl rfl rfl hheld
  · exact absurd hone hret

/-! ## The two system calls -/

/-- The calls this is about. -/
def IsOpenOrClose : ServerOp → Prop
  | .fdOpenFdFromPath _ _ _ | .fdClose _ => True
  | _ => False

/-- **A failed open or close leaves nothing behind.** In any server, whatever its tables hold, and with any
    answers of the host: a call that returns `-1` leaves the entries, the descriptors of every process, the
    count of every device and the host descriptors held as they were, if and only if it is not an open that
    acquires something, finds no entry for it and does not give it back, nor one that succeeds with a number
    that is `-1` as an `int`. -/
theorem unchanged_iff {op : ServerOp} {h : SysHost} {r : SysResult} (hop : IsOpenOrClose op)
    (hfresh : h.open_.Fresh fds) (hr : s.perform pid op h = .ok r) :
    (r.stored = some (.int (-1)) → Unchanged s fds r.srv r.calls) ↔
      ¬ LeavesBehind s op h.open_ ∧ ¬ NumberLost s pid op h.open_ := by
  cases op with
  | fdOpenFdFromPath path flags mode =>
      obtain ⟨b, hb, hr⟩ := Eff.bind_eq_ok.mp hr
      cases hr
      unfold syscallOpen at hb
      cases hp : s.proc pid with
      | none => rw [hp] at hb; cases hb
      | some curr =>
          rw [hp] at hb
          have hstored : some (RetVal.int (toI32 b.ret)) = some (.int (-1)) ↔ toI32 b.ret = -1 := by simp
          exact (imp_congr_left hstored).trans (open_stored_unchanged hp hfresh hb)
  | fdClose procFd =>
      obtain ⟨b, hb, hr⟩ := Eff.bind_eq_ok.mp hr
      cases hr
      unfold syscallClose at hb
      cases hp : s.proc pid with
      | none => rw [hp] at hb; cases hb
      | some curr =>
          rw [hp] at hb
          obtain ⟨fd, -, hb⟩ := Eff.bind_eq_ok.mp hb
          refine iff_of_true (fun hret => close_unchanged hp hb ?_) ⟨id, id⟩
          rintro hone
          rw [if_pos hone] at hret
          cases hret
  | _ => exact absurd hop id

/-- No memory for an entry; `open(2)` answers `fd`, and `close(2)` works. -/
def noMemory (fd : Int) : SysHost := { Messages.quietHost with open_ := ⟨true, fd, false, 0⟩ }

/-- A program opens a file, and the server gives descriptor 7 back when there is no entry for it. -/
theorem unchanged_iff_file :
    ∃ r, FdTable.booted.perform 1 (.fdOpenFdFromPath (bytes "/a") 0 0) (noMemory 7) = .ok r ∧
      r.stored = some (.int (-1)) ∧
      ((r.stored = some (.int (-1)) → Unchanged FdTable.booted {3} r.srv r.calls) ↔
        ¬ LeavesBehind FdTable.booted (.fdOpenFdFromPath (bytes "/a") 0 0) (noMemory 7).open_ ∧
          ¬ NumberLost FdTable.booted 1 (.fdOpenFdFromPath (bytes "/a") 0 0) (noMemory 7).open_) := by
  have hfresh : (noMemory 7).open_.Fresh {3} := Or.inr ⟨by decide, by decide⟩
  have hr : ∃ r, FdTable.booted.perform 1 (.fdOpenFdFromPath (bytes "/a") 0 0) (noMemory 7) = .ok r ∧
      r.stored = some (.int (-1)) := ⟨_, rfl, rfl⟩
  obtain ⟨r, hr, hstored⟩ := hr
  exact ⟨r, hr, hstored, unchanged_iff trivial hfresh hr⟩

/-- The open of `/dev/null` fails and the device stays counted. -/
theorem device_kept_open :
    ¬ ∀ (s : Server) (fds : Finset Int) (pid : Nat) (op : ServerOp) (h : SysHost) (r : SysResult),
      IsOpenOrClose op → h.open_.Fresh fds → s.perform pid op h = .ok r → r.stored = some (.int (-1)) →
      Unchanged s fds r.srv r.calls := by
  intro hall
  have hsame := hall FdTable.booted ∅ 1 (.fdOpenFdFromPath (bytes "/dev/null") 0 0) (noMemory (-1)) _ trivial
    (Or.inl rfl) rfl rfl
  exact absurd hsame.counts (by decide)

end Server
end DistributedPlatform
