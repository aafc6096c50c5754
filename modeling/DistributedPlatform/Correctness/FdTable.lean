import DistributedPlatform.Correctness.FdOps
import DistributedPlatform.Lib.Run

/-!
# `Correctness.FdTable` — the descriptor tables of an image over whole runs

The operations of a server image that touch processes or descriptors, and the invariant of its three
tables (server entries, kernel entries, the processes' own numbers).

* `FdInv` along a run — kept by open, close, exec, exit, fork and the starting of programs.
* `tables_match` — whatever the host and the allocator answer, every slot in use names an entry of its
  own, and nobody else's. While no host close has been refused the converse holds too: no entry is left
  without its slot.
-/

namespace DistributedPlatform
namespace FdTable

open Server Indirect Machine

/-! ## Runs of an image -/

/-- The operations that change processes or their descriptors, with the host's answers to them. -/
inductive ImageOp
  | open (pid : Nat) (path : CStr) (flags : Int) (mode : Nat) (h : OpenHost)
  | close (pid : Nat) (procFd : Int) (closeRet : Int)
  | exec (pid : Nat) (path : CStr) (argv : List CStr) (h : ExecHost) (self : Int)
  | exit (pid : Nat) (closeRets : Nat → Int)
  | fork (pid : Nat) (h : ForkHost)
  | start (path : CStr) (args : List CStr) (h : StartHost)

/-- The operation on an image: its result, and the image of the host process it started. -/
def ImageOp.run (s : Server) : ImageOp → Eff Spawned
  | .open pid path flags mode h => do
      let r ← s.syscallOpen pid path flags mode h
      .ok { ret := r.ret, srv := r.commit pid, calls := r.calls }
  | .close pid procFd closeRet => do
      let r ← s.syscallClose pid procFd closeRet
      .ok { ret := r.ret, srv := r.commit pid, calls := r.calls }
  | .exec pid path argv h self => s.syscallExec pid path argv h self
  | .exit pid closeRets => s.syscallExit pid closeRets
  | .fork pid h => s.processFork pid h
  | .start path args h => s.startProcess path args h

/-- A step goes on in the image of the caller or in the image of the new host process. The label keeps the
    host calls made. -/
def ImageStep (s : Server) (l : ImageOp × List HostCall) (t : Server) : Prop :=
  ∃ r, l.1.run s = .ok r ∧ l.2 = r.calls ∧ (r.srv = t ∨ r.child = some t)

/-- No host close was refused in a run. -/
def ClosesOk (tr : List (Server × (ImageOp × List HostCall) × Server)) : Prop :=
  ∀ x ∈ tr, ∀ c ∈ x.2.1.2, c.closeFailed = false

/-- An image in which nothing was ever opened, with the devices the server registered. -/
structure Unopened (s : Server) : Prop where
  entries : ∀ v, s.fdGet v = none
  fds : ∀ pid, s.fdsOf pid = []
  devices : ∀ k ∈ s.devices.entries.map (·.device), k < s.devs.length
  sockets : ∀ {k j : Nat}, s.devs[k]? = some (Device.socket (some j)) → j < s.socks.length

theorem Unopened.slot_none {s : Server} (h : Unopened s) (pid n : Nat) : s.table.slot pid n = none := by
  show ((s.fdsOf pid)[n]?).filter _ = none
  rw [h.fds pid]; rfl

theorem Unopened.fdInv {s : Server} (h : Unopened s) : FdInv s where
  linked :=
    { live := fun hs => by rw [h.slot_none] at hs; cases hs
      inj := fun hs => by rw [h.slot_none] at hs; cases hs }
  entry hv := by rw [h.entries] at hv; cases hv
  devices := h.devices
  sockets := h.sockets

theorem Unopened.covered {s : Server} (h : Unopened s) : s.table.Covered := by
  intro v e hv
  have hv' : s.fdGet v = some e := hv
  rw [h.entries] at hv'; cases hv'

/-! ## Each operation -/

/-- What an operation that made `calls` keeps between two images. -/
structure Kept (s t : Server) (calls : List HostCall) : Prop where
  inv : FdInv t
  covered : (∀ c ∈ calls, c.closeFailed = false) → s.table.Covered → t.table.Covered

theorem Kept.refl {s : Server} (h : FdInv s) (calls : List HostCall) : Kept s s calls :=
  ⟨h, fun _ hc => hc⟩

/-- Two images that differ in processes without descriptors only. -/
structure SameTables (s t : Server) : Prop where
  entries : t.fdEntries = s.fdEntries
  fds : t.fdsOf = s.fdsOf
  devices : t.devices = s.devices
  devs : t.devs = s.devs
  socks : t.socks = s.socks

theorem SameTables.refl (s : Server) : SameTables s s := ⟨rfl, rfl, rfl, rfl, rfl⟩

theorem SameTables.kept {s t : Server} (hst : SameTables s t) (h : FdInv s) (calls : List HostCall) :
    Kept s t calls :=
  ⟨h.congr hst.entries hst.fds hst.devs (by rw [hst.socks]) (by rw [hst.devices]),
    fun _ hc => by rwa [table_congr hst.entries hst.fds]⟩

theorem kept_open {s : Server} (h : FdInv s) {pid : Nat} {path : CStr} {flags : Int} {mode : Nat}
    {host : OpenHost} {r : FdResult} (hr : s.syscallOpen pid path flags mode host = .ok r) :
    Kept s (r.commit pid) r.calls := by
  unfold syscallOpen at hr
  cases hp : s.proc pid with
  | none => rw [hp] at hr; cases hr
  | some curr =>
      rw [hp] at hr
      change s.fdOpenFdFromPath curr path flags mode host = .ok r at hr
      obtain ⟨r', hr', hinv, hcase⟩ := h.open hp path flags mode host
      rw [hr'] at hr; cases hr
      refine ⟨hinv, fun _ hcov => ?_⟩
      rcases hcase with ⟨-, htable⟩ | ⟨n, c, e, -, hfree, -, -, -, htable⟩
      · rwa [htable]
      · rw [htable]; exact hcov.bind hfree

/-- A close call: refused, by the server or by the host, and nothing changed; or an `unbind`. -/
theorem syscallClose_cases {s : Server} (h : FdInv s) {pid : Nat} {procFd closeRet : Int} {r : FdResult}
    (hr : s.syscallClose pid procFd closeRet = .ok r) :
    (r.ret = 0 ∧ r.commit pid = s ∧
      ∀ v, s.table.slot pid procFd.toNat = some v → s.Refuses v closeRet) ∨
    (r.ret = 1 ∧ FdInv (r.commit pid) ∧ (r.commit pid).devices = s.devices ∧
      ∃ v, s.table.slot pid procFd.toNat = some v ∧
        (r.commit pid).table = s.table.unbind pid procFd.toNat v) := by
  unfold syscallClose at hr
  cases hp : s.proc pid with
  | none => rw [hp] at hr; cases hr
  | some curr =>
      rw [hp] at hr
      obtain ⟨v, hv, hr⟩ := Eff.bind_eq_ok.mp hr
      have hself : s.setProc pid (some curr) = s := setProc_self hp
      have hget : curr.fds[procFd.toNat]? = some v := by
        unfold serverFd at hv
        split at hv
        · cases hv
        · split at hv
          · cases hv
          · next w hw => cases hv; exact hw
      by_cases hempty : v = -1
      · -- the slot is empty: `fdGet(-1)` finds nothing
        rw [fdClose_of_none (fdGet_of_neg s (by omega))] at hr
        cases hr
        refine Or.inl ⟨rfl, hself, fun w hw => ?_⟩
        obtain ⟨hgetw, hne⟩ := slot_eq_some_iff.mp hw
        rw [fdsOf_eq hp, hget, hempty] at hgetw
        exact absurd (Option.some.inj hgetw).symm hne
      · have hslot : s.table.slot pid procFd.toNat = some v :=
          slot_eq_some_iff.mpr ⟨by rw [fdsOf_eq hp]; exact hget, hempty⟩
        have hinv : FdInv (s.setProc pid (some curr)) := by rw [hself]; exact h
        obtain ⟨r', hr', hcase⟩ := hinv.close (lt_of_proc hp) hget hempty closeRet
        rw [hr'] at hr; cases hr
        rcases hcase with ⟨hret, hsrv, hproc, hrefused, -⟩ | ⟨hret, -, hsrv, -, hinv', htable⟩
        · refine Or.inl ⟨hret, ?_, fun w hw => ?_⟩
          · rw [FdResult.commit, hsrv, hproc, hself]
          · rw [hslot] at hw
            cases hw
            exact hrefused
        · -- the registry is not told of the close
          rw [hself] at htable
          refine Or.inr ⟨hret, hinv', ?_, v, hslot, htable⟩
          show r.srv.devices = s.devices
          rw [hsrv]

theorem kept_close {s : Server} (h : FdInv s) {pid : Nat} {procFd closeRet : Int} {r : FdResult}
    (hr : s.syscallClose pid procFd closeRet = .ok r) : Kept s (r.commit pid) r.calls := by
  rcases syscallClose_cases h hr with ⟨-, hsame, -⟩ | ⟨-, hinv, -, v, hslot, htable⟩
  · rw [hsame]; exact Kept.refl h _
  · exact ⟨hinv, fun _ hcov => by rw [htable]; exact Table.Covered.unbind hcov hslot⟩

/-- Putting an object without descriptors, or none, in the place of a process: its slots are dropped. -/
theorem table_setProc_nil {s : Server} {pid : Nat} {p : Process} (hp : s.proc pid = some p)
    {x : Option Process} (hx : ∀ q, x = some q → q.fds = []) :
    (s.setProc pid x).table = s.table.drop pid := by
  have hnil : (x.map (·.fds)).getD [] = [] := by
    cases x with
    | none => rfl
    | some q => exact hx q rfl
  apply Table.ext
  · funext q k
    show ((Server.fdsOf _ q)[k]?).filter _ = if q = pid then none else s.table.slot q k
    rw [fdsOf_setProc hp, hnil]
    by_cases hq : q = pid
    · rw [if_pos hq, if_pos hq]; rfl
    · rw [if_neg hq, if_neg hq]; rfl
  · rfl

theorem inv_setProc_nil {s : Server} (h : FdInv s) {pid : Nat} {p : Process} (hp : s.proc pid = some p)
    {x : Option Process} (hx : ∀ q, x = some q → q.fds = []) : FdInv (s.setProc pid x) where
  linked := by rw [table_setProc_nil hp hx]; exact h.linked.drop
  entry := h.entry
  devices := h.devices
  sockets := h.sockets

/-- A freed process whose object is replaced by one without descriptors, or by none. -/
theorem kept_replace {s : Server} (h : FdInv s) {pid : Nat} {curr : Process} (hp : s.proc pid = some curr)
    {close : Nat → Int} {r : FdResult} (hr : s.processFree curr close = .ok r) {x : Option Process}
    (hx : ∀ q, x = some q → q.fds = []) : Kept s (r.srv.setProc pid x) r.calls := by
  obtain ⟨r', hr', hinv, ⟨entries, hsrv⟩, hrel, hall⟩ := h.free hp close
  rw [hr'] at hr; cases hr
  have hp' : (r.commit pid).proc pid = some r.proc :=
    proc_setProc_self (by rw [hsrv]; exact lt_of_proc hp) _
  have hcommit : (r.commit pid).setProc pid x = r.srv.setProc pid x := setProc_setProc _ _ _ _
  rw [← hcommit]
  refine ⟨inv_setProc_nil hinv hp' hx, fun hok hcov => ?_⟩
  rw [table_setProc_nil hp' hx]
  exact Table.Covered.drop (hrel.covered hcov) (slot_none_of_freed hrel hall hok)

/-- Objects without descriptors at the end of the process table add no slot. -/
theorem fdsOf_append {s : Server} {procs : List (Option Process)}
    (h : ∀ p, some p ∈ procs → p.fds = []) : { s with procs := s.procs ++ procs }.fdsOf = s.fdsOf := by
  funext pid
  simp only [fdsOf, proc]
  rcases Nat.lt_or_ge pid s.procs.length with hlt | hge
  · rw [List.getElem?_append_left hlt]
  · rw [List.getElem?_append_right hge, List.getElem?_eq_none hge]
    cases hx : procs[pid - s.procs.length]? with
    | none => rfl
    | some x =>
        cases x with
        | none => rfl
        | some p => simp [h p (List.mem_of_getElem? hx)]

/-- … nor does the new object of a child image. -/
theorem fdsOf_child {s : Server} (p : Process) {q : Process} (hq : q.fds = []) :
    ({ s with procs := s.procs ++ [some p] }.setProc s.procs.length (some q)).fdsOf = s.fdsOf := by
  have hset : { s with procs := s.procs ++ [some p] }.setProc s.procs.length (some q) =
      { s with procs := s.procs ++ [some q] } := by
    simp [setProc, List.set_append_right]
  rw [hset]
  exact fdsOf_append (by simp [hq])

/-- A process without descriptors at the end of the process table, … -/
theorem SameTables.append (s : Server) {p : Process} (hp : p.fds = []) :
    SameTables s { s with procs := s.procs ++ [some p] } where
  entries := rfl
  fds := fdsOf_append fun q hq => by rw [List.mem_singleton] at hq; cases hq; exact hp
  devices := rfl
  devs := rfl
  socks := rfl

/-- … and another in its place. -/
theorem SameTables.child (s : Server) (p : Process) {q : Process} (hq : q.fds = []) :
    SameTables s ({ s with procs := s.procs ++ [some p] }.setProc s.procs.length (some q)) where
  entries := rfl
  fds := fdsOf_child p hq
  devices := rfl
  devs := rfl
  socks := rfl

/-- A fork leaves the tables of both images as they were: the child has no descriptors. -/
theorem fork_same {s : Server} {pid : Nat} {host : ForkHost} {r : Spawned}
    (hr : s.processFork pid host = .ok r) {t : Server} (ht : r.srv = t ∨ r.child = some t) :
    SameTables s t := by
  rcases processFork_cases hr with ⟨-, rfl⟩ | ⟨c, -, hfds, -, rfl⟩
  · rcases ht with rfl | ht
    · exact .refl s
    · cases ht
  · rcases ht with rfl | ht
    · exact .append s hfds
    · cases ht
      exact .child (q := { c with posixPID := host.fork }) s c hfds

/-- So does the start of a program. -/
theorem start_same {s : Server} {path : CStr} {args : List CStr} {host : StartHost}
    {r : Spawned} (hr : s.startProcess path args host = .ok r) {t : Server}
    (ht : r.srv = t ∨ r.child = some t) : SameTables s t := by
  by_cases hs : s.procs = []
  · rw [startProcess_nil hs hr] at ht
    rcases ht with rfl | ht
    · exact .refl s
    · cases ht
  · rcases startProcess_cases hs path args host with ⟨-, hr'⟩ | ⟨-, hr'⟩
    · rw [hr'] at hr; cases hr
      rcases ht with rfl | ht
      · exact .refl s
      · cases ht
    · rw [hr'] at hr; cases hr
      split at ht
      · rcases ht with rfl | ht
        · exact .append s rfl
        · cases ht
          exact .child s _ rfl
      · rcases ht with rfl | ht
        · exact .append s rfl
        · cases ht

/-- **One step of an image keeps the tables linked**, and covered when no close was refused. -/
theorem kept_step {s t : Server} {l : ImageOp × List HostCall} (h : FdInv s) (hst : ImageStep s l t) :
    Kept s t l.2 := by
  obtain ⟨r, hr, hcalls, ht⟩ := hst
  rw [hcalls]
  rcases l with ⟨op, calls⟩
  cases op with
  | «open» pid path flags mode host =>
      obtain ⟨r', hr', hr⟩ := Eff.bind_eq_ok.mp hr
      cases hr
      rcases ht with rfl | ht
      · exact kept_open h hr'
      · cases ht
  | close pid procFd closeRet =>
      obtain ⟨r', hr', hr⟩ := Eff.bind_eq_ok.mp hr
      cases hr
      rcases ht with rfl | ht
      · exact kept_close h hr'
      · cases ht
  | exec pid path argv host self =>
      rcases syscallExec_cases hr with rfl | ⟨curr, x, r', hp, hfree, hfds, -, rfl⟩
      · rcases ht with rfl | ht
        · exact Kept.refl h _
        · cases ht
      · rcases ht with rfl | ht
        · exact kept_replace h hp hfree (by rintro q ⟨⟩; exact hfds)
        · cases ht
  | exit pid closeRets =>
      obtain ⟨curr, r', hp, hfree, rfl⟩ := syscallExit_cases hr
      rcases ht with rfl | ht
      · exact kept_replace h hp hfree (by rintro q ⟨⟩)
      · cases ht
  -- a new process has no descriptors, in either image
  | fork pid host => exact (fork_same hr ht).kept h _
  | start path args host => exact (start_same hr ht).kept h _

/-! ## Whole runs of an image -/

variable {s₀ s t : Server} {tr : List (Server × (ImageOp × List HostCall) × Server)}

theorem inv_of_run (h₀ : Unopened s₀) (h : Run ImageStep s₀ tr s) : FdInv s :=
  h.invariant (fun _ _ _ hI hst => (kept_step hI hst).inv) h₀.fdInv

theorem covered_of_run (h₀ : Unopened s₀) (h : Run ImageStep s₀ tr s) (hok : ClosesOk tr) :
    s.table.Covered := by
  have hboth := h.invariant_of_good (I := fun s => FdInv s ∧ s.table.Covered)
    (C := fun _ (l : ImageOp × List HostCall) => ∀ c ∈ l.2, c.closeFailed = false)
    (fun _ _ _ hI hC hst => ⟨(kept_step hI.1 hst).inv, (kept_step hI.1 hst).covered hC hI.2⟩)
    ⟨h₀.fdInv, h₀.covered⟩ hok
  exact hboth.2

/-- A slot of a process, in the words of the source: `procs[pid]->fds[n]` is `v`. -/
def HasSlot (s : Server) (pid n : Nat) (v : Int) : Prop :=
  ∃ p, s.proc pid = some p ∧ p.fds[n]? = some v

theorem slot_of_hasSlot {pid n : Nat} {v : Int} (h : HasSlot s pid n v) (hv : v ≠ -1) :
    s.table.slot pid n = some v := by
  obtain ⟨p, hp, hn⟩ := h
  exact slot_eq_some_iff.mpr ⟨by rw [fdsOf_eq hp]; exact hn, hv⟩

theorem hasSlot_of_slot {pid n : Nat} {v : Int} (h : s.table.slot pid n = some v) :
    HasSlot s pid n v := by
  have hget := (slot_eq_some_iff.mp h).1
  unfold fdsOf at hget
  cases hp : s.proc pid with
  | none => rw [hp] at hget; simp at hget
  | some p => rw [hp] at hget; exact ⟨p, hp, hget⟩

/-- Every slot in use is the index of a live, typed entry that carries this index and one reference, and no
    two slots hold the same one. -/
structure SlotsOk (s : Server) : Prop where
  entry : ∀ pid n v, HasSlot s pid n v → v ≠ -1 →
    ∃ e, s.fdGet v = some e ∧ e.fd = v ∧ e.type ≠ .fdTypeNone ∧ e.refCount = 1
  unique : ∀ pid n qid m v, HasSlot s pid n v → HasSlot s qid m v → v ≠ -1 → pid = qid ∧ n = m

/-- Every live entry is held by exactly one slot. -/
def EntriesHeld (s : Server) : Prop :=
  ∀ v e, s.fdGet v = some e → ∃! x : Nat × Nat, HasSlot s x.1 x.2 v

/-- What freeing process `pid` with object `p` leaves: the entries of every other process as they were, and,
    when no close was refused, none of its own. -/
structure Freed (s : Server) (pid : Nat) (r : FdResult) : Prop where
  others : ∀ qid n v, qid ≠ pid → HasSlot s qid n v → r.srv.fdGet v = s.fdGet v
  own : (∀ c ∈ r.calls, c.closeFailed = false) → ∀ n v, HasSlot s pid n v → r.srv.fdGet v = none

theorem slotsOk_of_inv (h : FdInv s) : SlotsOk s where
  entry pid n v hs hv := by
    obtain ⟨e, he⟩ := h.linked.live (slot_of_hasSlot hs hv)
    have hent := h.entry he
    exact ⟨e, he, hent.1, h.allTyped he, hent.2.1⟩
  unique pid n qid m v hs hs' hv := h.linked.inj (slot_of_hasSlot hs hv) (slot_of_hasSlot hs' hv)

theorem entriesHeld_of_inv (h : FdInv s) (hcov : s.table.Covered) : EntriesHeld s := by
  intro v e he
  have hv : v ≠ -1 := ne_of_fdGet he
  obtain ⟨pid, n, hslot⟩ := hcov v e he
  refine ⟨(pid, n), hasSlot_of_slot hslot, ?_⟩
  rintro ⟨qid, m⟩ hs
  have heq := h.linked.inj (slot_of_hasSlot hs hv) hslot
  exact Prod.ext heq.1 heq.2

theorem freed_of_inv (h : FdInv s) {pid : Nat} {p : Process} (hp : s.proc pid = some p)
    (closeRets : Nat → Int) : ∃ r, s.processFree p closeRets = .ok r ∧ Freed s pid r := by
  obtain ⟨r, hr, hinv, -, hrel, hall⟩ := h.free hp closeRets
  have hnone : ∀ u : Server, u.fdGet (-1) = none := fun u => fdGet_of_neg u (by omega)
  refine ⟨r, hr, ⟨?_, ?_⟩⟩
  · intro qid n v hq hs
    by_cases hv : v = -1
    · rw [hv, hnone, hnone]
    · exact hrel.cell_other h.linked hq (slot_of_hasSlot hs hv)
  · intro hok n v hs
    by_cases hv : v = -1
    · rw [hv, hnone]
    · exact hrel.cell_of_slot (slot_of_hasSlot hs hv) (slot_none_of_freed hrel hall hok n)

/-- **The two tables match in every reachable image.** After any run of open, close, exec, exit, fork and
    start from an image with nothing open, with any answers: slots and entries are linked one to one; if no
    host close was refused every live entry is held by exactly one slot; and freeing any process returns,
    leaves the other processes' entries as they were and, its own closes not being refused, none of its
    own. -/
theorem tables_match (h₀ : Unopened s₀) (h : Run ImageStep s₀ tr s) :
    SlotsOk s ∧ (ClosesOk tr → EntriesHeld s) ∧
      ∀ pid p closeRets, s.proc pid = some p →
        ∃ r, s.processFree p closeRets = .ok r ∧ Freed s pid r :=
  ⟨slotsOk_of_inv (inv_of_run h₀ h),
    fun hok => entriesHeld_of_inv (inv_of_run h₀ h) (covered_of_run h₀ h hok),
    fun _ _ closeRets hp => freed_of_inv (inv_of_run h₀ h) hp closeRets⟩

/-- The devices a server starts with, and one running program. -/
def booted : Server where
  procs := [some {}, some { state := .running, posixPID := 100 }]
  devs := [.full, .null, .zero]
  devices :=
    { entries :=
      [{ name := bytes "full", device := 0, refCount := 0 },
       { name := bytes "null", device := 1, refCount := 0 },
       { name := bytes "zero", device := 2, refCount := 0 }] }

theorem booted_unopened : Unopened booted where
  entries v := by simp [booted, fdGet]
  fds pid := by
    rcases pid with - | - | pid
    · rfl
    · rfl
    · simp [booted, fdsOf, proc]
  devices := by decide
  sockets {k j} hk := by
    have hmem := List.mem_of_getElem? hk
    simp [booted] at hmem

/-- The program opens a device, a file and closes the device: the tables match after the three calls. -/
theorem tables_match_booted :
    ∃ tr s, Run ImageStep booted tr s ∧ SlotsOk s ∧ (ClosesOk tr → EntriesHeld s) := by
  have h0 : Run ImageStep booted _ _ := Run.single
    (i := (ImageOp.open 1 (bytes "/dev/null") 2 0 ⟨true, -1, true, 0⟩, [])) ⟨_, rfl, rfl, Or.inl rfl⟩
  have h1 := Run.tail h0
    (i := (ImageOp.open 1 (bytes "/a") 0 0 ⟨true, 7, true, 0⟩, _)) ⟨_, rfl, rfl, Or.inl rfl⟩
  have h2 := Run.tail h1 (i := (ImageOp.close 1 0 0, _)) ⟨_, rfl, rfl, Or.inl rfl⟩
  have hmatch := tables_match booted_unopened h2
  exact ⟨_, _, h2, hmatch.1, hmatch.2.1⟩

end FdTable
end DistributedPlatform
