import DistributedPlatform.Correctness.FdTable

/-!
# `Correctness.FdMaps` — descriptors as one private map per process

The abstract machine `MapStep` is what descriptors are for: every process has a map from numbers to opened
objects, an open takes the lowest free number, a read or write goes to the object behind the number, a
close frees it, and nothing a process does shows in the map of another.

`fds_refine_maps`: every run of open, read, write and close calls by the processes of an image is a run of
that machine.
-/

namespace DistributedPlatform
namespace FdMaps

open Server Indirect Machine FdTable

/-! ## The abstract machine -/

/-- What the descriptor numbers of each process denote. -/
abbrev Numbers := Nat → Nat → Option FdType

/-- What a process sees of a call. `used` is a read or write, with the object it went to, the value
    returned and the host calls made. -/
inductive Event
  | opened (pid n : Nat) (obj : FdType)
  | openFailed (pid : Nat)
  | used (pid n : Nat) (on : Option FdType) (ret : Int) (calls : List HostCall)
  | closed (pid n : Nat) (ret : Int)

/-- Host calls of one read or write on the host file `fd`. -/
def OnHostFd (fd : Int) (calls : List HostCall) : Prop :=
  ∃ count, calls = [.read fd count] ∨ calls = [.write fd count]

inductive MapStep (m : Numbers) : Event → Numbers → Prop
  | opened {pid n : Nat} {obj : FdType} : m pid n = none → (∀ k < n, m pid k ≠ none) →
      MapStep m (.opened pid n obj) (Table.put m pid n (some obj))
  | openFailed {pid : Nat} : MapStep m (.openFailed pid) m
  | used {pid n : Nat} {obj : FdType} {ret : Int} {calls : List HostCall} : m pid n = some obj →
      (∀ fd, obj = .fdTypeFd fd → OnHostFd fd calls) → MapStep m (.used pid n (some obj) ret calls) m
  | unusable {pid n : Nat} : m pid n = none → MapStep m (.used pid n none (-1) []) m
  | closed {pid n : Nat} : m pid n ≠ none → MapStep m (.closed pid n 0) (Table.put m pid n none)
  | notClosed {pid n : Nat} : MapStep m (.closed pid n (-1)) m

/-! ## The system calls on descriptors -/

/-- A call of process `pid`, with the host's answers. -/
inductive FdCall
  | open (pid : Nat) (path : CStr) (flags : Int) (mode : Nat) (h : OpenHost)
  | read (pid n : Nat) (count : Nat) (ans : ReadAns)
  | write (pid n : Nat) (count : Nat) (ans : Int)
  | close (pid n : Nat) (closeRet : Int)

/-- The value the caller gets, and for a read or write where it went. -/
structure Reply where
  ret : Int
  on : Option FdType := none
  calls : List HostCall := []

def FdCall.run (s : Server) : FdCall → Eff (Reply × Server)
  | .open pid path flags mode h => do
      let r ← s.syscallOpen pid path flags mode h
      .ok ({ ret := r.ret }, r.commit pid)
  | .read pid n count ans => do
      let r ← s.syscallRead pid n count ans
      .ok ({ ret := toI32 r.ret.nbytes, on := r.on, calls := r.calls }, s)
  | .write pid n count ans => do
      let r ← s.syscallWrite pid n count ans
      .ok ({ ret := toI32 r.ret, on := r.on, calls := r.calls }, s)
  | .close pid n closeRet => do
      let r ← s.syscallClose pid n closeRet
      .ok ({ ret := if r.ret = 1 then 0 else -1 }, r.commit pid)

def FdStep (s : Server) (l : FdCall × Reply) (t : Server) : Prop := l.1.run s = .ok (l.2, t)

theorem FdStep.of_run {s t : Server} {c : FdCall} {rep : Reply} (h : c.run s = .ok (rep, t)) :
    FdStep s (c, rep) t := h

/-- A call by a live process, on a number its table has a slot for. -/
def InRange (s : Server) : FdCall → Prop
  | .open pid _ _ _ _ => s.proc pid ≠ none
  | .read pid n _ _ => ∃ p, s.proc pid = some p ∧ n < p.fds.length
  | .write pid n _ _ => ∃ p, s.proc pid = some p ∧ n < p.fds.length
  | .close pid n _ => ∃ p, s.proc pid = some p ∧ n < p.fds.length

/-! ## The abstraction -/

/-- The numbers of an image: the objects behind its two tables. -/
def numbers (s : Server) : Numbers := fun pid n => (s.table.view pid n).map (·.type)

/-- The event a call and its reply amount to; the object of an open is its target. -/
def event (s : Server) : FdCall × Reply → Event
  | (.open pid path _ _ h, rep) =>
      if rep.ret = -1 then .openFailed pid
      else match s.target path h with
        | some obj => .opened pid rep.ret.toNat obj
        | none => .openFailed pid
  | (.read pid n _ _, rep) => .used pid n rep.on rep.ret rep.calls
  | (.write pid n _ _, rep) => .used pid n rep.on rep.ret rep.calls
  | (.close pid n _, rep) => .closed pid n rep.ret

variable {s t : Server}

theorem numbers_eq_none_iff (h : FdInv s) {pid n : Nat} :
    numbers s pid n = none ↔ s.table.slot pid n = none := by
  unfold numbers
  rw [Option.map_eq_none_iff]
  exact h.linked.view_eq_none_iff

/-- A change of the view at one number is a change of the numbers there. -/
theorem numbers_of_put {pid n : Nat} {e : Option FdEntry}
    (h : t.table.view = Table.put s.table.view pid n e) :
    numbers t = Table.put (numbers s) pid n (e.map (·.type)) := by
  funext q k
  unfold numbers
  rw [h]
  by_cases hqk : q = pid ∧ k = n
  · simp [Table.put, hqk]
  · rw [Table.put_ne hqk, Table.put_ne hqk]

theorem numbers_congr (h : t.table = s.table) : numbers t = numbers s := by
  funext q k; unfold numbers; rw [h]

/-! ## Reading and writing -/

/-- The device of an entry is there, and so is the socket of a socket device. -/
theorem device_of_entry (h : FdInv s) {v : Int} {e : FdEntry} (hv : s.fdGet v = some e) {k : Nat}
    (htype : e.type = .fdTypeDevice k) :
    ∃ dev, s.devs[k]? = some dev ∧ ∀ j, dev = .socket (some j) → j < s.socks.length := by
  have hobj := (h.entry hv).2.2
  rw [htype] at hobj
  have hk : s.devs[k]? = some s.devs[k] := List.getElem?_eq_getElem hobj
  exact ⟨s.devs[k], hk, fun j hj => h.sockets (hk.trans (congrArg some hj))⟩

/-- A read of a server descriptor goes to the object of its entry, and fails when there is none. -/
theorem fdRead_cases (h : FdInv s) (v : Int) (count : Nat) (ans : ReadAns) :
    ∃ r, s.fdRead v count ans = .ok r ∧
      ((s.fdGet v = none ∧ r = { ret := none }) ∨
       (∃ e, s.fdGet v = some e ∧ r.on = some e.type ∧
          ∀ fd, e.type = .fdTypeFd fd → OnHostFd fd r.calls)) := by
  cases hv : s.fdGet v with
  | none => exact ⟨_, by simp [fdRead, hv], Or.inl ⟨rfl, rfl⟩⟩
  | some e =>
      have hobj := (h.entry hv).2.2
      cases htype : e.type with
      | fdTypeNone => rw [htype] at hobj; exact absurd hobj id
      | fdTypeSocket k => rw [htype] at hobj; exact absurd hobj id
      | fdTypeFd fd =>
          refine ⟨{ ret := ans, on := some e.type, calls := [.read fd count] },
            by simp [fdRead, hv, htype], Or.inr ⟨e, rfl, rfl, ?_⟩⟩
          intro fd' heq
          rw [htype] at heq; cases heq
          exact ⟨count, Or.inl rfl⟩
      | fdTypeDevice k =>
          obtain ⟨dev, hk, hsock⟩ := device_of_entry h hv htype
          obtain ⟨⟨ret, calls⟩, hx⟩ := Device.read_ok hsock count ans
          refine ⟨{ ret := ret, on := some e.type, calls := calls },
            by simp [fdRead, hv, htype, hk, hx, bind, Except.bind], Or.inr ⟨e, rfl, rfl, ?_⟩⟩
          intro fd' heq
          rw [htype] at heq; cases heq

/-- A write, likewise. -/
theorem fdWrite_cases (h : FdInv s) (v : Int) (count : Nat) (ans : Int) :
    ∃ r, s.fdWrite v count ans = .ok r ∧
      ((s.fdGet v = none ∧ r = { ret := -1 }) ∨
       (∃ e, s.fdGet v = some e ∧ r.on = some e.type ∧
          ∀ fd, e.type = .fdTypeFd fd → OnHostFd fd r.calls)) := by
  cases hv : s.fdGet v with
  | none => exact ⟨_, by simp [fdWrite, hv], Or.inl ⟨rfl, rfl⟩⟩
  | some e =>
      have hobj := (h.entry hv).2.2
      cases htype : e.type with
      | fdTypeNone => rw [htype] at hobj; exact absurd hobj id
      | fdTypeSocket k => rw [htype] at hobj; exact absurd hobj id
      | fdTypeFd fd =>
          refine ⟨{ ret := ans, on := some e.type, calls := [.write fd count] },
            by simp [fdWrite, hv, htype], Or.inr ⟨e, rfl, rfl, ?_⟩⟩
          intro fd' heq
          rw [htype] at heq; cases heq
          exact ⟨count, Or.inr rfl⟩
      | fdTypeDevice k =>
          obtain ⟨dev, hk, hsock⟩ := device_of_entry h hv htype
          obtain ⟨⟨ret, calls⟩, hx⟩ := Device.write_ok hsock count ans
          refine ⟨{ ret := ret, on := some e.type, calls := calls },
            by simp [fdWrite, hv, htype, hk, hx, bind, Except.bind], Or.inr ⟨e, rfl, rfl, ?_⟩⟩
          intro fd' heq
          rw [htype] at heq; cases heq

/-- `curr->fds[n]` within the table: what the slot says about the number. -/
theorem serverFd_of_lt {p : Process} {pid n : Nat} (hp : s.proc pid = some p) (hn : n < p.fds.length) :
    ∃ v, serverFd p n = .ok v ∧ s.table.view pid n = s.fdGet v := by
  refine ⟨p.fds[n], by simp [serverFd, hn], ?_⟩
  show (((s.fdsOf pid)[n]?).filter (· ≠ -1)).bind s.fdGet = s.fdGet p.fds[n]
  rw [fdsOf_eq hp, List.getElem?_eq_getElem hn]
  by_cases hempty : p.fds[n] = -1
  · rw [hempty, fdGet_of_neg s (by omega)]; rfl
  · simp [Option.filter, hempty]

/-- A number outside the table faults, so a call that returned was within it. -/
theorem lt_of_serverFd {p : Process} {n : Nat} {v : Int} (h : serverFd p n = .ok v) :
    n < p.fds.length := by
  unfold serverFd at h
  rw [if_neg (by omega)] at h
  split at h
  · cases h
  · next w hw => exact (List.getElem?_eq_some_iff.mp hw).1

/-- A read that returned went through a slot of the caller: what it found there, and where it went. -/
theorem syscallRead_cases (h : FdInv s) {pid n count : Nat} {ans : ReadAns} {r : IoResult ReadAns}
    (hr : s.syscallRead pid n count ans = .ok r) :
    (s.table.view pid n = none ∧ r = { ret := none }) ∨
    (∃ e, s.table.view pid n = some e ∧ r.on = some e.type ∧
      ∀ fd, e.type = .fdTypeFd fd → OnHostFd fd r.calls) := by
  unfold syscallRead at hr
  cases hp : s.proc pid with
  | none => rw [hp] at hr; cases hr
  | some curr =>
      rw [hp] at hr
      obtain ⟨v, hv, hr⟩ := Eff.bind_eq_ok.mp hr
      obtain ⟨v', hv', hview⟩ := serverFd_of_lt hp (lt_of_serverFd hv)
      rw [hv] at hv'; cases hv'
      obtain ⟨r', hr', hcase⟩ := fdRead_cases h v count ans
      rw [hr'] at hr; cases hr
      rw [hview]
      exact hcase

/-- A write, likewise. -/
theorem syscallWrite_cases (h : FdInv s) {pid n count : Nat} {ans : Int} {r : IoResult Int}
    (hr : s.syscallWrite pid n count ans = .ok r) :
    (s.table.view pid n = none ∧ r = { ret := -1 }) ∨
    (∃ e, s.table.view pid n = some e ∧ r.on = some e.type ∧
      ∀ fd, e.type = .fdTypeFd fd → OnHostFd fd r.calls) := by
  unfold syscallWrite at hr
  cases hp : s.proc pid with
  | none => rw [hp] at hr; cases hr
  | some curr =>
      rw [hp] at hr
      obtain ⟨v, hv, hr⟩ := Eff.bind_eq_ok.mp hr
      obtain ⟨v', hv', hview⟩ := serverFd_of_lt hp (lt_of_serverFd hv)
      rw [hv] at hv'; cases hv'
      obtain ⟨r', hr', hcase⟩ := fdWrite_cases h v count ans
      rw [hr'] at hr; cases hr
      rw [hview]
      exact hcase

/-- What a read or write reports is a `used` event of the abstract machine. -/
theorem mapStep_used {pid n : Nat} {on : Option FdType} {ret : Int} {calls : List HostCall}
    (hcase : (s.table.view pid n = none ∧ on = none ∧ ret = -1 ∧ calls = []) ∨
      (∃ e, s.table.view pid n = some e ∧ on = some e.type ∧
        ∀ fd, e.type = .fdTypeFd fd → OnHostFd fd calls)) :
    MapStep (numbers s) (.used pid n on ret calls) (numbers s) := by
  rcases hcase with ⟨hv, rfl, rfl, rfl⟩ | ⟨e, hv, rfl, hcalls⟩
  · exact .unusable (by unfold numbers; rw [hv]; rfl)
  · exact .used (by unfold numbers; rw [hv]; rfl) hcalls

/-! ## Simulation -/

/-- An open that returned: a failed one changes no number; a new number was free, and the first such. -/
theorem open_simulates (h : FdInv s) {pid : Nat} {path : CStr} {flags : Int} {mode : Nat} {host : OpenHost}
    {r : FdResult} (hr : s.syscallOpen pid path flags mode host = .ok r) :
    FdInv (r.commit pid) ∧
    MapStep (numbers s) (event s (.open pid path flags mode host, { ret := r.ret }))
      (numbers (r.commit pid)) := by
  unfold syscallOpen at hr
  cases hp : s.proc pid with
  | none => rw [hp] at hr; cases hr
  | some curr =>
      rw [hp] at hr
      change s.fdOpenFdFromPath curr path flags mode host = .ok r at hr
      obtain ⟨r', hr', hinv, hcase⟩ := h.open hp path flags mode host
      rw [hr'] at hr; cases hr
      refine ⟨hinv, ?_⟩
      rcases hcase with ⟨hret, htable⟩ | ⟨n, c, e, hret, hfree, hleast, hcell, htarget, htable⟩
      · rw [numbers_congr htable]
        simp only [event, hret, if_true]
        exact .openFailed
      · -- one new entry and one new slot leading to it: the view changes at that number only
        have hview : (r.commit pid).table.view = Table.put s.table.view pid n (some e) := by
          rw [htable]; exact h.linked.view_bind hcell
        rw [numbers_of_put hview]
        have hne : ¬ ((n : Int) = -1) := by omega
        simp only [event, hret, if_neg hne, htarget, Int.toNat_natCast, Option.map_some]
        apply MapStep.opened
        · exact (numbers_eq_none_iff h).mpr hfree
        · intro k hk hnone
          exact hleast k hk ((numbers_eq_none_iff h).mp hnone)

/-- A close that returned: a refused one changes no number, the others empty one that was in use. -/
theorem close_simulates (h : FdInv s) {pid n : Nat} {closeRet : Int} {r : FdResult}
    (hr : s.syscallClose pid n closeRet = .ok r) :
    FdInv (r.commit pid) ∧
    MapStep (numbers s) (event s (.close pid n closeRet, { ret := if r.ret = 1 then 0 else -1 }))
      (numbers (r.commit pid)) := by
  rcases syscallClose_cases h hr with ⟨hret, hsame, -⟩ | ⟨hret, hinv, -, v, hslot, htable⟩
  · rw [hsame]
    refine ⟨h, ?_⟩
    simp only [event, hret]
    exact .notClosed
  · refine ⟨hinv, ?_⟩
    rw [Int.toNat_natCast] at hslot htable
    -- no other slot leads to the entry that went with this one
    have hview : (r.commit pid).table.view = Table.put s.table.view pid n none := by
      rw [htable]; exact h.linked.view_unbind hslot
    rw [numbers_of_put hview]
    simp only [event, hret, if_true, Option.map_none]
    apply MapStep.closed
    rw [Ne, numbers_eq_none_iff h, hslot]
    exact Option.some_ne_none v

/-- **Each call is a step of the abstract machine**, and the invariant is kept. -/
theorem step_simulates {l : FdCall × Reply} (h : FdInv s) (hst : FdStep s l t) :
    FdInv t ∧ MapStep (numbers s) (event s l) (numbers t) := by
  obtain ⟨c, rep⟩ := l
  cases c with
  | «open» pid path flags mode host =>
      obtain ⟨r, hr, hrep⟩ := Eff.bind_eq_ok.mp hst
      cases hrep
      exact open_simulates h hr
  | read pid n count ans =>
      obtain ⟨r, hr, hrep⟩ := Eff.bind_eq_ok.mp hst
      cases hrep
      refine ⟨h, mapStep_used ((syscallRead_cases h hr).imp ?_ id)⟩
      rintro ⟨hnone, rfl⟩
      exact ⟨hnone, rfl, by decide, rfl⟩
  | write pid n count ans =>
      obtain ⟨r, hr, hrep⟩ := Eff.bind_eq_ok.mp hst
      cases hrep
      refine ⟨h, mapStep_used ((syscallWrite_cases h hr).imp ?_ id)⟩
      rintro ⟨hnone, rfl⟩
      exact ⟨hnone, rfl, by decide, rfl⟩
  | close pid n closeRet =>
      obtain ⟨r, hr, hrep⟩ := Eff.bind_eq_ok.mp hst
      cases hrep
      exact close_simulates h hr

/-- **A call in range returns.** -/
theorem step_exists (h : FdInv s) {c : FdCall} (hc : InRange s c) : ∃ rep t, FdStep s (c, rep) t := by
  cases c with
  | «open» pid path flags mode host =>
      obtain ⟨p, hp⟩ := Option.ne_none_iff_exists'.mp hc
      obtain ⟨r, hr, -⟩ := h.open hp path flags mode host
      exact ⟨_, _, by simp [FdStep, FdCall.run, syscallOpen, hp, hr, bind, Except.bind]; exact ⟨rfl, rfl⟩⟩
  | read pid n count ans =>
      obtain ⟨p, hp, hn⟩ := hc
      obtain ⟨v, hv, -⟩ := serverFd_of_lt hp hn
      obtain ⟨r, hr, -⟩ := fdRead_cases h v count ans
      exact ⟨_, _, by simp [FdStep, FdCall.run, syscallRead, hp, hv, hr, bind, Except.bind]; exact ⟨rfl, rfl⟩⟩
  | write pid n count ans =>
      obtain ⟨p, hp, hn⟩ := hc
      obtain ⟨v, hv, -⟩ := serverFd_of_lt hp hn
      obtain ⟨r, hr, -⟩ := fdWrite_cases h v count ans
      exact ⟨_, _, by simp [FdStep, FdCall.run, syscallWrite, hp, hv, hr, bind, Except.bind]; exact ⟨rfl, rfl⟩⟩
  | close pid n closeRet =>
      obtain ⟨p, hp, hn⟩ := hc
      have hv : serverFd p n = .ok p.fds[n] := by simp [serverFd, hn]
      obtain ⟨r, hr⟩ : ∃ r, s.fdClose p p.fds[n] closeRet = .ok r := by
        by_cases hempty : p.fds[n] = -1
        · exact ⟨_, fdClose_of_none (fdGet_of_neg s (by omega)) p closeRet⟩
        · have hinv : FdInv (s.setProc pid (some p)) := by rw [setProc_self hp]; exact h
          obtain ⟨r, hr, -⟩ := hinv.close (lt_of_proc hp) (List.getElem?_eq_getElem hn) hempty closeRet
          exact ⟨r, hr⟩
      exact ⟨_, _, by simp [FdStep, FdCall.run, syscallClose, hp, hv, hr, bind, Except.bind]; exact ⟨rfl, rfl⟩⟩

/-- **Descriptors are private maps.** From any image reachable from one with nothing open, every run of
    open, read, write and close calls by its processes is, seen through `numbers`, a run of the abstract
    machine; and wherever such a run stands, every call in range returns. -/
theorem fds_refine_maps {s₀ s t : Server} {tr : List (Server × (ImageOp × List HostCall) × Server)}
    {tr' : List (Server × (FdCall × Reply) × Server)} (h₀ : Unopened s₀) (h : Run ImageStep s₀ tr s)
    (h' : Run FdStep s tr' t) :
    Run MapStep (numbers s)
        (tr'.map fun x => (numbers x.1, event x.1 x.2.1, numbers x.2.2)) (numbers t) ∧
      ∀ c, InRange t c → ∃ rep u, FdStep t (c, rep) u := by
  have hinv := inv_of_run h₀ h
  refine ⟨h'.simulates (fun s l _ => event s l) (fun _ _ _ hI hst => step_simulates hI hst) hinv,
    fun c hc => step_exists (h'.invariant (fun _ _ _ hI hst => (step_simulates hI hst).1) hinv) hc⟩

/-- The running program opens `/dev/null` as 0 and `/a` as 1, closes 0 and opens `/b`, which gets 0. -/
theorem fds_refine_maps_booted :
    ∃ tr t, Run FdStep booted tr t ∧
      Run MapStep (numbers booted)
        (tr.map fun x => (numbers x.1, event x.1 x.2.1, numbers x.2.2)) (numbers t) := by
  have h0 : Run FdStep booted _ _ :=
    Run.single (FdStep.of_run (c := .open 1 (bytes "/dev/null") 2 0 ⟨true, -1, true, 0⟩) rfl)
  have h1 := h0.tail (FdStep.of_run (c := .open 1 (bytes "/a") 0 0 ⟨true, 7, true, 0⟩) rfl)
  have h2 := h1.tail (FdStep.of_run (c := .close 1 0 0) rfl)
  have h3 := h2.tail (FdStep.of_run (c := .open 1 (bytes "/b") 0 0 ⟨true, 8, true, 0⟩) rfl)
  exact ⟨_, _, h3, (fds_refine_maps booted_unopened Run.refl h3).1⟩

end FdMaps
end DistributedPlatform
