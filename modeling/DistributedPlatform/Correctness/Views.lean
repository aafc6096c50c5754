import DistributedPlatform.Correctness.DeviceNames
import DistributedPlatform.Correctness.FailedCalls
import DistributedPlatform.Correctness.FdMaps
import DistributedPlatform.Correctness.ForkCopy
import DistributedPlatform.Population

/-!
# `Correctness.Views` — what a process has of its own

`viewOf` reads it off an image: of the tables only what the entries stand for is left, of the devices only what they
are.

* `entry_io` — reading and writing by an entry is reading and writing of the object it stands for;
* `call_refines` — what a system call does to the image of its caller is a call of the process;
* `fork_refines` — a fork adds a process with a copy of what the caller has, and nothing open;
* `start_refines` — a program that the server starts has what it is started with.
-/

namespace DistributedPlatform
namespace Views

open Machine Server FdTable FdMaps DeviceNames Platform Indirect

/-! ## Objects -/

/-- What a device is; that of a socket is the terminal of a client. -/
def deviceObj (s : Server) (k : Nat) : Option Obj :=
  (s.devs[k]?).bind fun
    | .full => some .full
    | .null => some .null
    | .zero => some .zero
    | .socket none => none
    | .socket (some j) => (s.hostFd j).map .tty

/-- What an entry stands for. -/
def standsFor (s : Server) : FdType → Option Obj
  | .fdTypeFd fd => some (.file fd)
  | .fdTypeDevice k => deviceObj s k
  | .fdTypeNone | .fdTypeSocket _ => none

/-- The devices by their names. -/
def deviceObjs (s : Server) : CStr → Option Obj := fun name => (s.devices.get name).bind fun e => deviceObj s e.device

/-- The sockets have been opened, and a device for one has it. -/
structure Wired (s : Server) : Prop where
  sockets : ∀ sock ∈ s.socks, sock.state ≠ .stateNone
  devices : Device.socket none ∉ s.devs

variable {s t : Server} {own : Nat} {p q : Process}

theorem Wired.congr (hw : Wired s) (hsocks : t.socks = s.socks) (hdevs : t.devs = s.devs) : Wired t where
  sockets := by rw [hsocks]; exact hw.sockets
  devices := by rw [hdevs]; exact hw.devices

/-- **No image has a device without its socket.** -/
theorem wired_invariant : Platform.Invariant fun s => Sound s ∧ Wired s where
  start hs hr := by
    obtain ⟨hsrv, hchild⟩ := sound_invariant.start hs.1 hr
    obtain ⟨hsame, hsame'⟩ := start_devices hr
    exact ⟨⟨hsrv, hs.2.congr hsame.socks hsame.devs⟩,
      fun c hc => ⟨hchild c hc, hs.2.congr (hsame' c hc).socks (hsame' c hc).devs⟩⟩
  call hs hr := by
    obtain ⟨hsrv, hchild⟩ := sound_invariant.call hs.1 hr
    obtain ⟨hsame, hsame'⟩ := perform_same hs.1.1 hr
    exact ⟨⟨hsrv, hs.2.congr hsame.socks hsame.devs⟩,
      fun c hc => ⟨hchild c hc, hs.2.congr (hsame' c hc).socks (hsame' c hc).devs⟩⟩
  net conns sockFd fds flag hs := ⟨sound_invariant.net conns sockFd fds flag hs.1, hs.2.congr rfl rfl⟩
  accept {s newFd} hbit hs := by
    refine ⟨sound_invariant.accept hbit hs.1, ?_, hs.2.devices⟩
    intro sock hsock
    rcases List.mem_append.mp hsock with hold | hnew
    · exact hs.2.sockets sock hold
    · rw [List.mem_singleton] at hnew
      rw [hnew, SocketTcp.listen_new]
      nofun
  device {s k} alloc hs hk := by
    refine ⟨sound_invariant.device alloc hs.1 hk, hs.2.sockets, ?_⟩
    intro hmem
    rcases List.mem_append.mp hmem with hold | hnew
    · exact hs.2.devices hold
    · rw [List.mem_singleton] at hnew
      cases hnew

theorem wired_equipped (fs : CStr) (host : BootHost) : Wired (Boot.equipped fs host) := by
  rw [Boot.equipped_eq]
  exact ⟨nofun, by simp⟩

/-- Reading and writing a device, from outside. -/
theorem device_obj (hs : FdInv s) (hw : Wired s) {k : Nat} {d : Device} (hd : s.devs[k]? = some d) :
    ∃ obj, deviceObj s k = some obj ∧ (∀ fd, obj ≠ .file fd) ∧
      (∀ count ans, ∃ calls, d.read s.socks count ans = .ok (obj.read count ans, calls)) ∧
      (∀ count ans, ∃ calls, d.write s.socks count ans = .ok (obj.write count ans, calls)) := by
  unfold deviceObj
  rw [hd, Option.bind_some]
  cases d with
  | full => exact ⟨.full, rfl, nofun, fun _ _ => ⟨_, rfl⟩, fun _ _ => ⟨_, rfl⟩⟩
  | null => exact ⟨.null, rfl, nofun, fun _ _ => ⟨_, rfl⟩, fun _ _ => ⟨_, rfl⟩⟩
  | zero => exact ⟨.zero, rfl, nofun, fun _ _ => ⟨_, rfl⟩, fun _ _ => ⟨_, rfl⟩⟩
  | socket j =>
      cases j with
      | none => exact absurd (List.mem_of_getElem? hd) hw.devices
      | some j =>
          have hlt : j < s.socks.length := hs.sockets hd
          have hj : s.socks[j]? = some s.socks[j] := List.getElem?_eq_getElem hlt
          have hopen := hw.sockets _ (List.mem_of_getElem? hj)
          refine ⟨.tty s.socks[j].sockFd, by simp [hostFd, hj], nofun, fun count ans => ?_, fun count ans => ?_⟩
          · have hread := SocketTcp.read_of_open hopen count ans
            exact ⟨_, by simp only [Device.read, hj, hread]; rfl⟩
          · have hwrite := SocketTcp.write_of_open hopen count ans
            exact ⟨_, by simp only [Device.write, hj, hwrite]; rfl⟩

/-- **Reading and writing by an entry** is reading and writing of what it stands for. -/
theorem entry_io (hs : FdInv s) (hw : Wired s) {v : Int} {e : FdEntry} (he : s.fdGet v = some e) :
    ∃ obj, standsFor s e.type = some obj ∧ (∀ fd, obj = .file fd ↔ e.type = .fdTypeFd fd) ∧
      (∀ count ans, ∃ r, s.fdRead v count ans = .ok r ∧ r.ret = obj.read count ans) ∧
      (∀ count ans, ∃ r, s.fdWrite v count ans = .ok r ∧ r.ret = obj.write count ans) := by
  have hobj := (hs.entry he).2.2
  cases htype : e.type with
  | fdTypeNone => rw [htype] at hobj; exact hobj.elim
  | fdTypeSocket k => rw [htype] at hobj; exact hobj.elim
  | fdTypeFd fd =>
      refine ⟨.file fd, rfl, fun fd' => by simp, fun count ans => ?_, fun count ans => ?_⟩
      · exact ⟨{ ret := ans, on := e.type, calls := [.read fd count] }, by simp only [fdRead, he, htype], rfl⟩
      · exact ⟨{ ret := ans, on := e.type, calls := [.write fd count] }, by simp only [fdWrite, he, htype], rfl⟩
  | fdTypeDevice k =>
      rw [htype] at hobj
      have hd : s.devs[k]? = some s.devs[k] := List.getElem?_eq_getElem hobj
      obtain ⟨obj, hdevice, hfile, hread, hwrite⟩ := device_obj hs hw hd
      refine ⟨obj, hdevice, fun fd => iff_of_false (hfile fd) (by simp), fun count ans => ?_, fun count ans => ?_⟩
      · obtain ⟨calls, hio⟩ := hread count ans
        refine ⟨{ ret := obj.read count ans, on := e.type, calls := calls }, ?_, rfl⟩
        simp only [fdRead, he, htype, hd, hio, bind, Except.bind]
      · obtain ⟨calls, hio⟩ := hwrite count ans
        refine ⟨{ ret := obj.write count ans, on := e.type, calls := calls }, ?_, rfl⟩
        simp only [fdWrite, he, htype, hd, hio, bind, Except.bind]

/-! ### What they depend on -/

/-- More devices and sockets behind those there are change nothing. -/
theorem deviceObj_older (hs : FdInv s) (hdevs : s.devs <+: t.devs) (hsocks : s.socks <+: t.socks) {k : Nat}
    (hk : k < s.devs.length) : deviceObj t k = deviceObj s k := by
  have hd : s.devs[k]? = some s.devs[k] := List.getElem?_eq_getElem hk
  have hd' : t.devs[k]? = s.devs[k]? := by
    obtain ⟨more, hmore⟩ := hdevs
    rw [← hmore, List.getElem?_append_left hk]
  unfold deviceObj
  rw [hd', hd, Option.bind_some, Option.bind_some]
  cases hdev : s.devs[k] with
  | full => rfl
  | null => rfl
  | zero => rfl
  | socket j =>
      cases j with
      | none => rfl
      | some j =>
          have hj : j < s.socks.length := hs.sockets (hd.trans (congrArg some hdev))
          obtain ⟨more, hmore⟩ := hsocks
          simp only [hostFd, ← hmore, List.getElem?_append_left hj]

theorem deviceObj_same (h : SameDevices s t) : deviceObj t = deviceObj s := by
  funext k
  unfold deviceObj hostFd
  rw [h.devs, h.socks]

theorem standsFor_same (h : SameDevices s t) : standsFor t = standsFor s := by
  funext type
  unfold standsFor
  rw [deviceObj_same h]

/-- A name is looked up in the list of the names, the counts play no part. -/
theorem deviceObjs_eq (s : Server) (name : CStr) :
    deviceObjs s name = ((view s).find? fun x => x.1 == name).bind fun x => deviceObj s x.2 := by
  unfold deviceObjs view
  rw [Devices.get_eq_find, List.find?_map, Option.bind_map]
  rfl

theorem deviceObjs_same (h : SameDevices s t) : deviceObjs t = deviceObjs s := by
  funext name
  rw [deviceObjs_eq, deviceObjs_eq, h.view, deviceObj_same h]

/-- More devices and sockets that nothing names change nothing. -/
theorem deviceObjs_older (hs : FdInv s) (hdevices : t.devices = s.devices) (hdevs : s.devs <+: t.devs)
    (hsocks : s.socks <+: t.socks) : deviceObjs t = deviceObjs s := by
  funext name
  unfold deviceObjs
  rw [hdevices]
  cases he : s.devices.get name with
  | none => rfl
  | some e =>
      exact deviceObj_older hs hdevs hsocks (hs.devices _ (List.mem_map_of_mem (Devices.mem_of_get he).1))

/-- A name that no device has is one that is not registered. -/
theorem deviceObjs_eq_none_iff (hs : FdInv s) (hw : Wired s) {name : CStr} :
    deviceObjs s name = none ↔ s.devices.get name = none := by
  unfold deviceObjs
  cases hget : s.devices.get name with
  | none => exact iff_of_true rfl rfl
  | some e =>
      have hk : e.device < s.devs.length :=
        hs.devices _ (List.mem_map_of_mem (Devices.mem_of_get hget).1)
      obtain ⟨obj, hobj, -⟩ := device_obj hs hw (List.getElem?_eq_getElem hk)
      rw [Option.bind_some, hobj]
      exact iff_of_false nofun nofun

/-! ## What a process has open -/

/-- What the numbers of a process stand for. -/
def opened (s : Server) (own n : Nat) : Option Obj := (numbers s own n).bind (standsFor s)

theorem opened_eq_none_iff (hs : FdInv s) (hw : Wired s) {n : Nat} :
    opened s own n = none ↔ s.table.slot own n = none := by
  rw [← numbers_eq_none_iff hs]
  unfold opened
  cases hn : numbers s own n with
  | none => exact iff_of_true rfl rfl
  | some type =>
      obtain ⟨e, he, rfl⟩ := Option.map_eq_some_iff.mp hn
      obtain ⟨v, -, hcell⟩ := Option.bind_eq_some_iff.mp he
      obtain ⟨obj, hobj, -⟩ := entry_io hs hw (v := v) hcell
      rw [Option.bind_some, hobj]
      exact iff_of_false nofun nofun

/-- What is open depends on the tables and the devices only. -/
theorem opened_own (htable : t.table = s.table) (h : SameDevices s t) : opened t own = opened s own := by
  funext n
  unfold opened
  rw [numbers_congr htable, standsFor_same h]

/-- A process without descriptors has nothing open. -/
theorem opened_nil (hp : s.proc own = some p) (hfds : p.fds = []) : opened s own = fun _ => none := by
  funext n
  have hslot : s.table.slot own n = none := by simp [table, fdsOf_eq hp, hfds]
  simp [opened, numbers, Table.view, hslot]

/-- Only what one number stands for changes. -/
theorem opened_put (h : SameDevices s t) {n : Nat} {e : Option FdEntry}
    (hview : t.table.view = Table.put s.table.view own n e) :
    opened t own = Function.update (opened s own) n ((e.map (·.type)).bind (standsFor s)) := by
  funext k
  unfold opened
  rw [numbers_of_put hview, standsFor_same h]
  by_cases hk : k = n
  · rw [hk, Table.put_self, Function.update_self]
  · rw [Table.put_ne (by simp [hk]), Function.update_of_ne hk]

/-! ## The view -/

/-- The process of the entry `own`. -/
def viewOf (s : Server) (own : Nat) : View :=
  let p := (s.proc own).getD {}
  { pid := own, next := s.procs.length, path := p.path.getD [], argv := p.argv.getD [], cwd := p.cwd.getD []
    environ := p.environ, opened := opened s own, devices := deviceObjs s }

theorem viewOf_eq (hp : s.proc own = some p) :
    viewOf s own =
      { pid := own, next := s.procs.length, path := p.path.getD [], argv := p.argv.getD [], cwd := p.cwd.getD []
        environ := p.environ, opened := opened s own, devices := deviceObjs s } := by
  simp [viewOf, hp]

/-- Another object in the place of that of the process. -/
theorem viewOf_changed (h : SameDevices s t) (hlen : t.procs.length = s.procs.length) (hq : t.proc own = some q) :
    viewOf t own =
      { viewOf s own with
        path := q.path.getD [], argv := q.argv.getD [], cwd := q.cwd.getD [], environ := q.environ
        opened := opened t own } := by
  rw [viewOf_eq hq, deviceObjs_same h, hlen]
  rfl

/-- A descriptor operation leaves the process all but what it has open. -/
theorem viewOf_commit (hp : s.proc own = some p) {r : FdResult} (hr : FdOnly s p r) (h : SameDevices s r.srv) :
    viewOf (r.commit own) own = { viewOf s own with opened := opened (r.commit own) own } := by
  have hlt : own < r.srv.procs.length := by rw [hr.1]; exact lt_of_proc hp
  have hsame : SameDevices s (r.commit own) := ⟨h.view, h.devs, h.socks, h.filesystem⟩
  rw [viewOf_changed hsame (by rw [FdResult.commit, setProc_length, hr.1]) (proc_setProc_self hlt _)]
  rw [hr.field (·.path) fun _ _ => rfl, hr.field (·.argv) fun _ _ => rfl, hr.field (·.cwd) fun _ _ => rfl,
    hr.field (·.environ) fun _ _ => rfl, viewOf_eq hp]

/-- Only the object of the process changes, and not its descriptors. -/
theorem table_setProc (hp : s.proc own = some p) (hfds : q.fds = p.fds) : (s.setProc own (some q)).table = s.table := by
  refine table_congr rfl ?_
  funext pid
  rw [fdsOf_setProc hp]
  split
  · next h => rw [h, fdsOf_eq hp]; exact hfds
  · rfl

/-! ## The calls -/

/-- The process that makes a call. -/
structure Caller (s : Server) (own : Nat) (p : Process) : Prop where
  inv : FdInv s
  wired : Wired s
  proc : s.proc own = some p
  strings : p.name ≠ none ∧ p.path ≠ none ∧ p.cwd ≠ none

variable {fs : CStr} {h : SysHost}

/-- An open returns `-1` when there is nothing to be had for it. -/
theorem open_fails_iff (hc : Caller s own p) {path : CStr} {flags : Int} {mode : Nat} {host : OpenHost}
    {r : FdResult} (hr : s.fdOpenFdFromPath p path flags mode host = .ok r) :
    r.ret = -1 ↔ (viewOf s own).opens path host = none := by
  rw [(fdOpenFdFromPath_exact hc.inv.allTyped hr).1]
  unfold View.opens Server.opens
  show _ ↔ (if _ then if _ then deviceObjs s (path.drop 5) else none else _) = none
  have hnone : deviceObjs s (path.drop 5) = none ↔ s.devices.get (path.drop 5) = none :=
    deviceObjs_eq_none_iff hc.inv hc.wired
  by_cases hdev : (bytes "/dev/").isPrefixOf path = true
  · rw [if_pos hdev, if_pos hdev]
    cases host.entry <;> simp [hnone]
  · rw [if_neg hdev, if_neg hdev]
    cases hlp : host.localPath <;> cases hentry : host.entry <;> simp

/-- What can be had is what the open is for. -/
theorem target_of_opens {path : CStr} {host : OpenHost} {obj : Obj}
    (hobj : (viewOf s own).opens path host = some obj) :
    ∃ type, s.target path host = some type ∧ standsFor s type = some obj := by
  unfold View.opens at hobj
  change (if _ then if _ then deviceObjs s (path.drop 5) else none else _) = _ at hobj
  unfold target
  split at hobj
  · next hdev =>
      rw [if_pos hdev]
      split at hobj
      · obtain ⟨e, he, hobj⟩ := Option.bind_eq_some_iff.mp hobj
        exact ⟨.fdTypeDevice e.device, by rw [he]; rfl, hobj⟩
      · cases hobj
  · next hdev =>
      rw [if_neg hdev]
      split at hobj
      · exact ⟨_, rfl, hobj⟩
      · cases hobj

theorem open_refines (hc : Caller s own p) {path : CStr} {flags : Int} {mode : Nat} {r : FdResult}
    (hr : s.syscallOpen own path flags mode h.open_ = .ok r) :
    (viewOf s own).Call fs h (.fdOpenFdFromPath path flags mode) (some (.int (toI32 r.ret)))
      (viewOf (r.commit own) own) := by
  have hr' : s.fdOpenFdFromPath p path flags mode h.open_ = .ok r := by
    unfold syscallOpen at hr
    rwa [hc.proc] at hr
  have hsame := open_same hc.inv hr'
  have hcommit : SameDevices s (r.commit own) := ⟨hsame.view, hsame.devs, hsame.socks, hsame.filesystem⟩
  rw [viewOf_commit hc.proc (fdOpen_only hr') hsame]
  have hfails := open_fails_iff hc hr'
  obtain ⟨r', hr'', -, ⟨hret, htable⟩ | ⟨n, c, e, hret, hfree, hfirst, hcell, htarget, htable⟩⟩ :=
    hc.inv.open hc.proc path flags mode h.open_
  · rw [hr''] at hr'
    cases hr'
    rw [opened_own htable hcommit, hret]
    exact .notOpen (hfails.mp hret)
  · rw [hr''] at hr'
    cases hr'
    have hne : ¬ r.ret = -1 := by omega
    obtain ⟨obj, hobj⟩ := Option.ne_none_iff_exists'.mp fun hnone => hne (hfails.mpr hnone)
    obtain ⟨type, htype, hstands⟩ := target_of_opens hobj
    rw [htarget] at htype
    cases htype
    have hview : (r.commit own).table.view = Table.put s.table.view own n (some e) := by
      rw [htable]
      exact hc.inv.linked.view_bind hcell
    have hopened := opened_put hcommit hview
    rw [Option.map_some, Option.bind_some, hstands] at hopened
    rw [hopened, hret]
    refine .open hobj ((opened_eq_none_iff hc.inv hc.wired).mpr hfree) fun k hk hnone => hfirst k hk ?_
    exact (opened_eq_none_iff hc.inv hc.wired).mp hnone

/-- A number that is looked up is that of a slot. -/
theorem nat_of_serverFd {procFd v : Int} (h : serverFd p procFd = .ok v) :
    ∃ n : Nat, procFd = n ∧ p.fds[n]? = some v := by
  unfold serverFd at h
  split at h
  · cases h
  · next hneg =>
      split at h
      · cases h
      · next w hw =>
          cases h
          exact ⟨procFd.toNat, by omega, hw⟩

/-- What the number of a slot stands for is the object behind the entry in it. -/
theorem opened_slot (hp : s.proc own = some p) {n : Nat} {v : Int} (hn : p.fds[n]? = some v) :
    opened s own n = (s.fdGet v).bind fun e => standsFor s e.type := by
  obtain ⟨hlt, hget⟩ := List.getElem?_eq_some_iff.mp hn
  obtain ⟨w, hw, hview⟩ := serverFd_of_lt hp hlt
  have hvw : v = w := by
    obtain ⟨k, hk, hkw⟩ := nat_of_serverFd hw
    have hkn : k = n := by omega
    rw [hkn, hn] at hkw
    exact Option.some.inj hkw
  unfold opened numbers
  rw [hview, hvw, Option.bind_map]
  rfl

theorem close_refines (hc : Caller s own p) {procFd : Int} {r : FdResult}
    (hr : s.syscallClose own procFd h.close = .ok r) :
    (viewOf s own).Call fs h (.fdClose procFd) (some (.int (if r.ret = 1 then 0 else -1)))
      (viewOf (r.commit own) own) := by
  have hsame := close_same hc.inv hr
  have hcommit : SameDevices s (r.commit own) := ⟨hsame.view, hsame.devs, hsame.socks, hsame.filesystem⟩
  unfold syscallClose at hr
  rw [hc.proc] at hr
  obtain ⟨v, hv, hr'⟩ := Eff.bind_eq_ok.mp hr
  obtain ⟨n, rfl, hn⟩ := nat_of_serverFd hv
  have hself : s.setProc own (some p) = s := setProc_self hc.proc
  rw [viewOf_commit hc.proc (fdClose_only hr') hsame]
  have hstands : (viewOf s own).opened n = _ := opened_slot hc.proc hn
  cases he : s.fdGet v with
  | none =>
      -- an empty slot, or one whose entry is gone
      rw [fdClose_of_none he] at hr'
      cases hr'
      rw [he, Option.bind_none] at hstands
      rw [FdResult.commit, hself]
      exact .notClose fun obj hobj => absurd (hstands.symm.trans hobj) (Option.some_ne_none obj).symm
  | some e =>
      obtain ⟨obj, hobj, hfile, -⟩ := entry_io hc.inv hc.wired he
      rw [he, Option.bind_some, hobj] at hstands
      have hinv : FdInv (s.setProc own (some p)) := by rw [hself]; exact hc.inv
      obtain ⟨r'', hr'', hcase⟩ := hinv.close (lt_of_proc hc.proc) hn (ne_of_fdGet he) h.close
      rw [hr''] at hr'
      cases hr'
      rcases hcase with ⟨hret, hsrv, hproc, ⟨hclose, e', fd, he', htype⟩, -⟩ | ⟨hret, hnot, -, -, -, htable⟩
      · rw [FdResult.commit, hsrv, hproc, hself, hret]
        refine .notClose fun obj' hobj' => ⟨hclose, fd, ?_⟩
        rw [he] at he'
        cases he'
        rw [hstands] at hobj'
        cases hobj'
        exact (hfile fd).mpr htype
      · rw [hself] at htable
        have hslot : s.table.slot own n = some v :=
          slot_eq_some_iff.mpr ⟨by rw [fdsOf_eq hc.proc]; exact hn, ne_of_fdGet he⟩
        have hput : (r.commit own).table.view = Table.put s.table.view own n none := by
          rw [htable]
          exact hc.inv.linked.view_unbind hslot
        rw [opened_put hcommit hput, hret]
        refine .close hstands ?_
        rintro ⟨hclose, fd, hfd⟩
        exact hnot ⟨hclose, e, fd, he, (hfile fd).mp hfd⟩

theorem read_refines (hc : Caller s own p) {procFd : Int} {buf : Ptr} {count : Nat} {r : IoResult ReadAns}
    (hr : s.syscallRead own procFd count h.read = .ok r) :
    (viewOf s own).Call fs h (.fdRead procFd buf count) (some (.int (toI32 r.ret.nbytes))) (viewOf s own) := by
  unfold syscallRead at hr
  rw [hc.proc] at hr
  obtain ⟨v, hv, hio⟩ := Eff.bind_eq_ok.mp hr
  obtain ⟨n, rfl, hn⟩ := nat_of_serverFd hv
  have hstands : (viewOf s own).opened n = _ := opened_slot hc.proc hn
  have hcall : (viewOf s own).Call fs h (.fdRead n buf count) _ (viewOf s own) := .read
  cases he : s.fdGet v with
  | none =>
      simp only [fdRead, he] at hio
      cases hio
      rwa [hstands, he] at hcall
  | some e =>
      obtain ⟨obj, hobj, -, hread, -⟩ := entry_io hc.inv hc.wired he
      obtain ⟨r', hr', hret⟩ := hread count h.read
      rw [hr'] at hio
      cases hio
      rw [hstands, he, Option.bind_some, hobj, Option.bind_some] at hcall
      rwa [hret]

theorem write_refines (hc : Caller s own p) {procFd : Int} {buf : Ptr} {count : Nat} {r : IoResult Int}
    (hr : s.syscallWrite own procFd count h.write = .ok r) :
    (viewOf s own).Call fs h (.fdWrite procFd buf count) (some (.int (toI32 r.ret))) (viewOf s own) := by
  unfold syscallWrite at hr
  rw [hc.proc] at hr
  obtain ⟨v, hv, hio⟩ := Eff.bind_eq_ok.mp hr
  obtain ⟨n, rfl, hn⟩ := nat_of_serverFd hv
  have hstands : (viewOf s own).opened n = _ := opened_slot hc.proc hn
  have hcall : (viewOf s own).Call fs h (.fdWrite n buf count) _ (viewOf s own) := .write
  cases he : s.fdGet v with
  | none =>
      simp only [fdWrite, he] at hio
      cases hio
      rwa [hstands, he] at hcall
  | some e =>
      obtain ⟨obj, hobj, -, -, hwrite⟩ := entry_io hc.inv hc.wired he
      obtain ⟨r', hr', hret⟩ := hwrite count h.write
      rw [hr'] at hio
      cases hio
      rw [hstands, he, Option.bind_some, hobj] at hcall
      rwa [hret]

theorem chdir_refines (hc : Caller s own p) {path : CStr} {ret : Int}
    (hr : s.syscallChDir own path h.setCwd = .ok (ret, t)) :
    (viewOf s own).Call fs h (.setCwd path) (some (.int ret)) (viewOf t own) := by
  have hlt := lt_of_proc hc.proc
  unfold syscallChDir Process.setCwd at hr
  rw [hc.proc] at hr
  cases hset : h.setCwd with
  | true =>
      simp only [hset, if_true] at hr
      cases hr
      have hcall : (viewOf s own).Call fs h (.setCwd path) (some (.int 0)) { viewOf s own with cwd := path } :=
        .chdir hset
      have hsame : SameDevices s (s.setProc own (some { p with cwd := some path })) := ⟨rfl, rfl, rfl, rfl⟩
      have htable : (s.setProc own (some { p with cwd := some path })).table = s.table := table_setProc hc.proc rfl
      rw [viewOf_changed hsame (setProc_length ..) (proc_setProc_self hlt _), opened_own htable hsame]
      rwa [viewOf_eq hc.proc] at hcall ⊢
  | false =>
      simp only [hset, Bool.false_eq_true, if_false] at hr
      cases hr
      rw [setProc_self hc.proc]
      exact .notChdir hset

theorem setEnviron_environ (p : Process) (env : Option (List CStr)) (array : Bool) (entry : Nat → Bool) :
    (p.setEnviron env array entry).2.environ = View.copied env array entry := by
  unfold Process.setEnviron View.copied
  cases env with
  | none => rfl
  | some es => simp only [Option.bind_some]; split <;> rfl

theorem exec_refines (hc : Caller s own p) {path : CStr} {argc : Nat} {argv : List CStr} {r : Spawned}
    (hr : s.syscallExec own path argv h.exec h.self = .ok r) :
    (viewOf s own).Call s.filesystem h (.exec path argc argv) none (viewOf r.srv own) := by
  rcases syscallExec_exact hr with ⟨hno, rfl⟩ | ⟨curr, cwd, r', hp', hyes, hcwd, hfree, rfl⟩
  · exact .notExec hno
  · rw [hc.proc] at hp'
    cases hp'
    have hprocs := processFree_procs hfree
    have hlt : own < r'.srv.procs.length := by rw [hprocs]; exact lt_of_proc hc.proc
    have hfreed := free_same hc.inv hc.proc hfree
    have hexec : (viewOf s own).Call s.filesystem h (.exec path argc argv) none
        ((viewOf s own).execed s.filesystem path argv h.exec) := .exec hyes.1 hyes.2
    have hsame : ∀ q, SameDevices s (r'.srv.setProc own (some q)) :=
      fun _ => ⟨hfreed.view, hfreed.devs, hfreed.socks, hfreed.filesystem⟩
    have hlen : ∀ q, (r'.srv.setProc own (some q)).procs.length = s.procs.length :=
      fun _ => by rw [setProc_length, hprocs]
    rw [execed_eq]
    dsimp only
    rw [viewOf_changed (hsame _) (hlen _) (proc_setProc_self hlt _), opened_nil (proc_setProc_self hlt _) rfl,
      setEnviron_environ]
    rw [viewOf_eq hc.proc] at hexec ⊢
    have hdir : (if h.exec.cwd = true then some cwd else some (dirname path)).getD [] =
        if h.exec.cwd = true then p.cwd.getD [] else dirname path := by
      rw [hcwd]
      split <;> rfl
    rw [show (Process.ofFile (s.filesystem ++ path) (dirname path) (lastPart path)).cwd = some (dirname path) from rfl,
      hdir]
    exact hexec

/-- **A fork** whose copy is made adds a process when the host forks, and changes nothing otherwise. -/
theorem fork_refines (hc : Caller s own p) {host : ForkHost} {r : Spawned} (hr : s.processFork own host = .ok r) :
    host.copy.succeeds (viewOf s own).argv.length = true ∧
    ((host.fork < 0 ∧ r.ret = -1 ∧ r.child = none ∧ r.srv = s) ∨
     (0 ≤ host.fork ∧ r.ret = s.procs.length ∧
        viewOf r.srv own = { viewOf s own with next := s.procs.length + 1 } ∧
        ∃ c, r.child = some c ∧ viewOf c s.procs.length = (viewOf s own).forked host.copy)) := by
  have hargs : (viewOf s own).argv = p.argv.getD [] := by rw [viewOf_eq hc.proc]
  obtain ⟨hyes, hno⟩ := Process.forkCopy_iff hc.strings host.copy
  have hsucceeds : host.copy.succeeds (viewOf s own).argv.length = true := by
    rw [hargs]
    by_contra hfails
    obtain ⟨e, he⟩ := hno (by simpa using hfails)
    unfold processFork at hr
    rw [hc.proc] at hr
    simp only [he, bind, Except.bind] at hr
    cases hr
  refine ⟨hsucceeds, ?_⟩
  rcases processFork_cases hr with ⟨hforks, rfl⟩ | ⟨c, ⟨hfork, parent, child, hp', hcopy⟩, hfds, -, hr'⟩
  · refine Or.inl ⟨?_, rfl, rfl, rfl⟩
    by_contra hnonneg
    obtain ⟨c, hcopy⟩ := hyes (by rwa [hargs] at hsucceeds)
    exact hforks ⟨by omega, p, c, hc.proc, hcopy⟩
  · rw [hc.proc] at hp'
    cases hp'
    have hparent : SameTables s r.srv := fork_same hr (Or.inl rfl)
    have hop : ImageOp.run s (.fork own host) = .ok r := hr
    obtain ⟨hsame, hchildren⟩ := imageOp_same hc.inv hop
    refine Or.inr ⟨hfork, by rw [hr'], ?_, ?_⟩
    · have hproc : r.srv.proc own = some p := by
        rw [hr']
        show ((s.procs ++ [some c])[own]?).join = _
        rw [List.getElem?_append_left (lt_of_proc hc.proc)]
        exact hc.proc
      have hlen : r.srv.procs.length = s.procs.length + 1 := by rw [hr']; simp
      rw [viewOf_eq hproc, viewOf_eq hc.proc, deviceObjs_same hsame,
        opened_own (table_congr hparent.entries hparent.fds) hsame, hlen]
    · obtain ⟨cs, hcs⟩ : ∃ cs, r.child = some cs := by
        rw [hr']
        exact ⟨_, rfl⟩
      obtain ⟨c', hcopy', hchild⟩ := ForkCopy.child_of_fork hc.proc hr hcs
      obtain ⟨name, path, cwd, -, hpath, hcwd, hexact⟩ := Process.forkCopy_exact hcopy'
      have henv : c'.environ = View.copied p.environ host.copy.environ host.copy.environEntry := by
        rw [hexact]
        exact setEnviron_environ _ _ _ _
      obtain ⟨e, he⟩ := Process.setEnviron_eq
        ({ argv := some (p.argv.getD []), name := some name, path := some path, cwd := some cwd,
           dlHandle := some path, state := p.state } : Process) p.environ host.copy.environ host.copy.environEntry
      rw [he] at hexact
      have hlen : cs.procs.length = s.procs.length + 1 := by
        rw [hr'] at hcs
        cases hcs
        simp
      refine ⟨cs, hcs, ?_⟩
      rw [viewOf_eq hchild, viewOf_eq hc.proc, deviceObjs_same (hchildren cs hcs),
        opened_nil hchild (Process.forkCopy_some hcopy').1, hlen]
      dsimp only
      rw [henv, hexact, hpath, hcwd]
      rfl

/-- **A system call is a call of the process**: what is stored for it and what becomes of it. -/
theorem call_refines (hc : Caller s own p) {op : ServerOp} {r : SysResult} (hr : s.perform own op h = .ok r)
    (hfork : op ≠ .processFork) (hexit : op.isExit = false) :
    r.child = none ∧ (viewOf s own).Call s.filesystem h op r.stored (viewOf r.srv own) := by
  cases op with
  | processFork => exact absurd rfl hfork
  | syscallExit status => cases hexit
  | getPid =>
      cases hr
      exact ⟨rfl, .getPid⟩
  | realloc ptr size =>
      cases hr
      exact ⟨rfl, .realloc⟩
  | exec path argc argv =>
      obtain ⟨r', hr', hr⟩ := Eff.bind_eq_ok.mp hr
      cases hr
      exact ⟨rfl, exec_refines hc hr'⟩
  | getCwd buf size =>
      obtain ⟨ret, hret, hr⟩ := Eff.bind_eq_ok.mp hr
      cases hr
      obtain ⟨cwd, hcwd⟩ := Option.ne_none_iff_exists'.mp hc.strings.2.2
      have hlen : (viewOf s own).cwd = cwd := by rw [viewOf_eq hc.proc, hcwd]; rfl
      have hcall : (viewOf s own).Call s.filesystem h (.getCwd buf size)
          (if buf = .null then none else some (.int (toU32 ((viewOf s own).cwd.length + 1)))) (viewOf s own) := .getCwd
      rw [hlen] at hcall
      refine ⟨rfl, ?_⟩
      unfold syscallGetCwd at hret
      simp only [hc.proc, hcwd] at hret
      split at hret
      · next hbuf =>
          cases hret
          rwa [if_pos hbuf] at hcall
      · next hbuf =>
          cases hret
          rwa [if_neg hbuf] at hcall
  | setCwd path =>
      obtain ⟨⟨ret, t⟩, hr', hr⟩ := Eff.bind_eq_ok.mp hr
      cases hr
      exact ⟨rfl, chdir_refines hc hr'⟩
  | fdRead procFd buf count =>
      obtain ⟨r', hr', hr⟩ := Eff.bind_eq_ok.mp hr
      cases hr
      exact ⟨rfl, read_refines hc hr'⟩
  | fdWrite procFd buf count =>
      obtain ⟨r', hr', hr⟩ := Eff.bind_eq_ok.mp hr
      cases hr
      exact ⟨rfl, write_refines hc hr'⟩
  | fdOpenFdFromPath path flags mode =>
      obtain ⟨r', hr', hr⟩ := Eff.bind_eq_ok.mp hr
      cases hr
      exact ⟨rfl, open_refines hc hr'⟩
  | fdClose procFd =>
      obtain ⟨r', hr', hr⟩ := Eff.bind_eq_ok.mp hr
      cases hr
      exact ⟨rfl, close_refines hc hr'⟩

/-! ## A program that starts -/

/-- **A program that the server starts** has of its own what it is started with; whether it runs or not, the next gets
    another process id once it is loaded. -/
theorem start_refines (hs : s.procs ≠ []) {path : CStr} (habs : path.head? = some 47) {args : List CStr}
    {host : StartHost} {r : Spawned} (hr : s.startProcess path args host = .ok r) :
    (r.srv.procs.length = if host.load.succeeds then s.procs.length + 1 else s.procs.length) ∧
      ∀ c, r.child = some c →
        viewOf c s.procs.length = .start s.filesystem path args s.procs.length (deviceObjs s) := by
  rcases startProcess_cases hs path args host with ⟨hno, hr'⟩ | ⟨hyes, hr'⟩
  · rw [hr'] at hr
    cases hr
    rw [if_neg fun hload => hno ⟨habs, hload⟩]
    exact ⟨rfl, nofun⟩
  · rw [hr'] at hr
    rw [if_pos hyes.2]
    split at hr
    · cases hr
      refine ⟨by simp, fun c hc => ?_⟩
      cases hc
      have hlt : s.procs.length <
          (s.procs ++ [some (Process.ofFile (s.filesystem ++ path) (dirname path) (lastPart path))]).length := by simp
      rw [viewOf_eq (proc_setProc_self hlt _), opened_nil (proc_setProc_self hlt _) rfl, setProc_length,
        List.length_append]
      rfl
    · cases hr
      exact ⟨by simp, nofun⟩

end Views
end DistributedPlatform
