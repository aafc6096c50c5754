import Mathlib.Data.Finset.Card
import Mathlib.Data.Finset.Range
import DistributedPlatform.Correctness.FdTable

/-!
# `Correctness.DeviceCounts` — how often a device is open, counted twice

The registry counts the opens of each device; the descriptor table has an entry for each open one. An open
raises the count before it makes the entry, and nothing that drops an entry lowers the count.

* `counted_step` — a step keeps the two in step unless it is `Miscounted`, and then it does not;
* `agrees_iff` — along a run of an image they agree after every step if and only if no step is.
-/

namespace DistributedPlatform
namespace DeviceCounts

open Server Indirect Machine FdTable

/-! ## The two counts -/

/-- The live entries of the descriptor table that are for device `k`, by their index. -/
def holders (s : Server) (k : Nat) : Finset Nat :=
  (Finset.range s.fdEntries.length).filter fun i => (s.fdGet i).any (·.type == .fdTypeDevice k) = true

/-- The count of each registered device is the number of its live entries. -/
def Counted (s : Server) : Prop := ∀ e ∈ s.devices.entries, e.refCount = (holders s e.device).card

/-- Some process has the device open. -/
def InUse (s : Server) (k : Nat) : Prop :=
  ∃ pid n v x, HasSlot s pid n v ∧ s.fdGet v = some x ∧ x.type = .fdTypeDevice k

/-- `remove` succeeds on the devices no process has open, and on no others. -/
def Removable (s : Server) : Prop :=
  ∀ e ∈ s.devices.entries, (s.devices.remove (some e.name)).1 = true ↔ ¬ InUse s e.device

/-- What is asked of each state reached. -/
structure Agrees (s : Server) : Prop where
  counted : Counted s
  removable : Removable s

/-- The process has a device open. -/
def HoldsDevice (s : Server) (pid : Nat) : Prop :=
  ∃ n v x k, HasSlot s pid n v ∧ s.fdGet v = some x ∧ x.type = .fdTypeDevice k

/-- The steps that change one count only: an open of a registered device whose entry cannot be allocated, or
    of one counted as far as an `int` goes; and a close, exec or exit that gives up the entry of a device. -/
def Miscounted (s : Server) : ImageOp → Prop
  | .open _ path _ _ h => (bytes "/dev/").isPrefixOf path = true ∧
      ∃ e, s.devices.get (path.drop 5) = some e ∧ (h.entry = false ∨ e.refCount = 2 ^ 31 - 1)
  | .close pid procFd _ => ∃ v x k, HasSlot s pid procFd.toNat v ∧ s.fdGet v = some x ∧
      x.type = .fdTypeDevice k
  | .exec pid path _ h _ => path.head? = some 47 ∧ h.load.succeeds = true ∧ HoldsDevice s pid
  | .exit pid _ => HoldsDevice s pid
  | .fork _ _ => False
  | .start _ _ _ => False

variable {s t : Server}

theorem mem_holders {k i : Nat} :
    i ∈ holders s k ↔ ∃ x, s.fdGet i = some x ∧ x.type = .fdTypeDevice k := by
  unfold holders
  rw [Finset.mem_filter, Finset.mem_range]
  constructor
  · rintro ⟨-, hany⟩
    cases hx : s.fdGet i with
    | none => rw [hx] at hany; cases hany
    | some x => rw [hx] at hany; exact ⟨x, rfl, by simpa using hany⟩
  · rintro ⟨x, hx, htype⟩
    have hlt := (List.getElem?_eq_some_iff.mp (fdGet_eq_some_iff.mp hx).2).1
    refine ⟨by simpa using hlt, ?_⟩
    rw [hx]
    simpa using htype

/-- The invariant: the tables are linked, names and devices of the registry distinct, every device entry is
    for a registered device and held by a process, and the counts agree. -/
structure Synced (s : Server) : Prop where
  inv : FdInv s
  names : s.devices.Distinct
  devices : (s.devices.entries.map (·.device)).Nodup
  fits : ∀ e ∈ s.devices.entries, FitsI32 e.refCount
  registered : ∀ v x k, s.fdGet v = some x → x.type = .fdTypeDevice k → ∃ e ∈ s.devices.entries, e.device = k
  held : ∀ v x k, s.fdGet v = some x → x.type = .fdTypeDevice k → ∃ pid n, s.table.slot pid n = some v
  counted : Counted s

/-- The lookup of a held number is not negative. -/
theorem holders_of_fdGet {v : Int} {x : FdEntry} {k : Nat} (hx : s.fdGet v = some x)
    (htype : x.type = .fdTypeDevice k) : v.toNat ∈ holders s k := by
  rw [mem_holders, Int.toNat_of_nonneg (fdGet_eq_some_iff.mp hx).1]
  exact ⟨x, hx, htype⟩

/-- **Counts that agree are what `remove` needs**, as long as every device entry is held. -/
theorem Synced.removable (h : Synced s) : Removable s := by
  intro e he
  rw [Devices.remove_iff h.names he, h.counted e he]
  constructor
  · rintro hzero ⟨pid, n, v, x, -, hx, htype⟩
    have hpos := Finset.card_pos.mpr ⟨_, holders_of_fdGet hx htype⟩
    omega
  · intro hfree
    by_contra hpos
    obtain ⟨i, hi⟩ := Finset.card_pos.mp (show 0 < (holders s e.device).card by omega)
    obtain ⟨x, hx, htype⟩ := mem_holders.mp hi
    obtain ⟨pid, n, hslot⟩ := h.held _ x _ hx htype
    exact hfree ⟨pid, n, _, x, hasSlot_of_slot hslot, hx, htype⟩

theorem Synced.agrees (h : Synced s) : Agrees s := ⟨h.counted, h.removable⟩

/-! ## Steps that leave both counts alone -/

theorem holders_congr (h : t.fdGet = s.fdGet) (k : Nat) : holders t k = holders s k := by
  ext i
  rw [mem_holders, mem_holders, h]

theorem Synced.congr (h : Synced s) (hst : SameTables s t) : Synced t := by
  have hget := fdGet_congr hst.entries
  have htable := table_congr hst.entries hst.fds
  refine ⟨(hst.kept h.inv []).inv, ?_, ?_, ?_, ?_, ?_, ?_⟩
  · rw [hst.devices]; exact h.names
  · rw [hst.devices]; exact h.devices
  · rw [hst.devices]; exact h.fits
  · rw [hst.devices, hget]; exact h.registered
  · rw [hget, htable]; exact h.held
  · intro e he
    rw [hst.devices] at he
    rw [holders_congr hget]
    exact h.counted e he

/-! ## Giving up entries -/

/-- The registry is left alone, entries are gone and none is new; every device entry left is held. -/
structure Dropped (s t : Server) : Prop where
  inv : FdInv t
  devices : t.devices = s.devices
  cell : ∀ v, t.fdGet v = s.fdGet v ∨ t.fdGet v = none
  held : ∀ v x k, t.fdGet v = some x → x.type = .fdTypeDevice k → ∃ pid n, t.table.slot pid n = some v

theorem Dropped.old (h : Dropped s t) {v : Int} {x : FdEntry} (hx : t.fdGet v = some x) :
    s.fdGet v = some x := by
  rcases h.cell v with hsame | hnone
  · rw [← hsame]; exact hx
  · rw [hnone] at hx; cases hx

theorem Dropped.subset (h : Dropped s t) (k : Nat) : holders t k ⊆ holders s k := by
  intro i hi
  obtain ⟨x, hx, htype⟩ := mem_holders.mp hi
  exact mem_holders.mpr ⟨x, h.old hx, htype⟩

/-- When no device entry is gone the counts agree still. -/
theorem Dropped.synced (h : Dropped s t) (hs : Synced s)
    (hkept : ∀ v x k, s.fdGet v = some x → x.type = .fdTypeDevice k → t.fdGet v = some x) : Synced t := by
  refine ⟨h.inv, ?_, ?_, ?_, ?_, h.held, ?_⟩
  · rw [h.devices]; exact hs.names
  · rw [h.devices]; exact hs.devices
  · rw [h.devices]; exact hs.fits
  · intro v x k hx htype
    rw [h.devices]
    exact hs.registered v x k (h.old hx) htype
  · intro e he
    rw [h.devices] at he
    have hsame : holders t e.device = holders s e.device := by
      refine Finset.Subset.antisymm (h.subset _) ?_
      intro i hi
      obtain ⟨x, hx, htype⟩ := mem_holders.mp hi
      exact mem_holders.mpr ⟨x, hkept _ x _ hx htype, htype⟩
    rw [hsame]
    exact hs.counted e he

/-- When one is gone its device is counted too often. -/
theorem Dropped.not_counted (h : Dropped s t) (hs : Synced s) {v : Int} {x : FdEntry} {k : Nat}
    (hx : s.fdGet v = some x) (htype : x.type = .fdTypeDevice k) (hgone : t.fdGet v = none) :
    ¬ Counted t := by
  intro hcount
  obtain ⟨e, he, rfl⟩ := hs.registered v x k hx htype
  have hnot : v.toNat ∉ holders t e.device := by
    intro hi
    obtain ⟨y, hy, -⟩ := mem_holders.mp hi
    rw [Int.toNat_of_nonneg (fdGet_eq_some_iff.mp hx).1, hgone] at hy
    cases hy
  have hlt : (holders t e.device).card < (holders s e.device).card :=
    Finset.card_lt_card ⟨h.subset _, fun hsub => hnot (hsub (holders_of_fdGet hx htype))⟩
  have hnew := hcount e (by rw [h.devices]; exact he)
  have hold := hs.counted e he
  omega

/-- The entry of a device is closed without asking the host. -/
theorem not_refuses_device {v closeRet : Int} {x : FdEntry} {k : Nat} (hx : s.fdGet v = some x)
    (htype : x.type = .fdTypeDevice k) : ¬ s.Refuses v closeRet := by
  rintro ⟨-, e, fd, he, hfile⟩
  rw [hx] at he
  cases he
  rw [htype] at hfile
  cases hfile

theorem counted_close (hs : Synced s) {pid : Nat} {procFd closeRet : Int} {r : FdResult}
    (hr : s.syscallClose pid procFd closeRet = .ok r) :
    (¬ Miscounted s (.close pid procFd closeRet) → Synced (r.commit pid)) ∧
      (Miscounted s (.close pid procFd closeRet) → ¬ Counted (r.commit pid)) := by
  have hslot_of : ∀ {v : Int} {x : FdEntry}, HasSlot s pid procFd.toNat v → s.fdGet v = some x →
      s.table.slot pid procFd.toNat = some v :=
    fun hslot hx => slot_of_hasSlot hslot (ne_of_fdGet hx)
  rcases syscallClose_cases hs.inv hr with ⟨-, hsame, hrefused⟩ | ⟨-, hinv, hdevices, v, hslot, htable⟩
  · rw [hsame]
    refine ⟨fun _ => hs, ?_⟩
    rintro ⟨v, x, k, hv, hx, htype⟩
    exact absurd (hrefused v (hslot_of hv hx)) (not_refuses_device hx htype)
  · -- the slot and its entry are gone; the device, if it was one, goes on being counted
    have hcell : (r.commit pid).fdGet = Function.update s.fdGet v none := congrArg Table.cell htable
    have hdropped : Dropped s (r.commit pid) := by
      refine ⟨hinv, hdevices, ?_, ?_⟩
      · intro w
        rw [hcell]
        by_cases hw : w = v
        · exact Or.inr (by rw [hw, Function.update_self])
        · exact Or.inl (Function.update_of_ne hw _ _)
      · intro w x k hx htype
        rw [hcell] at hx
        have hw : w ≠ v := by
          rintro rfl
          rw [Function.update_self] at hx
          cases hx
        rw [Function.update_of_ne hw] at hx
        obtain ⟨q, n, hq⟩ := hs.held w x k hx htype
        have hne : ¬ (q = pid ∧ n = procFd.toNat) := by
          rintro ⟨rfl, rfl⟩
          rw [hslot] at hq
          exact hw (Option.some.inj hq).symm
        refine ⟨q, n, ?_⟩
        rw [htable]
        exact (Table.put_ne hne).trans hq
    constructor
    · intro hgood
      refine hdropped.synced hs ?_
      intro w x k hx htype
      have hw : w ≠ v := by
        rintro rfl
        exact hgood ⟨w, x, k, hasSlot_of_slot hslot, hx, htype⟩
      rw [hcell, Function.update_of_ne hw]
      exact hx
    · rintro ⟨w, x, k, hw, hx, htype⟩
      have hwv := hslot_of hw hx
      rw [hslot] at hwv
      cases hwv
      refine hdropped.not_counted hs hx htype ?_
      rw [hcell, Function.update_self]

/-- A freed process whose object is replaced by one without descriptors, or by none: its device entries are
    gone, those of the other processes are left. -/
theorem counted_free (hs : Synced s) {pid : Nat} {curr : Process} (hp : s.proc pid = some curr)
    {close : Nat → Int} {r : FdResult} (hr : s.processFree curr close = .ok r) {y : Option Process}
    (hy : ∀ q, y = some q → q.fds = []) :
    (¬ HoldsDevice s pid → Synced (r.srv.setProc pid y)) ∧
      (HoldsDevice s pid → ¬ Counted (r.srv.setProc pid y)) := by
  have hkept := kept_replace hs.inv hp hr hy
  obtain ⟨r', hr', -, ⟨entries, hsrv⟩, hrel, hall⟩ := hs.inv.free hp close
  rw [hr] at hr'
  cases hr'
  have hp' : (r.commit pid).proc pid = some r.proc :=
    proc_setProc_self (by rw [hsrv]; exact lt_of_proc hp) _
  have htable : (r.srv.setProc pid y).table = (r.commit pid).table.drop pid := by
    rw [← table_setProc_nil hp' hy]
    exact congrArg Server.table (setProc_setProc _ _ _ _).symm
  have hcell : ∀ v, (r.srv.setProc pid y).fdGet v = (r.commit pid).table.cell v := fun v => rfl
  -- a device entry of the process goes with its slot
  have hgone : ∀ {n : Nat} {v : Int} {x : FdEntry} {k : Nat}, s.table.slot pid n = some v →
      s.fdGet v = some x → x.type = .fdTypeDevice k → (r.srv.setProc pid y).fdGet v = none := by
    intro n v x k hslot hx htype
    rcases hall n v hslot with ⟨-, hno, -⟩ | ⟨hempty, -⟩
    · exact absurd hno (not_refuses_device hx htype)
    · exact hrel.cell_of_slot hslot hempty
  have hdropped : Dropped s (r.srv.setProc pid y) := by
    refine ⟨hkept.inv, ?_, ?_, ?_⟩
    · show r.srv.devices = s.devices
      rw [hsrv]
    · intro v
      exact hrel.cell v
    · intro v x k hx htype
      have hold : s.fdGet v = some x := by
        rcases hrel.cell v with hsame | hnone
        · exact hsame.symm.trans hx
        · exact absurd (hnone.symm.trans hx) nofun
      obtain ⟨q, n, hq⟩ := hs.held v x k hold htype
      have hqp : q ≠ pid := by
        rintro rfl
        rw [hgone hq hold htype] at hx
        cases hx
      refine ⟨q, n, ?_⟩
      rw [htable]
      show (if q = pid then none else (r.commit pid).table.slot q n) = some v
      rw [if_neg hqp, hrel.slot_other hqp]
      exact hq
  constructor
  · intro hnone
    refine hdropped.synced hs ?_
    intro v x k hx htype
    rw [hcell, hrel.cell_kept, show s.table.cell v = s.fdGet v from rfl, hx]
    intro n hslot
    exact hnone ⟨n, v, x, k, hasSlot_of_slot hslot, hx, htype⟩
  · rintro ⟨n, v, x, k, hslot, hx, htype⟩
    exact hdropped.not_counted hs hx htype (hgone (slot_of_hasSlot hslot (ne_of_fdGet hx)) hx htype)

/-! ## Opening -/

/-- A new entry is one more live entry of its device. -/
theorem holders_bound {i : Nat} {e : FdEntry} (hnone : s.fdGet i = none)
    (hup : t.fdGet = Function.update s.fdGet i (some e)) (k : Nat) :
    holders t k = if e.type = .fdTypeDevice k then insert i (holders s k) else holders s k := by
  have hnot : i ∉ holders s k := by
    intro hi
    obtain ⟨x, hx, -⟩ := mem_holders.mp hi
    rw [hnone] at hx
    cases hx
  ext j
  by_cases hj : j = i
  · subst hj
    rw [mem_holders, hup, Function.update_self]
    by_cases htype : e.type = .fdTypeDevice k
    · rw [if_pos htype]
      exact iff_of_true ⟨e, rfl, htype⟩ (Finset.mem_insert_self _ _)
    · rw [if_neg htype]
      refine iff_of_false ?_ hnot
      rintro ⟨x, hx, hxt⟩
      cases hx
      exact htype hxt
  · have hsame : j ∈ holders t k ↔ j ∈ holders s k := by
      rw [mem_holders, mem_holders, hup, Function.update_of_ne (by omega)]
    rw [hsame]
    split
    · exact ⟨Finset.mem_insert_of_mem, fun h => (Finset.mem_insert.mp h).resolve_left hj⟩
    · exact Iff.rfl

theorem holders_card_bound {i : Nat} {e : FdEntry} {k : Nat} (hnone : s.fdGet i = none)
    (hup : t.fdGet = Function.update s.fdGet i (some e)) (htype : e.type = .fdTypeDevice k) :
    (holders t k).card = (holders s k).card + 1 := by
  rw [holders_bound hnone hup, if_pos htype]
  apply Finset.card_insert_of_notMem
  intro hi
  obtain ⟨x, hx, -⟩ := mem_holders.mp hi
  rw [hnone] at hx
  cases hx

/-- What an open that made an entry leaves: the entry, in a slot of the process. -/
theorem bound_held (hs : Synced s) {pid : Nat} {curr : Process} (hp : s.proc pid = some curr)
    {devices : Devices Nat} {i : Nat} {entries : List (Option FdEntry)} {e : FdEntry}
    (hup : { s with fdEntries := entries }.fdGet = Function.update s.fdGet i (some e)) :
    ∀ v x k,
      ({ s with fdEntries := entries, devices := devices }.setProc pid (some (curr.fdAdd i).2)).fdGet v = some x →
      x.type = .fdTypeDevice k → ∃ q n,
        ({ s with fdEntries := entries, devices := devices }.setProc pid
          (some (curr.fdAdd i).2)).table.slot q n = some v := by
  intro v x k hx htype
  obtain ⟨n, -, hfree, -, htable⟩ := table_fdAdd hp devices hup
  have hx' : ({ s with fdEntries := entries } : Server).fdGet v = some x := hx
  rw [hup] at hx'
  rw [htable]
  by_cases hv : v = i
  · exact ⟨pid, n, by rw [hv]; exact Table.put_self _ _ _ _⟩
  · rw [Function.update_of_ne hv] at hx'
    obtain ⟨q, m, hq⟩ := hs.held v x k hx' htype
    have hne : ¬ (q = pid ∧ m = n) := by
      rintro ⟨rfl, rfl⟩
      rw [hfree] at hq
      cases hq
    exact ⟨q, m, (Table.put_ne hne).trans hq⟩

/-- A file is opened: no count changes. -/
theorem synced_file (hs : Synced s) {pid : Nat} {curr : Process} (hp : s.proc pid = some curr) {fd : Int}
    {calls : List HostCall} {x : Eff FdResult} {r : FdResult} (hr : x = .ok r) (hinv : FdInv (r.commit pid))
    (hb : s.Bound curr s.devices (.fdTypeFd fd) calls x) : Synced (r.commit pid) := by
  obtain ⟨i, entries, hnone, hr', hup⟩ := hb
  rw [hr'] at hr
  cases hr
  refine ⟨hinv, hs.names, hs.devices, hs.fits, ?_, bound_held hs hp hup, ?_⟩
  · intro v x k hx htype
    have hx' : ({ s with fdEntries := entries } : Server).fdGet v = some x := hx
    rw [hup] at hx'
    by_cases hv : v = i
    · rw [hv, Function.update_self] at hx'
      cases hx'
      cases htype
    · rw [Function.update_of_ne hv] at hx'
      exact hs.registered v x k hx' htype
  · intro e he
    have hsame := holders_bound (t := { s with fdEntries := entries }) hnone hup e.device
    rw [if_neg nofun] at hsame
    show e.refCount = (holders { s with fdEntries := entries } e.device).card
    rw [hsame]
    exact hs.counted e he

/-- An entry of the registry after the open of `e`: it is `e` with its count raised, or another one, for
    another device. -/
theorem mem_counted (hs : Synced s) {name : CStr} {e e' : DeviceEntry Nat}
    (he : s.devices.get name = some e)
    (he' : e' ∈ (s.devices.modifyCount name fun n => toI32 (n + 1)).entries) :
    e' = { e with refCount := toI32 (e.refCount + 1) } ∨ (e' ∈ s.devices.entries ∧ e'.device ≠ e.device) := by
  obtain ⟨hmem, hname⟩ := Devices.mem_of_get he
  refine ((Devices.mem_modifyCount_iff hs.names he _).mp he').imp_right fun ⟨hold, hne⟩ => ⟨hold, ?_⟩
  intro hdev
  rw [List.inj_on_of_nodup_map hs.devices hold hmem hdev] at hne
  exact hne hname

theorem counted_mem (hs : Synced s) {name : CStr} {e : DeviceEntry Nat}
    (he : s.devices.get name = some e) :
    { e with refCount := toI32 (e.refCount + 1) } ∈
      (s.devices.modifyCount name fun n => toI32 (n + 1)).entries :=
  (Devices.mem_modifyCount_iff hs.names he _).mpr (Or.inl rfl)

/-- The devices registered are those registered before. -/
theorem registered_counted (hs : Synced s) {name : CStr} {e e₀ : DeviceEntry Nat}
    (he : s.devices.get name = some e) (he₀ : e₀ ∈ s.devices.entries) :
    ∃ e' ∈ (s.devices.modifyCount name fun n => toI32 (n + 1)).entries, e'.device = e₀.device := by
  by_cases hname : e₀.name = name
  · have hsame := (Devices.get_eq_some_iff hs.names).mpr ⟨he₀, hname⟩
    rw [he] at hsame
    cases hsame
    exact ⟨_, counted_mem hs he, rfl⟩
  · exact ⟨e₀, (Devices.mem_modifyCount_iff hs.names he _).mpr (Or.inr ⟨he₀, hname⟩), rfl⟩

/-- A device is opened, and its entry is made: the counts agree as long as the `int` goes on counting. -/
theorem counted_device (hs : Synced s) {pid : Nat} {curr : Process} (hp : s.proc pid = some curr)
    {name : CStr} {e : DeviceEntry Nat} (he : s.devices.get name = some e) {x : Eff FdResult} {r : FdResult}
    (hr : x = .ok r) (hinv : FdInv (r.commit pid))
    (hb : s.Bound curr (s.devices.modifyCount name fun n => toI32 (n + 1)) (.fdTypeDevice e.device) [] x) :
    (e.refCount ≠ 2 ^ 31 - 1 → Synced (r.commit pid)) ∧
      (e.refCount = 2 ^ 31 - 1 → ¬ Counted (r.commit pid)) := by
  obtain ⟨i, entries, hnone, hr', hup⟩ := hb
  rw [hr'] at hr
  cases hr
  have hmem := (Devices.mem_of_get he).1
  have hfits := hs.fits e hmem
  have hcount := hs.counted e hmem
  have hcard := holders_card_bound (t := { s with fdEntries := entries }) (k := e.device) hnone hup rfl
  have hnew := counted_mem hs he
  constructor
  · -- one more in the registry, one more entry
    intro hlast
    have hsucc : toI32 (e.refCount + 1) = e.refCount + 1 := by
      rw [toI32_eq_self_iff]
      unfold FitsI32 at hfits ⊢
      omega
    refine ⟨hinv, hs.names.modifyCount _ _, ?_, ?_, ?_, bound_held hs hp hup, ?_⟩
    · show ((s.devices.modifyCount name fun n => toI32 (n + 1)).entries.map (·.device)).Nodup
      rw [Devices.modifyCount_entries _ _ _ fun _ device => device]
      exact hs.devices
    · intro e' he'
      rcases mem_counted hs he he' with rfl | ⟨hold, -⟩
      · exact fitsI32_toI32 _
      · exact hs.fits e' hold
    · intro v y k hy htype
      have hy' : ({ s with fdEntries := entries } : Server).fdGet v = some y := hy
      rw [hup] at hy'
      by_cases hv : v = i
      · rw [hv, Function.update_self] at hy'
        cases hy'
        cases htype
        exact ⟨_, hnew, rfl⟩
      · rw [Function.update_of_ne hv] at hy'
        obtain ⟨e₀, he₀, rfl⟩ := hs.registered v y k hy' htype
        exact registered_counted hs he he₀
    · intro e' he'
      show e'.refCount = (holders { s with fdEntries := entries } e'.device).card
      rcases mem_counted hs he he' with rfl | ⟨hold, hdev⟩
      · show toI32 (e.refCount + 1) = (holders { s with fdEntries := entries } e.device).card
        rw [hsucc, hcard, hcount]
        omega
      · have hsame := holders_bound (t := { s with fdEntries := entries }) hnone hup e'.device
        rw [if_neg (fun htype => hdev (FdType.fdTypeDevice.inj htype).symm)] at hsame
        rw [hsame]
        exact hs.counted e' hold
  · -- the count wraps to a negative number
    intro hlast hbad
    have hwrong := hbad _ hnew
    have hwrong' : toI32 (e.refCount + 1) = (holders { s with fdEntries := entries } e.device).card := hwrong
    rw [hcard, hlast] at hwrong'
    have hneg : toI32 ((2 : Int) ^ 31 - 1 + 1) = -2 ^ 31 := rfl
    rw [hneg] at hwrong'
    omega

/-- A device is opened, and there is no memory for the entry: the registry has counted it. -/
theorem not_counted_entry (hs : Synced s) (pid : Nat) (curr : Process) {name : CStr} {e : DeviceEntry Nat}
    (he : s.devices.get name = some e) :
    ¬ Counted ({ s with devices := s.devices.modifyCount name fun n => toI32 (n + 1) }.setProc pid
      (some curr)) := by
  intro hbad
  have hmem := (Devices.mem_of_get he).1
  have hfits := hs.fits e hmem
  have hwrong : toI32 (e.refCount + 1) = (holders s e.device).card := hbad _ (counted_mem hs he)
  rw [← hs.counted e hmem] at hwrong
  unfold FitsI32 at hfits
  unfold toI32 at hwrong
  omega

theorem counted_open (hs : Synced s) {pid : Nat} {path : CStr} {flags : Int} {mode : Nat} {h : OpenHost}
    {r : FdResult} (hr : s.syscallOpen pid path flags mode h = .ok r) :
    (¬ Miscounted s (.open pid path flags mode h) → Synced (r.commit pid)) ∧
      (Miscounted s (.open pid path flags mode h) → ¬ Counted (r.commit pid)) := by
  have hinv := (kept_open hs.inv hr).inv
  unfold syscallOpen at hr
  cases hp : s.proc pid with
  | none => rw [hp] at hr; cases hr
  | some curr =>
      rw [hp] at hr
      have hself : s.setProc pid (some curr) = s := setProc_self hp
      unfold fdOpenFdFromPath at hr
      dsimp only at hr
      by_cases hdev : (bytes "/dev/").isPrefixOf path = true
      · rw [if_pos hdev] at hr
        rcases fdOpenFdFromDevice_exact hs.inv.allTyped curr (path.drop 5) flags mode h with
          ⟨hget, hr'⟩ | ⟨e, hget, ⟨hentry, hr'⟩ | ⟨hentry, hb⟩⟩
        · rw [hr'] at hr
          cases hr
          show (_ → Synced (s.setProc pid (some curr))) ∧ (_ → ¬ Counted (s.setProc pid (some curr)))
          rw [hself]
          refine ⟨fun _ => hs, ?_⟩
          rintro ⟨-, e, hget', -⟩
          rw [hget] at hget'
          cases hget'
        · -- counted by `Devices::open`, and then no entry
          rw [hr'] at hr
          cases hr
          have hbad := not_counted_entry hs pid curr hget
          exact ⟨fun hgood => absurd ⟨hdev, e, hget, Or.inl hentry⟩ hgood, fun _ => hbad⟩
        · obtain ⟨hgood, hbad⟩ := counted_device hs hp hget hr hinv hb
          constructor
          · intro hnot
            exact hgood fun hlast => hnot ⟨hdev, e, hget, Or.inr hlast⟩
          · rintro ⟨-, e', hget', hcase⟩
            rw [hget] at hget'
            cases hget'
            rcases hcase with hno | hlast
            · rw [hentry] at hno
              cases hno
            · exact hbad hlast
      · -- not the path of a device: a file, which the registry does not see
        rw [if_neg hdev] at hr
        refine ⟨fun _ => ?_, fun hbad => absurd hbad.1 hdev⟩
        obtain ⟨calls, hr' | hb⟩ := fdOpenFdFromFile_cases hs.inv.allTyped curr path flags mode h
        · rw [hr'] at hr
          cases hr
          show Synced (s.setProc pid (some curr))
          rw [hself]
          exact hs
        · exact synced_file hs hp hr hinv hb

/-! ## Runs -/

/-- **What a step does to the counts**: they agree after it, or it is one of those that change one only. -/
theorem counted_step {l : ImageOp × List HostCall} (hs : Synced s) (hst : ImageStep s l t) :
    (¬ Miscounted s l.1 → Synced t) ∧ (Miscounted s l.1 → ¬ Counted t) := by
  obtain ⟨r, hr, -, ht⟩ := hst
  obtain ⟨op, calls⟩ := l
  cases op with
  | «open» pid path flags mode host =>
      obtain ⟨r', hr', hr⟩ := Eff.bind_eq_ok.mp hr
      cases hr
      rcases ht with rfl | ht
      · exact counted_open hs hr'
      · cases ht
  | close pid procFd closeRet =>
      obtain ⟨r', hr', hr⟩ := Eff.bind_eq_ok.mp hr
      cases hr
      rcases ht with rfl | ht
      · exact counted_close hs hr'
      · cases ht
  | exec pid path argv host self =>
      rcases syscallExec_exact hr with ⟨hno, rfl⟩ | ⟨curr, cwd, r', hp, hyes, -, hfree, rfl⟩
      · rcases ht with rfl | ht
        · exact ⟨fun _ => hs, fun hbad => absurd ⟨hbad.1, hbad.2.1⟩ hno⟩
        · cases ht
      · rcases ht with rfl | ht
        · have hnil : ∀ q, some (execed (Process.ofFile (s.filesystem ++ path) (dirname path) (lastPart path))
              curr.environ cwd host argv self) = some q → q.fds = [] := by
            rintro q ⟨⟩
            rw [execed_eq]
            rfl
          obtain ⟨hgood, hbad⟩ := counted_free hs hp hfree hnil
          exact ⟨fun hnot => hgood fun hdev => hnot ⟨hyes.1, hyes.2, hdev⟩, fun hyes' => hbad hyes'.2.2⟩
        · cases ht
  | exit pid closeRets =>
      obtain ⟨curr, r', hp, hfree, rfl⟩ := syscallExit_cases hr
      rcases ht with rfl | ht
      · exact counted_free hs hp hfree (by rintro q ⟨⟩)
      · cases ht
  -- the two structures are copied together
  | fork pid host => exact ⟨fun _ => hs.congr (fork_same hr ht), fun hbad => absurd hbad id⟩
  | start path args host => exact ⟨fun _ => hs.congr (start_same hr ht), fun hbad => absurd hbad id⟩

/-- An image in which nothing was ever opened, and whose registry holds each device once. -/
structure Fresh (s : Server) : Prop where
  unopened : Unopened s
  names : s.devices.Distinct
  devices : (s.devices.entries.map (·.device)).Nodup
  counts : ∀ e ∈ s.devices.entries, e.refCount = 0

theorem Fresh.synced (h : Fresh s) : Synced s where
  inv := h.unopened.fdInv
  names := h.names
  devices := h.devices
  fits e he := by rw [h.counts e he]; decide
  registered v x k hx _ := by rw [h.unopened.entries] at hx; cases hx
  held v x k hx _ := by rw [h.unopened.entries] at hx; cases hx
  counted e he := by
    have hempty : holders s e.device = ∅ := by
      apply Finset.eq_empty_of_forall_notMem
      intro i hi
      obtain ⟨x, hx, -⟩ := mem_holders.mp hi
      rw [h.unopened.entries] at hx
      cases hx
    rw [h.counts e he, hempty]
    rfl

/-- **When the counts agree.** Along a run of opens, closes, execs, exits, forks and starts by any processes
    and with any answers, from an image in which nothing is open, after every step each registered device is
    counted as often as it is open and can be removed exactly when no process has it open, if and only if no
    step of the run is `Miscounted`. -/
theorem agrees_iff {s₀ : Server} {tr : List (Server × (ImageOp × List HostCall) × Server)} (h₀ : Fresh s₀)
    (h : Run ImageStep s₀ tr s) :
    (∀ x ∈ tr, Agrees x.2.2) ↔ ∀ x ∈ tr, ¬ Miscounted x.1 x.2.1.1 := by
  refine Run.always_iff_good (I := Synced) (C := fun s l => ¬ Miscounted s l.1)
    (Q := fun _ _ t => Agrees t) ?_ ?_ h h₀.synced
  · intro t l u hs hgood hst
    have hu := (counted_step hs hst).1 hgood
    exact ⟨hu, hu.agrees⟩
  · intro t l u hs hbad hst hagrees
    exact (counted_step hs hst).2 (not_not.mp hbad) hagrees.counted

theorem booted_fresh : Fresh booted where
  unopened := booted_unopened
  names := by
    show List.Nodup _
    decide
  devices := by
    show List.Nodup [0, 1, 2]
    decide
  counts := by decide

/-- The program opens a device and a file, and closes the file. -/
theorem agrees_iff_open :
    ∃ tr s, Run ImageStep booted tr s ∧ tr.length = 3 ∧
      ((∀ x ∈ tr, Agrees x.2.2) ↔ ∀ x ∈ tr, ¬ Miscounted x.1 x.2.1.1) := by
  have h1 : Run ImageStep booted _ _ := Run.single
    (i := (ImageOp.open 1 (bytes "/dev/null") 2 0 ⟨true, -1, true, 0⟩, [])) ⟨_, rfl, rfl, Or.inl rfl⟩
  have h2 := Run.tail h1
    (i := (ImageOp.open 1 (bytes "/a") 0 0 ⟨true, 7, true, 0⟩, _)) ⟨_, rfl, rfl, Or.inl rfl⟩
  have h3 := Run.tail h2 (i := (ImageOp.close 1 1 0, _)) ⟨_, rfl, rfl, Or.inl rfl⟩
  exact ⟨_, _, h3, rfl, agrees_iff booted_fresh h3⟩

/-- The program opens a device and closes it: the registry still counts it. -/
theorem still_counted : ¬ ∀ tr s, Run ImageStep booted tr s → Agrees s := by
  intro hall
  have h1 : Run ImageStep booted _ _ := Run.single
    (i := (ImageOp.open 1 (bytes "/dev/null") 2 0 ⟨true, -1, true, 0⟩, [])) ⟨_, rfl, rfl, Or.inl rfl⟩
  have h2 := Run.tail h1 (i := (ImageOp.close 1 0 0, _)) ⟨_, rfl, rfl, Or.inl rfl⟩
  have hcount := (hall _ _ h2).counted ⟨bytes "null", 1, 1⟩ (by decide)
  revert hcount
  decide

end DeviceCounts
end DistributedPlatform
