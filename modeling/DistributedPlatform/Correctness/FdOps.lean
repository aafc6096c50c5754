import DistributedPlatform.Lib.Indirect
import DistributedPlatform.Server.Syscall

/-!
# `Correctness.FdOps` — what each descriptor operation does to the two tables

The descriptors of an image form an `Indirect.Table`: the owners are the processes, the slots their `fds`
(a slot holding `-1` is empty), the cells the entries of the server. Each operation is one of the changes
of that library:

* an open that succeeds is a `bind` at the lowest free slot, one that fails changes nothing;
* a close that succeeds is an `unbind`, one that fails changes nothing;
* `processFree` is any number of `unbind`s (`Released`).
-/

namespace DistributedPlatform
namespace Server

open Indirect

/-! ## The entries -/

theorem fdGet_congr {s t : Server} (h : t.fdEntries = s.fdEntries) : t.fdGet = s.fdGet := by
  funext v; simp only [fdGet, h]

theorem fdGet_eq_some_iff {s : Server} {v : Int} {e : FdEntry} :
    s.fdGet v = some e ↔ 0 ≤ v ∧ s.fdEntries[v.toNat]? = some (some e) := by
  unfold fdGet
  by_cases h : 0 ≤ v ∧ v < s.fdEntries.length
  · rw [if_pos h, Option.join_eq_some_iff]
    exact ⟨fun he => ⟨h.1, he⟩, fun he => he.2⟩
  · rw [if_neg h]
    constructor
    · intro he; cases he
    · rintro ⟨hv, he⟩
      have hlt := (List.getElem?_eq_some_iff.mp he).1
      exact absurd ⟨hv, by omega⟩ h

theorem fdGet_natCast (s : Server) (i : Nat) : s.fdGet i = (s.fdEntries[i]?).join := by
  unfold fdGet
  by_cases h : i < s.fdEntries.length
  · rw [if_pos ⟨by omega, by omega⟩, Int.toNat_natCast]
  · rw [if_neg (by omega), List.getElem?_eq_none (by omega), Option.join_none]

theorem fdGet_of_neg (s : Server) {v : Int} (h : v < 0) : s.fdGet v = none := by
  unfold fdGet; rw [if_neg (by omega)]

/-- `-1` is the number of no entry. -/
theorem ne_of_fdGet {s : Server} {v : Int} {e : FdEntry} (h : s.fdGet v = some e) : v ≠ -1 := by
  rintro rfl
  rw [fdGet_of_neg s (by omega)] at h
  cases h

/-- Two entry lists that differ at one index, as lookups. -/
theorem fdGet_update (s : Server) (entries : List (Option FdEntry)) {i : Nat} {e : Option FdEntry}
    (hi : (entries[i]?).join = e)
    (hne : ∀ k, k ≠ i → (entries[k]?).join = (s.fdEntries[k]?).join) :
    { s with fdEntries := entries }.fdGet = Function.update s.fdGet i e := by
  funext v
  rcases Int.lt_or_le v 0 with hv | hv
  · rw [fdGet_of_neg _ hv, Function.update_of_ne (by omega), fdGet_of_neg _ hv]
  · obtain ⟨k, rfl⟩ := Int.eq_ofNat_of_zero_le hv
    rw [fdGet_natCast]
    by_cases hk : k = i
    · subst hk
      rw [Function.update_self]; exact hi
    · rw [Function.update_of_ne (by omega), fdGet_natCast]; exact hne k hk

/-- Replacing an entry that is there. -/
theorem fdGet_set {s : Server} {v : Int} {e : FdEntry} (h : s.fdGet v = some e) (x : Option FdEntry) :
    { s with fdEntries := s.fdEntries.set v.toNat x }.fdGet = Function.update s.fdGet v x := by
  obtain ⟨hv, he⟩ := fdGet_eq_some_iff.mp h
  have hlt := (List.getElem?_eq_some_iff.mp he).1
  have hup := s.fdGet_update (s.fdEntries.set v.toNat x) (i := v.toNat) (e := x)
    (by simp [hlt]) (fun k hk => by rw [List.getElem?_set_ne (Ne.symm hk)])
  rwa [Int.toNat_of_nonneg hv] at hup

/-! ## The slots -/

/-- The descriptor slots of a process. -/
def fdsOf (s : Server) (pid : Nat) : List Int := ((s.proc pid).map (·.fds)).getD []

/-- The two-level table. -/
def table (s : Server) : Table Nat Int FdEntry where
  slot pid n := ((s.fdsOf pid)[n]?).filter (· ≠ -1)
  cell := s.fdGet

theorem fdsOf_eq {s : Server} {pid : Nat} {p : Process} (h : s.proc pid = some p) :
    s.fdsOf pid = p.fds := by
  simp [fdsOf, h]

theorem fdsOf_setProc {s : Server} {pid : Nat} {p : Process} (h : s.proc pid = some p)
    (x : Option Process) (q : Nat) :
    (s.setProc pid x).fdsOf q = if q = pid then (x.map (·.fds)).getD [] else s.fdsOf q := by
  by_cases hq : q = pid
  · subst hq
    rw [if_pos rfl, fdsOf, proc_setProc_self (lt_of_proc h)]
  · rw [if_neg hq, fdsOf, proc_setProc_ne hq, fdsOf]

theorem slot_eq_some_iff {s : Server} {pid n : Nat} {v : Int} :
    s.table.slot pid n = some v ↔ (s.fdsOf pid)[n]? = some v ∧ v ≠ -1 := by
  simp [table, Option.filter_eq_some_iff]

/-- The table depends only on the entries and the slots. -/
theorem table_congr {s t : Server} (he : t.fdEntries = s.fdEntries) (hf : t.fdsOf = s.fdsOf) :
    t.table = s.table := by
  simp only [table, fdGet_congr he, hf]

/-! ## The invariant of an image -/

/-- An object an entry can stand for: a host file, or a device the server has created. (No system call
    makes an entry for a socket.) -/
def IsObject (s : Server) : FdType → Prop
  | .fdTypeFd _ => True
  | .fdTypeDevice k => k < s.devs.length
  | _ => False

/-- The slots and the entries are linked one to one, each entry carries its own index, one reference and an
    object, and the objects behind devices exist. -/
structure FdInv (s : Server) : Prop where
  linked : s.table.Linked
  entry : ∀ {v e}, s.fdGet v = some e → e.fd = v ∧ e.refCount = 1 ∧ s.IsObject e.type
  devices : ∀ k ∈ s.devices.entries.map (·.device), k < s.devs.length
  sockets : ∀ {k j : Nat}, s.devs[k]? = some (Device.socket (some j)) → j < s.socks.length

/-- No entry is left without a type, so every entry is in use. -/
def AllTyped (s : Server) : Prop := ∀ {v e}, s.fdGet v = some e → e.type ≠ .fdTypeNone

theorem FdInv.allTyped {s : Server} (h : FdInv s) : s.AllTyped := by
  intro v e he hnone
  have hobj := (h.entry he).2.2
  rw [hnone] at hobj
  exact hobj

/-- The invariant speaks of the table, the devices and the sockets only. -/
theorem FdInv.congr {s t : Server} (h : FdInv s) (he : t.fdEntries = s.fdEntries)
    (hf : t.fdsOf = s.fdsOf) (hdevs : t.devs = s.devs) (hsocks : t.socks.length = s.socks.length)
    (hdevices : t.devices.entries.map (·.device) = s.devices.entries.map (·.device)) : FdInv t where
  linked := by rw [table_congr he hf]; exact h.linked
  entry {v e} hv := by
    rw [fdGet_congr he] at hv
    have hent := h.entry hv
    refine ⟨hent.1, hent.2.1, ?_⟩
    cases htype : e.type <;> simp_all [IsObject]
  devices := by rw [hdevices, hdevs]; exact h.devices
  sockets := by rw [hdevs, hsocks]; exact h.sockets

/-! ## Opening -/

/-- What `fdCreate` can do: fail for want of memory, hand out an untyped entry as it is, or make an entry where
    there was none. -/
theorem fdCreate_inv (s : Server) (malloc : Bool) :
    (malloc = false ∧ s.fdCreate malloc = (-1, s) ∧
      ∀ i, s.fdEntries.findIdx? fdUnused = some i → (s.fdEntries[i]?).join = none) ∨
    (∃ (i : Nat) (e : FdEntry), s.fdEntries.findIdx? fdUnused = some i ∧ s.fdGet i = some e ∧
      e.type = .fdTypeNone ∧ s.fdCreate malloc = ((i : Int), s)) ∨
    (malloc = true ∧ ∃ (i : Nat) (entries : List (Option FdEntry)), s.fdGet i = none ∧
      s.fdCreate malloc = ((i : Int), { s with fdEntries := entries }) ∧
      { s with fdEntries := entries }.fdGet =
        Function.update s.fdGet i (some { fd := i, type := .fdTypeNone, refCount := 0 })) := by
  unfold fdCreate
  cases hi : s.fdEntries.findIdx? fdUnused with
  | none =>
      cases malloc with
      | false => exact Or.inl ⟨rfl, rfl, nofun⟩
      | true =>
          refine Or.inr (Or.inr ⟨rfl, s.fdEntries.length, _, by simp [fdGet_natCast], rfl, ?_⟩)
          refine fdGet_update s _ (by simp) (fun k hk => ?_)
          rcases Nat.lt_or_gt_of_ne hk with hlt | hgt
          · rw [List.getElem?_append_left hlt]
          · rw [List.getElem?_eq_none (by simp; omega), List.getElem?_eq_none (by omega)]
  | some i =>
      obtain ⟨hlt, hunused, -⟩ := List.findIdx?_eq_some_iff_getElem.mp hi
      dsimp only
      cases he : (s.fdEntries[i]?).join with
      | some e =>
          -- the search stopped at an entry because it has no type
          have htype : e.type = .fdTypeNone := by
            rw [List.getElem?_eq_getElem hlt, Option.join_some] at he
            rw [he] at hunused
            simpa [fdUnused] using hunused
          exact Or.inr (Or.inl ⟨i, e, rfl, by rw [fdGet_natCast, he], htype, rfl⟩)
      | none =>
          cases malloc with
          | false =>
              refine Or.inl ⟨rfl, rfl, ?_⟩
              rintro k ⟨⟩
              exact he
          | true =>
              refine Or.inr (Or.inr ⟨rfl, i, _, by rw [fdGet_natCast, he], rfl, ?_⟩)
              exact fdGet_update s _ (by simp [hlt]) (fun k hk => by rw [List.getElem?_set_ne (Ne.symm hk)])

/-- Where every entry has a type it fails with the allocation, and otherwise makes an entry. -/
theorem fdCreate_cases {s : Server} (hs : s.AllTyped) (malloc : Bool) :
    (malloc = false ∧ s.fdCreate malloc = (-1, s)) ∨
    (malloc = true ∧ ∃ (i : Nat) (entries : List (Option FdEntry)), s.fdGet i = none ∧
      s.fdCreate malloc = ((i : Int), { s with fdEntries := entries }) ∧
      { s with fdEntries := entries }.fdGet =
        Function.update s.fdGet i (some { fd := i, type := .fdTypeNone, refCount := 0 })) := by
  rcases fdCreate_inv s malloc with ⟨hm, hc, -⟩ | ⟨i, e, -, he, htype, -⟩ | hnew
  · exact Or.inl ⟨hm, hc⟩
  · exact absurd htype (hs he)
  · exact Or.inr hnew

/-- `fdBind`: the same, with the entry filled in and given to the process. -/
theorem fdBind_cases {s : Server} (hs : s.AllTyped) (proc : Process) (type : FdType) (malloc : Bool) :
    (malloc = false ∧ s.fdBind proc type malloc = .ok { ret := -1, srv := s, proc := proc }) ∨
    (malloc = true ∧ ∃ (i : Nat) (entries : List (Option FdEntry)), s.fdGet i = none ∧
      s.fdBind proc type malloc =
        .ok { ret := (proc.fdAdd i).1, srv := { s with fdEntries := entries }, proc := (proc.fdAdd i).2 } ∧
      { s with fdEntries := entries }.fdGet =
        Function.update s.fdGet i (some { fd := i, type := type, refCount := 1 })) := by
  rcases fdCreate_cases hs malloc with ⟨hm, hc⟩ | ⟨hm, i, entries, hnone, hc, hget⟩
  · exact Or.inl ⟨hm, by simp [fdBind, hc]⟩
  · refine Or.inr ⟨hm, i, entries.set i (some { fd := i, type := type, refCount := 1 }), hnone, ?_, ?_⟩
    · have hnew : { s with fdEntries := entries }.fdGet (i : Int) =
          some { fd := (i : Int), type := .fdTypeNone, refCount := 0 } := by
        rw [hget, Function.update_self]
      have hpos : ((i : Int) = -1) = False := by simp
      simp [fdBind, hc, hpos, hnew]
    · have hnew : { s with fdEntries := entries }.fdGet (i : Int) =
          some { fd := (i : Int), type := .fdTypeNone, refCount := 0 } := by
        rw [hget, Function.update_self]
      have hset := fdGet_set hnew (some { fd := i, type := type, refCount := 1 })
      rw [Int.toNat_natCast] at hset
      rw [hset, hget, Function.update_idem]

/-- The object an open of `path` is for: the registered device, or the file the host opened. -/
def target (s : Server) (path : CStr) (h : OpenHost) : Option FdType :=
  if (bytes "/dev/").isPrefixOf path then
    (s.devices.get (path.drop 5)).map fun e => .fdTypeDevice e.device
  else some (.fdTypeFd h.open_)

/-- What `fdBind` does to the descriptors once the object is there, whatever became of the registry. -/
def Bound (s : Server) (proc : Process) (devices : Devices Nat) (type : FdType) (calls : List HostCall)
    (x : Eff FdResult) : Prop :=
  ∃ (i : Nat) (entries : List (Option FdEntry)), s.fdGet i = none ∧
    x = .ok { ret := (proc.fdAdd i).1, srv := { s with fdEntries := entries, devices := devices }
              proc := (proc.fdAdd i).2, calls := calls } ∧
    { s with fdEntries := entries }.fdGet =
      Function.update s.fdGet i (some { fd := i, type := type, refCount := 1 })

/-- A device is opened in the registry, which counts it, before its entry is made. -/
theorem fdOpenFdFromDevice_exact {s : Server} (hs : s.AllTyped) (proc : Process) (name : CStr)
    (flags : Int) (mode : Nat) (h : OpenHost) :
    (s.devices.get name = none ∧
      s.fdOpenFdFromDevice proc name flags mode h = .ok { ret := -1, srv := s, proc := proc }) ∨
    ∃ e, s.devices.get name = some e ∧
      let devices := s.devices.modifyCount name fun n => toI32 (n + 1)
      (h.entry = false ∧ s.fdOpenFdFromDevice proc name flags mode h =
          .ok { ret := -1, srv := { s with devices := devices }, proc := proc }) ∨
      (h.entry = true ∧
        s.Bound proc devices (.fdTypeDevice e.device) [] (s.fdOpenFdFromDevice proc name flags mode h)) := by
  cases hget : s.devices.get name with
  | none => exact Or.inl ⟨rfl, by simp [fdOpenFdFromDevice, Devices.open_, hget]⟩
  | some e =>
      refine Or.inr ⟨e, rfl, ?_⟩
      have hs' : { s with devices := s.devices.modifyCount name fun n => toI32 (n + 1) }.AllTyped := hs
      rcases fdBind_cases hs' proc (.fdTypeDevice e.device) h.entry with
        ⟨hno, hb⟩ | ⟨hyes, i, entries, hnone, hb, hup⟩
      · exact Or.inl ⟨hno, by simp [fdOpenFdFromDevice, Devices.open_, hget, hb]⟩
      · exact Or.inr ⟨hyes, i, entries, hnone,
          by simp [fdOpenFdFromDevice, Devices.open_, hget, hb], hup⟩

theorem fdOpenFdFromDevice_cases {s : Server} (hs : s.AllTyped) (proc : Process) (name : CStr)
    (flags : Int) (mode : Nat) (h : OpenHost) :
    ∃ devices : Devices Nat, devices.entries.map (·.device) = s.devices.entries.map (·.device) ∧
      (s.fdOpenFdFromDevice proc name flags mode h =
          .ok { ret := -1, srv := { s with devices := devices }, proc := proc } ∨
       ∃ e, s.devices.get name = some e ∧
         s.Bound proc devices (.fdTypeDevice e.device) [] (s.fdOpenFdFromDevice proc name flags mode h)) := by
  rcases fdOpenFdFromDevice_exact hs proc name flags mode h with ⟨-, hr⟩ | ⟨e, hget, hcase⟩
  · exact ⟨s.devices, rfl, Or.inl hr⟩
  · refine ⟨s.devices.modifyCount name fun n => toI32 (n + 1),
      s.devices.modifyCount_entries _ _ fun _ device => device, ?_⟩
    rcases hcase with ⟨-, hr⟩ | ⟨-, hbound⟩
    · exact Or.inl hr
    · exact Or.inr ⟨e, hget, hbound⟩

theorem fdAdd_nonneg (p : Process) (v : Int) : 0 ≤ (p.fdAdd v).1 := by
  rw [Process.fdAdd_eq_place]
  exact Int.natCast_nonneg _

theorem fdAdd_ne (p : Process) (v : Int) : (p.fdAdd v).1 ≠ -1 := by
  have hnonneg := fdAdd_nonneg p v
  omega

/-- A file is opened at the host before its entry is made. -/
theorem fdOpenFdFromFile_cases {s : Server} (hs : s.AllTyped) (proc : Process) (path : CStr)
    (flags : Int) (mode : Nat) (h : OpenHost) :
    ∃ calls, s.fdOpenFdFromFile proc path flags mode h =
        .ok { ret := -1, srv := s, proc := proc, calls := calls } ∨
      s.Bound proc s.devices (.fdTypeFd h.open_) calls (s.fdOpenFdFromFile proc path flags mode h) := by
  cases hlp : fileLocalPath s.filesystem path h.localPath with
  | none => exact ⟨[], Or.inl (by simp [fdOpenFdFromFile, hlp])⟩
  | some localPath =>
      by_cases hfail : h.open_ = -1
      · exact ⟨_, Or.inl (by simp [fdOpenFdFromFile, hlp, hfail]; rfl)⟩
      · rcases fdBind_cases hs proc (.fdTypeFd h.open_) h.entry with
          ⟨-, hb⟩ | ⟨-, i, entries, hnone, hb, hup⟩
        · exact ⟨_, Or.inl (by simp [fdOpenFdFromFile, hlp, hfail, hb]; rfl)⟩
        · have hret := fdAdd_ne proc i
          exact ⟨_, Or.inr ⟨i, entries, hnone,
            by simp [fdOpenFdFromFile, hlp, hfail, hb, hret]; rfl, hup⟩⟩

/-- **What an open can do**: fail and change no more than a count in the device registry, or bind the
    target. -/
theorem fdOpenFdFromPath_cases {s : Server} (hs : s.AllTyped) (proc : Process) (path : CStr)
    (flags : Int) (mode : Nat) (h : OpenHost) :
    ∃ (devices : Devices Nat) (calls : List HostCall),
      devices.entries.map (·.device) = s.devices.entries.map (·.device) ∧
      (s.fdOpenFdFromPath proc path flags mode h =
          .ok { ret := -1, srv := { s with devices := devices }, proc := proc, calls := calls } ∨
       ∃ type, s.target path h = some type ∧
         s.Bound proc devices type calls (s.fdOpenFdFromPath proc path flags mode h)) := by
  unfold fdOpenFdFromPath target
  by_cases hdev : (bytes "/dev/").isPrefixOf path = true
  · rw [if_pos hdev, if_pos hdev]
    obtain ⟨devices, hsame, hcase⟩ := fdOpenFdFromDevice_cases hs proc (path.drop 5) flags mode h
    refine ⟨devices, [], hsame, hcase.imp id ?_⟩
    rintro ⟨e, hget, hbound⟩
    exact ⟨_, by rw [hget]; rfl, hbound⟩
  · rw [if_neg hdev, if_neg hdev]
    obtain ⟨calls, hcase⟩ := fdOpenFdFromFile_cases hs proc path flags mode h
    exact ⟨s.devices, calls, rfl, hcase.imp id fun hbound => ⟨_, rfl, hbound⟩⟩

/-- What an open needs: a registered device, or a file the host opens, and the memory for it. -/
def opens (s : Server) (path : CStr) (h : OpenHost) : Bool :=
  if (bytes "/dev/").isPrefixOf path then (s.devices.get (path.drop 5)).isSome && h.entry
  else h.localPath && h.open_ != -1 && h.entry

/-- **When an open fails**, and the host calls of one that does not. -/
theorem fdOpenFdFromPath_exact {s : Server} (hs : s.AllTyped) {proc : Process} {path : CStr} {flags : Int}
    {mode : Nat} {h : OpenHost} {r : FdResult} (hr : s.fdOpenFdFromPath proc path flags mode h = .ok r) :
    (r.ret = -1 ↔ s.opens path h = false) ∧ (s.opens path h = true → r.calls =
      if (bytes "/dev/").isPrefixOf path then [] else [.open (s.filesystem ++ path) flags mode h.open_]) := by
  unfold fdOpenFdFromPath at hr
  unfold opens
  split at hr
  · next hdev =>
      simp only [if_pos hdev]
      rcases fdOpenFdFromDevice_exact hs proc (path.drop 5) flags mode h with
        ⟨hget, hr'⟩ | ⟨e, he, ⟨hentry, hr'⟩ | ⟨hentry, i, entries, -, hr', -⟩⟩
      · rw [hr'] at hr
        cases hr
        simp [hget]
      · rw [hr'] at hr
        cases hr
        simp [hentry]
      · rw [hr'] at hr
        cases hr
        simp [he, hentry, fdAdd_ne]
  · next hdev =>
      simp only [if_neg hdev]
      unfold fdOpenFdFromFile fileLocalPath at hr
      by_cases hlp : h.localPath = true
      · simp only [hlp, if_true] at hr
        by_cases hopen : h.open_ = -1
        · rw [if_pos hopen] at hr
          cases hr
          simp [hopen]
        · rw [if_neg hopen] at hr
          rcases fdBind_cases hs proc (.fdTypeFd h.open_) h.entry with ⟨hentry, hb⟩ | ⟨hentry, i, entries, -, hb, -⟩
          · rw [hb] at hr
            cases hr
            simp [hentry]
          · rw [hb] at hr
            simp only [if_neg (fdAdd_ne proc i)] at hr
            cases hr
            simp [hlp, hopen, hentry, fdAdd_ne]
      · simp only [hlp, Bool.false_eq_true, if_false] at hr
        cases hr
        simp [hlp]

/-- The process takes the lowest slot that is free: a `bind` there. -/
theorem table_fdAdd {s : Server} {pid : Nat} {proc : Process} (hp : s.proc pid = some proc) {i : Nat}
    {entries : List (Option FdEntry)} (devices : Devices Nat) {e : FdEntry}
    (hup : { s with fdEntries := entries }.fdGet = Function.update s.fdGet i (some e)) :
    ∃ n : Nat, (proc.fdAdd i).1 = n ∧ s.table.slot pid n = none ∧
      (∀ k < n, s.table.slot pid k ≠ none) ∧
      ({ s with fdEntries := entries, devices := devices }.setProc pid (some (proc.fdAdd i).2)).table =
        s.table.bind pid n i e := by
  have hfds := fdsOf_eq hp
  rw [Process.fdAdd_eq_place]
  refine ⟨_, rfl, ?_, ?_, ?_⟩
  · rw [← Option.not_isSome_iff_eq_none, Option.isSome_iff_exists]
    rintro ⟨v, hv⟩
    obtain ⟨hget, hne⟩ := slot_eq_some_iff.mp hv
    rw [hfds] at hget
    exact hne (by simpa using Slots.place_isFree hget)
  · intro k hk
    obtain ⟨v, hget, hused⟩ := Slots.place_least hk
    have hslot : s.table.slot pid k = some v :=
      slot_eq_some_iff.mpr ⟨by rw [hfds]; exact hget, by simpa using hused⟩
    rw [hslot]; exact Option.some_ne_none v
  · apply Table.ext
    · funext q k
      show ((Server.fdsOf _ q)[k]?).filter (· ≠ -1) = Table.put s.table.slot pid _ (some (i : Int)) q k
      rw [fdsOf_setProc (s := { s with fdEntries := entries, devices := devices }) hp]
      by_cases hq : q = pid
      · rw [if_pos hq]
        simp only [Option.map_some, Option.getD_some, Slots.getElem?_place]
        by_cases hk : k = (Slots.place (· == -1) proc.fds (i : Int)).1
        · rw [if_pos hk, Table.put, if_pos ⟨hq, hk⟩]; simp
        · rw [if_neg hk, Table.put_ne (fun hc => hk hc.2), hq, ← hfds]; rfl
      · rw [if_neg hq, Table.put_ne (fun hc => hq hc.1)]; rfl
    · exact (fdGet_congr rfl).trans hup

/-- What an open is for exists: a device comes from the registry. -/
theorem FdInv.isObject_target {s : Server} (h : FdInv s) {path : CStr} {host : OpenHost} {type : FdType}
    (htarget : s.target path host = some type) : s.IsObject type := by
  unfold target at htarget
  split at htarget
  · obtain ⟨d, hd, htype⟩ := Option.map_eq_some_iff.mp htarget
    rw [← htype]
    exact h.devices _ (List.mem_map_of_mem (Devices.mem_of_get hd).1)
  · cases htarget; trivial

/-- **An open keeps the invariant**: it fails and leaves the table as it is, or binds the target to the
    lowest free number of the process. -/
theorem FdInv.open {s : Server} (h : FdInv s) {pid : Nat} {proc : Process} (hp : s.proc pid = some proc)
    (path : CStr) (flags : Int) (mode : Nat) (host : OpenHost) :
    ∃ r, s.fdOpenFdFromPath proc path flags mode host = .ok r ∧ FdInv (r.commit pid) ∧
      ((r.ret = -1 ∧ (r.commit pid).table = s.table) ∨
       (∃ (n : Nat) (c : Int) (e : FdEntry), r.ret = n ∧ s.table.slot pid n = none ∧
          (∀ k < n, s.table.slot pid k ≠ none) ∧ s.table.cell c = none ∧
          s.target path host = some e.type ∧ (r.commit pid).table = s.table.bind pid n c e)) := by
  obtain ⟨devices, calls, hdevices, hr | ⟨type, htarget, i, entries, hnone, hr, hup⟩⟩ :=
    fdOpenFdFromPath_cases h.allTyped proc path flags mode host
  · have hcommit : ({ s with devices := devices } : Server).setProc pid (some proc) =
        { s with devices := devices } :=
      setProc_self (s := { s with devices := devices }) hp
    refine ⟨_, hr, ?_, Or.inl ⟨rfl, ?_⟩⟩
    · rw [FdResult.commit, hcommit]
      exact h.congr rfl rfl rfl rfl hdevices
    · rw [FdResult.commit, hcommit]
      exact table_congr rfl rfl
  · obtain ⟨n, hn, hfree, hleast, htable⟩ := table_fdAdd hp devices hup
    have hcell : s.table.cell i = none := hnone
    refine ⟨_, hr, ?_, Or.inr ⟨n, i, _, hn, hfree, hleast, hcell, htarget, htable⟩⟩
    refine ⟨?_, ?_, ?_, h.sockets⟩
    · show Table.Linked (Server.table _)
      rw [FdResult.commit, htable]; exact h.linked.bind hcell
    · intro v e hv
      have hv' : ({ s with fdEntries := entries } : Server).fdGet v = some e := hv
      rw [hup] at hv'
      by_cases hvi : v = i
      · rw [hvi, Function.update_self] at hv'
        cases hv'
        exact ⟨hvi.symm, rfl, h.isObject_target htarget⟩
      · rw [Function.update_of_ne hvi] at hv'
        exact h.entry hv'
    · show ∀ k ∈ devices.entries.map (·.device), k < s.devs.length
      rw [hdevices]; exact h.devices

/-! ## Closing -/

theorem fdClose_of_none {s : Server} {v : Int} (hv : s.fdGet v = none) (proc : Process) (closeRet : Int) :
    s.fdClose proc v closeRet = .ok { ret := 0, srv := s, proc := proc } := by
  simp [fdClose, hv]

/-- The host refuses to close what the entry stands for: it is a host file, and `close(2)` fails. -/
def Refuses (s : Server) (v closeRet : Int) : Prop :=
  closeRet = -1 ∧ ∃ e fd, s.fdGet v = some e ∧ e.type = .fdTypeFd fd

/-- A close of an entry in use: refused by the host, or the entry and the slot go. -/
theorem fdClose_cases {s : Server} {v : Int} {e : FdEntry} (hv : s.fdGet v = some e)
    (hcount : e.refCount = 1) (hobj : s.IsObject e.type) (proc : Process) (closeRet : Int) :
    (s.Refuses v closeRet ∧ ∃ fd, s.fdClose proc v closeRet =
      .ok { ret := 0, srv := s, proc := proc, calls := [.close fd closeRet] }) ∨
    (¬ s.Refuses v closeRet ∧ ∃ calls, s.fdClose proc v closeRet = .ok (s.fdDrop proc v calls)) := by
  have hfile : s.Refuses v closeRet → ∃ fd, e.type = .fdTypeFd fd := by
    rintro ⟨-, e', fd, he', htype⟩
    rw [hv] at he'
    cases he'
    exact ⟨fd, htype⟩
  unfold fdClose
  rw [hv]
  simp only [hcount, if_neg Nat.one_ne_zero, Nat.le_refl, if_true]
  cases htype : e.type with
  | fdTypeNone => rw [htype] at hobj; exact absurd hobj id
  | fdTypeSocket k => rw [htype] at hobj; exact absurd hobj id
  | fdTypeDevice k =>
      refine Or.inr ⟨fun hno => ?_, [], rfl⟩
      obtain ⟨fd, hfd⟩ := hfile hno
      rw [htype] at hfd
      cases hfd
  | fdTypeFd fd =>
      by_cases hret : closeRet = -1
      · exact Or.inl ⟨⟨hret, e, fd, hv, htype⟩, fd, by simp [hret]⟩
      · exact Or.inr ⟨fun hno => hret hno.1, [.close fd closeRet], by simp [hret]⟩

/-- Clearing an entry and the slot that holds it: an `unbind`. -/
theorem table_fdDrop {s : Server} (h : s.table.Linked) {pid n : Nat} {proc : Process} {v : Int}
    (hp : s.proc pid = some proc) (hn : proc.fds[n]? = some v) (hv : v ≠ -1) :
    proc.fdRemove v = { proc with fds := proc.fds.set n (-1) } ∧
    ({ s with fdEntries := s.fdEntries.set v.toNat none }.setProc pid (some (proc.fdRemove v))).table =
      s.table.unbind pid n v := by
  have hfds := fdsOf_eq hp
  have hslot : s.table.slot pid n = some v := slot_eq_some_iff.mpr ⟨by rw [hfds]; exact hn, hv⟩
  have hrem : proc.fdRemove v = { proc with fds := proc.fds.set n (-1) } := by
    apply Process.fdRemove_of_unique hn
    intro k hk
    exact (h.inj (slot_eq_some_iff.mpr ⟨by rw [hfds]; exact hk, hv⟩) hslot).2
  obtain ⟨e, he⟩ := h.live hslot
  refine ⟨hrem, Table.ext ?_ ((fdGet_congr rfl).trans (fdGet_set he none))⟩
  funext q k
  show ((Server.fdsOf _ q)[k]?).filter (· ≠ -1) = Table.put s.table.slot pid n none q k
  rw [hrem, fdsOf_setProc (s := { s with fdEntries := s.fdEntries.set v.toNat none }) hp]
  by_cases hq : q = pid
  · rw [if_pos hq]
    simp only [Option.map_some, Option.getD_some]
    by_cases hk : k = n
    · subst hk
      have hlt := (List.getElem?_eq_some_iff.mp hn).1
      rw [Table.put, if_pos ⟨hq, rfl⟩, List.getElem?_set_self hlt]
      simp
    · rw [List.getElem?_set_ne (Ne.symm hk), Table.put_ne (fun hc => hk hc.2), hq, ← hfds]; rfl
  · rw [if_neg hq, Table.put_ne (fun hc => hq hc.1)]; rfl

/-- **A close keeps the invariant.** The image is `s` with `proc` as the object of process `pid`, which may
    be newer than the one in the process table of `s`. -/
theorem FdInv.close {s : Server} {pid n : Nat} {proc : Process} {v : Int}
    (h : FdInv (s.setProc pid (some proc))) (hlt : pid < s.procs.length)
    (hn : proc.fds[n]? = some v) (hv : v ≠ -1) (closeRet : Int) :
    ∃ r, s.fdClose proc v closeRet = .ok r ∧
      ((r.ret = 0 ∧ r.srv = s ∧ r.proc = proc ∧ s.Refuses v closeRet ∧
          ∃ fd, r.calls = [.close fd closeRet]) ∨
       (r.ret = 1 ∧ ¬ s.Refuses v closeRet ∧ r.srv = { s with fdEntries := s.fdEntries.set v.toNat none } ∧
          r.proc = { proc with fds := proc.fds.set n (-1) } ∧ FdInv (r.commit pid) ∧
          (r.commit pid).table = (s.setProc pid (some proc)).table.unbind pid n v)) := by
  have hp : (s.setProc pid (some proc)).proc pid = some proc := proc_setProc_self hlt _
  have hslot : (s.setProc pid (some proc)).table.slot pid n = some v :=
    slot_eq_some_iff.mpr ⟨by rw [fdsOf_eq hp]; exact hn, hv⟩
  obtain ⟨e, he⟩ := h.linked.live hslot
  have he' : s.fdGet v = some e := he
  obtain ⟨-, hcount, hobj⟩ := h.entry he
  rcases fdClose_cases he' hcount hobj proc closeRet with ⟨hno, fd, hr⟩ | ⟨hyes, calls, hr⟩
  · exact ⟨_, hr, Or.inl ⟨rfl, rfl, rfl, hno, fd, rfl⟩⟩
  · obtain ⟨hrem, htable⟩ := table_fdDrop h.linked hp hn hv
    have hcommit : (s.fdDrop proc v calls).commit pid =
        { s.setProc pid (some proc) with
          fdEntries := (s.setProc pid (some proc)).fdEntries.set v.toNat none }.setProc pid
            (some (proc.fdRemove v)) := by
      simp [FdResult.commit, fdDrop, setProc]
    rw [← hcommit] at htable
    refine ⟨_, hr, Or.inr ⟨rfl, hyes, rfl, hrem, ⟨?_, ?_, h.devices, h.sockets⟩, htable⟩⟩
    · rw [htable]; exact h.linked.unbind hslot
    · intro w e' hw
      have hup : ((s.fdDrop proc v calls).commit pid).fdGet = Function.update s.fdGet v none :=
        (fdGet_congr rfl).trans (fdGet_set he' none)
      rw [hup] at hw
      by_cases hwv : w = v
      · rw [hwv, Function.update_self] at hw; cases hw
      · rw [Function.update_of_ne hwv] at hw
        exact h.entry hw

/-! ## Freeing a process -/

/-- What the loop of `processFree` has made of the slot `k` of a process: it is kept when the host refused to
    close what it held, and the refusal is among the calls; otherwise it is empty. -/
def SlotFreed (s : Server) (pid : Nat) (close : Nat → Int) (r : FdResult) (k : Nat) (v : Int) : Prop :=
  ((r.commit pid).table.slot pid k = some v ∧ s.Refuses v (close k) ∧ ∃ c ∈ r.calls, c.closeFailed = true) ∨
  ((r.commit pid).table.slot pid k = none ∧ ¬ s.Refuses v (close k))

/-- Closing an entry has no part in whether another is refused. -/
theorem refuses_of_dropped {s : Server} {v w : Int} {e : FdEntry} (hv : s.fdGet v = some e) (hw : w ≠ v)
    (closeRet : Int) :
    Refuses { s with fdEntries := s.fdEntries.set v.toNat none } w closeRet ↔ s.Refuses w closeRet := by
  unfold Refuses
  rw [fdGet_set hv none, Function.update_of_ne hw]

/-- What the rest of the loop leaves of a slot is what the loop leaves of it. -/
theorem SlotFreed.of_rest {s t : Server} {pid : Nat} {close : Nat → Int} {r : FdResult} {k : Nat} {v : Int}
    (h : SlotFreed t pid close r k v) (hrefuses : t.Refuses v (close k) ↔ s.Refuses v (close k))
    (calls : List HostCall) : SlotFreed s pid close { r with calls := calls ++ r.calls } k v := by
  rcases h with ⟨hkept, hno, c, hc, hfailed⟩ | ⟨hgone, hyes⟩
  · exact Or.inl ⟨hkept, hrefuses.mp hno, c, List.mem_append_right _ hc, hfailed⟩
  · exact Or.inr ⟨hgone, fun hno => hyes (hrefuses.mpr hno)⟩

/-- What the loop of `freeFds` leaves when it has passed the slots from `procFd` on: it has released slots of the
    process and nothing else, none before `procFd`, and of those it passed it leaves the ones whose close was
    refused. -/
structure FreedFrom (s : Server) (proc : Process) (pid : Nat) (close : Nat → Int) (procFd : Nat)
    (r : FdResult) : Prop where
  inv : FdInv (r.commit pid)
  srv : ∃ entries, r.srv = { s with fdEntries := entries }
  released : Table.Released (s.setProc pid (some proc)).table pid (r.commit pid).table
  below : ∀ k < procFd, (r.commit pid).table.slot pid k = (s.setProc pid (some proc)).table.slot pid k
  passed : ∀ k v, procFd ≤ k → (s.setProc pid (some proc)).table.slot pid k = some v →
    SlotFreed s pid close r k v

section FreedFrom

variable {s : Server} {proc : Process} {pid procFd : Nat} {close : Nat → Int} {r r' : FdResult} {v : Int}

/-- An empty slot is passed over. -/
theorem FreedFrom.skip (h : FreedFrom s proc pid close (procFd + 1) r)
    (hempty : (s.setProc pid (some proc)).table.slot pid procFd = none) :
    FreedFrom s proc pid close procFd r := by
  refine ⟨h.inv, h.srv, h.released, fun k hk => h.below k (by omega), ?_⟩
  intro k v hk hslot
  rcases Nat.eq_or_lt_of_le hk with hkp | hkp
  · rw [← hkp, hempty] at hslot
    cases hslot
  · exact h.passed k v hkp hslot

/-- A refused close: the slot keeps its entry, and the calls made include a failed one. -/
theorem FreedFrom.refused (h : FreedFrom s proc pid close (procFd + 1) r)
    (hslot : (s.setProc pid (some proc)).table.slot pid procFd = some v) (hrefused : s.Refuses v (close procFd))
    (fd : Int) : FreedFrom s proc pid close procFd { r with calls := [.close fd (close procFd)] ++ r.calls } := by
  refine ⟨h.inv, h.srv, h.released, fun k hk => h.below k (by omega), ?_⟩
  intro k w hk hslotk
  rcases Nat.eq_or_lt_of_le hk with hkp | hkp
  · subst hkp
    rw [hslot] at hslotk
    cases hslotk
    refine Or.inl ⟨(h.below procFd (by omega)).trans hslot, hrefused, .close fd (close procFd), by simp, ?_⟩
    simp [HostCall.closeFailed, hrefused.1]
  · exact (h.passed k w hkp hslotk).of_rest Iff.rfl _

/-- A close that went through: the slot and its entry are gone before the rest is freed. -/
theorem FreedFrom.closed (h : FreedFrom r.srv r.proc pid close (procFd + 1) r')
    (hlinked : (s.setProc pid (some proc)).table.Linked)
    (hslot : (s.setProc pid (some proc)).table.slot pid procFd = some v) (hclosed : ¬ s.Refuses v (close procFd))
    (hsrv : r.srv = { s with fdEntries := s.fdEntries.set v.toNat none })
    (htable : (r.commit pid).table = (s.setProc pid (some proc)).table.unbind pid procFd v) :
    FreedFrom s proc pid close procFd { r' with calls := r.calls ++ r'.calls } := by
  -- the slots the loop has yet to pass, or has passed before, are those of the old table
  have hsame : ∀ k, k ≠ procFd → (r.srv.setProc pid (some r.proc)).table.slot pid k =
      (s.setProc pid (some proc)).table.slot pid k := by
    intro k hk
    show (r.commit pid).table.slot pid k = _
    rw [htable]
    exact Table.put_ne fun hkn => hk hkn.2
  obtain ⟨entries, hentries⟩ := h.srv
  refine ⟨h.inv, ⟨entries, by rw [hentries, hsrv]⟩, Table.Released.head hslot (htable ▸ h.released), ?_, ?_⟩
  · intro k hk
    rw [← hsame k (by omega)]
    exact h.below k (by omega)
  · intro k w hk hslotk
    rcases Nat.eq_or_lt_of_le hk with hkp | hkp
    · -- the slot just released
      subst hkp
      rw [hslot] at hslotk
      cases hslotk
      refine Or.inr ⟨?_, hclosed⟩
      apply h.released.slot_free
      show (r.commit pid).table.slot pid procFd = none
      rw [htable]
      exact Table.put_self _ _ _ _
    · have hne : w ≠ v := by
        rintro rfl
        have heq := (hlinked.inj hslotk hslot).2
        omega
      obtain ⟨e, he⟩ := hlinked.live hslot
      have hrefuses : r.srv.Refuses w (close k) ↔ s.Refuses w (close k) := by
        rw [hsrv]
        exact refuses_of_dropped he hne _
      exact (h.passed k w hkp ((hsame k (by omega)).trans hslotk)).of_rest hrefuses r.calls

end FreedFrom

/-- **`processFree` keeps the invariant.** -/
theorem FdInv.freeFds (close : Nat → Int) (pid : Nat) (left : Nat) :
    ∀ (procFd : Nat) (s : Server) (proc : Process), FdInv (s.setProc pid (some proc)) →
      pid < s.procs.length → procFd + left = proc.fds.length →
      ∃ r, freeFds close left procFd s proc = .ok r ∧ FreedFrom s proc pid close procFd r := by
  induction left with
  | zero =>
      intro procFd s proc h hlt hlen
      refine ⟨_, rfl, h, ⟨s.fdEntries, rfl⟩, Table.Released.refl, fun k _ => rfl, ?_⟩
      intro k v hk hslot
      have hget := (slot_eq_some_iff.mp hslot).1
      rw [fdsOf_eq (proc_setProc_self hlt _), List.getElem?_eq_none (by omega)] at hget
      cases hget
  | succ left ih =>
      intro procFd s proc h hlt hlen
      have hin : procFd < proc.fds.length := by omega
      have hget : proc.fds[procFd]? = some proc.fds[procFd] := List.getElem?_eq_getElem hin
      have hfds : (s.setProc pid (some proc)).fdsOf pid = proc.fds := fdsOf_eq (proc_setProc_self hlt _)
      by_cases hempty : proc.fds[procFd] = -1
      · obtain ⟨r, hr, hfreed⟩ := ih (procFd + 1) s proc h hlt (by omega)
        refine ⟨r, by rw [Server.freeFds, hget, hempty]; simpa using hr, hfreed.skip ?_⟩
        rw [Option.eq_none_iff_forall_not_mem]
        intro v hslot
        obtain ⟨hgetk, hne⟩ := slot_eq_some_iff.mp hslot
        rw [hfds, hget, hempty] at hgetk
        exact absurd (Option.some.inj hgetk).symm hne
      · have hslot : (s.setProc pid (some proc)).table.slot pid procFd = some proc.fds[procFd] :=
          slot_eq_some_iff.mpr ⟨by rw [hfds]; exact hget, hempty⟩
        obtain ⟨r, hr, hcase⟩ := h.close hlt hget hempty (close procFd)
        have hstep : ∀ r', Server.freeFds close left (procFd + 1) r.srv r.proc = .ok r' →
            Server.freeFds close (left + 1) procFd s proc =
              .ok { r' with calls := r.calls ++ r'.calls } := by
          intro r' hr'
          rw [Server.freeFds, hget]
          simp [hempty, hr, hr']
        rcases hcase with ⟨-, hsrv, hproc, hrefused, fd, hcalls⟩ | ⟨-, hclosed, hsrv, hproc, hinv, htable⟩
        · obtain ⟨r', hr', hfreed⟩ := ih (procFd + 1) s proc h hlt (by omega)
          rw [hsrv, hproc, hcalls] at hstep
          exact ⟨_, hstep r' hr', hfreed.refused hslot hrefused fd⟩
        · have hlt' : pid < r.srv.procs.length := by rw [hsrv]; exact hlt
          obtain ⟨r', hr', hfreed⟩ := ih (procFd + 1) r.srv r.proc hinv hlt' (by rw [hproc]; simp; omega)
          exact ⟨_, hstep r' hr', hfreed.closed h.linked hslot hclosed hsrv htable⟩

/-- **What freeing a process does**: it releases slots of the process, those whose close is not refused. -/
theorem FdInv.free {s : Server} (h : FdInv s) {pid : Nat} {proc : Process} (hp : s.proc pid = some proc)
    (close : Nat → Int) :
    ∃ r, s.processFree proc close = .ok r ∧ FdInv (r.commit pid) ∧
      (∃ entries, r.srv = { s with fdEntries := entries }) ∧
      Table.Released s.table pid (r.commit pid).table ∧
      (∀ k v, s.table.slot pid k = some v → SlotFreed s pid close r k v) := by
  have hself : s.setProc pid (some proc) = s := setProc_self hp
  obtain ⟨r, hr, hfreed⟩ :=
    FdInv.freeFds close pid proc.fds.length 0 s proc (hself.symm ▸ h) (lt_of_proc hp) (by omega)
  have hrel := hfreed.released
  have hall := hfreed.passed
  rw [hself] at hrel hall
  exact ⟨r, hr, hfreed.inv, hfreed.srv, hrel, fun k v hv => hall k v (Nat.zero_le k) hv⟩

/-- When no close was refused no slot is left. -/
theorem slot_none_of_freed {s : Server} {pid : Nat} {close : Nat → Int} {r : FdResult}
    (hrel : Table.Released s.table pid (r.commit pid).table)
    (hall : ∀ k v, s.table.slot pid k = some v → SlotFreed s pid close r k v)
    (hok : ∀ c ∈ r.calls, c.closeFailed = false) (k : Nat) : (r.commit pid).table.slot pid k = none := by
  cases hv : s.table.slot pid k with
  | none => exact hrel.slot_free hv
  | some v =>
      rcases hall k v hv with ⟨-, -, c, hc, hfailed⟩ | ⟨hgone, -⟩
      · rw [hok c hc] at hfailed
        cases hfailed
      · exact hgone

end Server
end DistributedPlatform
