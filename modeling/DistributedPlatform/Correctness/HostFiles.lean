import DistributedPlatform.Correctness.FdTable

/-!
# `Correctness.HostFiles` — what becomes of the host's descriptors

An image gets a descriptor from `open(2)` and keeps it in an entry until the entry is closed. When there is no memory
for an entry the descriptor is given back, and when the host refuses that nothing has it any more.

* `step_files` — what one operation gets, gives back and loses is what its entries gain and lose;
* `files_accounted` — so it is over any run: each descriptor the host gave was closed, or lost by an open that failed,
  or is that of one entry.
-/

namespace DistributedPlatform
namespace HostFiles

open Machine Server FdTable

/-- The host file an entry stands for. -/
def hostFile (e : FdEntry) : Option Int :=
  match e.type with
  | .fdTypeFd fd => some fd
  | _ => none

/-- The host descriptors in the entries of an image. -/
def files (s : Server) : List Int := s.fdEntries.filterMap fun e => e.bind hostFile

/-- What `open(2)` gave. -/
def opened (calls : List HostCall) : List Int :=
  calls.filterMap fun
    | .open _ _ _ ret => if ret = -1 then none else some ret
    | _ => none

/-- What `close(2)` took. -/
def closed (calls : List HostCall) : List Int :=
  calls.filterMap fun
    | .close fd ret => if ret = -1 then none else some fd
    | _ => none

/-- A descriptor for which there is no entry, and which is not given back. -/
def lost : ImageOp → List Int
  | .open _ path _ _ h =>
      if (bytes "/dev/").isPrefixOf path = false ∧ h.localPath = true ∧ h.open_ ≠ -1 ∧ h.entry = false ∧
        (h.open_ < 0 ∨ h.close = -1) then [h.open_] else []
  | _ => []

variable {s t : Server}

theorem closed_append (cs ds : List HostCall) : closed (cs ++ ds) = closed cs ++ closed ds := List.filterMap_append

/-! ## The entries -/

theorem files_eq (s : Server) {n : Nat} (hle : s.fdEntries.length ≤ n) :
    files s = Slots.values (fun k => (s.fdGet k).bind hostFile) n := by
  unfold files
  rw [← Slots.values_getElem? _ hle]
  refine Slots.values_congr fun k _ => ?_
  rw [fdGet_natCast]
  cases s.fdEntries[k]? <;> rfl

theorem files_congr (h : t.fdGet = s.fdGet) : files t = files s := by
  rw [files_eq s (Nat.le_max_left _ t.fdEntries.length), files_eq t (Nat.le_max_right s.fdEntries.length _), h]

/-- One entry changes. -/
theorem files_update {i : Nat} {e : Option FdEntry} (h : t.fdGet = Function.update s.fdGet i e) :
    ((e.bind hostFile).toList ++ files s).Perm (((s.fdGet i).bind hostFile).toList ++ files t) := by
  let n := s.fdEntries.length + t.fdEntries.length + i + 1
  have hn : n = s.fdEntries.length + t.fdEntries.length + i + 1 := rfl
  rw [files_eq s (n := n) (by omega), files_eq t (n := n) (by omega)]
  have hupdate := Slots.values_update (f := fun k : Nat => (s.fdGet k).bind hostFile)
    (g := fun k : Nat => (t.fdGet k).bind hostFile) (n := n) (i := i) (by omega) (fun k hk => by
      have hne : (k : Int) ≠ i := by omega
      rw [h, Function.update_of_ne hne])
  rw [h, Function.update_self] at hupdate
  rwa [h]

/-! ## Closing -/

/-- Every entry carries one reference and an object. -/
def EntriesOk (s : Server) : Prop := ∀ {v e}, s.fdGet v = some e → e.refCount = 1 ∧ s.IsObject e.type

/-- What closing does: the files that are gone are those that were closed, and none was opened. -/
structure Closes (s : Server) (calls : List HostCall) (t : Server) : Prop where
  entries : EntriesOk t
  files : (files s).Perm (closed calls ++ files t)
  opened : opened calls = []

theorem Closes.refl (hs : EntriesOk s) : Closes s [] s := ⟨hs, .refl _, rfl⟩

theorem Closes.trans {u : Server} {cs ds : List HostCall} (h : Closes s cs t) (h' : Closes t ds u) :
    Closes s (cs ++ ds) u where
  entries := h'.entries
  files := by
    rw [closed_append, List.append_assoc]
    exact h.files.trans (h'.files.append_left _)
  opened := by
    have happend : HostFiles.opened (cs ++ ds) = HostFiles.opened cs ++ HostFiles.opened ds := List.filterMap_append
    rw [happend, h.opened, h'.opened, List.append_nil]

/-- The entry goes, with its file. -/
theorem drop_files (hs : EntriesOk s) {v : Int} {e : FdEntry} (he : s.fdGet v = some e) :
    EntriesOk { s with fdEntries := s.fdEntries.set v.toNat none } ∧
      (files s).Perm ((hostFile e).toList ++ files { s with fdEntries := s.fdEntries.set v.toNat none }) := by
  have hset := fdGet_set he none
  constructor
  · intro w e' hw
    rw [hset] at hw
    by_cases hwv : w = v
    · rw [hwv, Function.update_self] at hw
      cases hw
    · rw [Function.update_of_ne hwv] at hw
      exact hs hw
  · have hv : ((v.toNat : Nat) : Int) = v := by
      have := (fdGet_eq_some_iff.mp he).1
      omega
    have hupdate := files_update (s := s) (t := { s with fdEntries := s.fdEntries.set v.toNat none })
      (i := v.toNat) (e := none) (by rw [hset, hv])
    rw [hv, he] at hupdate
    exact hupdate

theorem close_files (hs : EntriesOk s) {proc : Process} {v closeRet : Int} {r : FdResult}
    (hr : s.fdClose proc v closeRet = .ok r) : Closes s r.calls r.srv := by
  cases he : s.fdGet v with
  | none =>
      rw [fdClose_of_none he] at hr
      cases hr
      exact .refl hs
  | some e =>
      obtain ⟨hcount, hobj⟩ := hs he
      unfold fdClose at hr
      rw [he] at hr
      simp only [hcount, if_neg Nat.one_ne_zero, Nat.le_refl, if_true] at hr
      obtain ⟨hentries, hfiles⟩ := drop_files hs he
      cases htype : e.type with
      | fdTypeNone => rw [htype] at hobj; exact absurd hobj id
      | fdTypeSocket k => rw [htype] at hobj; exact absurd hobj id
      | fdTypeDevice k =>
          simp only [htype] at hr
          cases hr
          have hnot : hostFile e = none := by simp [hostFile, htype]
          rw [hnot] at hfiles
          exact ⟨hentries, hfiles, rfl⟩
      | fdTypeFd fd =>
          have hfile : hostFile e = some fd := by simp [hostFile, htype]
          simp only [htype] at hr
          by_cases hret : closeRet = -1
          · rw [if_pos hret] at hr
            cases hr
            exact ⟨hs, by simp [closed, hret], rfl⟩
          · rw [if_neg hret] at hr
            cases hr
            rw [hfile] at hfiles
            have hclosed : closed [.close fd closeRet] = [fd] := by simp [closed, hret]
            refine ⟨hentries, ?_, rfl⟩
            show (files s).Perm (closed [.close fd closeRet] ++ _)
            rw [hclosed]
            exact hfiles

/-- The loop of `processFree`. -/
theorem freeFds_files {close : Nat → Int} {left procFd : Nat} {proc : Process} {r : FdResult} (hs : EntriesOk s)
    (hr : freeFds close left procFd s proc = .ok r) : Closes s r.calls r.srv := by
  induction left generalizing procFd s proc r with
  | zero =>
      unfold freeFds at hr
      cases hr
      exact .refl hs
  | succ left ih =>
      unfold freeFds at hr
      split at hr
      · cases hr
      · split at hr
        · exact ih hs hr
        · cases hclose : s.fdClose proc _ (close procFd) with
          | error e => rw [hclose] at hr; cases hr
          | ok c =>
              rw [hclose] at hr
              dsimp only at hr
              have hone := close_files hs hclose
              cases hrest : freeFds close left (procFd + 1) c.srv c.proc with
              | error e => rw [hrest] at hr; cases hr
              | ok r' =>
                  rw [hrest] at hr
                  cases hr
                  exact hone.trans (ih hone.entries hrest)

/-! ## Opening -/

/-- A new entry comes with its file. -/
theorem bind_files {proc : Process} {devices : Devices Nat} {type : FdType} {calls : List HostCall} {r : FdResult}
    (hb : s.Bound proc devices type calls (.ok r)) {e : FdEntry} (htype : e.type = type) :
    ((hostFile e).toList ++ files s).Perm (files r.srv) ∧ r.calls = calls := by
  obtain ⟨i, entries, hnone, hr, hup⟩ := hb
  cases hr
  have hupdate := files_update (t := { s with fdEntries := entries }) hup
  rw [hnone] at hupdate
  have hsame : hostFile e = hostFile { fd := i, type := type, refCount := 1 } := by simp [hostFile, htype]
  rw [hsame]
  exact ⟨hupdate, rfl⟩

theorem open_files (hs : FdInv s) {pid : Nat} {proc : Process} {path : CStr} {flags : Int} {mode : Nat} {h : OpenHost}
    {r : FdResult} (hr : s.fdOpenFdFromPath proc path flags mode h = .ok r) :
    (files s ++ opened r.calls).Perm ((closed r.calls ++ lost (.open pid path flags mode h)) ++ files r.srv) := by
  unfold fdOpenFdFromPath at hr
  split at hr
  · next hdev =>
      have hlost : lost (.open pid path flags mode h) = [] := by simp [lost, hdev]
      rw [hlost]
      rcases fdOpenFdFromDevice_exact hs.allTyped proc (path.drop 5) flags mode h with
        ⟨-, hr'⟩ | ⟨e, -, ⟨-, hr'⟩ | ⟨-, hb⟩⟩
      · rw [hr'] at hr
        cases hr
        simp [opened, closed]
      · rw [hr'] at hr
        cases hr
        have hsame :
            files { s with devices := s.devices.modifyCount (path.drop 5) fun n => toI32 (n + 1) } = files s := rfl
        simp [opened, closed, hsame]
      · rw [hr] at hb
        obtain ⟨hfiles, hcalls⟩ := bind_files hb (e := { fd := 0, type := .fdTypeDevice e.device, refCount := 1 }) rfl
        rw [hcalls]
        simpa [opened, closed, hostFile] using hfiles
  · next hdev =>
      have hdev' : (bytes "/dev/").isPrefixOf path = false := Bool.eq_false_iff.mpr hdev
      unfold fdOpenFdFromFile fileLocalPath at hr
      by_cases hlp : h.localPath = true
      · simp only [hlp, if_true] at hr
        by_cases hopen : h.open_ = -1
        · rw [if_pos hopen] at hr
          cases hr
          simp [opened, closed, lost, hopen]
        · rw [if_neg hopen] at hr
          rcases fdBind_cases hs.allTyped proc (.fdTypeFd h.open_) h.entry with
            ⟨hentry, hb⟩ | ⟨hentry, i, entries, hnone, hb, hup⟩
          · -- no entry: the descriptor is given back, or lost
            rw [hb] at hr
            simp only [if_true] at hr
            cases hr
            refine (List.perm_append_comm : (files s ++ _).Perm _).trans (List.Perm.append_right _ ?_)
            by_cases hneg : h.open_ < 0
            · have hnonneg : ¬ 0 ≤ h.open_ := by omega
              simp [opened, closed, lost, hdev', hlp, hopen, hentry, hneg, hnonneg]
            · have hnonneg : 0 ≤ h.open_ := by omega
              by_cases hclose : h.close = -1
              · simp [opened, closed, lost, hdev', hlp, hopen, hentry, hneg, hnonneg, hclose]
              · simp [opened, closed, lost, hdev', hlp, hopen, hentry, hneg, hnonneg, hclose]
          · have hnonneg : 0 ≤ (proc.fdAdd i).1 := by
              rw [Process.fdAdd_eq_place]
              exact Int.natCast_nonneg _
            have hne : (proc.fdAdd i).1 ≠ -1 := by omega
            have hupdate := files_update (t := { s with fdEntries := entries }) hup
            rw [hnone] at hupdate
            rw [hb] at hr
            simp only [if_neg hne] at hr
            cases hr
            have hlost : lost (.open pid path flags mode h) = [] := by simp [lost, hentry]
            rw [hlost]
            refine (List.perm_append_comm : (files s ++ _).Perm _).trans ?_
            simpa [opened, closed, hopen, hostFile] using hupdate
      · simp only [hlp, Bool.false_eq_true, if_false] at hr
        cases hr
        simp [opened, closed, lost, hlp]

/-! ## One operation -/

theorem FdInv.entriesOk (hs : FdInv s) : EntriesOk s := fun he => (hs.entry he).2

/-- What is neither opened nor lost. -/
theorem Closes.step {calls : List HostCall} (h : Closes s calls t) :
    (HostFiles.files s ++ HostFiles.opened calls).Perm ((closed calls ++ []) ++ HostFiles.files t) := by
  rw [h.opened, List.append_nil, List.append_nil]
  exact h.files

/-- A new host process has the descriptors of the one that forked, and nothing is opened or closed for it. -/
theorem fork_calls {pid : Nat} {host : ForkHost} {r : Spawned} (hr : s.processFork pid host = .ok r) :
    r.calls = [] := by
  rcases processFork_cases hr with ⟨-, rfl⟩ | ⟨c, -, -, -, rfl⟩ <;> rfl

theorem start_calls {path : CStr} {args : List CStr} {host : StartHost} {r : Spawned}
    (hr : s.startProcess path args host = .ok r) : r.calls = [] := by
  by_cases hs : s.procs = []
  · rw [startProcess_nil hs hr]
  · rcases startProcess_cases hs path args host with ⟨-, hr'⟩ | ⟨-, hr'⟩
    · rw [hr'] at hr
      cases hr
      rfl
    · rw [hr'] at hr
      cases hr
      split <;> rfl

/-- The tables are as they were. -/
theorem Closes.same (hs : EntriesOk s) (hsame : SameTables s t) : Closes s [] t := by
  have hget : t.fdGet = s.fdGet := by
    funext v
    unfold fdGet
    rw [hsame.entries]
  refine ⟨fun {v e} he => ?_, by rw [files_congr hget]; exact .refl _, rfl⟩
  rw [hget] at he
  obtain ⟨hcount, hobj⟩ := hs he
  refine ⟨hcount, ?_⟩
  cases htype : e.type with
  | fdTypeNone => rw [htype] at hobj; exact hobj
  | fdTypeSocket k => rw [htype] at hobj; exact hobj
  | fdTypeDevice k =>
      rw [htype] at hobj
      rw [IsObject, hsame.devs]
      exact hobj
  | fdTypeFd fd => exact trivial

/-- **Each operation is accounted for.** -/
theorem step_files {l : ImageOp × List HostCall} (hs : FdInv s) (hst : ImageStep s l t) :
    (files s ++ opened l.2).Perm ((closed l.2 ++ lost l.1) ++ files t) := by
  obtain ⟨op, calls⟩ := l
  obtain ⟨r, hr, hcalls, ht⟩ := hst
  dsimp only at hr hcalls ⊢
  subst hcalls
  have hok : EntriesOk s := FdInv.entriesOk hs
  cases op with
  | «open» pid path flags mode h =>
      obtain ⟨r', hr', hr⟩ := Eff.bind_eq_ok.mp hr
      cases hr
      rcases ht with rfl | ht
      · unfold syscallOpen at hr'
        cases hp : s.proc pid with
        | none => rw [hp] at hr'; cases hr'
        | some curr =>
            rw [hp] at hr'
            exact open_files hs hr'
      · cases ht
  | close pid procFd closeRet =>
      obtain ⟨r', hr', hr⟩ := Eff.bind_eq_ok.mp hr
      cases hr
      rcases ht with rfl | ht
      · unfold syscallClose at hr'
        cases hp : s.proc pid with
        | none => rw [hp] at hr'; cases hr'
        | some curr =>
            rw [hp] at hr'
            obtain ⟨v, -, hr'⟩ := Eff.bind_eq_ok.mp hr'
            exact (close_files hok hr').step
      · cases ht
  | exec pid path argv h self =>
      rcases syscallExec_cases hr with rfl | ⟨curr, x, r', hp, hfree, -, -, rfl⟩
      · rcases ht with rfl | ht
        · exact (Closes.refl hok).step
        · cases ht
      · rcases ht with rfl | ht
        · exact (freeFds_files hok hfree).step
        · cases ht
  | exit pid closeRets =>
      obtain ⟨curr, r', hp, hfree, rfl⟩ := syscallExit_cases hr
      rcases ht with rfl | ht
      · exact (freeFds_files hok hfree).step
      · cases ht
  | fork pid h =>
      rw [fork_calls hr]
      exact (Closes.same hok (fork_same hr ht)).step
  | start path args h =>
      rw [start_calls hr]
      exact (Closes.same hok (start_same hr ht)).step

/-! ## Every operation -/

variable {s₀ : Server} {tr : List (Server × (ImageOp × List HostCall) × Server)}

/-- **The descriptors of the host are accounted for.** Over any operations of a server image that starts with nothing
    open, whatever the host answers, what `open(2)` gave is what `close(2)` took, what was lost by opening a file for
    which there was no entry, and what stands in the entries, each as often as it was given. -/
theorem files_accounted (h₀ : Unopened s₀) (h : Run ImageStep s₀ tr s) :
    (tr.flatMap fun x => opened x.2.1.2).Perm
      ((tr.flatMap fun x => closed x.2.1.2 ++ lost x.2.1.1) ++ files s) := by
  have hbalance := h.balance (I := FdInv) files (fun _ l _ => opened l.2) (fun _ l _ => closed l.2 ++ lost l.1)
    (fun _ _ _ hs hst => ⟨(kept_step hs hst).inv, step_files hs hst⟩) h₀.fdInv
  have hnone : files s₀ = [] := by
    rw [files_eq s₀ (Nat.le_refl _), Slots.values, List.filterMap_eq_nil_iff]
    intro k _
    rw [h₀.entries, Option.bind_none]
  rw [hnone] at hbalance
  exact hbalance.2

/-- The program opens a file that is given back, one that is lost and one that it keeps. -/
theorem files_accounted_booted :
    ∃ tr s, Run ImageStep booted tr s ∧ files s = [9] ∧ (tr.flatMap fun x => closed x.2.1.2 ++ lost x.2.1.1) = [7, 8] ∧
      (tr.flatMap fun x => opened x.2.1.2).Perm ([7, 8] ++ [9]) := by
  have h0 : Run ImageStep booted _ _ := Run.single
    (i := (ImageOp.open 1 (bytes "/a") 0 0 ⟨true, 7, false, 0⟩, _)) ⟨_, rfl, rfl, Or.inl rfl⟩
  have h1 := Run.tail h0
    (i := (ImageOp.open 1 (bytes "/b") 0 0 ⟨true, 8, false, -1⟩, _)) ⟨_, rfl, rfl, Or.inl rfl⟩
  have h2 := Run.tail h1
    (i := (ImageOp.open 1 (bytes "/c") 0 0 ⟨true, 9, true, 0⟩, _)) ⟨_, rfl, rfl, Or.inl rfl⟩
  exact ⟨_, _, h2, rfl, rfl, files_accounted booted_unopened h2⟩

end HostFiles
end DistributedPlatform
