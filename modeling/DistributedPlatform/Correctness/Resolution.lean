import DistributedPlatform.Correctness.FdTable
import DistributedPlatform.Lib.Lexical

/-!
# `Correctness.Resolution` — what the path of an open comes down to

An open takes a path that starts with `/dev/` to the registry, where the rest of it is looked up as it stands,
and any other path to the host, which reads it by its components. So two spellings of one path can lead to
different things.

* `open_device`, `open_noDevice`, `open_file` — an open does what the target of its path says;
* `target_eq_iff` — two absolute spellings have the same target if and only if neither is taken for a device,
  or both are and the registry knows them under one name or not at all.
-/

namespace DistributedPlatform
namespace Resolution

open Server Lexical

/-- What a path leads to: a device of the registry, a device that is not registered, by the components of its
    name, or a file of the host, by the components of its path. -/
inductive Target
  | device (index : Nat)
  | noDevice (name : List CStr)
  | file (path : List CStr)
  deriving DecidableEq, Repr

/-- The path is taken for a device. -/
def isDevice (path : CStr) : Bool := (bytes "/dev/").isPrefixOf path

def target (s : Server) (path : CStr) : Target :=
  if isDevice path then
    match s.devices.getIndex (path.drop 5) with
    | some i => .device i
    | none => .noDevice (components 47 (path.drop 5))
  else .file (components 47 (s.filesystem ++ path))

variable {s : Server} {proc : Process} {path : CStr} {flags : Int} {mode : Nat} {h : OpenHost}

theorem target_of_device (hdev : isDevice path = true) :
    target s path = match s.devices.getIndex (path.drop 5) with
      | some i => .device i
      | none => .noDevice (components 47 (path.drop 5)) := if_pos hdev

theorem target_of_file (hdev : isDevice path = false) :
    target s path = .file (components 47 (s.filesystem ++ path)) := if_neg (by simp [hdev])

/-! ## An open does what the target says -/

/-- A registered device: it is that device that gets an entry. -/
theorem open_device {i : Nat} (ht : target s path = .device i) :
    ∃ e, s.devices.entries[i]? = some e ∧ s.fdOpenFdFromPath proc path flags mode h =
      { s with devices := (s.devices.open_ e.name).2 }.fdBind proc (.fdTypeDevice e.device) h.entry := by
  cases hdev : isDevice path with
  | false => rw [target_of_file hdev] at ht; cases ht
  | true =>
      rw [target_of_device hdev] at ht
      cases hi : s.devices.getIndex (path.drop 5) with
      | none => rw [hi] at ht; cases ht
      | some k =>
          rw [hi] at ht
          cases ht
          obtain ⟨e, he, hname⟩ := Devices.entry_of_getIndex hi
          have hget : s.devices.get (path.drop 5) = some e := by
            rw [Devices.get, hi]
            exact he
          refine ⟨e, he, ?_⟩
          unfold isDevice at hdev
          rw [hname]
          simp only [fdOpenFdFromPath, hdev, if_true, fdOpenFdFromDevice, Devices.open_, hget]

/-- A device that is not registered: the call fails and does nothing. -/
theorem open_noDevice {name : List CStr} (ht : target s path = .noDevice name) :
    s.fdOpenFdFromPath proc path flags mode h = .ok { ret := -1, srv := s, proc := proc } := by
  cases hdev : isDevice path with
  | false => rw [target_of_file hdev] at ht; cases ht
  | true =>
      rw [target_of_device hdev] at ht
      cases hi : s.devices.getIndex (path.drop 5) with
      | some k => rw [hi] at ht; cases ht
      | none =>
          have hget : s.devices.get (path.drop 5) = none := by
            rw [Devices.get, hi]
            rfl
          unfold isDevice at hdev
          simp only [fdOpenFdFromPath, hdev, if_true, fdOpenFdFromDevice, Devices.open_, hget]

/-- A file: whatever is opened on the host has the components of the target, and no device is involved. -/
theorem open_file {comps : List CStr} (ht : target s path = .file comps) :
    s.fdOpenFdFromPath proc path flags mode h = s.fdOpenFdFromFile proc path flags mode h ∧
      ∀ r, s.fdOpenFdFromPath proc path flags mode h = .ok r → ∀ hostPath f m ret,
        HostCall.open hostPath f m ret ∈ r.calls → components 47 hostPath = comps := by
  cases hdev : isDevice path with
  | true =>
      rw [target_of_device hdev] at ht
      split at ht <;> cases ht
  | false =>
      rw [target_of_file hdev] at ht
      cases ht
      unfold isDevice at hdev
      refine ⟨by simp [fdOpenFdFromPath, hdev], fun r hr hostPath f m ret hmem => ?_⟩
      rw [(open_calls hr hmem).1]

/-! ## Two spellings -/

/-- The registry takes both for the same: neither is a device, or both are, of one name or of none it knows. -/
def SameWay (s : Server) (p q : CStr) : Prop :=
  (isDevice p = false ∧ isDevice q = false) ∨
    (isDevice p = true ∧ isDevice q = true ∧ (p.drop 5 = q.drop 5 ∨
      s.devices.exists_ (p.drop 5) = false ∧ s.devices.exists_ (q.drop 5) = false))

/-- A path taken for a device, with its name. -/
theorem eq_dev_append (hdev : isDevice path = true) : path = bytes "/dev" ++ 47 :: path.drop 5 := by
  obtain ⟨r, rfl⟩ := List.isPrefixOf_iff_prefix.mp hdev
  rfl

/-- The components of a device's path are `dev` and those of its name. -/
theorem components_device (hdev : isDevice path = true) :
    components 47 path = components 47 (bytes "/dev") ++ components 47 (path.drop 5) := by
  conv_lhs => rw [eq_dev_append hdev]
  exact components_append 47 _ _

theorem components_mounted (fs : CStr) (habs : path.head? = some 47) :
    components 47 (fs ++ path) = components 47 fs ++ components 47 path := by
  obtain ⟨r, rfl⟩ : ∃ r, path = 47 :: r := by
    cases path with
    | nil => cases habs
    | cons b r => cases habs; exact ⟨r, rfl⟩
  rw [components_append, components_cons_sep]

theorem exists_eq_isSome (d : Devices Nat) (name : CStr) : d.exists_ name = (d.getIndex name).isSome := by
  unfold Devices.exists_ Devices.get
  cases hi : d.getIndex name with
  | none => rfl
  | some i =>
      obtain ⟨e, he, -⟩ := Devices.entry_of_getIndex hi
      rw [Option.bind_some, he]
      rfl

/-- One index is one name. -/
theorem name_of_getIndex {d : Devices Nat} {x y : CStr} {i : Nat} (hx : d.getIndex x = some i)
    (hy : d.getIndex y = some i) : x = y := by
  obtain ⟨e, he, hname⟩ := Devices.entry_of_getIndex hx
  obtain ⟨e', he', hname'⟩ := Devices.entry_of_getIndex hy
  rw [he] at he'
  cases he'
  exact hname.symm.trans hname'

/-- Two paths taken for devices. -/
theorem target_eq_iff_of_devices {p q : CStr} (hp : isDevice p = true) (hq : isDevice q = true)
    (hnames : components 47 (p.drop 5) = components 47 (q.drop 5)) :
    target s p = target s q ↔
      p.drop 5 = q.drop 5 ∨ s.devices.exists_ (p.drop 5) = false ∧ s.devices.exists_ (q.drop 5) = false := by
  rw [target_of_device hp, target_of_device hq, exists_eq_isSome, exists_eq_isSome]
  -- one name is not found under two indices, or found and not found
  have hsame : p.drop 5 = q.drop 5 → s.devices.getIndex (p.drop 5) = s.devices.getIndex (q.drop 5) :=
    congrArg s.devices.getIndex
  cases hip : s.devices.getIndex (p.drop 5) with
  | none =>
      cases hiq : s.devices.getIndex (q.drop 5) with
      | none => simp [hnames]
      | some k =>
          rw [hip, hiq] at hsame
          refine iff_of_false nofun ?_
          rintro (heq | ⟨-, hno⟩)
          · cases hsame heq
          · cases hno
  | some i =>
      cases hiq : s.devices.getIndex (q.drop 5) with
      | none =>
          rw [hip, hiq] at hsame
          refine iff_of_false nofun ?_
          rintro (heq | ⟨hno, -⟩)
          · cases hsame heq
          · cases hno
      | some k =>
          rw [hip, hiq, Option.some.injEq] at hsame
          have hname : i = k → p.drop 5 = q.drop 5 := by
            rintro rfl
            exact name_of_getIndex hip hiq
          simp only [Target.device.injEq, Option.isSome_some, Bool.true_eq_false, and_false, or_false]
          exact ⟨hname, hsame⟩

/-- **When two spellings lead to the same thing.** For two absolute paths with the same components, whatever is
    registered and wherever the container is: an open resolves them to the same registered device, the same
    missing device or the same file of the container, if and only if neither starts with `/dev/`, or both do
    and what follows is the same name, or in both a name that is not registered. -/
theorem target_eq_iff {p q : CStr} (hp : p.head? = some 47) (hq : q.head? = some 47)
    (hc : components 47 p = components 47 q) : target s p = target s q ↔ SameWay s p q := by
  unfold SameWay
  cases hdp : isDevice p with
  | false =>
      cases hdq : isDevice q with
      | false =>
          rw [target_of_file hdp, target_of_file hdq, components_mounted _ hp, components_mounted _ hq, hc]
          exact iff_of_true rfl (Or.inl ⟨rfl, rfl⟩)
      | true =>
          rw [target_of_file hdp, target_of_device hdq]
          refine iff_of_false (fun h => ?_) (by simp)
          split at h <;> cases h
  | true =>
      cases hdq : isDevice q with
      | false =>
          rw [target_of_file hdq, target_of_device hdp]
          refine iff_of_false (fun h => ?_) (by simp)
          split at h <;> cases h
      | true =>
          have hnames : components 47 (p.drop 5) = components 47 (q.drop 5) := by
            rw [components_device hdp, components_device hdq] at hc
            exact List.append_cancel_left hc
          rw [target_eq_iff_of_devices hdp hdq hnames]
          simp

/-- A file of the container, with a slash twice. -/
theorem target_eq_iff_file :
    target FdTable.booted (bytes "/a//b") = target FdTable.booted (bytes "/a/b") ↔
      SameWay FdTable.booted (bytes "/a//b") (bytes "/a/b") :=
  target_eq_iff (by decide) (by decide) (by decide)

/-- `//dev/null` is a file of the container. -/
theorem device_passed_by :
    ¬ ∀ (s : Server) (p q : CStr), p.head? = some 47 → q.head? = some 47 →
      components 47 p = components 47 q → target s p = target s q := by
  intro hall
  have hsame := hall FdTable.booted (bytes "//dev/null") (bytes "/dev/null") (by decide) (by decide) (by decide)
  exact absurd hsame (by decide)

end Resolution
end DistributedPlatform
