import Mathlib.Data.List.Nodup
import DistributedPlatform.Net.SocketTcp

/-!
# `Devices` — device objects and the registry of devices

`devices/*.cpp` (the four device classes) and `devices.cpp` (`Devices`, a vector of named, reference
counted entries searched linearly). The registry does not look inside its devices and is generic in what
stands for a `Device *`.
-/

namespace DistributedPlatform

/-! ## Device objects -/

/-- `DeviceFull`, `DeviceNull`, `DeviceZero` and `DeviceSocket`. A `Socket *` is the index of the object
    among the sockets the server has created (none is ever deleted). -/
inductive Device
  | full
  | null
  | zero
  | socket (sock : Option Nat)
  deriving DecidableEq, Repr

namespace Device

/-- `write`; `ans` is the host's answer should the device reach the host. -/
def write (socks : List SocketTcp) (d : Device) (size : Nat) (ans : Int) : Eff (Int × List HostCall) :=
  match d with
  | .full => .ok (-1, [])
  | .null => .ok (size, [])
  | .zero => .ok (size, [])
  | .socket none => .ok (-1, [])
  | .socket (some k) =>
      match socks[k]? with
      | none => .error .dangling
      | some s => .ok (s.write size ans)

/-- `read`: `full` and `zero` produce NUL bytes, `null` is at end of file. -/
def read (socks : List SocketTcp) (d : Device) (max : Nat) (ans : ReadAns) :
    Eff (ReadAns × List HostCall) :=
  match d with
  | .full => .ok (some (List.replicate max 0), [])
  | .null => .ok (some [], [])
  | .zero => .ok (some (List.replicate max 0), [])
  | .socket none => .ok (none, [])
  | .socket (some k) =>
      match socks[k]? with
      | none => .error .dangling
      | some s => .ok (s.read max ans)

/-- A device whose socket object exists answers a write, … -/
theorem write_ok {socks : List SocketTcp} {d : Device} (h : ∀ k, d = .socket (some k) → k < socks.length)
    (size : Nat) (ans : Int) : ∃ r, d.write socks size ans = .ok r := by
  cases d with
  | full => exact ⟨_, rfl⟩
  | null => exact ⟨_, rfl⟩
  | zero => exact ⟨_, rfl⟩
  | socket sock =>
      cases sock with
      | none => exact ⟨_, rfl⟩
      | some k => exact ⟨_, by simp [write, h k rfl]; rfl⟩

/-- … and a read. -/
theorem read_ok {socks : List SocketTcp} {d : Device} (h : ∀ k, d = .socket (some k) → k < socks.length)
    (max : Nat) (ans : ReadAns) : ∃ r, d.read socks max ans = .ok r := by
  cases d with
  | full => exact ⟨_, rfl⟩
  | null => exact ⟨_, rfl⟩
  | zero => exact ⟨_, rfl⟩
  | socket sock =>
      cases sock with
      | none => exact ⟨_, rfl⟩
      | some k => exact ⟨_, by simp [read, h k rfl]; rfl⟩

end Device

/-! ## The registry -/

structure DeviceEntry (δ : Type) where
  name : CStr
  device : δ
  refCount : Int
  deriving DecidableEq, Repr

structure Devices (δ : Type) where
  entries : List (DeviceEntry δ) := []
  deriving DecidableEq, Repr

namespace Devices

variable {δ : Type}

/-- `getIndex`: the first entry of that name (no entry ever has a `NULL` name between calls). -/
def getIndex (d : Devices δ) (name : CStr) : Option Nat :=
  d.entries.findIdx? fun e => e.name == name

def get (d : Devices δ) (name : CStr) : Option (DeviceEntry δ) :=
  (d.getIndex name).bind fun i => d.entries[i]?

def exists_ (d : Devices δ) (name : CStr) : Bool := (d.get name).isSome

/-- `add`: refused for a name in use, a `NULL` device, or when the name cannot be copied. -/
def add (d : Devices δ) (name : CStr) (device : Option δ) (alloc : Bool) : Bool × Devices δ :=
  if d.exists_ name then (false, d)
  else match device with
    | none => (false, d)
    | some dev =>
        if ¬ alloc then (false, d)
        else (true, { entries := d.entries ++ [{ name := name, device := dev, refCount := 0 }] })

def remove (d : Devices δ) (name : Option CStr) : Bool × Devices δ :=
  match name with
  | none => (false, d)
  | some name =>
      match d.getIndex name with
      | none => (false, d)
      | some i =>
          match d.entries[i]? with
          | none => (false, d)
          -- a device that is open is not removed
          | some e => if e.refCount > 0 then (false, d) else (true, { entries := d.entries.eraseIdx i })

/-- The registry with the count of the entry of that name changed. -/
def modifyCount (d : Devices δ) (name : CStr) (f : Int → Int) : Devices δ :=
  match d.getIndex name with
  | none => d
  | some i => { entries := d.entries.modify i fun e => { e with refCount := f e.refCount } }

/-- The count is an `int`: counted past its largest value it turns negative. -/
def open_ (d : Devices δ) (name : CStr) : Option δ × Devices δ :=
  match d.get name with
  | none => (none, d)
  | some e => (some e.device, d.modifyCount name fun n => toI32 (n + 1))

def close (d : Devices δ) (name : CStr) : Bool × Devices δ :=
  match d.get name with
  | none => (false, d)
  | some e => if e.refCount ≤ 0 then (false, d) else (true, d.modifyCount name (· - 1))

/-! ### Lookup -/

theorem get_eq_find (d : Devices δ) (name : CStr) : d.get name = d.entries.find? fun e => e.name == name :=
  List.find?_eq_bind_findIdx?_getElem?.symm

/-- An entry found by name is an entry of that name. -/
theorem mem_of_get {d : Devices δ} {name : CStr} {e : DeviceEntry δ} (h : d.get name = some e) :
    e ∈ d.entries ∧ e.name = name := by
  rw [get_eq_find] at h
  exact ⟨List.mem_of_find?_eq_some h, by simpa using List.find?_some h⟩

theorem exists_iff {d : Devices δ} {name : CStr} :
    d.exists_ name = true ↔ ∃ e ∈ d.entries, e.name = name := by
  unfold exists_
  rw [get_eq_find, List.find?_isSome]
  simp

/-- Counting changes no name and no device. -/
theorem modifyCount_entries (d : Devices δ) (name : CStr) (f : Int → Int) {β : Type}
    (g : CStr → δ → β) :
    (d.modifyCount name f).entries.map (fun e => g e.name e.device) =
      d.entries.map (fun e => g e.name e.device) := by
  unfold modifyCount
  split
  · rfl
  · next i _ =>
      apply List.ext_getElem?
      intro k
      rw [List.getElem?_map, List.getElem?_map, List.getElem?_modify]
      by_cases hk : i = k
      · subst hk; cases d.entries[i]? <;> simp
      · simp [hk]

/-! ### Distinct names -/

/-- No name is stored twice. -/
def Distinct (d : Devices δ) : Prop := (d.entries.map (·.name)).Nodup

/-- Entries of one name are one entry. -/
theorem Distinct.index {d : Devices δ} (h : d.Distinct) {i k : Nat} {e e' : DeviceEntry δ}
    (he : d.entries[i]? = some e) (he' : d.entries[k]? = some e') (hname : e.name = e'.name) : i = k := by
  have hi : (d.entries.map (·.name))[i]? = some e.name := by rw [List.getElem?_map, he]; rfl
  have hk : (d.entries.map (·.name))[k]? = some e.name := by rw [List.getElem?_map, he', hname]; rfl
  obtain ⟨hlt, hget⟩ := List.getElem?_eq_some_iff.mp hi
  obtain ⟨hlt', hget'⟩ := List.getElem?_eq_some_iff.mp hk
  exact (List.Nodup.getElem_inj_iff h).mp (hget.trans hget'.symm)

theorem getIndex_of_entry {d : Devices δ} (h : d.Distinct) {i : Nat} {e : DeviceEntry δ}
    (he : d.entries[i]? = some e) : d.getIndex e.name = some i := by
  unfold getIndex
  cases hk : d.entries.findIdx? fun e' => e'.name == e.name with
  | none =>
      have hall := List.findIdx?_eq_none_iff.mp hk e (List.mem_of_getElem? he)
      simp at hall
  | some k =>
      obtain ⟨hlt, hname, -⟩ := List.findIdx?_eq_some_iff_getElem.mp hk
      rw [h.index (List.getElem?_eq_getElem hlt) he (by simpa using hname)]

theorem entry_of_getIndex {d : Devices δ} {name : CStr} {i : Nat} (h : d.getIndex name = some i) :
    ∃ e, d.entries[i]? = some e ∧ e.name = name := by
  obtain ⟨hlt, hname, -⟩ := List.findIdx?_eq_some_iff_getElem.mp h
  exact ⟨d.entries[i], List.getElem?_eq_getElem hlt, by simpa using hname⟩

/-- **Lookup is membership.** -/
theorem get_eq_some_iff {d : Devices δ} (h : d.Distinct) {name : CStr} {e : DeviceEntry δ} :
    d.get name = some e ↔ e ∈ d.entries ∧ e.name = name := by
  constructor
  · exact mem_of_get
  · rintro ⟨hmem, rfl⟩
    obtain ⟨i, he⟩ := List.getElem?_of_mem hmem
    unfold get
    rw [getIndex_of_entry h he]
    exact he

/-- Changing a count, entry by entry. -/
theorem modifyCount_eq_map {d : Devices δ} (h : d.Distinct) (name : CStr) (f : Int → Int) :
    (d.modifyCount name f).entries =
      d.entries.map fun e => if e.name = name then { e with refCount := f e.refCount } else e := by
  unfold modifyCount
  cases hi : d.getIndex name with
  | none =>
      have hother : ∀ e ∈ d.entries, e.name ≠ name := by
        intro e he hname
        have hall := List.findIdx?_eq_none_iff.mp hi e he
        simp [hname] at hall
      have hid : d.entries.map (fun e => if e.name = name then { e with refCount := f e.refCount } else e) =
          d.entries.map id := List.map_congr_left fun e he => if_neg (hother e he)
      rw [hid, List.map_id]
  | some i =>
      obtain ⟨e₀, he₀, hname₀⟩ := entry_of_getIndex hi
      apply List.ext_getElem?
      intro k
      rw [List.getElem?_modify, List.getElem?_map]
      cases hk : d.entries[k]? with
      | none => simp
      | some e =>
          by_cases hik : i = k
          · subst hik
            rw [he₀] at hk
            cases hk
            simp [hname₀]
          · have hne : e.name ≠ name := by
              intro hname
              exact hik (h.index he₀ hk (hname₀.trans hname.symm))
            simp [hik, hne]

/-- The entries after the count of `e` is changed: `e` with the new count, and those of other names. -/
theorem mem_modifyCount_iff {d : Devices δ} (h : d.Distinct) {name : CStr} {e : DeviceEntry δ}
    (he : d.get name = some e) (f : Int → Int) {e' : DeviceEntry δ} :
    e' ∈ (d.modifyCount name f).entries ↔
      e' = { e with refCount := f e.refCount } ∨ (e' ∈ d.entries ∧ e'.name ≠ name) := by
  obtain ⟨hmem, hname⟩ := mem_of_get he
  rw [modifyCount_eq_map h]
  constructor
  · intro hmap
    obtain ⟨e₀, he₀, rfl⟩ := List.mem_map.mp hmap
    by_cases h₀ : e₀.name = name
    · have hsame := (get_eq_some_iff h).mpr ⟨he₀, h₀⟩
      rw [he] at hsame
      cases hsame
      exact Or.inl (if_pos h₀)
    · rw [if_neg h₀]
      exact Or.inr ⟨he₀, h₀⟩
  · rintro (rfl | ⟨hold, hne⟩)
    · exact List.mem_map.mpr ⟨e, hmem, if_pos hname⟩
    · exact List.mem_map.mpr ⟨e', hold, if_neg hne⟩

theorem Distinct.modifyCount {d : Devices δ} (h : d.Distinct) (name : CStr) (f : Int → Int) :
    (d.modifyCount name f).Distinct := by
  unfold Distinct
  rw [modifyCount_entries d name f fun n _ => n]
  exact h

/-- Erasing the entry found leaves those of other names. -/
theorem eraseIdx_eq_filter {d : Devices δ} (h : d.Distinct) {name : CStr} {i : Nat}
    (hi : d.getIndex name = some i) :
    d.entries.eraseIdx i = d.entries.filter fun e => e.name ≠ name := by
  obtain ⟨e₀, he₀, hname₀⟩ := entry_of_getIndex hi
  rw [List.eraseIdx_eq_take_drop_succ]
  have hsplit : d.entries = d.entries.take i ++ e₀ :: d.entries.drop (i + 1) := by
    obtain ⟨hlt, hget⟩ := List.getElem?_eq_some_iff.mp he₀
    rw [← hget, ← List.drop_eq_getElem_cons hlt, List.take_append_drop]
  have hother : ∀ e k, d.entries[k]? = some e → k ≠ i → e.name ≠ name := by
    intro e k hk hki hname
    exact hki (h.index hk he₀ (hname.trans hname₀.symm))
  conv_rhs => rw [hsplit]
  rw [List.filter_append, List.filter_cons_of_neg (by simp [hname₀])]
  congr 1
  · refine (List.filter_eq_self.mpr ?_).symm
    intro e he
    obtain ⟨k, hk⟩ := List.getElem?_of_mem he
    rw [List.getElem?_take] at hk
    split at hk
    · simpa using hother e k hk (by omega)
    · cases hk
  · refine (List.filter_eq_self.mpr ?_).symm
    intro e he
    obtain ⟨k, hk⟩ := List.getElem?_of_mem he
    rw [List.getElem?_drop] at hk
    simpa using hother e _ hk (by omega)

/-- A registered device is removed unless it is counted as open. -/
theorem remove_iff {d : Devices δ} (h : d.Distinct) {e : DeviceEntry δ} (he : e ∈ d.entries) :
    (d.remove (some e.name)).1 = true ↔ e.refCount ≤ 0 := by
  obtain ⟨i, hi⟩ := List.getElem?_of_mem he
  unfold remove
  simp only [getIndex_of_entry h hi, hi]
  by_cases hopen : e.refCount > 0
  · rw [if_pos hopen]
    exact iff_of_false Bool.false_ne_true (by omega)
  · rw [if_neg hopen]
    exact iff_of_true rfl (by omega)

/-- The exits of `add`: refused, or the name was free and a new entry stands at the end. -/
theorem add_cases (d : Devices δ) (name : CStr) (device : Option δ) (alloc : Bool) :
    ((d.exists_ name = true ∨ device = none ∨ alloc = false) ∧ d.add name device alloc = (false, d)) ∨
    ∃ dev, device = some dev ∧ alloc = true ∧ d.exists_ name = false ∧
      d.add name device alloc =
        (true, { entries := d.entries ++ [{ name := name, device := dev, refCount := 0 }] }) := by
  unfold add
  by_cases hex : d.exists_ name = true
  · exact Or.inl ⟨Or.inl hex, if_pos hex⟩
  · cases device with
    | none => exact Or.inl ⟨Or.inr (Or.inl rfl), by simp [hex]⟩
    | some dev =>
        by_cases ha : alloc = true
        · exact Or.inr ⟨dev, rfl, ha, by simpa using hex, by simp [hex, ha]⟩
        · exact Or.inl ⟨Or.inr (Or.inr (by simpa using ha)), by simp [hex, ha]⟩

end Devices

end DistributedPlatform
