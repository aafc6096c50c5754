import Mathlib.Data.Finmap
import DistributedPlatform.Devices
import DistributedPlatform.Lib.Run

/-!
# `Correctness.Registry` — the device registry as a finite map

`Devices` is a vector searched linearly. The abstract registry is a finite map from names to a device and a
count.

* `step_simulates` — each call answers as the abstract registry does and leaves its map;
* `registry_is_map` — so does every sequence of calls in which no name is opened 2^31 times without being
  closed: there the `int` of the entry turns negative (`count_overflows`).
-/

namespace DistributedPlatform
namespace Registry

open Machine

variable {δ : Type}

/-! ## Calls -/

/-- The calls, with whether the name can be copied where that matters. Only `remove` may be given no name. -/
inductive Call (δ : Type)
  | add (name : CStr) (device : Option δ) (alloc : Bool)
  | remove (name : Option CStr)
  | exists_ (name : CStr)
  | open (name : CStr)
  | close (name : CStr)

inductive Answer (δ : Type)
  | bool (b : Bool)
  | device (d : Option δ)

/-- The answer is `false` or `NULL`. -/
def Answer.Failed : Answer δ → Prop
  | bool b => b = false
  | device d => d = none

def Call.run (d : Devices δ) : Call δ → Answer δ × Devices δ
  | add name device alloc => ((.bool (d.add name device alloc).1), (d.add name device alloc).2)
  | remove name => (.bool (d.remove name).1, (d.remove name).2)
  | exists_ name => (.bool (d.exists_ name), d)
  | .open name => (.device (d.open_ name).1, (d.open_ name).2)
  | close name => (.bool (d.close name).1, (d.close name).2)

def Step (d : Devices δ) (l : Call δ × Answer δ) (d' : Devices δ) : Prop := l.1.run d = (l.2, d')

/-! ## The abstract registry -/

/-- A finite map from names to a device and a count. -/
abbrev Map (δ : Type) := Finmap fun _ : CStr => δ × ℕ

/-- What each call is for. -/
def Call.spec (m : Map δ) : Call δ → Answer δ × Map δ
  | add name device alloc =>
      match m.lookup name, device with
      | none, some dev => if alloc then (.bool true, m.insert name (dev, 0)) else (.bool false, m)
      | _, _ => (.bool false, m)
  | remove none => (.bool false, m)
  | remove (some name) =>
      match m.lookup name with
      | some (_, 0) => (.bool true, m.erase name)
      | _ => (.bool false, m)
  | exists_ name => (.bool (m.lookup name).isSome, m)
  | .open name =>
      match m.lookup name with
      | some (dev, n) => (.device (some dev), m.insert name (dev, n + 1))
      | none => (.device none, m)
  | close name =>
      match m.lookup name with
      | some (dev, n + 1) => (.bool true, m.insert name (dev, n))
      | _ => (.bool false, m)

def MapStep (m : Map δ) (l : Call δ × Answer δ) (m' : Map δ) : Prop := l.1.spec m = (l.2, m')

/-! ## The abstraction -/

/-- The value of an entry in the map. -/
def value (e : DeviceEntry δ) : δ × ℕ := (e.device, e.refCount.toNat)

/-- The map a registry stands for. -/
def toMap (d : Devices δ) : Map δ := (d.entries.map fun e => (⟨e.name, value e⟩ : Σ _ : CStr, δ × ℕ)).toFinmap

/-- Names are distinct, and counts are not negative. -/
structure Ok (d : Devices δ) : Prop where
  distinct : d.Distinct
  count : ∀ e ∈ d.entries, 0 ≤ e.refCount ∧ e.refCount < 2 ^ 31

/-- The name is not open as often as an `int` can count. -/
def Countable (d : Devices δ) : Call δ → Prop
  | .open name => ∀ e, d.get name = some e → e.refCount ≠ 2 ^ 31 - 1
  | _ => True

theorem lookup_toMap {d : Devices δ} (h : d.Distinct) {name : CStr} {v : δ × ℕ} :
    (toMap d).lookup name = some v ↔ ∃ e ∈ d.entries, e.name = name ∧ value e = v := by
  have hkeys : (d.entries.map fun e => (⟨e.name, value e⟩ : Σ _ : CStr, δ × ℕ)).NodupKeys := by
    unfold List.NodupKeys List.keys
    rw [List.map_map]
    exact h
  unfold toMap
  rw [Finmap.dlookup_list_toFinmap]
  refine (List.mem_dlookup_iff hkeys).trans ?_
  rw [List.mem_map]
  constructor
  · rintro ⟨e, he, heq⟩
    cases heq
    exact ⟨e, he, rfl, rfl⟩
  · rintro ⟨e, he, rfl, rfl⟩
    exact ⟨e, he, rfl⟩

/-- The map gives what `get` finds. -/
theorem lookup_eq_get {d : Devices δ} (h : d.Distinct) (name : CStr) :
    (toMap d).lookup name = (d.get name).map value := by
  ext v
  constructor
  · intro hv
    obtain ⟨e, he, hname, rfl⟩ := (lookup_toMap h).mp hv
    rw [(Devices.get_eq_some_iff h).mpr ⟨he, hname⟩]
    rfl
  · intro hv
    obtain ⟨e, he, rfl⟩ := Option.map_eq_some_iff.mp hv
    obtain ⟨hmem, hname⟩ := Devices.mem_of_get he
    exact (lookup_toMap h).mpr ⟨e, hmem, hname, rfl⟩

/-- Two maps with the same values at every name. -/
theorem map_ext {m m' : Map δ} (h : ∀ name v, m.lookup name = some v ↔ m'.lookup name = some v) : m = m' :=
  Finmap.ext_lookup fun name => Option.ext fun v => h name v

/-! ## The changes of the vector as changes of the map -/

theorem distinct_add {d : Devices δ} (h : d.Distinct) {name : CStr} (hfree : d.exists_ name = false)
    (dev : δ) (n : Int) : Devices.Distinct { entries := d.entries ++ [⟨name, dev, n⟩] } := by
  unfold Devices.Distinct
  rw [List.map_append]
  refine List.Nodup.append h (List.nodup_singleton _) ?_
  intro x hx hx'
  rw [List.map_singleton, List.mem_singleton] at hx'
  obtain ⟨e, he, rfl⟩ := List.mem_map.mp hx
  have hthere := Devices.exists_iff.mpr ⟨e, he, hx'⟩
  rw [hfree] at hthere
  cases hthere

theorem toMap_add {d : Devices δ} (h : d.Distinct) {name : CStr} (hfree : d.exists_ name = false)
    (dev : δ) : toMap { entries := d.entries ++ [⟨name, dev, 0⟩] } = (toMap d).insert name (dev, 0) := by
  apply map_ext
  intro x v
  rw [lookup_toMap (distinct_add h hfree dev 0)]
  by_cases hx : x = name
  · subst hx
    rw [Finmap.lookup_insert]
    constructor
    · rintro ⟨e, he, hname, rfl⟩
      rcases List.mem_append.mp he with he | he
      · have hthere := Devices.exists_iff.mpr ⟨e, he, hname⟩
        rw [hfree] at hthere
        cases hthere
      · rw [List.mem_singleton] at he
        rw [he]
        rfl
    · intro hv
      cases hv
      exact ⟨⟨x, dev, 0⟩, by simp, rfl, rfl⟩
  · rw [Finmap.lookup_insert_of_ne _ hx, lookup_toMap h]
    constructor
    · rintro ⟨e, he, hname, rfl⟩
      rcases List.mem_append.mp he with he | he
      · exact ⟨e, he, hname, rfl⟩
      · rw [List.mem_singleton] at he
        rw [he] at hname
        exact absurd hname.symm hx
    · rintro ⟨e, he, hname, rfl⟩
      exact ⟨e, List.mem_append_left _ he, hname, rfl⟩

theorem toMap_modify {d : Devices δ} (h : d.Distinct) {name : CStr} {e : DeviceEntry δ}
    (he : d.get name = some e) (f : Int → Int) :
    toMap (d.modifyCount name f) = (toMap d).insert name (e.device, (f e.refCount).toNat) := by
  have hname := (Devices.mem_of_get he).2
  apply map_ext
  intro x v
  rw [lookup_toMap (h.modifyCount name f)]
  by_cases hx : x = name
  · subst hx
    rw [Finmap.lookup_insert]
    constructor
    · rintro ⟨e', he', hname', rfl⟩
      rcases (Devices.mem_modifyCount_iff h he f).mp he' with rfl | ⟨-, hne⟩
      · rfl
      · exact absurd hname' hne
    · intro hv
      cases hv
      exact ⟨_, (Devices.mem_modifyCount_iff h he f).mpr (Or.inl rfl), hname, rfl⟩
  · -- the entries of other names are the old ones
    rw [Finmap.lookup_insert_of_ne _ hx, lookup_toMap h]
    constructor
    · rintro ⟨e', he', hname', rfl⟩
      rcases (Devices.mem_modifyCount_iff h he f).mp he' with rfl | ⟨hold, -⟩
      · exact absurd (hname'.symm.trans hname) hx
      · exact ⟨e', hold, hname', rfl⟩
    · rintro ⟨e₀, he₀, hname₀, rfl⟩
      have hne : e₀.name ≠ name := fun heq => hx (hname₀.symm.trans heq)
      exact ⟨e₀, (Devices.mem_modifyCount_iff h he f).mpr (Or.inr ⟨he₀, hne⟩), hname₀, rfl⟩

theorem distinct_filter {d : Devices δ} (h : d.Distinct) (keep : DeviceEntry δ → Bool) :
    Devices.Distinct { entries := d.entries.filter keep } :=
  List.Nodup.sublist (List.filter_sublist.map _) h

theorem toMap_erase {d : Devices δ} (h : d.Distinct) (name : CStr) :
    toMap { entries := d.entries.filter fun e => e.name ≠ name } = (toMap d).erase name := by
  apply map_ext
  intro x v
  rw [lookup_toMap (distinct_filter h _)]
  by_cases hx : x = name
  · subst hx
    rw [Finmap.lookup_erase]
    refine iff_of_false ?_ (fun hv => by cases hv)
    rintro ⟨e, he, hname, -⟩
    have hne := (List.mem_filter.mp he).2
    simp [hname] at hne
  · rw [Finmap.lookup_erase_ne hx, lookup_toMap h]
    constructor
    · rintro ⟨e, he, hname, rfl⟩
      exact ⟨e, (List.mem_filter.mp he).1, hname, rfl⟩
    · rintro ⟨e, he, hname, rfl⟩
      refine ⟨e, List.mem_filter.mpr ⟨he, ?_⟩, hname, rfl⟩
      rw [hname]
      simpa using hx

/-! ## Each call -/

theorem toI32_succ {n : Int} (h0 : 0 ≤ n) (hlt : n < 2 ^ 31) (hne : n ≠ 2 ^ 31 - 1) :
    toI32 (n + 1) = n + 1 := by
  rw [toI32_eq_self_iff]
  unfold FitsI32
  omega

theorem count_modify {d : Devices δ} (h : Ok d) {name : CStr} {e : DeviceEntry δ}
    (he : d.get name = some e) {f : Int → Int} (hf : 0 ≤ f e.refCount ∧ f e.refCount < 2 ^ 31) :
    Ok (d.modifyCount name f) where
  distinct := h.distinct.modifyCount name f
  count e' he' := by
    rcases (Devices.mem_modifyCount_iff h.distinct he f).mp he' with rfl | ⟨hold, -⟩
    · exact hf
    · exact h.count e' hold

theorem simulates_add {d : Devices δ} (h : Ok d) (name : CStr) (device : Option δ) (alloc : Bool) :
    Ok (d.add name device alloc).2 ∧
      (Call.add name device alloc).spec (toMap d) =
        (.bool (d.add name device alloc).1, toMap (d.add name device alloc).2) := by
  have hget := lookup_eq_get h.distinct name
  rcases d.add_cases name device alloc with ⟨hno, hadd⟩ | ⟨dev, rfl, rfl, hfree, hadd⟩
  · rw [hadd]
    refine ⟨h, ?_⟩
    unfold Call.spec
    dsimp only
    rw [hget]
    rcases hno with hex | rfl | rfl
    · obtain ⟨e, he⟩ := Option.isSome_iff_exists.mp hex
      rw [he]
      rfl
    · split <;> first | rfl | contradiction
    · split <;> rfl
  · rw [hadd]
    have hnone : d.get name = none := by
      unfold Devices.exists_ at hfree
      exact Option.not_isSome_iff_eq_none.mp (by simpa using hfree)
    constructor
    · refine ⟨distinct_add h.distinct hfree dev 0, ?_⟩
      intro e he
      rcases List.mem_append.mp he with he | he
      · exact h.count e he
      · rw [List.mem_singleton] at he
        rw [he]
        exact ⟨le_refl 0, by show (0 : Int) < 2 ^ 31; omega⟩
    · show (match (toMap d).lookup name, some dev with
        | none, some dev => if true = true then _ else _
        | _, _ => _) = _
      rw [hget, hnone, toMap_add h.distinct hfree dev]
      rfl

theorem simulates_remove {d : Devices δ} (h : Ok d) (name : Option CStr) :
    Ok (d.remove name).2 ∧
      (Call.remove name).spec (toMap d) = (.bool (d.remove name).1, toMap (d.remove name).2) := by
  cases name with
  | none => exact ⟨h, rfl⟩
  | some name =>
      have hget := lookup_eq_get h.distinct name
      unfold Devices.remove Call.spec
      dsimp only
      rw [hget]
      unfold Devices.get
      cases hi : d.getIndex name with
      | none => exact ⟨h, rfl⟩
      | some i =>
          obtain ⟨e, he, hname⟩ := Devices.entry_of_getIndex hi
          have hcount := h.count e (List.mem_of_getElem? he)
          simp only [Option.bind_some, he]
          by_cases hopen : e.refCount > 0
          · rw [if_pos hopen]
            refine ⟨h, ?_⟩
            obtain ⟨n, hn⟩ : ∃ n, e.refCount.toNat = n + 1 := ⟨e.refCount.toNat - 1, by omega⟩
            show (match some (e.device, e.refCount.toNat) with
              | some (_, 0) => _
              | _ => _) = _
            rw [hn]
            rfl
          · rw [if_neg hopen, Devices.eraseIdx_eq_filter h.distinct hi]
            refine ⟨⟨distinct_filter h.distinct _, ?_⟩, ?_⟩
            · intro e' he'
              exact h.count e' (List.mem_filter.mp he').1
            · have hzero : e.refCount.toNat = 0 := by omega
              show (match some (e.device, e.refCount.toNat) with
                | some (_, 0) => _
                | _ => _) = _
              rw [hzero, toMap_erase h.distinct]
              rfl

theorem simulates_open {d : Devices δ} (h : Ok d) {name : CStr} (hc : Countable d (.open name)) :
    Ok (d.open_ name).2 ∧
      (Call.open name).spec (toMap d) = (.device (d.open_ name).1, toMap (d.open_ name).2) := by
  have hget := lookup_eq_get h.distinct name
  unfold Devices.open_ Call.spec
  dsimp only
  rw [hget]
  cases he : d.get name with
  | none => exact ⟨h, rfl⟩
  | some e =>
      obtain ⟨h0, hlt⟩ := h.count e (Devices.mem_of_get he).1
      -- short of the last `int`, the count of the vector and that of the map go up together
      have hsucc := toI32_succ h0 hlt (hc e he)
      dsimp only [Option.map_some]
      constructor
      · refine count_modify h he ?_
        have hne := hc e he
        rw [hsucc]
        omega
      · rw [toMap_modify h.distinct he, hsucc]
        have hnat : (e.refCount + 1).toNat = e.refCount.toNat + 1 := by omega
        rw [hnat]
        rfl

theorem simulates_close {d : Devices δ} (h : Ok d) (name : CStr) :
    Ok (d.close name).2 ∧
      (Call.close name).spec (toMap d) = (.bool (d.close name).1, toMap (d.close name).2) := by
  have hget := lookup_eq_get h.distinct name
  unfold Devices.close Call.spec
  dsimp only
  rw [hget]
  cases he : d.get name with
  | none => exact ⟨h, rfl⟩
  | some e =>
      obtain ⟨h0, hlt⟩ := h.count e (Devices.mem_of_get he).1
      dsimp only [Option.map_some]
      by_cases hzero : e.refCount ≤ 0
      · rw [if_pos hzero]
        refine ⟨h, ?_⟩
        have hnat : e.refCount.toNat = 0 := by omega
        show (match some (e.device, e.refCount.toNat) with
          | some (dev, n + 1) => _
          | _ => _) = _
        rw [hnat]
      · rw [if_neg hzero]
        constructor
        · refine count_modify (f := fun n => n - 1) h he ?_
          omega
        · obtain ⟨n, hn⟩ : ∃ n, e.refCount.toNat = n + 1 := ⟨e.refCount.toNat - 1, by omega⟩
          have hpred : (e.refCount - 1).toNat = n := by omega
          rw [toMap_modify h.distinct he, hpred]
          show (match some (e.device, e.refCount.toNat) with
            | some (dev, n + 1) => _
            | _ => _) = _
          rw [hn]

/-- **Each call is a step of the abstract registry**, with the same answer. -/
theorem step_simulates {d d' : Devices δ} {l : Call δ × Answer δ} (h : Ok d) (hc : Countable d l.1)
    (hst : Step d l d') : Ok d' ∧ MapStep (toMap d) l (toMap d') := by
  obtain ⟨c, ans⟩ := l
  have hans : (c.run d).1 = ans := congrArg Prod.fst hst
  have hsrv : (c.run d).2 = d' := congrArg Prod.snd hst
  subst hans
  subst hsrv
  cases c with
  | add name device alloc => exact simulates_add h name device alloc
  | remove name => exact simulates_remove h name
  | exists_ name =>
      refine ⟨h, ?_⟩
      show (Answer.bool ((toMap d).lookup name).isSome, toMap d) = (.bool (d.exists_ name), toMap d)
      rw [lookup_eq_get h.distinct, Option.isSome_map]
      rfl
  | «open» name => exact simulates_open h hc
  | close name => exact simulates_close h name

/-- A call that fails leaves the vector as it is. -/
theorem step_failed {d d' : Devices δ} {l : Call δ × Answer δ} (hst : Step d l d') (hf : l.2.Failed) :
    d' = d := by
  obtain ⟨c, ans⟩ := l
  have hans : (c.run d).1 = ans := congrArg Prod.fst hst
  have hsrv : (c.run d).2 = d' := congrArg Prod.snd hst
  subst hans
  subst hsrv
  cases c with
  | add name device alloc =>
      rcases d.add_cases name device alloc with ⟨-, hadd⟩ | ⟨dev, -, -, -, hadd⟩
      · show (d.add name device alloc).2 = d
        rw [hadd]
      · replace hf : (d.add name device alloc).1 = false := hf
        rw [hadd] at hf
        cases hf
  | remove name =>
      replace hf : (d.remove name).1 = false := hf
      show (d.remove name).2 = d
      revert hf
      unfold Devices.remove
      repeat' split
      all_goals intro hf
      all_goals first | rfl | cases hf
  | exists_ name => rfl
  | «open» name =>
      replace hf : (d.open_ name).1 = none := hf
      show (d.open_ name).2 = d
      revert hf
      unfold Devices.open_
      split
      · intro _; rfl
      · intro hf; cases hf
  | close name =>
      replace hf : (d.close name).1 = false := hf
      show (d.close name).2 = d
      revert hf
      unfold Devices.close
      repeat' split
      all_goals intro hf
      all_goals first | rfl | cases hf

/-! ## Sequences of calls -/

/-- The device a name stands for after a call that was answered, going by the calls that succeeded. -/
def addedNow (name : CStr) (before : Option δ) (l : Call δ × Answer δ) : Option δ :=
  match l with
  | (.add n (some dev) _, .bool true) => if n = name then some dev else before
  | (.remove (some n), .bool true) => if n = name then none else before
  | _ => before

/-- The device added under the name and not removed since. -/
def added (name : CStr) (calls : List (Call δ × Answer δ)) : Option δ := calls.foldl (addedNow name) none

/-- A call that was refused is not counted. -/
theorem addedNow_false (name : CStr) (before : Option δ) (c : Call δ) :
    addedNow name before (c, .bool false) = before := by
  cases c with
  | add n device alloc => cases device <;> rfl
  | remove n => cases n <;> rfl
  | _ => rfl

/-- The device of a name in the map. -/
def deviceOf (m : Map δ) (name : CStr) : Option δ := (m.lookup name).map Prod.fst

theorem deviceOf_insert (m : Map δ) (n name : CStr) (v : δ × ℕ) :
    deviceOf (m.insert n v) name = if n = name then some v.1 else deviceOf m name := by
  unfold deviceOf
  by_cases hn : n = name
  · subst hn
    rw [if_pos rfl, Finmap.lookup_insert]
    rfl
  · rw [if_neg hn, Finmap.lookup_insert_of_ne _ (Ne.symm hn)]

theorem deviceOf_erase (m : Map δ) (n name : CStr) :
    deviceOf (m.erase n) name = if n = name then none else deviceOf m name := by
  unfold deviceOf
  by_cases hn : n = name
  · subst hn
    rw [if_pos rfl, Finmap.lookup_erase]
    rfl
  · rw [if_neg hn, Finmap.lookup_erase_ne (Ne.symm hn)]

/-- Counting again changes no device. -/
theorem deviceOf_recount {m : Map δ} {n : CStr} {dev : δ} {k : ℕ} (h : m.lookup n = some (dev, k))
    (j : ℕ) (name : CStr) : deviceOf (m.insert n (dev, j)) name = deviceOf m name := by
  rw [deviceOf_insert]
  by_cases hn : n = name
  · subst hn
    rw [if_pos rfl]
    unfold deviceOf
    rw [h]
    rfl
  · rw [if_neg hn]

/-- A call changes the device of a name as its answer says. -/
theorem deviceOf_step {m m' : Map δ} {l : Call δ × Answer δ} (h : MapStep m l m') (name : CStr) :
    deviceOf m' name = addedNow name (deviceOf m name) l := by
  obtain ⟨c, ans⟩ := l
  unfold MapStep at h
  cases c with
  | add n device alloc =>
      unfold Call.spec at h
      dsimp only at h
      split at h
      · -- the name is free and there is a device: added, if there is memory
        split at h
        · cases h
          exact deviceOf_insert m n name _
        · cases h
          rfl
      · cases h
        exact (addedNow_false name _ _).symm
  | remove n =>
      cases n with
      | none =>
          cases h
          rfl
      | some n =>
          unfold Call.spec at h
          dsimp only at h
          split at h
          · cases h
            exact deviceOf_erase m n name
          · cases h
            rfl
  | exists_ n =>
      cases h
      rfl
  | «open» n =>
      unfold Call.spec at h
      dsimp only at h
      split at h
      · next dev k hk =>
          cases h
          exact deviceOf_recount hk _ name
      · cases h
        rfl
  | close n =>
      unfold Call.spec at h
      dsimp only at h
      split at h
      · next dev k hk =>
          cases h
          exact deviceOf_recount hk _ name
      · cases h
        rfl

variable {d : Devices δ} {tr : List (Devices δ × (Call δ × Answer δ) × Devices δ)}

/-- The calls of a run, with their answers. -/
def history (tr : List (Devices δ × (Call δ × Answer δ) × Devices δ)) : List (Call δ × Answer δ) :=
  tr.map fun x => x.2.1

/-- What is asked of a sequence of calls on an empty registry: it is a sequence of steps of a finite map with
    the same answers; the names stored are distinct, and a name exists with the device added under it as long
    as it has not been removed; a call that fails changes nothing. -/
structure Behaves (tr : List (Devices δ × (Call δ × Answer δ) × Devices δ)) (d : Devices δ) : Prop where
  refines : Run MapStep ∅ (tr.map fun x => (toMap x.1, x.2.1, toMap x.2.2)) (toMap d)
  distinct : d.Distinct
  stored : ∀ name, d.exists_ name = true ↔ added name (history tr) ≠ none
  device : ∀ name e, d.get name = some e → added name (history tr) = some e.device
  failed : ∀ x ∈ tr, x.2.1.2.Failed → x.2.2 = x.1

theorem toMap_empty : toMap ({} : Devices δ) = ∅ := Finmap.toFinmap_nil

theorem ok_empty : Ok ({} : Devices δ) where
  distinct := List.nodup_nil
  count e he := by cases he

theorem ok_of_run (h : Run Step {} tr d) (hc : ∀ x ∈ tr, Countable x.1 x.2.1.1) : Ok d :=
  h.invariant_of_good (I := Ok) (C := fun d l => Countable d l.1)
    (fun _ _ _ hI hC hst => (step_simulates hI hC hst).1) ok_empty hc

/-- The map remembers what was added. -/
theorem deviceOf_run (h : Run Step {} tr d) (hc : ∀ x ∈ tr, Countable x.1 x.2.1.1) (name : CStr) :
    deviceOf (toMap d) name = added name (history tr) := by
  induction h with
  | refl =>
      rw [toMap_empty]
      rfl
  | @tail tr t u l hrun hlast ih =>
      have hpre : ∀ x ∈ tr, Countable x.1 x.2.1.1 := fun x hx => hc x (List.mem_append_left _ hx)
      have hstep := (step_simulates (ok_of_run hrun hpre) (hc (t, l, u) (by simp)) hlast).2
      rw [deviceOf_step hstep name, ih hpre]
      unfold history added
      rw [List.map_append, List.foldl_append]
      rfl

/-- **The registry is a finite map.** Every sequence of calls on an empty registry, with any names, devices
    and answers of the allocator, behaves as one, as long as no name is opened while its count is the largest
    `int`. -/
theorem registry_is_map (h : Run Step {} tr d) (hc : ∀ x ∈ tr, Countable x.1 x.2.1.1) : Behaves tr d := by
  have hok := ok_of_run h hc
  have hdev : ∀ name, (d.get name).map DeviceEntry.device = added name (history tr) := by
    intro name
    rw [← deviceOf_run h hc name]
    unfold deviceOf
    rw [lookup_eq_get hok.distinct, Option.map_map]
    rfl
  refine ⟨?_, hok.distinct, ?_, ?_, ?_⟩
  · have hsim : Run MapStep (toMap {}) (tr.map fun x => (toMap x.1, x.2.1, toMap x.2.2)) (toMap d) :=
      Run.simulates (I := Ok) (fun _ l _ => l)
        (fun _ _ _ hI hst => step_simulates hI hst.1 hst.2)
        (h.restrict (C := fun d l => Countable d l.1) hc) ok_empty
    rw [toMap_empty] at hsim
    exact hsim
  · intro name
    rw [← hdev name]
    show (d.get name).isSome = true ↔ _
    cases d.get name <;> simp
  · intro name e he
    rw [← hdev name, he]
    rfl
  · intro x hx hf
    obtain ⟨pre, post, rfl⟩ := List.append_of_mem hx
    exact step_failed h.split.2.1 hf

/-- A device is added, opened and closed, and removed. -/
theorem registry_is_map_calls :
    ∃ tr d, Run Step ({} : Devices Device) tr d ∧ tr.length = 4 ∧ Behaves tr d := by
  have hadd : Step ({} : Devices Device) (.add (bytes "null") (some .null) true, .bool true)
      { entries := [⟨bytes "null", .null, 0⟩] } := rfl
  have hopen : Step ({ entries := [⟨bytes "null", .null, 0⟩] } : Devices Device)
      (.open (bytes "null"), .device (some .null)) { entries := [⟨bytes "null", .null, 1⟩] } := rfl
  have hclose : Step ({ entries := [⟨bytes "null", .null, 1⟩] } : Devices Device)
      (.close (bytes "null"), .bool true) { entries := [⟨bytes "null", .null, 0⟩] } := rfl
  have hremove : Step ({ entries := [⟨bytes "null", .null, 0⟩] } : Devices Device)
      (.remove (some (bytes "null")), .bool true) {} := rfl
  have hrun := (((Run.single hadd).tail hopen).tail hclose).tail hremove
  refine ⟨_, _, hrun, rfl, registry_is_map hrun ?_⟩
  intro x hx
  simp only [List.nil_append, List.cons_append, List.mem_cons, List.not_mem_nil, or_false] at hx
  rcases hx with rfl | rfl | rfl | rfl
  · trivial
  · intro e he
    cases he
    decide
  · trivial
  · trivial

/-- The registry with one device, open `n` times. -/
def openTimes (n : ℕ) : Devices Unit := { entries := [⟨bytes "null", (), n⟩] }

theorem step_openTimes (n : ℕ) :
    (Call.open (bytes "null")).run (openTimes n) =
      (.device (some ()), { entries := [⟨bytes "null", (), toI32 (n + 1)⟩] }) := rfl

/-- Any number of opens up to the largest `int` counts up. -/
theorem run_openTimes (n : ℕ) (hn : n < 2 ^ 31) : ∃ tr, Run Step ({} : Devices Unit) tr (openTimes n) := by
  induction n with
  | zero =>
      have hadd : Step ({} : Devices Unit) (.add (bytes "null") (some ()) true, .bool true) (openTimes 0) := rfl
      exact ⟨_, Run.single hadd⟩
  | succ n ih =>
      obtain ⟨tr, hrun⟩ := ih (by omega)
      have hsucc : toI32 ((n : Int) + 1) = ((n + 1 : ℕ) : Int) := by
        rw [toI32_succ (by omega) (by omega) (by omega)]
        rfl
      have hstep : Step (openTimes n) (.open (bytes "null"), .device (some ())) (openTimes (n + 1)) := by
        show (Call.open (bytes "null")).run (openTimes n) = _
        rw [step_openTimes, hsucc]
        rfl
      exact ⟨_, hrun.tail hstep⟩

/-- The device is opened 2^31 times: its count turns negative. -/
theorem count_overflows : ¬ ∀ tr d, Run Step ({} : Devices Unit) tr d → Behaves tr d := by
  intro hall
  obtain ⟨tr, hrun⟩ := run_openTimes (2 ^ 31 - 1) (by decide)
  have hlast : Step (openTimes (2 ^ 31 - 1)) (.open (bytes "null"), .device (some ()))
      { entries := [⟨bytes "null", (), -2 ^ 31⟩] } := rfl
  have hrefines := (hall _ _ (hrun.tail hlast)).refines
  rw [List.map_append] at hrefines
  have hstep : MapStep _ _ _ := hrefines.split.2.1
  -- the map counts on
  have hbefore : (toMap (openTimes (2 ^ 31 - 1))).lookup (bytes "null") = some ((), 2 ^ 31 - 1) := rfl
  unfold MapStep Call.spec at hstep
  dsimp only at hstep
  rw [hbefore] at hstep
  have hafter := congrArg (fun r => (Prod.snd r).lookup (bytes "null")) hstep
  dsimp only at hafter
  rw [Finmap.lookup_insert] at hafter
  have hzero : (toMap ({ entries := [⟨bytes "null", (), -2 ^ 31⟩] } : Devices Unit)).lookup (bytes "null") =
      some ((), 0) := rfl
  rw [hzero] at hafter
  cases hafter

end Registry
end DistributedPlatform
