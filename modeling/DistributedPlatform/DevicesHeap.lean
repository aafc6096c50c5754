import DistributedPlatform.Devices
import DistributedPlatform.Ledger

/-!
# `DevicesHeap` — what the registry owns

`devices.cpp` with its memory: the name of an entry is a block of `malloc`, its device an object of `new`. Of the
entries nothing else is looked at, so a call does here what it does in `Devices` (`remove_eq` and the like).
-/

namespace DistributedPlatform

/-- The live blocks of `malloc`, and the live objects of `new`. -/
structure Store where
  heap : Arena
  objects : Arena

/-- A `const char *`: a string of the caller, or the name of an entry. -/
inductive NamePtr
  | caller (s : CStr)
  | stored (c : Cell)
  deriving DecidableEq, Repr

namespace Store

def read (m : Store) : NamePtr → Eff CStr
  | .caller s => .ok s
  | .stored c => if c.block ∈ m.heap.live then .ok c.text else .error .dangling

def free (m : Store) : Option Cell → Eff Store
  | none => .ok m
  | some c => do
      let heap ← freeBlock m.heap c.block
      .ok { m with heap }

/-- `delete` of a device; the destructors of devices do nothing. -/
def delete (m : Store) (device : Nat) : Eff Store := do
  let objects ← freeBlock m.objects device
  .ok { m with objects }

end Store

/-- `Devices::Entry`. -/
structure EntryObj where
  name : Option Cell
  device : Nat
  refCount : Int
  deriving DecidableEq, Repr

structure DevicesObj where
  entries : List EntryObj := []
  deriving DecidableEq, Repr

namespace DevicesObj

/-- `entries[i].name!=NULL && !strcmp(entries[i].name, name)`. -/
def sameName (m : Store) (e : EntryObj) (name : NamePtr) : Eff Bool :=
  match e.name with
  | none => .ok false
  | some c => do
      let s ← m.read (.stored c)
      let t ← m.read name
      .ok (s == t)

def indexIn (m : Store) (name : NamePtr) : List EntryObj → Eff (Option Nat)
  | [] => .ok none
  | e :: es => do
      let same ← sameName m e name
      if same then .ok (some 0)
      else do
        let i ← indexIn m name es
        .ok (i.map (· + 1))

def getIndex (d : DevicesObj) (m : Store) (name : NamePtr) : Eff (Option Nat) := indexIn m name d.entries

def exists_ (d : DevicesObj) (m : Store) (name : NamePtr) : Eff Bool := do
  let index ← d.getIndex m name
  .ok index.isSome

def add (d : DevicesObj) (m : Store) (name : NamePtr) (device : Option Nat) (alloc : Bool) :
    Eff (Bool × DevicesObj × Store) := do
  let used ← d.exists_ m name
  if used then .ok (false, d, m)
  else
    match device with
    | none => .ok (false, d, m)
    | some dev => do
        let s ← m.read name
        match m.heap.alloc alloc with
        | (none, _) => .ok (false, d, m)
        | (some b, heap) =>
            .ok (true, { entries := d.entries ++ [⟨some ⟨b, s⟩, dev, 0⟩] }, { m with heap })

def remove (d : DevicesObj) (m : Store) (name : Option NamePtr) : Eff (Bool × DevicesObj × Store) :=
  match name with
  | none => .ok (false, d, m)
  | some name => do
      let index ← d.getIndex m name
      match index with
      | none => .ok (false, d, m)
      | some i =>
          match d.entries[i]? with
          | none => .error .outOfBounds
          | some e =>
              if e.refCount > 0 then .ok (false, d, m)
              else do
                -- from here on `name` may be dangling
                let m ← m.free e.name
                let entries := d.entries.set i { e with name := none }
                let m ← m.delete e.device
                .ok (true, { entries := entries.eraseIdx i }, m)

def open_ (d : DevicesObj) (m : Store) (name : NamePtr) : Eff (Option Nat × DevicesObj) := do
  let index ← d.getIndex m name
  match index with
  | none => .ok (none, d)
  | some i =>
      match d.entries[i]? with
      | none => .error .outOfBounds
      | some e =>
          .ok (some e.device, { entries := d.entries.set i { e with refCount := toI32 (e.refCount + 1) } })

def close (d : DevicesObj) (m : Store) (name : NamePtr) : Eff (Bool × DevicesObj) := do
  let index ← d.getIndex m name
  match index with
  | none => .ok (false, d)
  | some i =>
      match d.entries[i]? with
      | none => .error .outOfBounds
      | some e =>
          if e.refCount ≤ 0 then .ok (false, d)
          else .ok (true, { entries := d.entries.set i { e with refCount := e.refCount - 1 } })

/-- The name in the message of the destructor. -/
def nameAt (d : DevicesObj) (m : Store) (i : Nat) : Eff CStr :=
  match d.entries[i]? with
  | none => .error .outOfBounds
  | some e =>
      match e.name with
      | none => .error .nullDeref
      | some c => m.read (.stored c)

theorem remove_length {d d' : DevicesObj} {m m' : Store} {name : Option NamePtr} {b : Bool}
    (h : d.remove m name = .ok (b, d', m')) : d'.entries.length + (if b then 1 else 0) = d.entries.length := by
  unfold remove at h
  cases name with
  | none =>
      cases h
      rfl
  | some name =>
      obtain ⟨index, -, h⟩ := Eff.bind_eq_ok.mp h
      cases index with
      | none =>
          cases h
          rfl
      | some i =>
          dsimp only at h
          cases he : d.entries[i]? with
          | none =>
              rw [he] at h
              cases h
          | some e =>
              rw [he] at h
              dsimp only at h
              split at h
              · cases h
                rfl
              · obtain ⟨m₁, -, h⟩ := Eff.bind_eq_ok.mp h
                obtain ⟨m₂, -, h⟩ := Eff.bind_eq_ok.mp h
                cases h
                have hlt := (List.getElem?_eq_some_iff.mp he).1
                have hlen := List.length_eraseIdx_add_one
                  (l := d.entries.set i { e with name := none }) (i := i) (by rw [List.length_set]; exact hlt)
                rw [List.length_set] at hlen
                exact hlen

/-- The loop of the destructor. -/
def destroyFrom (m : Store) (d : DevicesObj) (i : Nat) : Eff (DevicesObj × Store) :=
  match _hi : d.entries[i]? with
  | none => .ok (d, m)
  | some e =>
      match _h : d.remove m (e.name.map .stored) with
      | .error f => .error f
      | .ok (true, d', m') => destroyFrom m' d' i
      | .ok (false, d', m') => do
          let _ ← d'.nameAt m' i
          destroyFrom m' d' (i + 1)
termination_by d.entries.length - i
decreasing_by
  all_goals
    have hlt := (List.getElem?_eq_some_iff.mp _hi).1
    have hlen := remove_length _h
    simp only [if_true, Bool.false_eq_true, if_false] at hlen
    omega

/-- `~Devices`. -/
def destroy (d : DevicesObj) (m : Store) : Eff (DevicesObj × Store) := destroyFrom m d 0

end DevicesObj

end DistributedPlatform
