import Mathlib.Algebra.Group.Prod
import Mathlib.Algebra.Order.Group.Multiset
import DistributedPlatform.Correctness.EnvironCopy

/-!
# `Correctness.Stock` — what there is, and who has it

All that a ledger has is one sum, and so is what an object holds. A function of the object is then described by what
it does to its own part, with any rest `r` beside it.

* `free_stock`, `freeAll_stock`, `grown_stock` — the ledger;
* `destroy_stock` — the destructor gives back what the object holds, all of it and nothing else;
* `setEnviron_stock`, `setCwd_stock` — what is put in the place of what.
-/

namespace DistributedPlatform
namespace Stock

open Arena (Grown)
open Ledger ProcessObj
open EnvironCopy (Allocates Readable)

/-- Blocks, references to libraries, and closings of what was not open. -/
abbrev Goods := Multiset ℕ × Multiset CStr × ℕ

def ofBlocks (bs : List Nat) : Goods := (bs, 0, 0)

def ofLibs (files : List CStr) : Goods := (0, files, 0)

/-- All that there is. -/
def stock (l : Ledger) : Goods := (l.heap.live.val, l.libs, l.stray)

variable {l l' : Ledger} {m : Arena} {b : Nat} {bs : List Nat} {r : Goods} {o : ProcessObj}

@[simp] theorem ofBlocks_nil : ofBlocks [] = 0 := rfl

theorem ofBlocks_append (as bs : List Nat) : ofBlocks (as ++ bs) = ofBlocks as + ofBlocks bs := rfl

/-! ## The ledger -/

theorem grown_stock (hg : Grown l.heap bs m) : stock { l with heap := m } = ofBlocks bs + stock l :=
  Prod.ext hg.val (Prod.ext (zero_add _).symm (zero_add _).symm)

theorem live_of_stock (h : stock l = ofBlocks bs + r) (hb : b ∈ bs) : b ∈ l.heap.live := by
  have hval : l.heap.live.val = (bs : Multiset ℕ) + r.1 := congrArg Prod.fst h
  exact Finset.mem_val.mp (hval ▸ Multiset.mem_add.mpr (Or.inl hb))

theorem stock_heap (h : stock l = ofBlocks bs + r) (hm : m.live.val = r.1) : stock { l with heap := m } = r :=
  Prod.ext hm (Prod.ext ((congrArg (·.2.1) h).trans (zero_add _)) ((congrArg (·.2.2) h).trans (zero_add _)))

theorem freeAll_stock (h : stock l = ofBlocks bs + r) : ∃ l', l.freeAll bs = .ok l' ∧ stock l' = r := by
  have hval : l.heap.live.val = (bs : Multiset ℕ) + r.1 := congrArg Prod.fst h
  obtain ⟨m, hfree, hm⟩ := Arena.freeAll_val hval
  exact ⟨{ l with heap := m }, freeAll_eq hfree, stock_heap h hm⟩

theorem free_stock (h : stock l = ofBlocks [b] + r) : ∃ l', l.free (some b) = .ok l' ∧ stock l' = r := by
  have hval : l.heap.live.val = b ::ₘ r.1 := congrArg Prod.fst h
  obtain ⟨m, hfree, hm⟩ := Arena.free_val hval
  exact ⟨{ l with heap := m }, free_eq hfree, stock_heap h hm⟩

theorem dlopen_stock (file : CStr) (h : stock l = r) :
    stock { l with libs := file :: l.libs } = ofLibs [file] + r := by
  rw [← h]
  exact Prod.ext (zero_add _).symm (Prod.ext rfl (zero_add _).symm)

theorem dlclose_stock {file : CStr} (h : stock l = ofLibs [file] + r) :
    ∃ l', l.dlclose (some file) = .ok l' ∧ stock l' = r := by
  have hlibs : (l.libs : Multiset CStr) = file ::ₘ r.2.1 := congrArg (·.2.1) h
  have hmem : file ∈ l.libs := Multiset.mem_coe.mp (hlibs ▸ Multiset.mem_cons_self _ _)
  refine ⟨_, dlclose_mem hmem, Prod.ext ?_ (Prod.ext ?_ ?_)⟩
  · exact (congrArg Prod.fst h).trans (zero_add _)
  · have hperm : (l.libs : Multiset CStr) = file ::ₘ (l.libs.erase file : List CStr) :=
      Multiset.coe_eq_coe.mpr (List.perm_cons_erase hmem)
    exact (Multiset.cons_inj_right file).mp (hperm.symm.trans hlibs)
  · exact (congrArg (·.2.2) h).trans (zero_add _)

/-! ## What an object holds -/

def ofCell (c : Option Cell) : Goods := ofBlocks (c.map (·.block)).toList

/-- The arguments. -/
def argCells (o : ProcessObj) : List Cell := o.argv.elim [] fun a => (a.slots.take o.argc).filterMap Slot.cell?

/-- … and the vector they are in. -/
def ofArgv (o : ProcessObj) : Goods := o.argv.elim 0 fun a => ofBlocks (blocks (argCells o) ++ [a.block])

def ofEnviron (env : Option PtrArray) : Goods := env.elim 0 fun a => ofBlocks a.held

/-- What the fields hold. -/
def fields (o : ProcessObj) : Goods :=
  ofArgv o + (ofLibs o.dlHandle.toList + (ofCell o.name + (ofCell o.path + (ofEnviron o.environ + ofCell o.cwd))))

/-- The arrays have the lengths the loops over them take them to have. -/
structure Shaped (o : ProcessObj) : Prop where
  argc : o.argv = none → o.argc = 0
  argv : ∀ a, o.argv = some a → ∃ (cs : List Cell) (rest : List Slot),
    a.slots = cs.map Slot.ptr ++ rest ∧ o.argc = cs.length
  environ : ∀ a, o.environ = some a → ∃ rest, a.slots = a.cells.map .ptr ++ .null :: rest

theorem shaped_new : Shaped {} := ⟨fun _ => rfl, nofun, nofun⟩

@[simp] theorem fields_new : fields {} = 0 := rfl

theorem argCells_of_slots {a : PtrArray} {cs : List Cell} {rest : List Slot} (ha : o.argv = some a)
    (hslots : a.slots = cs.map Slot.ptr ++ rest) (hargc : o.argc = cs.length) : argCells o = cs := by
  unfold argCells
  rw [ha, Option.elim_some, hslots, hargc, cells_of_take]

theorem ofArgv_of_slots {a : PtrArray} {cs : List Cell} {rest : List Slot} (ha : o.argv = some a)
    (hslots : a.slots = cs.map Slot.ptr ++ rest) (hargc : o.argc = cs.length) :
    ofArgv o = ofBlocks (blocks cs ++ [a.block]) := by
  unfold ofArgv
  rw [ha, Option.elim_some, argCells_of_slots ha hslots hargc]

theorem ofEnviron_some (a : PtrArray) : ofEnviron (some a) = ofBlocks a.held := rfl

/-- The blocks of a part can be read, wherever the part stands. -/
theorem readable_of_stock {a : PtrArray} (hnull : ∃ rest, a.slots = a.cells.map .ptr ++ .null :: rest)
    (h : stock l = ofEnviron (some a) + r) : Readable l a :=
  ⟨hnull, fun _ hb => live_of_stock h hb⟩

/-! ### Giving back -/

theorem freeCell_stock {c : Option Cell} (h : stock l = ofCell c + r) :
    ∃ l', l.free (c.map (·.block)) = .ok l' ∧ stock l' = r := by
  cases c with
  | none => exact ⟨l, rfl, h.trans (zero_add r)⟩
  | some c => exact free_stock h

/-- The parts of the destructor. -/
def releaseArgv (o : ProcessObj) (l : Ledger) : Eff Ledger :=
  match o.argv with
  | none => .ok l
  | some argv => l.freeArgv argv o.argc

def closeHandle (o : ProcessObj) (l : Ledger) : Eff Ledger :=
  match o.dlHandle with
  | none => .ok l
  | some file => l.dlclose (some file)

def releaseEnviron (o : ProcessObj) (l : Ledger) : Eff Ledger :=
  match o.environ with
  | none => .ok l
  | some environ => l.freeEntries environ

theorem destroy_eq (o : ProcessObj) (l : Ledger) :
    o.destroy l = releaseArgv o l >>= fun l => closeHandle o l >>= fun l => l.free (o.name.map (·.block)) >>= fun l =>
      l.free (o.path.map (·.block)) >>= fun l => releaseEnviron o l >>= fun l => l.free (o.cwd.map (·.block)) := by
  unfold destroy releaseArgv closeHandle releaseEnviron
  cases o.argv <;> cases o.dlHandle <;> cases o.environ <;> rfl

theorem releaseArgv_stock (ho : Shaped o) (h : stock l = ofArgv o + r) :
    ∃ l', releaseArgv o l = .ok l' ∧ stock l' = r := by
  unfold releaseArgv
  cases ha : o.argv with
  | none =>
      refine ⟨l, rfl, h.trans ?_⟩
      unfold ofArgv
      rw [ha, Option.elim_none, zero_add]
  | some a =>
      obtain ⟨cs, rest, hslots, hargc⟩ := ho.argv a ha
      rw [ofArgv_of_slots ha hslots hargc] at h
      have hblock : a.block ∈ l.heap.live := live_of_stock h (List.mem_append_right _ List.mem_cons_self)
      obtain ⟨l', hfree, hl'⟩ := freeAll_stock h
      refine ⟨l', ?_, hl'⟩
      dsimp only
      rw [hargc, freeArgv_eq hblock hslots, hfree]

theorem closeHandle_stock (h : stock l = ofLibs o.dlHandle.toList + r) :
    ∃ l', closeHandle o l = .ok l' ∧ stock l' = r := by
  unfold closeHandle
  cases hf : o.dlHandle with
  | none =>
      rw [hf] at h
      exact ⟨l, rfl, h.trans (zero_add r)⟩
  | some file =>
      rw [hf] at h
      exact dlclose_stock h

theorem releaseEnviron_stock (ho : Shaped o) (h : stock l = ofEnviron o.environ + r) :
    ∃ l', releaseEnviron o l = .ok l' ∧ stock l' = r := by
  unfold releaseEnviron
  cases he : o.environ with
  | none =>
      rw [he] at h
      exact ⟨l, rfl, h.trans (zero_add r)⟩
  | some a =>
      obtain ⟨rest, hslots⟩ := ho.environ a he
      rw [he, ofEnviron_some] at h
      have hblock : a.block ∈ l.heap.live := live_of_stock h (List.mem_append_right _ List.mem_cons_self)
      obtain ⟨l', hfree, hl'⟩ := freeAll_stock h
      refine ⟨l', ?_, hl'⟩
      dsimp only
      rw [freeEntries_eq hblock hslots]
      exact hfree

/-- **The destructor**: what the object holds is given back, and nothing else. -/
theorem destroy_stock (ho : Shaped o) (h : stock l = fields o + r) :
    ∃ l', o.destroy l = .ok l' ∧ stock l' = r := by
  unfold fields at h
  simp only [add_assoc] at h
  obtain ⟨l₁, hargv, h₁⟩ := releaseArgv_stock ho h
  obtain ⟨l₂, hclose, h₂⟩ := closeHandle_stock h₁
  obtain ⟨l₃, hname, h₃⟩ := freeCell_stock h₂
  obtain ⟨l₄, hpath, h₄⟩ := freeCell_stock h₃
  obtain ⟨l₅, henviron, h₅⟩ := releaseEnviron_stock ho h₄
  obtain ⟨l₆, hcwd, h₆⟩ := freeCell_stock h₅
  refine ⟨l₆, ?_, h₆⟩
  rw [destroy_eq]
  simp only [hargv, hclose, hname, hpath, henviron, hcwd, bind, Except.bind]

/-! ### Putting in place -/

/-- The blocks of a copy of `env`. -/
def copySize (env : Option PtrArray) (array : Bool) (entry : Nat → Bool) : Nat :=
  env.elim 0 fun e => if array ∧ allocsOk e.cells.length entry then e.cells.length + 1 else 0

/-- The environment of an object that has none is set. -/
theorem setEnviron_stock {env : Option PtrArray} (array : Bool) (entry : Nat → Bool) (ho : o.environ = none)
    (hnull : ∀ a, env = some a → ∃ rest, a.slots = a.cells.map .ptr ++ .null :: rest)
    (h : stock l = ofEnviron env + r) :
    ∃ ret new l' bs, o.setEnviron l env array entry =
        .ok (ret, { o with environ := new, infoEnviron := new.map (·.block) }, l') ∧
      ofEnviron new = ofBlocks bs ∧ bs.length = copySize env array entry ∧
      (∀ a, new = some a → ∃ rest, a.slots = a.cells.map .ptr ++ .null :: rest) ∧
      stock l' = ofBlocks bs + (ofEnviron env + r) := by
  have hold : ∀ a, o.environ = some a → EnvironCopy.Holds l a := by
    intro a ha
    rw [ho] at ha
    cases ha
  have henv : ∀ a, env = some a → Readable l a ∧ ∀ old, o.environ = some old → a.held.Disjoint old.held := by
    intro a ha
    refine ⟨readable_of_stock (hnull a ha) (ha ▸ h), fun old hold => ?_⟩
    rw [ho] at hold
    cases hold
  have hnew : ∀ {new l'}, EnvironCopy.Exchanged l o.environ l' new →
      stock l' = ofBlocks (new.elim [] PtrArray.held) + (ofEnviron env + r) := by
    rintro new l' ⟨m, hm, hgrown, hlibs, hstray⟩
    have hval : l'.heap.live.val = ((new.elim [] PtrArray.held : List ℕ) : Multiset ℕ) + l.heap.live.val := by
      have hsame : m.live = l.heap.live := by
        rw [hm, ho]
        exact Finset.sdiff_empty
      rw [hgrown.val, hsame]
    rw [← h]
    exact Prod.ext hval (Prod.ext (by simp [stock, ofBlocks, hlibs]) (by simp [stock, ofBlocks, hstray]))
  rcases EnvironCopy.setEnviron_cases env array entry hold henv with
    ⟨halloc, new, l', hset, hex, ⟨rfl, rfl⟩ | ⟨e, cs, b, rfl, rfl, htexts⟩⟩ | ⟨hfail, l', hset, hex⟩
  · exact ⟨true, none, l', [], hset, rfl, rfl, nofun, hnew hex⟩
  · have hcells : (⟨b, cs.map .ptr ++ [.null]⟩ : PtrArray).cells = cs := EnvironCopy.cells_eq b cs []
    have hlen : cs.length = e.cells.length := by
      have hlen := congrArg List.length htexts
      simpa using hlen
    refine ⟨true, _, l', _, hset, rfl, ?_, ?_, hnew hex⟩
    · unfold copySize PtrArray.held
      rw [Option.elim_some, if_pos (halloc e rfl), hcells, List.length_append, blocks, List.length_map, hlen]
      rfl
    · intro a ha
      cases ha
      exact ⟨[], by rw [hcells]⟩
  · refine ⟨false, none, l', [], hset, rfl, ?_, nofun, hnew hex⟩
    cases env with
    | none => rfl
    | some e =>
        refine (if_neg fun hall => hfail fun a ha => ?_).symm
        cases ha
        exact hall

/-- The directory is set, from a path that is not the directory in place. -/
theorem setCwd_stock {path : Cell} (ok : Bool) (h : stock l = ofCell o.cwd + r) (hpath : path.block ∈ l.heap.live)
    (hother : ∀ c, o.cwd = some c → c.block ≠ path.block) :
    ∃ ret cwd l', o.setCwd l (some path) ok = .ok (ret, { o with cwd }, l') ∧ stock l' = ofCell cwd + r ∧
      (cwd = none → o.cwd = none) := by
  have htext := text_eq hpath
  cases ok with
  | false => exact ⟨false, o.cwd, l, by simp only [setCwd, htext, malloc_false, bind, Except.bind], h, id⟩
  | true =>
      have hpush := grown_stock (Grown.push l.heap)
      rw [h, ← add_assoc, add_comm (ofBlocks _), add_assoc] at hpush
      obtain ⟨l', hfree, hl'⟩ := freeCell_stock hpush
      have hkept : path.block ∈ l'.heap.live := by
        have hmem : path.block ∈ l.heap.push.live := Finset.mem_insert_of_mem hpath
        cases hc : o.cwd with
        | none =>
            rw [hc] at hfree
            cases hfree
            exact hmem
        | some c =>
            rw [hc] at hfree
            rw [live_of_free hfree]
            exact Finset.mem_erase.mpr ⟨(hother c hc).symm, hmem⟩
      refine ⟨true, some ⟨l.heap.next, path.text⟩, l', ?_, hl', nofun⟩
      simp only [setCwd, htext, malloc_true, hfree, text_eq hkept, bind, Except.bind]

end Stock
end DistributedPlatform
