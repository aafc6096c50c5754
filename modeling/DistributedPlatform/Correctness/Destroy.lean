import DistributedPlatform.Correctness.Registry
import DistributedPlatform.DevicesHeap

/-!
# `Correctness.Destroy` — the end of the registry

Between calls each name and each device of an entry is live and its own, and names are distinct (`Owned`). So the
search by the name of an entry finds that entry, and the name is not looked at once it is freed.

* `add_eq`, `remove_eq`, `open_eq`, `close_eq` — a call does what it does in `Devices`, and keeps that;
* `destroyFrom_eq` — the loop of the destructor;
* `destroy_reachable` — … from every registry that can be reached.
-/

namespace DistributedPlatform

/-- An entry without its memory. -/
def EntryObj.contents (e : EntryObj) : DeviceEntry Nat := ⟨(e.name.map (·.text)).getD [], e.device, e.refCount⟩

namespace DevicesObj

open Machine

variable {d d' : DevicesObj} {m m' : Store} {es es' l r : List EntryObj} {e : EntryObj} {c : Cell} {s : CStr}
  {name : NamePtr}

/-! ## The registry without its memory -/

def contents (d : DevicesObj) : Devices Nat := { entries := d.entries.map EntryObj.contents }

/-- The blocks of the names. -/
def nameBlocks (es : List EntryObj) : List Nat := es.filterMap fun e => e.name.map (·.block)

def devicesOf (es : List EntryObj) : List Nat := es.map (·.device)

/-- What the entries own is live, and nothing is owned twice. -/
structure Owned (m : Store) (es : List EntryObj) : Prop where
  named : ∀ e ∈ es, e.name ≠ none
  names : ∀ b ∈ nameBlocks es, b ∈ m.heap.live
  namesOnce : (nameBlocks es).Nodup
  devices : ∀ b ∈ devicesOf es, b ∈ m.objects.live
  devicesOnce : (devicesOf es).Nodup
  distinct : Devices.Distinct { entries := es.map EntryObj.contents }

theorem Owned.exists_name (h : Owned m es) (he : e ∈ es) :
    ∃ c, e.name = some c ∧ c.block ∈ m.heap.live ∧ e.contents.name = c.text := by
  obtain ⟨c, hc⟩ := Option.ne_none_iff_exists'.mp (h.named e he)
  refine ⟨c, hc, h.names _ (List.mem_filterMap.mpr ⟨e, he, ?_⟩), ?_⟩
  · rw [hc]
    rfl
  · unfold EntryObj.contents
    rw [hc]
    rfl

theorem indexIn_eq (h : ∀ e ∈ es, ∃ c, e.name = some c ∧ c.block ∈ m.heap.live ∧ e.contents.name = c.text)
    (hname : m.read name = .ok s) :
    indexIn m name es = .ok ((es.map EntryObj.contents).findIdx? fun e => e.name == s) := by
  induction es with
  | nil => rfl
  | cons e es ih =>
      obtain ⟨c, hc, hlive, htext⟩ := h e List.mem_cons_self
      have hread : m.read (.stored c) = .ok c.text := if_pos hlive
      have hsame : sameName m e name = .ok (c.text == s) := by
        unfold sameName
        simp only [hc, hread, hname, bind, Except.bind]
      have hrest := ih fun d hd => h d (List.mem_cons_of_mem e hd)
      rw [List.map_cons, List.findIdx?_cons, htext, indexIn]
      simp only [hsame, hrest, bind, Except.bind]
      split <;> rfl

/-- The search finds what it finds in `Devices`. -/
theorem getIndex_eq (h : Owned m d.entries) (hname : m.read name = .ok s) :
    d.getIndex m name = .ok (d.contents.getIndex s) :=
  indexIn_eq (fun _ he => h.exists_name he) hname

/-- An entry found in `Devices` is one here. -/
theorem exists_entry {i : Nat} (hi : d.contents.getIndex s = some i) :
    ∃ l e r, d.entries = l ++ e :: r ∧ l.length = i ∧ e.contents.name = s := by
  obtain ⟨e', he', hname⟩ := Devices.entry_of_getIndex hi
  have hmap : (d.entries.map EntryObj.contents)[i]? = some e' := he'
  rw [List.getElem?_map] at hmap
  obtain ⟨e, he, rfl⟩ := Option.map_eq_some_iff.mp hmap
  obtain ⟨hlt, hget⟩ := List.getElem?_eq_some_iff.mp he
  refine ⟨d.entries.take i, e, d.entries.drop (i + 1), ?_, ?_, hname⟩
  · rw [← hget, ← List.drop_eq_getElem_cons hlt, List.take_append_drop]
  · rw [List.length_take]
    omega

/-- The name of an entry is found where it is. -/
theorem getIndex_stored (h : Owned m (l ++ e :: r)) (hc : e.name = some c) :
    getIndex { entries := l ++ e :: r } m (.stored c) = .ok (some l.length) := by
  obtain ⟨c', hc', hlive, htext⟩ := h.exists_name (List.mem_append_right l List.mem_cons_self)
  rw [hc] at hc'
  cases hc'
  have hread : m.read (.stored c) = .ok c.text := if_pos hlive
  have hat : (contents { entries := l ++ e :: r }).entries[l.length]? = some e.contents := by
    unfold contents
    rw [List.getElem?_map, List.getElem?_append_right (le_refl _), Nat.sub_self]
    rfl
  have hindex : (contents { entries := l ++ e :: r }).getIndex e.contents.name = some l.length :=
    Devices.getIndex_of_entry h.distinct hat
  rw [getIndex_eq h hread, ← htext, hindex]

/-! ## What is left after a removal -/

theorem nameBlocks_append (l r : List EntryObj) : nameBlocks (l ++ r) = nameBlocks l ++ nameBlocks r :=
  List.filterMap_append

theorem nameBlocks_cons (hc : e.name = some c) (r : List EntryObj) : nameBlocks (e :: r) = c.block :: nameBlocks r := by
  unfold nameBlocks
  rw [List.filterMap_cons, hc]
  rfl

theorem devicesOf_append (l r : List EntryObj) : devicesOf (l ++ r) = devicesOf l ++ devicesOf r := List.map_append

/-- The store without the name and the device of an entry. -/
def dropped (m : Store) (b device : Nat) : Store := ⟨m.heap.drop b, m.objects.drop device⟩

theorem Owned.drop (h : Owned m (l ++ e :: r)) (hc : e.name = some c) :
    Owned (dropped m c.block e.device) (l ++ r) := by
  have hsub : (l ++ r).Sublist (l ++ e :: r) := (List.sublist_cons_self e r).append_left l
  have hblocks := h.namesOnce
  have hdevices := h.devicesOnce
  rw [nameBlocks_append, nameBlocks_cons hc] at hblocks
  rw [devicesOf_append] at hdevices
  refine ⟨fun e' he' => h.named e' (hsub.subset he'), fun b hb => ?_, ?_, fun b hb => ?_, ?_, ?_⟩
  · refine Finset.mem_erase.mpr ⟨?_, h.names b ((hsub.filterMap _).subset hb)⟩
    rintro rfl
    rw [nameBlocks_append] at hb
    exact (List.nodup_cons.mp (List.nodup_middle.mp hblocks)).1 hb
  · rw [nameBlocks_append]
    exact (List.nodup_cons.mp (List.nodup_middle.mp hblocks)).2
  · refine Finset.mem_erase.mpr ⟨?_, h.devices b ((hsub.map _).subset hb)⟩
    rintro rfl
    rw [devicesOf_append] at hb
    exact (List.nodup_cons.mp (List.nodup_middle.mp hdevices)).1 hb
  · rw [devicesOf_append]
    exact (List.nodup_cons.mp (List.nodup_middle.mp hdevices)).2
  · exact h.distinct.sublist ((hsub.map _).map _)

/-- **A removal**, once the entry is found. -/
theorem remove_at (h : Owned m (l ++ e :: r)) (hc : e.name = some c)
    (hi : getIndex { entries := l ++ e :: r } m name = .ok (some l.length)) :
    remove { entries := l ++ e :: r } m (some name) =
      if e.refCount > 0 then .ok (false, { entries := l ++ e :: r }, m)
      else .ok (true, { entries := l ++ r }, dropped m c.block e.device) := by
  have hmem : e ∈ l ++ e :: r := List.mem_append_right l List.mem_cons_self
  have hget : (l ++ e :: r)[l.length]? = some e := by
    rw [List.getElem?_append_right (le_refl _), Nat.sub_self]
    rfl
  have hname : c.block ∈ m.heap.live := by
    refine h.names _ (List.mem_filterMap.mpr ⟨e, hmem, ?_⟩)
    rw [hc]
    rfl
  have hdevice : e.device ∈ m.objects.live := h.devices _ (List.mem_map_of_mem hmem)
  have hfree : m.free e.name = .ok { m with heap := m.heap.drop c.block } := by
    have hblock : freeBlock m.heap c.block = .ok (m.heap.drop c.block) := freeBlock_eq (if_pos hname)
    rw [hc]
    simp only [Store.free, hblock, bind, Except.bind]
  have hdelete : Store.delete { m with heap := m.heap.drop c.block } e.device = .ok (dropped m c.block e.device) := by
    have hblock : freeBlock m.objects e.device = .ok (m.objects.drop e.device) := freeBlock_eq (if_pos hdevice)
    simp only [Store.delete, hblock, bind, Except.bind]
    rfl
  have herase : ((l ++ e :: r).set l.length { e with name := none }).eraseIdx l.length = l ++ r := by
    rw [List.set_append_right _ _ (le_refl _), Nat.sub_self, List.set_cons_zero,
      List.eraseIdx_append_of_length_le (le_refl _), Nat.sub_self, List.eraseIdx_cons_zero]
  unfold remove
  simp only [hi, hget, bind, Except.bind]
  split
  · rfl
  · simp only [hfree, hdelete, herase]

/-! ## Calls -/

/-- Counting changes nothing that is owned. -/
theorem Owned.recount (h : Owned m (l ++ e :: r)) (n : Int) : Owned m (l ++ { e with refCount := n } :: r) := by
  have hblocks : nameBlocks (l ++ { e with refCount := n } :: r) = nameBlocks (l ++ e :: r) := by
    rw [nameBlocks_append, nameBlocks_append]
    rfl
  have hdevices : devicesOf (l ++ { e with refCount := n } :: r) = devicesOf (l ++ e :: r) := by
    rw [devicesOf_append, devicesOf_append]
    rfl
  refine ⟨fun e' he' => ?_, hblocks ▸ h.names, hblocks ▸ h.namesOnce, hdevices ▸ h.devices,
    hdevices ▸ h.devicesOnce, ?_⟩
  · rcases List.mem_append.mp he' with he' | he'
    · exact h.named e' (List.mem_append_left _ he')
    · rcases List.mem_cons.mp he' with rfl | he'
      · exact h.named e (List.mem_append_right _ List.mem_cons_self)
      · exact h.named e' (List.mem_append_right _ (List.mem_cons_of_mem _ he'))
  · have hdistinct := h.distinct
    unfold Devices.Distinct at hdistinct ⊢
    rw [List.map_append, List.map_append] at hdistinct ⊢
    exact hdistinct

/-- A new entry at the end, with a block for its name. -/
theorem Owned.add (h : Owned m d.entries) {dev : Nat} (hlive : dev ∈ m.objects.live)
    (hnew : dev ∉ devicesOf d.entries) (hs : d.contents.exists_ s = false) :
    Owned { m with heap := m.heap.push } (d.entries ++ [⟨some ⟨m.heap.next, s⟩, dev, 0⟩]) := by
  refine ⟨fun e he => ?_, fun b hb => ?_, ?_, fun b hb => ?_, ?_, ?_⟩
  · rcases List.mem_append.mp he with he | he
    · exact h.named e he
    · rw [List.mem_singleton.mp he]
      nofun
  · rw [nameBlocks_append] at hb
    rcases List.mem_append.mp hb with hb | hb
    · exact Finset.mem_insert_of_mem (h.names b hb)
    · exact Finset.mem_insert.mpr (Or.inl (List.mem_singleton.mp hb))
  · rw [nameBlocks_append]
    refine List.Nodup.append h.namesOnce (List.nodup_singleton _) fun b hb hb' => ?_
    rw [List.mem_singleton.mp hb'] at hb
    exact m.heap.next_notMem (h.names _ hb)
  · rw [devicesOf_append] at hb
    rcases List.mem_append.mp hb with hb | hb
    · exact h.devices b hb
    · rw [List.mem_singleton.mp hb]
      exact hlive
  · rw [devicesOf_append]
    refine List.Nodup.append h.devicesOnce (List.nodup_singleton _) fun b hb hb' => ?_
    rw [List.mem_singleton.mp hb'] at hb
    exact hnew hb
  · have hdistinct := Registry.distinct_add h.distinct hs dev 0
    rw [List.map_append]
    exact hdistinct

theorem modify_append {α : Type*} (l r : List α) (a : α) (f : α → α) :
    (l ++ a :: r).modify l.length f = l ++ f a :: r := by
  induction l with
  | nil => rfl
  | cons b l ih => rw [List.cons_append, List.length_cons, List.modify_succ_cons, ih, List.cons_append]

theorem set_append {α : Type*} (l r : List α) (a b : α) : (l ++ a :: r).set l.length b = l ++ b :: r := by
  rw [List.set_append_right _ _ (le_refl _), Nat.sub_self, List.set_cons_zero]

/-- `Devices` as far as it is searched: the entry of a name, or none. -/
theorem find_cases (h : Owned m d.entries) (s : CStr) :
    (d.getIndex m (.caller s) = .ok none ∧ d.contents.getIndex s = none) ∨
      ∃ l e r, d = { entries := l ++ e :: r } ∧ d.getIndex m (.caller s) = .ok (some l.length) ∧
        d.contents.getIndex s = some l.length ∧ (l ++ e :: r)[l.length]? = some e ∧
        d.contents.entries[l.length]? = some e.contents := by
  have hindex := getIndex_eq h (rfl : m.read (.caller s) = .ok s)
  cases hi : d.contents.getIndex s with
  | none =>
      rw [hi] at hindex
      exact Or.inl ⟨hindex, rfl⟩
  | some i =>
      rw [hi] at hindex
      obtain ⟨l, e, r, hd, rfl, -⟩ := exists_entry hi
      have hget : (l ++ e :: r)[l.length]? = some e := by
        rw [List.getElem?_append_right (le_refl _), Nat.sub_self]
        rfl
      refine Or.inr ⟨l, e, r, congrArg DevicesObj.mk hd, hindex, rfl, hget, ?_⟩
      unfold contents
      rw [List.getElem?_map, hd, hget]
      rfl

theorem exists_eq (h : Owned m d.entries) (s : CStr) :
    d.exists_ m (.caller s) = .ok (d.contents.exists_ s) := by
  unfold DevicesObj.exists_ Devices.exists_ Devices.get
  rcases find_cases h s with ⟨hindex, hi⟩ | ⟨l, e, r, -, hindex, hi, -, hentry⟩
  · simp only [hindex, hi, bind, Except.bind, Option.bind_none, Option.isSome_none]
  · simp only [hindex, hi, hentry, bind, Except.bind, Option.bind_some, Option.isSome_some]

theorem add_eq (h : Owned m d.entries) (s : CStr) {device : Option Nat} (alloc : Bool)
    (hnew : ∀ dev, device = some dev → dev ∈ m.objects.live ∧ dev ∉ devicesOf d.entries) :
    ∃ d' m', d.add m (.caller s) device alloc = .ok ((d.contents.add s device alloc).1, d', m') ∧
      d'.contents = (d.contents.add s device alloc).2 ∧ Owned m' d'.entries := by
  have hread : m.read (.caller s) = .ok s := rfl
  have hexists := exists_eq h s
  cases hused : d.contents.exists_ s with
  | true =>
      rw [hused] at hexists
      refine ⟨d, m, ?_, ?_, h⟩
      · simp only [add, Devices.add, hexists, hused, bind, Except.bind, if_true]
      · simp only [Devices.add, hused, if_true]
  | false =>
      rw [hused] at hexists
      cases device with
      | none =>
          refine ⟨d, m, ?_, ?_, h⟩
          · simp only [add, Devices.add, hexists, hused, bind, Except.bind, Bool.false_eq_true, if_false]
          · simp only [Devices.add, hused, Bool.false_eq_true, if_false]
      | some dev =>
          obtain ⟨hlive, hfresh⟩ := hnew dev rfl
          cases alloc with
          | false =>
              refine ⟨d, m, ?_, ?_, h⟩
              · simp only [add, Devices.add, hexists, hused, hread, Arena.alloc, bind, Except.bind,
                  Bool.false_eq_true, if_false, not_false_iff, if_true]
              · simp only [Devices.add, hused, Bool.false_eq_true, if_false, not_false_iff, if_true]
          | true =>
              refine ⟨_, _, ?_, ?_, h.add hlive hfresh hused⟩
              · simp only [add, Devices.add, hexists, hused, hread, Arena.alloc, bind, Except.bind,
                  Bool.false_eq_true, if_false, not_true, if_true]
              · simp only [Devices.add, hused, Bool.false_eq_true, if_false, not_true]
                unfold contents
                rw [List.map_append]
                rfl

theorem remove_eq (h : Owned m d.entries) (name : Option CStr) :
    ∃ d' m', d.remove m (name.map .caller) = .ok ((d.contents.remove name).1, d', m') ∧
      d'.contents = (d.contents.remove name).2 ∧ Owned m' d'.entries := by
  cases name with
  | none => exact ⟨d, m, rfl, rfl, h⟩
  | some s =>
      rcases find_cases h s with ⟨hindex, hi⟩ | ⟨l, e, r, rfl, hindex, hi, -, hentry⟩
      · refine ⟨d, m, ?_, ?_, h⟩
        · simp only [Option.map_some, remove, Devices.remove, hindex, hi, bind, Except.bind]
        · simp only [Devices.remove, hi]
      · obtain ⟨c, hc, -, -⟩ := h.exists_name (List.mem_append_right l List.mem_cons_self)
        have hremove := remove_at h hc hindex
        have hcount : e.contents.refCount = e.refCount := rfl
        by_cases hopen : e.refCount > 0
        · rw [if_pos hopen] at hremove
          refine ⟨_, m, ?_, ?_, h⟩
          · simp only [Option.map_some, hremove, Devices.remove, hi, hentry, hcount, if_pos hopen]
          · simp only [Devices.remove, hi, hentry, hcount, if_pos hopen]
        · rw [if_neg hopen] at hremove
          refine ⟨_, _, ?_, ?_, h.drop hc⟩
          · simp only [Option.map_some, hremove, Devices.remove, hi, hentry, hcount, if_neg hopen]
          · simp only [Devices.remove, hi, hentry, hcount, if_neg hopen]
            unfold contents
            rw [List.map_append, List.map_append, List.map_cons,
              List.eraseIdx_append_of_length_le (by rw [List.length_map]), List.length_map, Nat.sub_self,
              List.eraseIdx_cons_zero]

/-- An entry counted anew. -/
theorem contents_recount {f : Int → Int} (hi : (contents { entries := l ++ e :: r }).getIndex s = some l.length) :
    contents { entries := (l ++ e :: r).set l.length { e with refCount := f e.refCount } } =
      (contents { entries := l ++ e :: r }).modifyCount s f := by
  unfold Devices.modifyCount
  rw [hi, set_append]
  unfold contents
  dsimp only
  rw [List.map_append, List.map_cons, List.map_append, List.map_cons]
  have hmodify := modify_append (l.map EntryObj.contents) (r.map EntryObj.contents) e.contents
    fun e => { e with refCount := f e.refCount }
  rw [List.length_map] at hmodify
  rw [hmodify]
  rfl

theorem open_eq (h : Owned m d.entries) (s : CStr) :
    ∃ d', d.open_ m (.caller s) = .ok ((d.contents.open_ s).1, d') ∧
      d'.contents = (d.contents.open_ s).2 ∧ Owned m d'.entries := by
  rcases find_cases h s with ⟨hindex, hi⟩ | ⟨l, e, r, rfl, hindex, hi, hget, hentry⟩
  · refine ⟨d, ?_, ?_, h⟩
    · simp only [open_, Devices.open_, Devices.get, hindex, hi, bind, Except.bind, Option.bind_none]
    · simp only [Devices.open_, Devices.get, hi, Option.bind_none]
  · have hset := set_append l r e { e with refCount := toI32 (e.refCount + 1) }
    refine ⟨{ entries := (l ++ e :: r).set l.length { e with refCount := toI32 (e.refCount + 1) } }, ?_, ?_, ?_⟩
    · simp only [open_, Devices.open_, Devices.get, hindex, hi, hget, hentry, bind, Except.bind, Option.bind_some]
      rfl
    · simp only [Devices.open_, Devices.get, hi, hentry, Option.bind_some]
      exact contents_recount (f := fun n => toI32 (n + 1)) hi
    · dsimp only
      rw [hset]
      exact h.recount _

theorem close_eq (h : Owned m d.entries) (s : CStr) :
    ∃ d', d.close m (.caller s) = .ok ((d.contents.close s).1, d') ∧
      d'.contents = (d.contents.close s).2 ∧ Owned m d'.entries := by
  rcases find_cases h s with ⟨hindex, hi⟩ | ⟨l, e, r, rfl, hindex, hi, hget, hentry⟩
  · refine ⟨d, ?_, ?_, h⟩
    · simp only [close, Devices.close, Devices.get, hindex, hi, bind, Except.bind, Option.bind_none]
    · simp only [Devices.close, Devices.get, hi, Option.bind_none]
  · have hset := set_append l r e { e with refCount := e.refCount - 1 }
    have hcount : e.contents.refCount = e.refCount := rfl
    by_cases hclosed : e.refCount ≤ 0
    · refine ⟨{ entries := l ++ e :: r }, ?_, ?_, h⟩
      · simp only [close, Devices.close, Devices.get, hindex, hi, hget, hentry, hcount, if_pos hclosed, bind,
          Except.bind, Option.bind_some]
      · simp only [Devices.close, Devices.get, hi, hentry, hcount, if_pos hclosed, Option.bind_some]
    · refine ⟨{ entries := (l ++ e :: r).set l.length { e with refCount := e.refCount - 1 } }, ?_, ?_, ?_⟩
      · simp only [close, Devices.close, Devices.get, hindex, hi, hget, hentry, hcount, if_neg hclosed, bind,
          Except.bind, Option.bind_some]
      · simp only [Devices.close, Devices.get, hi, hentry, hcount, if_neg hclosed, Option.bind_some]
        exact contents_recount (f := (· - 1)) hi
      · dsimp only
        rw [hset]
        exact h.recount _

/-! ## The destructor -/

/-- An entry that is open stays. -/
def stays (e : EntryObj) : Bool := decide (0 < e.refCount)

/-- The names of the entries were freed and their devices deleted, each once, and nothing else was. -/
structure Released (m : Store) (es : List EntryObj) (m' : Store) : Prop where
  names : m.heap.freeAll (nameBlocks es) = some m'.heap
  devices : m.objects.freeAll (devicesOf es) = some m'.objects

theorem Released.cons (h : Owned m (l ++ e :: r)) (hc : e.name = some c)
    (hrest : Released (dropped m c.block e.device) es m') : Released m (e :: es) m' := by
  have hmem : e ∈ l ++ e :: r := List.mem_append_right l List.mem_cons_self
  obtain ⟨c', hc', hname, -⟩ := h.exists_name hmem
  rw [hc] at hc'
  cases hc'
  have hfree : m.heap.free c.block = some (m.heap.drop c.block) := if_pos hname
  have hdelete : m.objects.free e.device = some (m.objects.drop e.device) :=
    if_pos (h.devices _ (List.mem_map_of_mem hmem))
  constructor
  · rw [nameBlocks_cons hc, Arena.freeAll, hfree]
    exact hrest.names
  · show m.objects.freeAll (e.device :: devicesOf es) = _
    rw [Arena.freeAll, hdelete]
    exact hrest.devices

/-- One round of the loop, where the entry is removed, … -/
theorem destroyFrom_removed {i : Nat} (hi : d.entries[i]? = some e)
    (h : d.remove m (e.name.map .stored) = .ok (true, d', m')) : destroyFrom m d i = destroyFrom m' d' i := by
  rw [destroyFrom]
  split
  · next hnone => cases hnone.symm.trans hi
  · next e' he' =>
      cases he'.symm.trans hi
      split
      · next herror => cases herror.symm.trans h
      · next htrue =>
          cases htrue.symm.trans h
          rfl
      · next hfalse => cases hfalse.symm.trans h

/-- … and where it is not. -/
theorem destroyFrom_kept {i : Nat} (hi : d.entries[i]? = some e)
    (h : d.remove m (e.name.map .stored) = .ok (false, d', m')) (hname : d'.nameAt m' i = .ok s) :
    destroyFrom m d i = destroyFrom m' d' (i + 1) := by
  rw [destroyFrom]
  split
  · next hnone => cases hnone.symm.trans hi
  · next e' he' =>
      cases he'.symm.trans hi
      split
      · next herror => cases herror.symm.trans h
      · next htrue => cases htrue.symm.trans h
      · next hfalse =>
          cases hfalse.symm.trans h
          rw [hname]
          rfl

/-- **The loop**, from some entry on: those behind that are not open go, each with its name and its device. -/
theorem destroyFrom_eq (r : List EntryObj) :
    ∀ (l : List EntryObj) (m : Store), Owned m (l ++ r) →
      ∃ m', destroyFrom m { entries := l ++ r } l.length = .ok ({ entries := l ++ r.filter stays }, m') ∧
        Released m (r.filter (!stays ·)) m' := by
  induction r with
  | nil =>
      intro l m h
      refine ⟨m, ?_, rfl, rfl⟩
      rw [List.filter_nil, destroyFrom]
      split
      · rfl
      · next hi =>
          rw [List.append_nil, List.getElem?_eq_none (le_refl _)] at hi
          cases hi
  | cons e r ih =>
      intro l m h
      obtain ⟨c, hc, hlive, -⟩ := h.exists_name (List.mem_append_right l List.mem_cons_self)
      have hget : (l ++ e :: r)[l.length]? = some e := by
        rw [List.getElem?_append_right (le_refl _), Nat.sub_self]
        rfl
      have hremove := remove_at h hc (getIndex_stored h hc)
      have harg : e.name.map NamePtr.stored = some (.stored c) := congrArg (Option.map NamePtr.stored) hc
      rw [← harg] at hremove
      by_cases hopen : e.refCount > 0
      · have hstays : stays e = true := decide_eq_true hopen
        have happ : l ++ e :: r = (l ++ [e]) ++ r := by rw [List.append_assoc, List.singleton_append]
        obtain ⟨m', hrest, hreleased⟩ := ih (l ++ [e]) m (happ ▸ h)
        have hlog : nameAt { entries := l ++ e :: r } m l.length = .ok c.text := by
          have hread : m.read (.stored c) = .ok c.text := if_pos hlive
          simp only [nameAt, hget, hc, hread]
        rw [if_pos hopen] at hremove
        rw [← happ, List.length_append, List.length_singleton, List.append_assoc, List.singleton_append] at hrest
        refine ⟨m', ?_, ?_⟩
        · rw [List.filter_cons_of_pos hstays, destroyFrom_kept hget hremove hlog, hrest]
        · rw [List.filter_cons_of_neg (by rw [hstays]; exact Bool.false_ne_true)]
          exact hreleased
      · have hgoes : ¬ stays e = true := fun h => hopen (of_decide_eq_true h)
        obtain ⟨m', hrest, hreleased⟩ := ih l _ (h.drop hc)
        rw [if_neg hopen] at hremove
        refine ⟨m', ?_, ?_⟩
        · rw [List.filter_cons_of_neg hgoes, destroyFrom_removed hget hremove, hrest]
        · rw [List.filter_cons_of_pos (by simpa using hgoes)]
          exact Released.cons h hc hreleased

/-! ## Runs -/

open Registry (Call Answer Ok Countable)

/-- A call, with what it returns. -/
def perform (d : DevicesObj) (m : Store) : Call Nat → Eff (Answer Nat × DevicesObj × Store)
  | .add name device alloc => do
      let (b, d, m) ← d.add m (.caller name) device alloc
      .ok (.bool b, d, m)
  | .remove name => do
      let (b, d, m) ← d.remove m (name.map .caller)
      .ok (.bool b, d, m)
  | .exists_ name => do
      let b ← d.exists_ m (.caller name)
      .ok (.bool b, d, m)
  | .open name => do
      let (device, d) ← d.open_ m (.caller name)
      .ok (.device device, d, m)
  | .close name => do
      let (b, d) ← d.close m (.caller name)
      .ok (.bool b, d, m)

/-- What is added is an object of the caller, who made it with `new`. -/
def New (d : DevicesObj) (m : Store) (c : Call Nat) : Prop :=
  ∀ name dev alloc, c = .add name (some dev) alloc → dev ∈ m.objects.live ∧ dev ∉ devicesOf d.entries

/-- A call, or (`none`) something else that happens to the memory; what the registry owns is left alone. -/
inductive Step : DevicesObj × Store → Option (Call Nat) → DevicesObj × Store → Prop
  | call {d d' : DevicesObj} {m m' : Store} {c : Call Nat} {ans : Answer Nat} :
      New d m c → d.perform m c = .ok (ans, d', m') → Step (d, m) (some c) (d', m')
  | other {d : DevicesObj} {m m' : Store} :
      (∀ b ∈ nameBlocks d.entries, b ∈ m'.heap.live) → (∀ b ∈ devicesOf d.entries, b ∈ m'.objects.live) →
      Step (d, m) none (d, m')

/-- **A call does what it does in `Devices`**, with the same answer, and keeps what is owned. -/
theorem perform_eq (h : Owned m d.entries) {c : Call Nat} (hnew : New d m c) :
    ∃ d' m', d.perform m c = .ok ((c.run d.contents).1, d', m') ∧ d'.contents = (c.run d.contents).2 ∧
      Owned m' d'.entries := by
  cases c with
  | add name device alloc =>
      obtain ⟨d', m', hcall, hrest⟩ := add_eq h name alloc fun dev hdev => hnew name dev alloc (hdev ▸ rfl)
      exact ⟨d', m', by simp only [perform, hcall, bind, Except.bind]; rfl, hrest⟩
  | remove name =>
      obtain ⟨d', m', hcall, hrest⟩ := remove_eq h name
      exact ⟨d', m', by simp only [perform, hcall, bind, Except.bind]; rfl, hrest⟩
  | exists_ name => exact ⟨d, m, by simp only [perform, exists_eq h name, bind, Except.bind]; rfl, rfl, h⟩
  | «open» name =>
      obtain ⟨d', hcall, hrest⟩ := open_eq h name
      exact ⟨d', m, by simp only [perform, hcall, bind, Except.bind]; rfl, hrest⟩
  | close name =>
      obtain ⟨d', hcall, hrest⟩ := close_eq h name
      exact ⟨d', m, by simp only [perform, hcall, bind, Except.bind]; rfl, hrest⟩

theorem step_owned {t u : DevicesObj × Store} {a : Option (Call Nat)} (h : Owned t.2 t.1.entries)
    (hstep : Step t a u) : Owned u.2 u.1.entries := by
  cases hstep with
  | @call d d' m m' c ans hnew hcall =>
      obtain ⟨d'', m'', hcall', -, howned⟩ := perform_eq h hnew
      cases hcall.symm.trans hcall'
      exact howned
  | other hnames hdevices => exact ⟨h.named, hnames, h.namesOnce, hdevices, h.devicesOnce, h.distinct⟩

/-- The counts are kept as in `Devices`. -/
theorem step_ok {t u : DevicesObj × Store} {a : Option (Call Nat)} (h : Owned t.2 t.1.entries) (hok : Ok t.1.contents)
    (hc : ∀ c, a = some c → Countable t.1.contents c) (hstep : Step t a u) : Ok u.1.contents := by
  cases hstep with
  | @call d d' m m' c ans hnew hcall =>
      obtain ⟨d'', m'', hcall', hcontents, -⟩ := perform_eq h hnew
      cases hcall.symm.trans hcall'
      refine (Registry.step_simulates (l := (c, (c.run d.contents).1)) hok (hc c rfl) ?_).1
      rw [hcontents]
      rfl
  | other _ _ => exact hok

theorem owned_empty (m : Store) : Owned m [] where
  named _ he := absurd he List.not_mem_nil
  names _ hb := absurd hb List.not_mem_nil
  namesOnce := List.nodup_nil
  devices _ hb := absurd hb List.not_mem_nil
  devicesOnce := List.nodup_nil
  distinct := List.nodup_nil

variable {m₀ : Store} {tr : List ((DevicesObj × Store) × Option (Call Nat) × (DevicesObj × Store))}

theorem owned_of_run (h : Run Step ({}, m₀) tr (d, m)) : Owned m d.entries :=
  h.invariant (I := fun s => Owned s.2 s.1.entries) (fun _ _ _ hI hst => step_owned hI hst) (owned_empty m₀)

theorem ok_of_run (h : Run Step ({}, m₀) tr (d, m))
    (hc : ∀ x ∈ tr, ∀ c, x.2.1 = some c → Countable x.1.1.contents c) : Ok d.contents :=
  (h.invariant_of_good (I := fun s => Owned s.2 s.1.entries ∧ Ok s.1.contents)
    (C := fun s a => ∀ c, a = some c → Countable s.1.contents c)
    (fun _ _ _ hI hC hst => ⟨step_owned hI.1 hst, step_ok hI.1 hI.2 hC hst⟩)
    ⟨owned_empty m₀, Registry.ok_empty⟩ hc).2

/-- **The destructor**, after any calls: it ends, and the entries that are not counted as open are gone, the name of
    each freed and its device deleted once; the others are left, in order. As long as no name was opened while its
    count was the largest `int`, those that are gone are those whose count is zero. -/
theorem destroy_reachable (h : Run Step ({}, m₀) tr (d, m)) :
    ∃ m', d.destroy m = .ok ({ entries := d.entries.filter stays }, m') ∧
      Released m (d.entries.filter (!stays ·)) m' ∧
      ((∀ x ∈ tr, ∀ c, x.2.1 = some c → Countable x.1.1.contents c) →
        ∀ e ∈ d.entries, stays e = false ↔ e.refCount = 0) := by
  obtain ⟨m', hdestroy, hreleased⟩ := destroyFrom_eq d.entries [] m (owned_of_run h)
  refine ⟨m', hdestroy, hreleased, fun hc e he => ?_⟩
  have hcount := ((ok_of_run h hc).count e.contents (List.mem_map_of_mem he)).1
  have hsame : e.contents.refCount = e.refCount := rfl
  unfold stays
  rw [decide_eq_false_iff_not]
  omega

/-- The server with two devices made, and none registered. -/
def made : Store := ⟨.empty, ⟨{0, 1}, 2, by decide⟩⟩

/-- The store with the name of a first device. -/
def named : Store := { made with heap := made.heap.push }

/-- A registry with one device, open `n` times. -/
def openTimes (n : Int) : DevicesObj := { entries := [⟨some ⟨0, bytes "null"⟩, 0, n⟩] }

theorem step_add : Step ({}, made) (some (.add (bytes "null") (some 0) true)) (openTimes 0, named) := by
  refine .call ?_ rfl
  intro name dev alloc h
  cases h
  exact ⟨by decide, List.not_mem_nil⟩

theorem step_open (n : Int) :
    Step (openTimes n, named) (some (.open (bytes "null"))) (openTimes (toI32 (n + 1)), named) :=
  .call nofun rfl

/-- One device is open, another is not. -/
theorem destroy_reachable_two :
    ∃ tr d m m', Run Step ({}, made) tr (d, m) ∧ d.entries.map (·.refCount) = [1, 0] ∧
      d.destroy m = .ok ({ entries := d.entries.filter stays }, m') ∧ Released m (d.entries.filter (!stays ·)) m' := by
  have hzero : Step (openTimes 1, named) (some (.add (bytes "zero") (some 1) true))
      ({ entries := [⟨some ⟨0, bytes "null"⟩, 0, 1⟩, ⟨some ⟨1, bytes "zero"⟩, 1, 0⟩] },
        { named with heap := named.heap.push }) := by
    refine .call ?_ rfl
    intro name dev alloc h
    cases h
    exact ⟨by decide, by decide⟩
  have hrun := ((Run.single step_add).tail (step_open 0)).tail hzero
  obtain ⟨m', hdestroy, hreleased, -⟩ := destroy_reachable hrun
  exact ⟨_, _, _, m', hrun, rfl, hdestroy, hreleased⟩

theorem run_openTimes (n : ℕ) (hn : n < 2 ^ 31) : ∃ tr, Run Step ({}, made) tr (openTimes n, named) := by
  induction n with
  | zero => exact ⟨_, Run.single step_add⟩
  | succ n ih =>
      obtain ⟨tr, hrun⟩ := ih (by omega)
      have hstep := step_open n
      have hsucc : toI32 ((n : Int) + 1) = ((n + 1 : ℕ) : Int) := toI32_eq_self_iff.mpr ⟨by omega, by omega⟩
      rw [hsucc] at hstep
      exact ⟨_, hrun.tail hstep⟩

/-- A device open 2^31 times goes too: its count is negative. -/
theorem negative_removed :
    ¬ ∀ m₀ tr d m, Run Step ({}, m₀) tr (d, m) →
      ∃ d' m', d.destroy m = .ok (d', m') ∧ ∀ e ∈ d.entries, e ∉ d'.entries ↔ e.refCount = 0 := by
  intro hall
  obtain ⟨tr, hrun⟩ := run_openTimes (2 ^ 31 - 1) (by decide)
  have hlast : Step (openTimes (2 ^ 31 - 1 : ℕ), named) (some (.open (bytes "null"))) (openTimes (-2 ^ 31), named) :=
    step_open _
  have hrun' := hrun.tail hlast
  obtain ⟨d', m', hdestroy, hremoved⟩ := hall _ _ _ _ hrun'
  obtain ⟨m'', hdestroy', -⟩ := destroyFrom_eq (openTimes (-2 ^ 31)).entries [] named (owned_of_run hrun')
  cases hdestroy.symm.trans hdestroy'
  have hzero := (hremoved ⟨some ⟨0, bytes "null"⟩, 0, -2 ^ 31⟩ (List.mem_singleton_self _)).mp (by decide)
  revert hzero
  decide

end DevicesObj
end DistributedPlatform
