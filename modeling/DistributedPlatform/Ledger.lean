import DistributedPlatform.Lib.Arena
import DistributedPlatform.Host

/-!
# `Ledger` — what is taken and given back

Where it matters what a function releases, and how often, a pointer is the number of its block. The ledger has the
blocks that are live and the references to libraries that are open; using a block that is not live is a fault. A
string is written once, when its block is made, and stands beside the pointer.

* `Ledger.dup` — memory of a given size and the copy of a string into it;
* `Ledger.copyArgv` — the loop that copies strings into an array of pointers, and where it stops (`copyArgv_cases`);
* `Ledger.freeAll` — releasing several blocks, in order.
-/

namespace DistributedPlatform

/-- `free`; of a block that is not live it is undefined. -/
def freeBlock (m : Arena) (b : Nat) : Eff Arena :=
  match m.free b with
  | none => .error .dangling
  | some m => .ok m

def freeBlocks (m : Arena) (bs : List Nat) : Eff Arena :=
  match m.freeAll bs with
  | none => .error .dangling
  | some m => .ok m

/-- A pointer to a string. -/
structure Cell where
  block : Nat
  text : CStr
  deriving DecidableEq, Repr

/-- An element of an array of pointers. -/
inductive Slot
  | indeterminate
  | null
  | ptr (c : Cell)
  deriving DecidableEq, Repr

structure PtrArray where
  block : Nat
  slots : List Slot
  deriving DecidableEq, Repr

/-- The live blocks, one entry for each `dlopen` of a library that was not closed, and how often `dlclose` was
    called with a handle that is not open. -/
structure Ledger where
  heap : Arena
  libs : List CStr := []
  stray : Nat := 0

namespace Ledger

def malloc (l : Ledger) (ok : Bool) : Option Nat × Ledger :=
  let (b, heap) := l.heap.alloc ok
  (b, { l with heap })

/-- `free`, of a null pointer too. -/
def free (l : Ledger) : Option Nat → Eff Ledger
  | none => .ok l
  | some b => do
      let heap ← freeBlock l.heap b
      .ok { l with heap }

def freeAll (l : Ledger) (bs : List Nat) : Eff Ledger := do
  let heap ← freeBlocks l.heap bs
  .ok { l with heap }

/-- `dlopen`; opening a library again is one more reference to it. -/
def dlopen (l : Ledger) (file : CStr) (ok : Bool) : Option CStr × Ledger :=
  if ok then (some file, { l with libs := file :: l.libs }) else (none, l)

/-- `dlclose`, which looks into its handle. -/
def dlclose (l : Ledger) : Option CStr → Eff Ledger
  | none => .error .nullDeref
  | some file =>
      if file ∈ l.libs then .ok { l with libs := l.libs.erase file } else .ok { l with stray := l.stray + 1 }

/-- The string a pointer points to. -/
def text (l : Ledger) (c : Cell) : Eff CStr := if c.block ∈ l.heap.live then .ok c.text else .error .dangling

/-- `malloc` of `size` bytes, and the copy of a string with its NUL. -/
def dup (l : Ledger) (ok : Bool) (size : Nat) (s : CStr) : Eff (Option Cell × Ledger) :=
  match l.malloc ok with
  | (none, l) => .ok (none, l)
  | (some b, l) => if size < s.length + 1 then .error .outOfBounds else .ok (some ⟨b, s⟩, l)

/-! ### Arrays of pointers -/

def slots (l : Ledger) (a : PtrArray) : Eff (List Slot) :=
  if a.block ∈ l.heap.live then .ok a.slots else .error .dangling

def setSlot (l : Ledger) (a : PtrArray) (i : Nat) (x : Slot) : Eff PtrArray := do
  let slots ← l.slots a
  if i < slots.length then .ok { a with slots := slots.set i x } else .error .outOfBounds

/-- The pointers up to the first null. -/
def upToNull : List Slot → Eff (List Cell)
  | [] => .error .outOfBounds
  | .indeterminate :: _ => .error .dangling
  | .null :: _ => .ok []
  | .ptr c :: slots => do
      let cs ← upToNull slots
      .ok (c :: cs)

/-- The strings of a null-terminated array. -/
def entries (l : Ledger) (a : PtrArray) : Eff (List Cell) := do
  let slots ← l.slots a
  upToNull slots

/-- The first `n` pointers. -/
def firstPtrs : Nat → List Slot → Eff (List (Option Cell))
  | 0, _ => .ok []
  | _ + 1, [] => .error .outOfBounds
  | _ + 1, .indeterminate :: _ => .error .dangling
  | n + 1, .null :: slots => do
      let ps ← firstPtrs n slots
      .ok (none :: ps)
  | n + 1, .ptr c :: slots => do
      let ps ← firstPtrs n slots
      .ok (some c :: ps)

/-- `a[0]` to `a[n-1]`; with none of them the array is not looked at. -/
def argPtrs (l : Ledger) (a : PtrArray) (n : Nat) : Eff (List (Option Cell)) :=
  if n = 0 then .ok []
  else do
    let slots ← l.slots a
    firstPtrs n slots

/-- `for(i=0;i<n;++i) free(a[i]); free(a);` -/
def freeArgv (l : Ledger) (a : PtrArray) (n : Nat) : Eff Ledger := do
  let ps ← l.argPtrs a n
  l.freeAll ((ps.filterMap id).map (·.block) ++ [a.block])

/-- `for(ptr=a;*ptr!=NULL;++ptr) free(*ptr); free(a);` -/
def freeEntries (l : Ledger) (a : PtrArray) : Eff Ledger := do
  let cs ← l.entries a
  l.freeAll (cs.map (·.block) ++ [a.block])

/-- The loop that copies strings into an array, from its `i`-th element on: whether it got to the end, where it
    stopped, and the array. A copy that cannot be made leaves a null pointer. -/
def copyArgv (ok : Nat → Bool) : (src : List Cell) → (i : Nat) → PtrArray → Ledger →
    Eff (Bool × Nat × PtrArray × Ledger)
  | [], i, a, l => .ok (true, i, a, l)
  | c :: src, i, a, l => do
      let s ← l.text c
      let (copy, l) ← l.dup (ok i) (s.length + 1) s
      match copy with
      | none => do
          let a ← l.setSlot a i .null
          .ok (false, i, a, l)
      | some c => do
          let a ← l.setSlot a i (.ptr c)
          copyArgv ok src (i + 1) a l

end Ledger

/-! ## What they do -/

theorem freeBlock_eq {m m' : Arena} {b : Nat} (h : m.free b = some m') : freeBlock m b = .ok m' := by
  unfold freeBlock
  rw [h]

theorem freeBlocks_eq {m m' : Arena} {bs : List Nat} (h : m.freeAll bs = some m') :
    freeBlocks m bs = .ok m' := by
  unfold freeBlocks
  rw [h]

namespace Ledger

open Arena (Grown)

variable {l l' : Ledger} {m : Arena} {b : Nat} {bs : List Nat} {cs : List Cell} {a : PtrArray}

/-- The blocks of strings. -/
def blocks (cs : List Cell) : List Nat := cs.map (·.block)

@[simp] theorem malloc_true (l : Ledger) :
    l.malloc true = (some l.heap.next, { l with heap := l.heap.push }) := rfl

@[simp] theorem malloc_false (l : Ledger) : l.malloc false = (none, l) := rfl

theorem freeAll_eq (h : l.heap.freeAll bs = some m) : l.freeAll bs = .ok { l with heap := m } := by
  simp only [freeAll, freeBlocks_eq h, bind, Except.bind]

theorem free_eq (h : l.heap.free b = some m) : l.free (some b) = .ok { l with heap := m } := by
  simp only [free, freeBlock_eq h, bind, Except.bind]

@[simp] theorem free_none (l : Ledger) : l.free none = .ok l := rfl

theorem live_of_free (h : l.free (some b) = .ok l') : l'.heap.live = l.heap.live.erase b := by
  unfold free freeBlock at h
  obtain ⟨m, hm, h⟩ := Eff.bind_eq_ok.mp h
  split at hm
  · cases hm
  · next hfree =>
      cases hm
      cases h
      exact Arena.live_of_free hfree

theorem live_of_freeAll (h : l.freeAll bs = .ok l') : l'.heap.live = l.heap.live \ bs.toFinset := by
  unfold freeAll freeBlocks at h
  obtain ⟨m, hm, h⟩ := Eff.bind_eq_ok.mp h
  split at hm
  · cases hm
  · next hfree =>
      cases hm
      cases h
      exact Arena.live_of_freeAll hfree

/-- A block that is not live is not by releasing something. -/
theorem notMem_of_free {p : Option Nat} (h : l.free p = .ok l') (hb : b ∉ l.heap.live) : b ∉ l'.heap.live := by
  cases p with
  | none =>
      cases h
      exact hb
  | some c =>
      rw [live_of_free h]
      exact fun hmem => hb (Finset.mem_of_mem_erase hmem)

theorem dlclose_heap {handle : Option CStr} (h : l.dlclose handle = .ok l') : l'.heap = l.heap := by
  unfold dlclose at h
  cases handle with
  | none => cases h
  | some file =>
      dsimp only at h
      split at h <;> cases h <;> rfl

theorem dlclose_mem {file : CStr} (h : file ∈ l.libs) :
    l.dlclose (some file) = .ok { l with libs := l.libs.erase file } := if_pos h

/-- A block that is not live cannot be among those released. -/
theorem freeAll_of_notMem (hb : b ∉ l.heap.live) (hmem : b ∈ bs) : l.freeAll bs = .error .dangling := by
  have hnone : ∀ {bs : List Nat} {m : Arena}, b ∉ m.live → b ∈ bs → m.freeAll bs = none := by
    intro bs
    induction bs with
    | nil => exact fun _ hmem => absurd hmem List.not_mem_nil
    | cons c bs ih =>
        intro m hb hmem
        unfold Arena.freeAll Arena.free
        by_cases hc : c ∈ m.live
        · rw [if_pos hc]
          have hbc : b ≠ c := fun h => hb (h ▸ hc)
          refine ih (fun h => hb (Finset.mem_of_mem_erase h)) ?_
          exact (List.mem_cons.mp hmem).resolve_left hbc
        · rw [if_neg hc]
  simp only [freeAll, freeBlocks, hnone hb hmem, bind, Except.bind]

theorem text_eq {c : Cell} (hc : c.block ∈ l.heap.live) : l.text c = .ok c.text := if_pos hc

theorem slots_eq (ha : a.block ∈ l.heap.live) : l.slots a = .ok a.slots := if_pos ha

theorem dup_true (l : Ledger) (s : CStr) :
    l.dup true (s.length + 1) s = .ok (some ⟨l.heap.next, s⟩, { l with heap := l.heap.push }) :=
  if_neg (Nat.lt_irrefl _)

theorem dup_false (l : Ledger) (n : Nat) (s : CStr) : l.dup false n s = .ok (none, l) := rfl

/-! ### Arrays -/

theorem upToNull_eq (cs : List Cell) (rest : List Slot) :
    upToNull (cs.map .ptr ++ .null :: rest) = .ok cs := by
  induction cs with
  | nil => rfl
  | cons c cs ih => simp only [List.map_cons, List.cons_append, upToNull, ih, bind, Except.bind]

theorem firstPtrs_eq (cs : List Cell) (rest : List Slot) :
    firstPtrs cs.length (cs.map .ptr ++ rest) = .ok (cs.map some) := by
  induction cs with
  | nil => rfl
  | cons c cs ih =>
      simp only [List.length_cons, List.map_cons, List.cons_append, firstPtrs, ih, bind, Except.bind]

/-- The strings of an array that ends with a null, and the array, are released. -/
theorem freeEntries_eq {rest : List Slot} (ha : a.block ∈ l.heap.live)
    (hslots : a.slots = cs.map .ptr ++ .null :: rest) : l.freeEntries a = l.freeAll (blocks cs ++ [a.block]) := by
  simp only [freeEntries, entries, slots_eq ha, hslots, upToNull_eq, bind, Except.bind]
  rfl

theorem freeArgv_eq {rest : List Slot} (ha : a.block ∈ l.heap.live) (hslots : a.slots = cs.map .ptr ++ rest) :
    l.freeArgv a cs.length = l.freeAll (blocks cs ++ [a.block]) := by
  have hptrs : l.argPtrs a cs.length = .ok (cs.map some) := by
    unfold argPtrs
    split
    · next hzero => rw [List.eq_nil_of_length_eq_zero hzero]; rfl
    · simp only [slots_eq ha, hslots, firstPtrs_eq, bind, Except.bind]
  have hmap : (cs.map some).filterMap id = cs := by simp
  simp only [freeArgv, hptrs, hmap, bind, Except.bind]
  rfl

theorem notMem_of_freeArgv {n : Nat} (h : l.freeArgv a n = .ok l') : a.block ∉ l'.heap.live := by
  obtain ⟨ps, -, h⟩ := Eff.bind_eq_ok.mp h
  rw [live_of_freeAll h]
  simp

/-- An array that was released already. -/
theorem freeArgv_released (ha : a.block ∉ l.heap.live) (n : Nat) : l.freeArgv a n = .error .dangling := by
  unfold freeArgv argPtrs slots
  split
  · exact freeAll_of_notMem ha (List.mem_append_right _ List.mem_cons_self)
  · simp only [bind, Except.bind]

/-! ### The copying loop -/

theorem setSlot_eq (hb : b ∈ l.heap.live) (done : List Cell) (rest : List Slot) (x y : Slot) :
    l.setSlot ⟨b, done.map .ptr ++ x :: rest⟩ done.length y = .ok ⟨b, done.map .ptr ++ y :: rest⟩ := by
  have hset : (done.map Slot.ptr ++ x :: rest).set done.length y = done.map .ptr ++ y :: rest := by
    rw [List.set_append_right _ _ (by simp)]
    simp
  have hslots := slots_eq (a := ⟨b, done.map .ptr ++ x :: rest⟩) hb
  simp only [setSlot, hslots, hset, bind, Except.bind]
  rw [if_pos (by simp)]

theorem setSlot_full (hb : b ∈ l.heap.live) (done : List Cell) (y : Slot) :
    l.setSlot ⟨b, done.map .ptr ++ []⟩ done.length y = .error .outOfBounds := by
  have hslots := slots_eq (a := ⟨b, done.map .ptr ++ []⟩) hb
  simp only [setSlot, hslots, bind, Except.bind]
  rw [if_neg (by simp)]

/-- A string that is live, and copied: the loop goes on behind it. -/
theorem copyArgv_cons {ok : Nat → Bool} {c d : Cell} {l : Ledger} {done : List Cell} (src : List Cell) (x : Slot)
    (rest : List Slot) (hb : b ∈ l.heap.live) (hc : c.block ∈ l.heap.live) (hok : ok done.length = true)
    (hd : d = ⟨l.heap.next, c.text⟩) :
    copyArgv ok (c :: src) done.length ⟨b, done.map .ptr ++ x :: rest⟩ l =
      copyArgv ok src (done.length + 1) ⟨b, (done ++ [d]).map .ptr ++ rest⟩ { l with heap := l.heap.push } := by
  have hlive : b ∈ l.heap.push.live := Finset.mem_insert_of_mem hb
  have hset := setSlot_eq (l := { l with heap := l.heap.push }) hlive done rest x (.ptr d)
  have hblock : done.map Slot.ptr ++ .ptr d :: rest = (done ++ [d]).map .ptr ++ rest := by simp
  rw [hblock] at hset
  simp only [copyArgv, text_eq hc, hok, dup_true, ← hd, hset, bind, Except.bind]

/-- **Copying strings into an array**: copies of all of them, or of those in front of the first that cannot be made,
    with a null pointer behind; or the array is too short. Nothing else is allocated. -/
theorem copyArgv_cases {ok : Nat → Bool} {src : List Cell} :
    ∀ (l : Ledger) (done : List Cell) (rest : List Slot), b ∈ l.heap.live → (∀ c ∈ src, c.block ∈ l.heap.live) →
      ∃ new m, Grown l.heap (blocks new) m ∧
        ((src.length ≤ rest.length ∧ (∀ j < src.length, ok (done.length + j) = true) ∧
            new.map (·.text) = src.map (·.text) ∧
            copyArgv ok src done.length ⟨b, done.map .ptr ++ rest⟩ l =
              .ok (true, done.length + src.length, ⟨b, (done ++ new).map .ptr ++ rest.drop src.length⟩,
                { l with heap := m })) ∨
          ((¬ ∀ j < src.length, ok (done.length + j) = true) ∧ ∃ rest',
            copyArgv ok src done.length ⟨b, done.map .ptr ++ rest⟩ l =
              .ok (false, (done ++ new).length, ⟨b, (done ++ new).map .ptr ++ .null :: rest'⟩,
                { l with heap := m })) ∨
          (rest.length < src.length ∧
            copyArgv ok src done.length ⟨b, done.map .ptr ++ rest⟩ l = .error .outOfBounds)) := by
  induction src with
  | nil =>
      intro l done rest _ _
      refine ⟨[], l.heap, .refl _, Or.inl ⟨Nat.zero_le _, nofun, rfl, ?_⟩⟩
      simp [copyArgv]
  | cons c src ih =>
      intro l done rest hb hsrc
      have htext := text_eq (hsrc c List.mem_cons_self)
      have hpush := Grown.push l.heap
      have hlive : ∀ e, e ∈ l.heap.live → e ∈ l.heap.push.live := fun e he => Finset.mem_insert_of_mem he
      cases rest with
      | nil =>
          refine ⟨[], l.heap, .refl _, Or.inr (Or.inr ⟨Nat.succ_pos _, ?_⟩)⟩
          cases hok : ok done.length with
          | false => simp only [copyArgv, htext, hok, dup_false, setSlot_full hb, bind, Except.bind]
          | true =>
              have hfull := fun y => setSlot_full (l := { l with heap := l.heap.push }) (hlive b hb) done y
              simp only [copyArgv, htext, hok, dup_true, hfull, bind, Except.bind]
      | cons x rest =>
          cases hok : ok done.length with
          | false =>
              refine ⟨[], l.heap, .refl _, Or.inr (Or.inl ⟨fun hall => ?_, rest, ?_⟩)⟩
              · have h0 := hall 0 (Nat.succ_pos _)
                rw [Nat.add_zero, hok] at h0
                cases h0
              · simp only [copyArgv, htext, hok, dup_false, setSlot_eq hb, bind, Except.bind, List.append_nil]
          | true =>
              -- the copy made, and the others by induction
              obtain ⟨d, hd⟩ : ∃ d : Cell, d = ⟨l.heap.next, c.text⟩ := ⟨_, rfl⟩
              obtain ⟨new, m, hgrown, hcases⟩ := ih { l with heap := l.heap.push } (done ++ [d]) rest (hlive b hb)
                fun e he => hlive _ (hsrc e (List.mem_cons_of_mem c he))
              have hlen : (done ++ [d]).length = done.length + 1 := by simp
              rw [hlen] at hcases
              have hstep := copyArgv_cons src x rest hb (hsrc c List.mem_cons_self) hok hd
              have hall : (∀ j < (c :: src).length, ok (done.length + j) = true) ↔
                  ∀ j < src.length, ok (done.length + 1 + j) = true := by
                rw [List.length_cons, Nat.forall_lt_succ_left]
                simp only [Nat.add_zero, hok, true_and, Nat.add_assoc, Nat.add_comm 1]
              have hsplit : done ++ d :: new = done ++ [d] ++ new := by simp
              refine ⟨d :: new, m, ?_, ?_⟩
              · have hgrown' := hpush.trans hgrown
                rw [hd]
                exact hgrown'
              · rw [hstep, hall, hsplit]
                rcases hcases with ⟨hroom, hdone, htexts, hcopy⟩ | ⟨hfail, rest', hcopy⟩ | ⟨hshort, hcopy⟩
                · refine Or.inl ⟨Nat.succ_le_succ hroom, hdone, ?_, ?_⟩
                  · rw [List.map_cons, List.map_cons, htexts, hd]
                  · rw [hcopy, List.length_cons, List.drop_succ_cons, Nat.add_assoc, Nat.add_comm 1]
                · exact Or.inr (Or.inl ⟨hfail, rest', hcopy⟩)
                · exact Or.inr (Or.inr ⟨Nat.succ_lt_succ hshort, hcopy⟩)

/-- … a new one: the blocks made are the array and the copies. -/
theorem buildArgv_cases (l : Ledger) (ok : Nat → Bool) {src : List Cell} (n : Nat)
    (hsrc : ∀ c ∈ src, c.block ∈ l.heap.live) :
    ∃ new m, Grown l.heap (blocks new ++ [l.heap.next]) m ∧
      ((src.length ≤ n ∧ (∀ j < src.length, ok j = true) ∧ new.map (·.text) = src.map (·.text) ∧
          copyArgv ok src 0 ⟨l.heap.next, List.replicate n .indeterminate⟩ { l with heap := l.heap.push } =
            .ok (true, new.length,
              ⟨l.heap.next, new.map .ptr ++ List.replicate (n - src.length) .indeterminate⟩,
              { l with heap := m })) ∨
        ((¬ ∀ j < src.length, ok j = true) ∧ ∃ rest,
          copyArgv ok src 0 ⟨l.heap.next, List.replicate n .indeterminate⟩ { l with heap := l.heap.push } =
            .ok (false, new.length, ⟨l.heap.next, new.map .ptr ++ .null :: rest⟩, { l with heap := m })) ∨
        (n < src.length ∧
          copyArgv ok src 0 ⟨l.heap.next, List.replicate n .indeterminate⟩ { l with heap := l.heap.push } =
            .error .outOfBounds)) := by
  have hpush := Grown.push l.heap
  have hb : l.heap.next ∈ l.heap.push.live := Finset.mem_insert_self _ _
  obtain ⟨new, m, hgrown, hcases⟩ := copyArgv_cases { l with heap := l.heap.push } []
    (List.replicate n .indeterminate) hb fun c hc => Finset.mem_insert_of_mem (hsrc c hc)
  simp only [List.length_nil, Nat.zero_add, List.map_nil, List.nil_append, List.drop_replicate,
    List.length_replicate] at hcases
  refine ⟨new, m, ?_, ?_⟩
  · have h := hpush.trans hgrown
    refine ⟨List.nodup_append_comm.mp h.nodup, fun b hb => h.fresh b ?_, ?_⟩
    · simpa [or_comm] using hb
    · rw [h.live, List.toFinset_append, List.toFinset_append, Finset.union_comm [l.heap.next].toFinset]
  · rcases hcases with ⟨hroom, hok, htexts, hcopy⟩ | hfail
    · have hlen : new.length = src.length := by
        have h := congrArg List.length htexts
        simpa using h
      rw [← hlen] at hcopy hroom ⊢
      exact Or.inl ⟨hroom, hlen ▸ hok, htexts, hcopy⟩
    · exact Or.inr hfail

/-- It can be released, whatever was allocated since. -/
theorem freeArgv_built {m m' m'' : Arena} {ds : List Nat} (h : Grown m (blocks cs ++ [b]) m') (h' : Grown m' ds m'')
    (l : Ledger) (rest : List Slot) :
    ∃ n, Ledger.freeArgv { l with heap := m'' } ⟨b, cs.map Slot.ptr ++ rest⟩ cs.length = .ok { l with heap := n } ∧
      Grown m ds n := by
  obtain ⟨n, hfree, hn⟩ := h.freeAll h' (List.Perm.refl _)
  have hb : b ∈ m''.live := by
    rw [h'.live, h.live]
    exact Finset.mem_union_left _ (Finset.mem_union_right _ (by simp))
  have hargv := freeArgv_eq (l := { l with heap := m'' }) (a := ⟨b, cs.map Slot.ptr ++ rest⟩) hb rfl
  exact ⟨n, hargv.trans (freeAll_eq hfree), hn⟩

end Ledger

end DistributedPlatform
