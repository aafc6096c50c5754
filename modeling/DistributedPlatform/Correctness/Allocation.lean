import DistributedPlatform.Correctness.Messages
import DistributedPlatform.Lib.Heap
import DistributedPlatform.Lib.Run
import DistributedPlatform.Stdlib.Stdlib

/-!
# `Correctness.Allocation` — four allocation functions over one system call

`malloc`, `calloc`, `realloc` and `free` all send the alloc message, which the server answers with the host's
`realloc`. What a null pointer and a size of 0 mean there is decided by the host: `realloc(p, 0)` frees `p`,
but `realloc(NULL, 0)` allocates.

* `syscall_alloc` — each call reaches the host's `realloc` with the arguments of its request;
* `meets_standard_iff` — along any sequence of calls the live blocks change as the C standard says, if and
  only if the host gives no block to a `free(NULL)` or to a `calloc` whose product overflows;
* `zeroed_iff` — the block of a `calloc` has all its bytes, and they are NULs, if and only if the product does
  not overflow.
-/

namespace DistributedPlatform
namespace Allocation

open Blocks Machine

/-! ## The standard, and the host -/

/-- What the C standard lets a call do: the value returned and the blocks after it. `realloc` of a block to
    size 0 may free it. -/
def Standard (h : Heap Nat) (c : AllocCall) (ret : Option Nat) (h' : Heap Nat) : Prop :=
  match c with
  | .malloc size => h.Allocates size ret h'
  | .calloc nmemb size => h.Allocates (nmemb * size) ret h'
  | .free none => ret = none ∧ h' = h
  | .free (some a) => ret = none ∧ h.Frees a h'
  | .realloc none size => h.Allocates size ret h'
  | .realloc (some a) size => h.Resizes a size ret h' ∨ (size = 0 ∧ ret = none ∧ h.Frees a h')

/-- `realloc` of the host's library: a null pointer allocates whatever the size, size 0 frees a block. A
    pointer to no live block is undefined. -/
def HostRealloc (h : Heap Nat) (ptr : Option Nat) (size : Nat) (ret : Option Nat) (h' : Heap Nat) : Prop :=
  match ptr with
  | none => h.Allocates size ret h'
  | some a => if size = 0 then ret = none ∧ h.Frees a h' else h.Resizes a size ret h'

/-! ## Calls of a program -/

/-- The arguments the host's `realloc` gets. -/
def request : AllocCall → Option Nat × Nat
  | .malloc size => (none, size)
  | .free ptr => (ptr, 0)
  | .calloc nmemb size => (none, nmemb * size % 2 ^ 64)
  | .realloc ptr size => (ptr, size)

/-- What the library function returns when the server stored `stored`; `free` returns nothing. -/
def returned (c : AllocCall) (stored : Option Nat) : Option Nat :=
  match c with
  | .free _ => none
  | _ => stored

/-- The arguments are values of `size_t`. -/
def Fits : AllocCall → Prop
  | .malloc size => size < 2 ^ 64
  | .free _ => True
  | .calloc nmemb size => nmemb < 2 ^ 64 ∧ size < 2 ^ 64
  | .realloc _ size => size < 2 ^ 64

/-- **Every allocation call reaches the host's `realloc`** and is answered with what that returns; nothing
    else changes. -/
theorem syscall_alloc (s : Server) (pid : Nat) (c : AllocCall) (h : SysHost) :
    c.message.id.parse c.message.args = .ok (.realloc (.ofBlock (request c).1) (request c).2) ∧
      s.syscall pid c.message.id.id c.message.args h =
        .ok { stored := some (.ptr h.realloc), op := some (.ptr h.realloc), srv := s } := by
  have hparse : c.message.id.parse c.message.args =
      .ok (.realloc (.ofBlock (request c).1) (request c).2) := by
    cases c <;> rfl
  refine ⟨hparse, ?_⟩
  rw [Messages.syscall_id, hparse]
  rfl

/-- A call made by process `pid` of the image `s`, with the answer of the host's `realloc`. -/
def Step (s : Server) (pid : Nat) (h : Heap Nat) (l : AllocCall × Option Nat) (h' : Heap Nat) : Prop :=
  Fits l.1 ∧ ∃ ptr size host r,
    l.1.message.id.parse l.1.message.args = .ok (.realloc (.ofBlock ptr) size) ∧
    HostRealloc h ptr size l.2 h' ∧ host.realloc = .ofBlock l.2 ∧
    s.syscall pid l.1.message.id.id l.1.message.args host = .ok r ∧
    r.stored = some (.ptr (.ofBlock l.2))

theorem ofBlock_injective : Function.Injective Ptr.ofBlock := by
  intro a b hab
  cases a with
  | none =>
      cases b with
      | none => rfl
      | some y => cases hab
  | some x =>
      cases b with
      | none => cases hab
      | some y => cases hab; rfl

/-- The host's `realloc` is called with the request of the call. -/
theorem Step.host {s : Server} {pid : Nat} {h h' : Heap Nat} {c : AllocCall} {ans : Option Nat}
    (hst : Step s pid h (c, ans) h') : HostRealloc h (request c).1 (request c).2 ans h' := by
  obtain ⟨-, ptr, size, host, r, hparse, hrealloc, -⟩ := hst
  have hreq := hparse.symm.trans (syscall_alloc s pid c host).1
  obtain ⟨hptr, hsize⟩ := ServerOp.realloc.inj (Except.ok.inj hreq)
  rw [← ofBlock_injective hptr, ← hsize]
  exact hrealloc

/-! ## When the standard is met -/

/-- The call makes the host allocate something it was not asked for. -/
def Slips : AllocCall → Prop
  | .free none => True
  | .calloc nmemb size => 2 ^ 64 ≤ nmemb * size
  | _ => False

/-- One call meets the standard unless it slips and the host gives it a block. -/
theorem standard_iff {s : Server} {pid : Nat} {h h' : Heap Nat} {c : AllocCall} {ans : Option Nat}
    (hst : Step s pid h (c, ans) h') :
    Standard h c (returned c ans) h' ↔ ¬ (Slips c ∧ ans ≠ none) := by
  have hhost := hst.host
  cases c with
  | malloc size => exact iff_of_true hhost (fun hslip => hslip.1)
  | realloc ptr size =>
      refine iff_of_true ?_ (fun hslip => hslip.1)
      cases ptr with
      | none => exact hhost
      | some a =>
          replace hhost : if size = 0 then ans = none ∧ h.Frees a h' else h.Resizes a size ans h' := hhost
          by_cases h0 : size = 0
          · rw [if_pos h0] at hhost
            exact Or.inr ⟨h0, hhost⟩
          · rw [if_neg h0] at hhost
            exact Or.inl hhost
  | free ptr =>
      cases ptr with
      | some a =>
          replace hhost : if (0 : Nat) = 0 then ans = none ∧ h.Frees a h' else h.Resizes a 0 ans h' := hhost
          rw [if_pos rfl] at hhost
          exact iff_of_true ⟨rfl, hhost.2⟩ (fun hslip => hslip.1)
      | none =>
          -- the host allocates 0 bytes, and nobody gets the pointer
          replace hhost : h.Allocates 0 ans h' := hhost
          cases ans with
          | none => exact iff_of_true ⟨rfl, hhost.eq⟩ (fun hslip => hslip.2 rfl)
          | some a =>
              exact iff_of_false (fun hstd => hhost.ne hstd.2)
                (fun hno => hno ⟨trivial, Option.some_ne_none a⟩)
  | calloc nmemb size =>
      replace hhost : h.Allocates (nmemb * size % 2 ^ 64) ans h' := hhost
      show h.Allocates (nmemb * size) ans h' ↔ ¬ (2 ^ 64 ≤ nmemb * size ∧ ans ≠ none)
      by_cases hover : 2 ^ 64 ≤ nmemb * size
      · cases ans with
        | none =>
            rw [hhost.eq]
            exact iff_of_true .failed (fun hslip => hslip.2 rfl)
        | some a =>
            refine iff_of_false ?_ (fun hno => hno ⟨hover, Option.some_ne_none a⟩)
            intro hstd
            -- the block has the size that is left of the product
            have hsize := Option.some.inj (hstd.size.symm.trans hhost.size)
            have hlt : nmemb * size % 2 ^ 64 < 2 ^ 64 := Nat.mod_lt _ (by decide)
            omega
      · rw [Nat.mod_eq_of_lt (by omega)] at hhost
        exact iff_of_true hhost (fun hslip => hover hslip.1)

/-- **When the live blocks change as the C standard says.** Along any sequence of calls by a program, from
    any heap and with any answers of the host, each call returns and leaves what the standard allows, if and
    only if no `free(NULL)` and no `calloc` with a product of 2^64 or more is given a block. -/
theorem meets_standard_iff {s : Server} {pid : Nat} {h h' : Heap Nat}
    {tr : List (Heap Nat × (AllocCall × Option Nat) × Heap Nat)} (hrun : Run (Step s pid) h tr h') :
    (∀ x ∈ tr, Standard x.1 x.2.1.1 (returned x.2.1.1 x.2.1.2) x.2.2) ↔
      ∀ x ∈ tr, ¬ (Slips x.2.1.1 ∧ x.2.1.2 ≠ none) := by
  refine Run.always_iff_good (I := fun _ => True) (C := fun _ l => ¬ (Slips l.1 ∧ l.2 ≠ none))
    (Q := fun h l h' => Standard h l.1 (returned l.1 l.2) h') ?_ ?_ hrun trivial
  · intro t l u _ hgood hst
    exact ⟨trivial, (standard_iff hst).mpr hgood⟩
  · intro t l u _ hbad hst hstd
    exact hbad ((standard_iff hst).mp hstd)

/-- The answers of a host whose `realloc` returns `ans`. -/
def reallocs (ans : Option Nat) : SysHost := { Messages.quietHost with realloc := .ofBlock ans }

theorem step_of_host {s : Server} {pid : Nat} {h h' : Heap Nat} {c : AllocCall} {ans : Option Nat}
    (hfits : Fits c) (hhost : HostRealloc h (request c).1 (request c).2 ans h') :
    Step s pid h (c, ans) h' := by
  obtain ⟨hparse, hsys⟩ := syscall_alloc s pid c (reallocs ans)
  exact ⟨hfits, _, _, reallocs ans, _, hparse, hhost, rfl, hsys, rfl⟩

/-- The heap of a program that has allocated nothing. -/
def empty : Heap Nat := fun _ => none

theorem empty_not_live (a : Nat) : ¬ empty.Live a := fun hl => hl rfl

/-- A program allocates 16 bytes, has them moved to a block of 32 and frees that. -/
theorem meets_standard_calls :
    ∃ tr h, Run (Step {} 1) empty tr h ∧ tr.length = 3 ∧
      ((∀ x ∈ tr, Standard x.1 x.2.1.1 (returned x.2.1.1 x.2.1.2) x.2.2) ↔
        ∀ x ∈ tr, ¬ (Slips x.2.1.1 ∧ x.2.1.2 ≠ none)) := by
  have hmalloc : Step {} 1 empty (.malloc 16, some 8) (empty.put 8 (some 16)) :=
    step_of_host (show 16 < 2 ^ 64 by decide) (.block (empty_not_live 8))
  have hlive : (empty.put 8 (some 16)).Live 8 := by
    show Heap.put _ _ _ 8 ≠ none
    simp
  have hgone : ¬ ((empty.put 8 (some 16)).put 8 none).Live 64 := by
    show ¬ Heap.put _ _ _ 64 ≠ none
    rw [Heap.put_of_ne (by decide), Heap.put_of_ne (by decide)]
    exact empty_not_live 64
  have hrealloc : Step {} 1 _ (.realloc (some 8) 32, some 64) _ :=
    step_of_host (show 32 < 2 ^ 64 by decide) (.block hlive hgone)
  have hfree : Step {} 1 (((empty.put 8 (some 16)).put 8 none).put 64 (some 32)) (.free (some 64), none) _ :=
    step_of_host trivial ⟨rfl, .gone (by show Heap.put _ _ _ 64 ≠ none; simp)⟩
  have hrun := ((Run.single hmalloc).tail hrealloc).tail hfree
  exact ⟨_, _, hrun, rfl, meets_standard_iff hrun⟩

/-- `free(NULL)` on an empty heap: a block of no bytes is live afterwards. -/
theorem free_null_allocates :
    ¬ ∀ tr h, Run (Step {} 1) empty tr h →
      ∀ x ∈ tr, Standard x.1 x.2.1.1 (returned x.2.1.1 x.2.1.2) x.2.2 := by
  intro hall
  have hfree : Step {} 1 empty (.free none, some 8) (empty.put 8 (some 0)) :=
    step_of_host trivial (.block (empty_not_live 8))
  have hstd := hall _ _ (Run.single hfree) _ (List.mem_singleton_self _)
  have hsame : Heap.put empty 8 (some 0) 8 = none := congrFun hstd.2 8
  rw [Heap.put_self] at hsame
  cases hsame

/-! ## The bytes of a `calloc` -/

/-- The host's `realloc(NULL, k)` returns `NULL` or a block of at least `k` bytes. -/
def GivesEnough (realloc : Nat → Option Block) : Prop := ∀ k b, realloc k = some b → k ≤ b.length

/-- `calloc` returns `NULL`, or a block whose first `nmemb * size` bytes are there and are NULs. -/
def Zeroed (nmemb size : Nat) (realloc : Nat → Option Block) : Prop :=
  ∃ ret, calloc nmemb size realloc = .ok ret ∧
    ∀ b, ret = some b → nmemb * size ≤ b.length ∧
      b.take (nmemb * size) = List.replicate (nmemb * size) 0

/-- The size the host is asked for is the one of the message. -/
theorem calloc_request (nmemb size : Nat) :
    request (.calloc nmemb size) = (none, nmemb * size % 2 ^ 64) := rfl

theorem zeroed_of_lt {nmemb size : Nat} (hlt : nmemb * size < 2 ^ 64) {realloc : Nat → Option Block}
    (hhost : GivesEnough realloc) : Zeroed nmemb size realloc := by
  unfold Zeroed calloc
  rw [Nat.mod_eq_of_lt hlt]
  cases hptr : realloc (nmemb * size) with
  | none => exact ⟨none, rfl, nofun⟩
  | some ptr =>
      have hle : 0 + (List.replicate (nmemb * size) (0 : Byte)).length ≤ ptr.length := by
        rw [List.length_replicate, Nat.zero_add]
        exact hhost _ ptr hptr
      have hset := Buffer.write_of_le hle
      refine ⟨_, by simp only [memset, hset, inBounds, bind, Except.bind]; rfl, ?_⟩
      rintro b ⟨⟩
      constructor
      · rw [Buffer.length_of_write hset]
        exact hhost _ ptr hptr
      · rw [List.take_zero, List.nil_append, List.take_append_of_le_length (by simp),
          List.take_of_length_le (by simp)]

/-- A host that gives just what it is asked for. -/
def gives (k : Nat) : Option Block := some (List.replicate k 0)

theorem gives_enough : GivesEnough gives := by
  rintro k b ⟨⟩
  simp

/-- What is left of a product that overflows is less than the product. -/
theorem not_zeroed {nmemb size : Nat} (hover : 2 ^ 64 ≤ nmemb * size) : ¬ Zeroed nmemb size gives := by
  rintro ⟨ret, hret, hall⟩
  obtain ⟨b, hset, hb⟩ := Eff.bind_eq_ok.mp hret
  cases hb
  have hlen := Buffer.length_of_write (inBounds_eq_ok.mp hset)
  rw [List.length_replicate] at hlen
  have hsize := (hall b rfl).1
  have hmod : nmemb * size % 2 ^ 64 < 2 ^ 64 := Nat.mod_lt _ (by decide)
  omega

/-- **When `calloc` gives what it is asked for.** For every pair of sizes: with every host whose `realloc` gives
    at least the bytes it is asked for, `calloc` returns `NULL` or a block of at least `nmemb * size` bytes of
    which the first `nmemb * size` are NULs, if and only if the product fits a `size_t`. -/
theorem zeroed_iff (nmemb size : Nat) :
    (∀ realloc, GivesEnough realloc → Zeroed nmemb size realloc) ↔ nmemb * size < 2 ^ 64 := by
  constructor
  · intro hall
    by_contra hover
    exact not_zeroed (by omega) (hall gives gives_enough)
  · intro hlt realloc hhost
    exact zeroed_of_lt hlt hhost

/-- `calloc(2^32, 2^32)` gets a block of no bytes. -/
theorem calloc_too_small :
    ¬ ∀ nmemb size : Nat, nmemb < 2 ^ 64 → size < 2 ^ 64 →
      ∀ realloc, GivesEnough realloc → Zeroed nmemb size realloc := by
  intro hall
  exact not_zeroed (by decide) (hall (2 ^ 32) (2 ^ 32) (by decide) (by decide) gives gives_enough)

end Allocation
end DistributedPlatform
