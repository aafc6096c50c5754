import DistributedPlatform.Correctness.Images
import DistributedPlatform.Correctness.Pids
import DistributedPlatform.Stdlib.Exec

/-!
# `Correctness.Exec` — is exec all or nothing?

A call of exec should put the new program in the caller's place, or return -1 and change nothing. The wrappers
do the second as long as it is their own copies that cannot be made. From there on nothing is undone: a
program that does not load leaves its object and the copies behind, and once it is loaded the answers of
`setEnviron`, `setCwd` and `fdClose` are not looked at.

* `run_cases` — how a call ends, and which blocks it leaves;
* `replaced_iff` — when the program entered is the one asked for, in the caller's surroundings;
* `all_or_nothing_iff` — both together, in every reachable image.
-/

namespace DistributedPlatform
namespace Exec

open Server Machine
open Arena (Grown)
open Pids (hosts hosts_booted startsAs)

/-! ## Blocks -/

/-- `loadFileLocal` loads, or frees what it allocated. -/
theorem loadFileLocalBlocks_cases (m : Arena) (h : LoadHost) :
    (¬ (h.dlopen = true ∧ h.dlsym = true ∧ h.name = true ∧ h.path = true) ∧
      ∃ m', loadFileLocalBlocks m h = .ok (false, m') ∧ Grown m [] m') ∨
    ((h.dlopen = true ∧ h.dlsym = true ∧ h.name = true ∧ h.path = true) ∧
      ∃ bs m', loadFileLocalBlocks m h = .ok (true, m') ∧ Grown m bs m') := by
  unfold loadFileLocalBlocks Arena.alloc
  cases hdl : h.dlopen with
  | false => exact Or.inl ⟨fun hc => Bool.false_ne_true hc.1, m, rfl, .refl m⟩
  | true =>
      cases hsym : h.dlsym with
      | false => exact Or.inl ⟨fun hc => Bool.false_ne_true hc.2.1, m, rfl, .refl m⟩
      | true =>
          cases hname : h.name with
          | false => exact Or.inl ⟨fun hc => Bool.false_ne_true hc.2.2.1, m, rfl, .refl m⟩
          | true =>
              cases hpath : h.path with
              | false =>
                  -- the name was allocated and goes again
                  obtain ⟨m', hfree, hm'⟩ := (Grown.push m).free (.refl _)
                  refine Or.inl ⟨fun hc => Bool.false_ne_true hc.2.2.2, m', ?_, hm'⟩
                  show (freeBlock m.push m.next >>= fun m => .ok (false, m)) = _
                  rw [freeBlock_eq hfree]
                  rfl
              | true =>
                  exact Or.inr ⟨⟨rfl, rfl, rfl, rfl⟩, _, _, rfl, (Grown.push m).trans (.push _)⟩

/-- `loadFileFS` once it has the local path and the directory. -/
theorem loadFileFSBlocks_allocated (m : Arena) {path : CStr} {h : LoadHost} (hhead : path.head? = some 47)
    (hlp : h.localPath = true) (hcwd : h.cwd = true) :
    loadFileFSBlocks m path h
      = (loadFileLocalBlocks m.push.push h >>= fun x => freeBlock x.2 m.next >>= fun m₂ =>
          if x.1 then .ok (true, m₂)
          else freeBlock m₂ m.push.next >>= fun m₃ => .ok (false, m₃)) := by
  unfold loadFileFSBlocks Arena.alloc
  rw [if_neg (not_not_intro hhead), hlp, hcwd]
  rfl

/-- `loadFileFS` loads, or frees what it allocated; it loads when the path is absolute and no call fails. -/
theorem loadFileFSBlocks_cases (m : Arena) (path : CStr) (h : LoadHost) :
    (¬ (path.head? = some 47 ∧ h.succeeds = true) ∧
      ∃ m', loadFileFSBlocks m path h = .ok (false, m') ∧ Grown m [] m') ∨
    ((path.head? = some 47 ∧ h.succeeds = true) ∧
      ∃ m', loadFileFSBlocks m path h = .ok (true, m')) := by
  unfold LoadHost.succeeds
  by_cases hhead : path.head? = some 47
  · cases hlp : h.localPath with
    | false =>
        refine Or.inl ⟨fun hc => by simp at hc, m, ?_, .refl m⟩
        unfold loadFileFSBlocks Arena.alloc
        rw [if_neg (not_not_intro hhead), hlp]
        rfl
    | true =>
        have hpush : Grown m [m.next] m.push := .push m
        cases hcwd : h.cwd with
        | false =>
            obtain ⟨m', hfree, hm'⟩ := hpush.free (.refl _)
            refine Or.inl ⟨fun hc => by simp at hc, m', ?_, hm'⟩
            unfold loadFileFSBlocks Arena.alloc
            rw [if_neg (not_not_intro hhead), hlp, hcwd]
            show (freeBlock m.push m.next >>= _) = _
            rw [freeBlock_eq hfree]
            rfl
        | true =>
            rw [loadFileFSBlocks_allocated m hhead hlp hcwd]
            rcases loadFileLocalBlocks_cases m.push.push h with
              ⟨hno, m₁, hload, hm₁⟩ | ⟨⟨hdl, hsym, hname, hpath⟩, bs, m₁, hload, hm₁⟩
            · -- the local path goes first, then the directory
              obtain ⟨m₂, hfree₂, hm₂⟩ := hpush.free ((Grown.push m.push).trans hm₁)
              obtain ⟨m₃, hfree₃, hm₃⟩ := Grown.free hm₂ (.refl _)
              refine Or.inl ⟨?_, m₃, ?_, hm₃⟩
              · rintro ⟨-, hok⟩
                simp only [Bool.true_and, Bool.and_eq_true] at hok
                exact hno ⟨hok.1.1.1, hok.1.1.2, hok.1.2, hok.2⟩
              · rw [hload]
                show (freeBlock m₁ m.next >>= _) = _
                rw [freeBlock_eq hfree₂]
                show (freeBlock m₂ m.push.next >>= _) = _
                rw [freeBlock_eq hfree₃]
                rfl
            · -- loaded: the local path goes, the directory stays with the object
              obtain ⟨m₂, hfree₂, -⟩ := hpush.free ((Grown.push m.push).trans hm₁)
              refine Or.inr ⟨⟨hhead, by simp [hdl, hsym, hname, hpath]⟩, m₂, ?_⟩
              rw [hload]
              show (freeBlock m₁ m.next >>= _) = _
              rw [freeBlock_eq hfree₂]
              rfl
  · refine Or.inl ⟨fun hc => hhead hc.1, m, ?_, .refl m⟩
    unfold loadFileFSBlocks
    exact if_pos hhead

/-! ## Copies -/

theorem copyArgs_cons {cells : Nat} {ok : Nat → Bool} {i : Nat} (hi : i < cells) (arg : CStr)
    (args : List CStr) (m : Arena) :
    copyArgs cells ok i (arg :: args) m
      = if ok i then copyArgs cells ok (i + 1) args m.push >>= fun c =>
            .ok { c with made := (m.next, arg) :: c.made }
        else .ok ⟨[], false, m⟩ := by
  conv_lhs => unfold copyArgs Arena.alloc
  dsimp only
  rw [if_neg (by omega)]
  cases ok i <;> rfl

/-- Copying from the `i`-th argument on: all are copied, one of them cannot be, or the vector is too short. -/
theorem copyArgs_cases (cells : Nat) (ok : Nat → Bool) (args : List CStr) (i : Nat) (m : Arena) :
    (∃ c, copyArgs cells ok i args m = .ok c ∧ Grown m c.blocks c.heap ∧ c.done = true ∧ c.strings = args ∧
      ∀ j, i ≤ j → j < i + args.length → j < cells ∧ ok j = true) ∨
    (∃ c, copyArgs cells ok i args m = .ok c ∧ Grown m c.blocks c.heap ∧ c.done = false ∧
      ∃ j, i ≤ j ∧ j < i + args.length ∧ j < cells ∧ ok j = false) ∨
    (copyArgs cells ok i args m = .error .outOfBounds ∧ cells < i + args.length ∧
      ∀ j, i ≤ j → j < i + args.length → j < cells → ok j = true) := by
  induction args generalizing i m with
  | nil => exact Or.inl ⟨_, rfl, .refl m, rfl, rfl, fun j hij hj => absurd hj (by simp; omega)⟩
  | cons arg args ih =>
      rw [List.length_cons]
      by_cases hi : i < cells
      · rw [copyArgs_cons hi]
        cases hok : ok i with
        | false => exact Or.inr (Or.inl ⟨_, rfl, .refl m, rfl, i, by omega, by omega, hi, hok⟩)
        | true =>
            rw [if_pos rfl]
            -- the first argument is copied; the others are the induction hypothesis
            have hsplit : ∀ j, i ≤ j → j = i ∨ i + 1 ≤ j := by omega
            rcases ih (i + 1) m.push with ⟨c, hc, hgrown, hdone, hstr, hall⟩ |
              ⟨c, hc, hgrown, hdone, j, hij, hj, hcell, hfail⟩ | ⟨hc, hlen, hall⟩
            · refine Or.inl ⟨{ c with made := (m.next, arg) :: c.made }, by rw [hc]; rfl,
                (Grown.push m).trans hgrown, hdone, ?_, ?_⟩
              · exact congrArg (arg :: ·) hstr
              · intro j hij hj
                rcases hsplit j hij with rfl | hij
                · exact ⟨hi, hok⟩
                · exact hall j hij (by omega)
            · exact Or.inr (Or.inl ⟨{ c with made := (m.next, arg) :: c.made }, by rw [hc]; rfl,
                (Grown.push m).trans hgrown, hdone, j, by omega, by omega, hcell, hfail⟩)
            · refine Or.inr (Or.inr ⟨by rw [hc]; rfl, by omega, ?_⟩)
              intro j hij hj hcell
              rcases hsplit j hij with rfl | hij
              · exact hok
              · exact hall j hij (by omega) hcell
      · refine Or.inr (Or.inr ⟨?_, by omega, fun j hij _ hj => absurd hj (by omega)⟩)
        exact if_pos (by omega)

/-- Memory for a copy of `n` arguments runs out before a vector of `cells` pointers does. -/
def RunsOut (h : CopyHost) (n cells : Nat) : Prop :=
  h.argv = false ∨ ∃ j, j < n ∧ j < cells ∧ h.arg j = false

/-- A copy of `n` arguments can be made. -/
def Copied (h : CopyHost) (n : Nat) : Prop := h.argv = true ∧ ∀ j < n, h.arg j = true

theorem Copied.not_runsOut {h : CopyHost} {n cells : Nat} (hc : Copied h n) : ¬ RunsOut h n cells := by
  rintro (hargv | ⟨j, hj, -, hfail⟩)
  · rw [hc.1] at hargv
    cases hargv
  · rw [hc.2 j hj] at hfail
    cases hfail

/-! ## The system call -/

variable {s : Server} {pid : Nat} {curr : Process} {path : CStr} {args : List CStr} {self : Int}

/-- How the exec case ends for a caller whose heap was `m` before its call: `new` throws, the program does
    not load and blocks are left, or the program is entered. -/
inductive CaseEnds (s : Server) (m : Arena) (pid : Nat) (path : CStr) (args : List CStr) (h : ExecvHost)
    (self : Int) : Eff ExecEnd → Prop
  | threw : h.newProc = false → CaseEnds s m pid path args h self (.ok .terminated)
  | notLoaded {cs : List Nat} {m' : Arena} :
      h.newProc = true → ¬ (path.head? = some 47 ∧ h.exec.load.succeeds = true) → cs ≠ [] → Grown m cs m' →
      CaseEnds s m pid path args h self (.ok (.returned (-1) s m'))
  | entered {r : Spawned} :
      h.newProc = true → (path.head? = some 47 ∧ h.exec.load.succeeds = true) →
      s.syscallExec pid path args h.exec self = .ok r →
      CaseEnds s m pid path args h self (.ok (.runs r.srv (toI32 args.length) args))

/-- In an image with linked tables the exec case does not fault for a process with a directory. -/
theorem syscallExec_ok (hs : FdInv s) (hp : s.proc pid = some curr) (hcwd : curr.cwd ≠ none) (path : CStr)
    (args : List CStr) (h : ExecHost) (self : Int) : ∃ r, s.syscallExec pid path args h self = .ok r := by
  unfold syscallExec
  rw [hp]
  obtain ⟨cwd, hcwd⟩ := Option.ne_none_iff_exists'.mp hcwd
  obtain ⟨r', hfree, -⟩ := hs.free hp h.close
  rcases Process.loadFileFS_new s.filesystem path h.load with ⟨-, hl⟩ | ⟨-, hl⟩
  · rw [hl]
    exact ⟨_, rfl⟩
  · have hrun := Process.arun_ofFile (s.filesystem ++ path) (dirname path) (lastPart path) curr.environ h.environ
      h.environEntry cwd h.cwd args self
    rw [hl]
    simp only [bind, Except.bind, hcwd, hfree, hrun]
    exact ⟨_, rfl⟩

theorem execCase_ends (hs : FdInv s) (hp : s.proc pid = some curr) (hcwd : curr.cwd ≠ none) {m m' : Arena}
    {bs : List Nat} (hm : Grown m bs m') (path : CStr) (args : List CStr) (h : ExecvHost) (self : Int) :
    CaseEnds s m pid path args h self (execCase s m' pid path args.length args h self) := by
  unfold execCase
  cases hnew : h.newProc with
  | false => exact .threw hnew
  | true =>
      obtain ⟨r, hr⟩ := syscallExec_ok hs hp hcwd path args h.exec self
      show CaseEnds s m pid path args h self
        (loadFileFSBlocks m'.push path h.exec.load >>= fun x =>
          s.syscallExec pid path args h.exec self >>= fun r =>
            if x.1 then .ok (.runs r.srv (toI32 args.length) args) else .ok (.returned (-1) r.srv x.2))
      rw [hr]
      rcases loadFileFSBlocks_cases m'.push path h.exec.load with ⟨hno, m'', hl, hm''⟩ | ⟨hyes, m'', hl⟩
      · -- the object was made, and nothing deletes it
        rw [hl]
        have hsame : r = { ret := -1, srv := s } := by
          rcases syscallExec_exact hr with ⟨-, hr⟩ | ⟨_, _, _, -, hyes, -⟩
          · exact hr
          · exact absurd hyes hno
        subst hsame
        exact .notLoaded hnew hno (by simp) (hm.trans ((Grown.push m').trans hm''))
      · rw [hl]
        exact .entered hnew hyes hr

/-! ## The wrappers -/

theorem execv_eq (s : Server) (m : Arena) (pid : Nat) (path : CStr) (args : List CStr) (h : ExecvHost)
    (self : Int) (hlen : args.length < 2 ^ 32) (hargv : h.copy.argv = true) :
    execv s m pid path args h self
      = (copyArgs args.length h.copy.arg 0 args m.push >>= fun c =>
          if c.done = false then freeBlocks c.heap (c.blocks ++ [m.next]) >>= fun m => .ok (.returned (-1) s m)
          else execCase s c.heap pid path args.length c.strings h self) := by
  unfold execv Arena.alloc
  rw [if_neg (by omega), hargv]
  simp only [Bool.not_eq_true, if_true]

/-- `execv` runs out of memory and leaves no block, counts for ever, or gets to the system call. -/
theorem execv_cases (hs : FdInv s) (hp : s.proc pid = some curr) (hcwd : curr.cwd ≠ none) (m : Arena)
    (path : CStr) (args : List CStr) (h : ExecvHost) (self : Int) :
    (args.length < 2 ^ 32 ∧ RunsOut h.copy args.length args.length ∧
      ∃ m', execv s m pid path args h self = .ok (.returned (-1) s m') ∧ Grown m [] m') ∨
    (2 ^ 32 ≤ args.length ∧ execv s m pid path args h self = .ok .hangs) ∨
    (args.length < 2 ^ 32 ∧ Copied h.copy args.length ∧
      CaseEnds s m pid path args h self (execv s m pid path args h self)) := by
  by_cases hlen : 2 ^ 32 ≤ args.length
  · refine Or.inr (Or.inl ⟨hlen, ?_⟩)
    unfold execv
    exact if_pos hlen
  · have hlen : args.length < 2 ^ 32 := by omega
    cases hargv : h.copy.argv with
    | false =>
        refine Or.inl ⟨hlen, Or.inl hargv, m, ?_, .refl m⟩
        unfold execv Arena.alloc
        rw [if_neg (by omega), hargv]
        rfl
    | true =>
        have hpush : Grown m [m.next] m.push := .push m
        rw [execv_eq s m pid path args h self hlen hargv]
        rcases copyArgs_cases args.length h.copy.arg args 0 m.push with
          ⟨c, hc, hgrown, hdone, hstr, hall⟩ | ⟨c, hc, hgrown, hdone, j, -, hj, hcell, hfail⟩ | ⟨-, hshort, -⟩
        · -- the blocks made so far are handed on, and nothing frees them after this
          refine Or.inr (Or.inr ⟨hlen, ⟨hargv, fun j hj => (hall j (by omega) (by omega)).2⟩, ?_⟩)
          rw [hc]
          show CaseEnds s m pid path args h self
            (if c.done = false then _ else execCase s c.heap pid path args.length c.strings h self)
          rw [hdone, if_neg (by simp), hstr]
          exact execCase_ends hs hp hcwd (hpush.trans hgrown) path args h self
        · obtain ⟨m', hfree, hm'⟩ := (hpush.trans hgrown).freeAll (.refl _) List.perm_append_comm
          refine Or.inl ⟨hlen, Or.inr ⟨j, by omega, hcell, hfail⟩, m', ?_, hm'⟩
          rw [hc]
          show (if c.done = false then freeBlocks c.heap (c.blocks ++ [m.next]) >>= _ else _) = _
          rw [if_pos hdone, freeBlocks_eq hfree]
          rfl
        · -- the vector has a pointer for each argument
          omega

/-- What `execl` does with the end of `execv`: it frees its own copies if that returned. -/
def freeCopies (bs : List Nat) : ExecEnd → Eff ExecEnd
  | .returned ret s m => freeBlocks m bs >>= fun m => .ok (.returned ret s m)
  | e => .ok e

theorem freeCopies_returned {m m₁ m₂ : Arena} {bs cs ds : List Nat} (h : Grown m bs m₁)
    (h' : Grown m₁ cs m₂) (hperm : ds.Perm bs) (ret : Int) (s : Server) :
    ∃ m₃, freeCopies ds (.returned ret s m₂) = .ok (.returned ret s m₃) ∧ Grown m cs m₃ := by
  obtain ⟨m₃, hfree, hm₃⟩ := h.freeAll h' hperm
  refine ⟨m₃, ?_, hm₃⟩
  show (freeBlocks m₂ ds >>= _) = _
  rw [freeBlocks_eq hfree]
  rfl

/-- … so the blocks left are those `execv` left. -/
theorem CaseEnds.freeCopies {m m₁ : Arena} {bs ds : List Nat} (hm : Grown m bs m₁) (hperm : ds.Perm bs)
    {h : ExecvHost} {x : Eff ExecEnd} (hx : CaseEnds s m₁ pid path args h self x) :
    CaseEnds s m pid path args h self (x >>= Exec.freeCopies ds) := by
  cases hx with
  | threw hnew => exact .threw hnew
  | @notLoaded cs m₂ hnew hno hcs hgrown =>
      obtain ⟨m₃, hfree, hm₃⟩ := freeCopies_returned hm hgrown hperm (-1) s
      show CaseEnds s m pid path args h self (Exec.freeCopies ds (.returned (-1) s m₂))
      rw [hfree]
      exact .notLoaded hnew hno hcs hm₃
  | entered hnew hyes hr => exact .entered hnew hyes hr

theorem execl_eq (s : Server) (m : Arena) (pid : Nat) (path arg : CStr) (args : List CStr) (h : ExeclHost)
    (self : Int) (hargv : h.copy.argv = true) :
    execl s m pid path arg args h self
      = (copyArgs (execlCells (args.length + 1)) h.copy.arg 0 (arg :: args) m.push >>= fun c =>
          if c.done = false then freeBlocks c.heap (c.blocks ++ [m.next]) >>= fun m => .ok (.returned (-1) s m)
          else if execlCells (args.length + 1) ≤ (args.length + 1) % 2 ^ 32 then .error .outOfBounds
          else execv s c.heap pid path c.strings h.execv self >>= freeCopies (c.blocks ++ [m.next])) := by
  unfold execl Arena.alloc
  rw [hargv]
  simp only [Bool.not_eq_true, if_true]
  rfl

/-- `execl` runs out of memory and leaves no block, writes past its vector, or gets to `execv`. -/
theorem execl_cases (hs : FdInv s) (hp : s.proc pid = some curr) (hcwd : curr.cwd ≠ none) (m : Arena)
    (path arg : CStr) (args : List CStr) (h : ExeclHost) (self : Int) :
    let n := args.length + 1
    ((RunsOut h.copy n (execlCells n) ∨ (n < 2 ^ 32 - 1 ∧ RunsOut h.execv.copy n n)) ∧
      ∃ m', execl s m pid path arg args h self = .ok (.returned (-1) s m') ∧ Grown m [] m') ∨
    (2 ^ 32 - 1 ≤ n ∧ ¬ RunsOut h.copy n (execlCells n) ∧
      ∃ e, execl s m pid path arg args h self = .error e) ∨
    (n < 2 ^ 32 - 1 ∧ (Copied h.copy n ∧ Copied h.execv.copy n) ∧
      CaseEnds s m pid path (arg :: args) h.execv self (execl s m pid path arg args h self)) := by
  intro n
  have hn : (arg :: args).length = n := rfl
  cases hargv : h.copy.argv with
  | false =>
      refine Or.inl ⟨Or.inl (Or.inl hargv), m, ?_, .refl m⟩
      unfold execl Arena.alloc
      rw [hargv]
      rfl
  | true =>
      have hpush : Grown m [m.next] m.push := .push m
      have hexecl := execl_eq s m pid path arg args h self hargv
      rcases copyArgs_cases (execlCells n) h.copy.arg (arg :: args) 0 m.push with
        ⟨c, hc, hgrown, hdone, hstr, hall⟩ | ⟨c, hc, hgrown, hdone, j, -, hj, hcell, hfail⟩ | ⟨hc, hshort, hall⟩
      · -- there was room for all, so the vector is not short
        have hlt : n < 2 ^ 32 - 1 := by
          have hroom := (hall args.length (by omega) (by omega)).1
          unfold execlCells at hroom
          omega
        have hcells : ¬ execlCells (args.length + 1) ≤ (args.length + 1) % 2 ^ 32 := by
          unfold execlCells
          omega
        have hbs := hpush.trans hgrown
        have hperm : (c.blocks ++ [m.next]).Perm ([m.next] ++ c.blocks) := List.perm_append_comm
        have hcopied : Copied h.copy n := ⟨hargv, fun j hj => (hall j (by omega) (by omega)).2⟩
        have heq : execl s m pid path arg args h self
            = (execv s c.heap pid path (arg :: args) h.execv self >>= freeCopies (c.blocks ++ [m.next])) := by
          rw [hexecl, hc]
          show (if c.done = false then _ else if execlCells (args.length + 1) ≤ _ then _ else _) = _
          rw [if_neg (by simp [hdone]), if_neg hcells, hstr]
        -- the ends of `execv`, with the copies of `execl` freed behind those that returned
        rw [heq]
        rcases execv_cases hs hp hcwd c.heap path (arg :: args) h.execv self with
          ⟨-, hout, m', hret, hm'⟩ | ⟨hlong, -⟩ | ⟨-, hinner, hends⟩
        · obtain ⟨m'', hfree, hm''⟩ := freeCopies_returned hbs hm' hperm (-1) s
          rw [hret]
          exact Or.inl ⟨Or.inr ⟨hlt, hout⟩, m'', hfree, hm''⟩
        · omega
        · exact Or.inr (Or.inr ⟨hlt, ⟨hcopied, hinner⟩, hends.freeCopies hbs hperm⟩)
      · -- a copy failed: those made before it and the vector are freed
        obtain ⟨m', hfree, hm'⟩ := (hpush.trans hgrown).freeAll (.refl _) List.perm_append_comm
        refine Or.inl ⟨Or.inl (Or.inr ⟨j, by omega, hcell, hfail⟩), m', ?_, hm'⟩
        rw [hexecl, hc]
        show (if c.done = false then freeBlocks c.heap (c.blocks ++ [m.next]) >>= _ else _) = _
        rw [if_pos hdone, freeBlocks_eq hfree]
        rfl
      · -- the size of the vector wrapped
        refine Or.inr (Or.inl ⟨?_, ?_, .outOfBounds, by rw [hexecl, hc]; rfl⟩)
        · unfold execlCells at hshort
          omega
        · rintro (hfail | ⟨j, hj, hcell, hfail⟩)
          · rw [hargv] at hfail
            cases hfail
          · rw [hall j (by omega) (by omega) hcell] at hfail
            cases hfail

/-- Memory for a copy of the arguments runs out before anything else goes wrong. -/
def OutOfMemory (h : ExeclHost) : ExecCall → Prop
  | .execv argv => argv.length < 2 ^ 32 ∧ RunsOut h.execv.copy argv.length argv.length
  | .execl _ args =>
      RunsOut h.copy (args.length + 1) (execlCells (args.length + 1)) ∨
        (args.length + 1 < 2 ^ 32 - 1 ∧ RunsOut h.execv.copy (args.length + 1) (args.length + 1))

/-- The copies of the arguments can be made, those of `execl` and those of `execv`. -/
def AllCopied (h : ExeclHost) : ExecCall → Prop
  | .execv argv => Copied h.execv.copy argv.length
  | .execl _ args => Copied h.copy (args.length + 1) ∧ Copied h.execv.copy (args.length + 1)

theorem AllCopied.not_outOfMemory {h : ExeclHost} {c : ExecCall} (hc : AllCopied h c) : ¬ OutOfMemory h c := by
  cases c with
  | execv argv => exact fun hout => hc.not_runsOut hout.2
  | execl arg args =>
      rintro (hout | ⟨-, hout⟩)
      · exact hc.1.not_runsOut hout
      · exact hc.2.not_runsOut hout

/-- **How a call of exec ends**: for want of memory, leaving no block; not at all, or past its vector, with
    too many arguments; or as the system call does. -/
theorem run_cases (hs : FdInv s) (hp : s.proc pid = some curr) (hcwd : curr.cwd ≠ none) (m : Arena)
    (path : CStr) (c : ExecCall) (h : ExeclHost) (self : Int) :
    (OutOfMemory h c ∧ ∃ m', c.run s m pid path h self = .ok (.returned (-1) s m') ∧ Grown m [] m') ∨
    (¬ OutOfMemory h c ∧ 2 ^ 31 ≤ c.args.length ∧
      (c.run s m pid path h self = .ok .hangs ∨ ∃ e, c.run s m pid path h self = .error e)) ∨
    (AllCopied h c ∧ c.args.length < 2 ^ 32 ∧
      CaseEnds s m pid path c.args h.execv self (c.run s m pid path h self)) := by
  cases c with
  | execv argv =>
      rcases execv_cases hs hp hcwd m path argv h.execv self with
        ⟨hlen, hout, hret⟩ | ⟨hlong, hhangs⟩ | ⟨hlen, hcopied, hends⟩
      · exact Or.inl ⟨⟨hlen, hout⟩, hret⟩
      · refine Or.inr (Or.inl ⟨fun hout => ?_, ?_, Or.inl hhangs⟩)
        · have hlen := hout.1
          omega
        · show 2 ^ 31 ≤ argv.length
          omega
      · exact Or.inr (Or.inr ⟨hcopied, hlen, hends⟩)
  | execl arg args =>
      rcases execl_cases hs hp hcwd m path arg args h self with
        ⟨hout, hret⟩ | ⟨hlong, hroom, herr⟩ | ⟨hlen, hcopied, hends⟩
      · exact Or.inl ⟨hout, hret⟩
      · refine Or.inr (Or.inl ⟨?_, ?_, Or.inr herr⟩)
        · rintro (hout | ⟨hlen, -⟩)
          · exact hroom hout
          · omega
        · show 2 ^ 31 ≤ args.length + 1
          omega
      · refine Or.inr (Or.inr ⟨hcopied, ?_, hends⟩)
        show args.length + 1 < 2 ^ 32
        omega

/-! ## The program entered -/

/-- The program asked for runs in the place of the old one: under the same PID, with the arguments given, the
    caller's environment and directory, and every descriptor of the old program closed. -/
structure Replaced (s : Server) (pid : Nat) (curr : Process) (path : CStr) (args : List CStr) (srv : Server)
    (argc : Int) (argv : List CStr) : Prop where
  runs : ∃ p, srv.proc pid = some p ∧ p.state = .running ∧ p.path = some (s.filesystem ++ path) ∧
    p.environ.getD [] = curr.environ.getD [] ∧ p.cwd = curr.cwd
  args : argc = args.length ∧ argv = args
  closed : ∀ (n : Nat) (v : Int), curr.fds[n]? = some v → v ≠ -1 → srv.fdGet v = none

/-- What has to succeed after the program is loaded, for a caller with object `curr`. -/
structure Carried (s : Server) (curr : Process) (path : CStr) (h : ExecHost) : Prop where
  environ : curr.environ.getD [] = [] ∨ Process.EnvironCopied curr.environ h.environ h.environEntry
  cwd : h.cwd = true ∨ curr.cwd = some (dirname path)
  closed : ∀ (n : Nat) (v : Int), curr.fds[n]? = some v → v ≠ -1 → ¬ s.Refuses v (h.close n)

theorem setEnviron_entries_iff (p : Process) (env : Option (List CStr)) (array : Bool) (entry : Nat → Bool) :
    (p.setEnviron env array entry).2.environ.getD [] = env.getD [] ↔
      env.getD [] = [] ∨ Process.EnvironCopied env array entry := by
  by_cases hcopied : Process.EnvironCopied env array entry
  · rw [(Process.setEnviron_environ_iff p env array entry).mpr hcopied]
    exact iff_of_true rfl (Or.inr hcopied)
  · -- a copy that fails leaves no environment
    have hnone : (p.setEnviron env array entry).2.environ.getD [] = [] := by
      unfold Process.setEnviron
      cases env with
      | none => rfl
      | some es =>
          have hno : ¬ (array = true ∧ allocsOk es.length entry = true) := by
            intro hok
            exact hcopied fun es' hes => by cases hes; exact hok
          simp only [if_neg hno]
          rfl
    rw [hnone]
    exact ⟨fun heq => Or.inl heq.symm, fun hor => (hor.resolve_right hcopied).symm⟩

/-- Freeing the process closes a descriptor unless the host refuses. -/
theorem closed_iff (hs : FdInv s) (hp : s.proc pid = some curr) {close : Nat → Int} {r : FdResult}
    (hr : s.processFree curr close = .ok r) {n : Nat} {v : Int} (hn : curr.fds[n]? = some v) (hv : v ≠ -1) :
    r.srv.fdGet v = none ↔ ¬ s.Refuses v (close n) := by
  obtain ⟨r', hr', hinv, -, hrel, hall⟩ := hs.free hp close
  rw [hr'] at hr
  cases hr
  have hslot : s.table.slot pid n = some v := slot_eq_some_iff.mpr ⟨by rw [fdsOf_eq hp]; exact hn, hv⟩
  rcases hall n v hslot with ⟨hkept, hrefused, -⟩ | ⟨hfreed, hclosed⟩
  · -- a slot that is kept names an entry that is kept
    obtain ⟨e, he⟩ := hinv.linked.live hkept
    refine iff_of_false (fun hnone => ?_) (not_not_intro hrefused)
    have he : r.srv.fdGet v = some e := he
    rw [hnone] at he
    cases he
  · exact iff_of_true (hrel.cell_of_slot hslot hfreed) hclosed

/-- **When the program entered is the one asked for.** -/
theorem replaced_iff (hs : FdInv s) (hp : s.proc pid = some curr) {h : ExecHost} {r : Spawned}
    (hload : path.head? = some 47 ∧ h.load.succeeds = true)
    (hr : s.syscallExec pid path args h self = .ok r) (hlen : args.length < 2 ^ 32) :
    Replaced s pid curr path args r.srv (toI32 args.length) args ↔
      args.length < 2 ^ 31 ∧ Carried s curr path h := by
  rcases syscallExec_exact hr with ⟨hno, -⟩ | ⟨curr', cwd, r', hp', -, hcwd, hfree, rfl⟩
  · exact absurd hload hno
  · rw [hp] at hp'
    cases hp'
    have hlt : pid < r'.srv.procs.length := by
      rw [processFree_procs hfree]
      exact lt_of_proc hp
    have hproc := proc_setProc_self hlt (some (execed
      (Process.ofFile (s.filesystem ++ path) (dirname path) (lastPart path)) curr.environ cwd h args self))
    have henv := setEnviron_entries_iff (Process.ofFile (s.filesystem ++ path) (dirname path) (lastPart path))
      curr.environ h.environ h.environEntry
    have hcount : toI32 args.length = args.length ↔ args.length < 2 ^ 31 := by
      rw [toI32_eq_self_iff]
      unfold FitsI32
      omega
    -- without memory for the caller's directory the new object stays in that of its program
    have hdir : (if h.cwd then some cwd else some (dirname path)) = curr.cwd ↔
        h.cwd = true ∨ curr.cwd = some (dirname path) := by
      rw [hcwd]
      cases h.cwd with
      | true => exact iff_of_true rfl (Or.inl rfl)
      | false =>
          rw [if_neg Bool.false_ne_true]
          exact ⟨fun heq => Or.inr heq.symm, fun hor => (hor.resolve_left Bool.false_ne_true).symm⟩
    have hclosed : ∀ (n : Nat) (v : Int), curr.fds[n]? = some v → v ≠ -1 →
        (r'.srv.fdGet v = none ↔ ¬ s.Refuses v (h.close n)) :=
      fun n v hn hv => closed_iff hs hp hfree hn hv
    rw [execed_eq] at hproc
    constructor
    · rintro ⟨⟨p, hp', -, -, hpenv, hpcwd⟩, ⟨hargc, -⟩, hclose⟩
      rw [execed_eq, hproc] at hp'
      cases hp'
      exact ⟨hcount.mp hargc, henv.mp hpenv, hdir.mp hpcwd,
        fun n v hn hv => (hclosed n v hn hv).mp (hclose n v hn hv)⟩
    · rintro ⟨hargc, hcarried⟩
      rw [execed_eq]
      exact ⟨⟨_, hproc, rfl, rfl, henv.mpr hcarried.environ, hdir.mpr hcarried.cwd⟩,
        ⟨hcount.mpr hargc, rfl⟩, fun n v hn hv => (hclosed n v hn hv).mpr (hcarried.closed n v hn hv)⟩

/-! ## All or nothing -/

/-- The call failed and nothing is different: the caller's process entry, what its descriptors stand for, and
    the live blocks. -/
structure Untouched (s : Server) (m : Arena) (pid : Nat) (ret : Int) (srv : Server) (heap : Arena) :
    Prop where
  failed : ret = -1
  entry : srv.proc pid = s.proc pid
  descriptors : ∀ v, srv.fdGet v = s.fdGet v
  live : heap.live = m.live

/-- The end of a call of exec in the image `s` with heap `m`, by a caller with object `curr`. -/
def AllOrNothing (s : Server) (m : Arena) (pid : Nat) (curr : Process) (path : CStr) (args : List CStr) :
    Eff ExecEnd → Prop
  | .ok (.returned ret srv heap) => Untouched s m pid ret srv heap
  | .ok (.runs srv argc argv) => Replaced s pid curr path args srv argc argv
  | _ => False

/-- Nothing fails: the arguments can be counted in an `int32_t` and copied, `new` and loading succeed, and
    what follows does. -/
structure Goes (s : Server) (curr : Process) (path : CStr) (c : ExecCall) (h : ExeclHost) : Prop where
  count : c.args.length < 2 ^ 31
  copied : AllCopied h c
  newProc : h.execv.newProc = true
  load : path.head? = some 47 ∧ h.execv.exec.load.succeeds = true
  carried : Carried s curr path h.execv.exec

/-- **Exec in an image with linked tables** is all or nothing if memory runs out while the arguments are
    copied, or if nothing fails. -/
theorem allOrNothing_iff (hs : FdInv s) (hp : s.proc pid = some curr) (hcwd : curr.cwd ≠ none) (m : Arena)
    (path : CStr) (c : ExecCall) (h : ExeclHost) (self : Int) :
    AllOrNothing s m pid curr path c.args (c.run s m pid path h self) ↔
      OutOfMemory h c ∨ Goes s curr path c h := by
  rcases run_cases hs hp hcwd m path c h self with
    ⟨hout, m', hret, hm'⟩ | ⟨hroom, hmany, hend⟩ | ⟨hcopied, hlen, hends⟩
  · rw [hret]
    exact iff_of_true ⟨rfl, rfl, fun _ => rfl, hm'.live_eq⟩ (Or.inl hout)
  · have hno : ¬ (OutOfMemory h c ∨ Goes s curr path c h) := by
      rintro (hout | hgoes)
      · exact hroom hout
      · have hcount := hgoes.count
        omega
    rcases hend with hhangs | ⟨e, herr⟩
    · rw [hhangs]
      exact iff_of_false id hno
    · rw [herr]
      exact iff_of_false id hno
  · rw [or_iff_right hcopied.not_outOfMemory]
    generalize c.run s m pid path h self = x at hends
    cases hends with
    | threw hnew =>
        refine iff_of_false id fun hgoes => ?_
        rw [hgoes.newProc] at hnew
        cases hnew
    | notLoaded hnew hno hcs hgrown =>
        -- -1, and the caller's entry as before, but blocks are left
        exact iff_of_false (fun hsame => hgrown.live_ne hcs hsame.live) fun hgoes => hno hgoes.load
    | entered hnew hyes hr =>
        refine (replaced_iff hs hp hyes hr hlen).trans ?_
        constructor
        · rintro ⟨hcount, hcarried⟩
          exact ⟨hcount, hcopied, hnew, hyes, hcarried⟩
        · intro hgoes
          exact ⟨hgoes.count, hgoes.carried⟩

/-! ## Reachable images -/

/-- A process that has been run has a working directory. -/
def Homed (p : Process) : Prop := p.posixPID ≠ -1 → p.cwd ≠ none

theorem homed_of_cwd {p : Process} (cwd : CStr) (h : p.cwd = some cwd) : Homed p := by
  intro _
  rw [h]
  exact Option.some_ne_none cwd

theorem homed_handled : Handled Homed where
  fds _ hp := hp
  chdir path _ := homed_of_cwd path rfl
  copied {p c h} _ hc := by
    obtain ⟨name, path, cwd, -, -, -, hexact⟩ := Process.forkCopy_exact hc
    have hcwd : c.cwd = some cwd := by
      obtain ⟨e, he⟩ := Process.setEnviron_eq
        ({ argv := some (p.argv.getD []), name := some name, path := some path, cwd := some cwd,
           dlHandle := some path, state := p.state } : Process) p.environ h.environ h.environEntry
      rw [hexact, he]
    exact ⟨homed_of_cwd cwd hcwd, fun _ => homed_of_cwd cwd hcwd⟩
  loaded _ cwd _ := homed_of_cwd cwd rfl
  started _ cwd _ _ _ := homed_of_cwd cwd rfl
  execed {p} localPath dir name cwd h argv self _ := by
    rw [execed_eq]
    intro _
    show (if h.cwd then some cwd else some dir) ≠ none
    split <;> exact Option.some_ne_none _

/-- The invariant of an image: linked tables, and a directory for every process that runs. -/
def Sound (s : Server) : Prop := FdInv s ∧ AllProcs Homed s

theorem sound_invariant : World.Invariant Sound where
  start hs hr :=
    have hinv := startProcess_inv hs.1 hr
    have hall := startProcess_allProcs homed_handled hs.2 hr
    ⟨⟨hinv.1, hall.1⟩, fun c hc => ⟨hinv.2 c hc, hall.2 c hc⟩⟩
  call hs hr :=
    have hinv := perform_inv hs.1 hr
    have hall := perform_allProcs homed_handled hs.2 hr
    ⟨⟨hinv.1, hall.1⟩, fun c hc => ⟨hinv.2 c hc, hall.2 c hc⟩⟩

/-- The caller of a system call, in every reachable image: it is found with its own entry, which has a
    directory. -/
theorem caller_of_run {w₀ w : World} {tr : List (World × Event × World)} (h₀ : w₀.Booted)
    (hun : FdTable.Unopened w₀.server) (hrun : Run World.Step w₀ tr w) {self : Int} {m : Member} {pid : Nat}
    (hm : w.live self = some m) (hpid : m.image.findCaller self = some pid) :
    FdInv m.image ∧ ∃ curr, m.image.proc pid = some curr ∧ curr.cwd ≠ none := by
  have hstart : World.EveryImage Sound w₀ := by
    refine ⟨⟨hun.fdInv, fun p hp hne => absurd (h₀.pids (some p) hp p rfl) hne⟩, ?_⟩
    intro q m' hm'
    rw [h₀.live] at hm'
    cases hm'
  have hpos : World.Positive w₀ := by
    intro q m' hm'
    rw [h₀.live] at hm'
    cases hm'
  have hevery := hrun.invariant (fun _ _ _ hI hst => World.EveryImage.step sound_invariant hI hst) hstart
  have hself := hrun.invariant (fun _ _ _ hI hst => World.Positive.step hI hst) hpos self m hm
  obtain ⟨hs, hall⟩ := hevery.image self m hm
  refine ⟨hs, ?_⟩
  obtain ⟨hlt, hx, -⟩ := List.findIdx?_eq_some_iff_getElem.mp hpid
  have hget := List.getElem?_eq_getElem hlt
  cases hslot : m.image.procs[pid] with
  | none =>
      rw [hslot] at hx
      cases hx
  | some curr =>
      rw [hslot] at hx hget
      have hproc : m.image.proc pid = some curr := Option.join_eq_some_iff.mpr hget
      have hpidEq : curr.posixPID = self := by simpa using hx
      exact ⟨curr, hproc, hall.proc hproc (by omega)⟩

/-- **When exec is all or nothing.** In every reachable image, for every live process, path, call and heap and
    whatever fails: exec is all or nothing if and only if memory runs out while the arguments are copied, or
    nothing fails. -/
theorem all_or_nothing_iff {w₀ w : World} {tr : List (World × Event × World)} (h₀ : w₀.Booted)
    (hun : FdTable.Unopened w₀.server) (hrun : Run World.Step w₀ tr w) {self : Int} {m : Member} {pid : Nat}
    (hm : w.live self = some m) (hpid : m.image.findCaller self = some pid) (heap : Arena) (path : CStr)
    (c : ExecCall) (h : ExeclHost) :
    ∃ curr, m.image.proc pid = some curr ∧
      (AllOrNothing m.image heap pid curr path c.args (c.run m.image heap pid path h self) ↔
        OutOfMemory h c ∨ Goes m.image curr path c h) := by
  obtain ⟨hs, curr, hp, hcwd⟩ := caller_of_run h₀ hun hrun hm hpid
  exact ⟨curr, hp, allOrNothing_iff hs hp hcwd heap path c h self⟩

/-- A heap without a block. -/
def noBlocks : Arena := ⟨∅, 0, fun _ hb => absurd hb (Finset.notMem_empty _)⟩

/-- Answers to an exec on a host where all goes well but for, perhaps, `dlopen`. -/
def dlopens (found : Bool) : ExeclHost where
  copy := ⟨true, fun _ => true⟩
  execv :=
    { copy := ⟨true, fun _ => true⟩
      newProc := true
      exec := ⟨⟨true, true, found, true, true, true⟩, true, fun _ => true, true, fun _ => 0⟩ }

theorem hosts_unopened : FdTable.Unopened hosts.server where
  entries v := by simp [hosts, fdGet]
  fds pid := by
    rcases pid with - | pid
    · rfl
    · simp [hosts, fdsOf, proc]
  devices := by decide
  sockets {k j} hk := by simp [hosts] at hk

/-- The shell 100 starts and executes a program. -/
theorem all_or_nothing_iff_shell :
    ∃ tr w m, Run World.Step hosts tr w ∧ w.live 100 = some m ∧ ∃ curr, m.image.proc 1 = some curr ∧
      (AllOrNothing m.image noBlocks 1 curr (bytes "/bin/ls") [bytes "ls"]
          ((ExecCall.execv [bytes "ls"]).run m.image noBlocks 1 (bytes "/bin/ls") (dlopens true) 100) ↔
        OutOfMemory (dlopens true) (.execv [bytes "ls"]) ∨
          Goes m.image curr (bytes "/bin/ls") (.execv [bytes "ls"]) (dlopens true)) := by
  have h1 : Run World.Step hosts _ _ := Run.single (i := .start (bytes "/bin/shell") [] (startsAs 100))
    (.start rfl (fun _ => ⟨by decide, rfl⟩))
  exact ⟨_, _, _, h1, rfl, all_or_nothing_iff hosts_booted hosts_unopened h1 rfl rfl noBlocks
    (bytes "/bin/ls") (.execv [bytes "ls"]) (dlopens true)⟩

/-- The shell 100 starts and executes a program that is not there: exec returns -1 and leaves blocks. -/
theorem failed_exec_leaves_blocks :
    ¬ ∀ tr w, Run World.Step hosts tr w → ∀ self m pid, w.live self = some m →
      m.image.findCaller self = some pid → ∀ (heap : Arena) (path : CStr) (c : ExecCall) (h : ExeclHost),
        ∃ curr, m.image.proc pid = some curr ∧
          AllOrNothing m.image heap pid curr path c.args (c.run m.image heap pid path h self) := by
  intro hall
  have h1 : Run World.Step hosts _ _ := Run.single (i := .start (bytes "/bin/shell") [] (startsAs 100))
    (.start rfl (fun _ => ⟨by decide, rfl⟩))
  obtain ⟨curr, -, hnothing⟩ := hall _ _ h1 100 _ 1 rfl rfl noBlocks (bytes "/bin/ls")
    (.execv [bytes "ls"]) (dlopens false)
  exact absurd (Untouched.live hnothing) (by decide)

end Exec
end DistributedPlatform
