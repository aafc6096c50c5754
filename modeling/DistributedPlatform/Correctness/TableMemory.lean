import DistributedPlatform.Correctness.ObjectStock
import DistributedPlatform.Lib.Run
import DistributedPlatform.ProcessTable

/-!
# `Correctness.TableMemory` — the memory of the process table, over whole runs

Programs are started, fork, exec, exit and change directory, and have blocks of their own; each image of the host
process goes its own way. What there is in an image is what the objects of its table hold, what its programs have,
and what was lost on the way.

* `start_ends`, `fork_ends`, `execv_ends`, `exit_ends`, `chdir_ends` — each operation returns, with its loss;
* `run_ends` — … or is a fork whose copy fails;
* `run_accounted` — what is lost in a run, to the block.
-/

namespace DistributedPlatform
namespace TableMemory

open Arena (Grown)
open Ledger ProcessObj Stock ObjectStock
open ForkFailures (Made)
open Loading (Posix)

variable {l : Ledger} {p o : ProcessObj} {r : Goods}

/-! ## The table -/

/-- What the objects hold, their own blocks among it. -/
def entry (p : Option (Nat × ProcessObj)) : Goods := p.elim 0 fun p => ofBlocks [p.1] + fields p.2

def owned (procs : List (Option (Nat × ProcessObj))) : Goods := (procs.map entry).sum

/-- … those but for process `pid`. -/
def others (t : ProcTable) (pid : Nat) : Goods := owned (t.procs.set pid none)

theorem owned_append (procs : List (Option (Nat × ProcessObj))) (p : Option (Nat × ProcessObj)) :
    owned (procs ++ [p]) = entry p + owned procs := by
  unfold owned
  rw [List.map_append, List.sum_append, List.map_singleton, List.sum_singleton, add_comm]

theorem owned_set {procs : List (Option (Nat × ProcessObj))} {pid : Nat} (hlt : pid < procs.length)
    (p : Option (Nat × ProcessObj)) : owned (procs.set pid p) = entry p + owned (procs.set pid none) := by
  have hset : ∀ q, owned (procs.set pid q) =
      ((procs.map entry).take pid).sum + entry q + ((procs.map entry).drop (pid + 1)).sum := by
    intro q
    unfold owned
    rw [List.map_set, List.sum_set, if_pos (by rwa [List.length_map])]
  have hnone : entry none = 0 := rfl
  rw [hset, hset, hnone]
  abel

variable {t t' : ProcTable} {pid : Nat} {b : Nat}

theorem owned_proc (hproc : t.procs[pid]? = some (some (b, p))) :
    owned t.procs = ofBlocks [b] + fields p + others t pid := by
  obtain ⟨hlt, heq⟩ := List.getElem?_eq_some_iff.mp hproc
  have hsame : t.procs.set pid (some (b, p)) = t.procs := by rw [← heq, List.set_getElem_self]
  have h := owned_set hlt (some (b, p))
  rwa [hsame] at h

theorem owned_setProc (hproc : t.procs[pid]? = some (some (b, p))) (q : Option (Nat × ProcessObj)) :
    owned (t.setProc pid q).procs = entry q + others t pid :=
  owned_set (List.getElem?_eq_some_iff.mp hproc).1 q

/-- The tables the operations leave: an object that is not whole is the one the constructor of the server made. -/
structure Formed (t : ProcTable) : Prop where
  dummy : t.procs ≠ []
  shaped : ∀ pid b o, t.procs[pid]? = some (some (b, o)) → Shaped o ∧ (1 ≤ pid → Whole o)

theorem Formed.ledger (ht : Formed t) (l : Ledger) : Formed { t with ledger := l } := ⟨ht.dummy, ht.shaped⟩

theorem Formed.set (ht : Formed t) (pid : Nat) {p : Option (Nat × ProcessObj)} (hp : ∀ q, p = some q → Whole q.2) :
    Formed (t.setProc pid p) := by
  refine ⟨?_, fun i b o hi => ?_⟩
  · intro hnil
    have hlen := congrArg List.length hnil
    rw [ProcTable.setProc, List.length_set, List.length_nil] at hlen
    exact ht.dummy (List.length_eq_zero_iff.mp hlen)
  · have hi : (t.procs.set pid p)[i]? = some (some (b, o)) := hi
    rw [List.getElem?_set] at hi
    split at hi
    · split at hi
      · have ho := hp _ (Option.some.inj hi)
        exact ⟨ho.toShaped, fun _ => ho⟩
      · cases hi
    · exact ht.shaped i b o hi

theorem Formed.append (ht : Formed t) {b : Nat} (ho : Whole o) (l : Ledger) :
    Formed ⟨t.procs ++ [some (b, o)], l⟩ := by
  refine ⟨by simp, fun i b' o' hi => ?_⟩
  have hi : (t.procs ++ [some (b, o)])[i]? = some (some (b', o')) := hi
  rcases lt_or_ge i t.procs.length with hlt | hge
  · rw [List.getElem?_append_left hlt] at hi
    exact ht.shaped i b' o' hi
  · rw [List.getElem?_append_right hge, List.getElem?_singleton] at hi
    split at hi
    · cases hi
      exact ⟨ho.toShaped, fun _ => ho⟩
    · cases hi

/-! ## The operations -/

/-- The object of a program that is not loaded is not deleted, and the image that forks a child to run the program
    loses the vector it has made for it. -/
def startLost (path : CStr) (args : List Cell) (h : StartHost) (child : Bool) : ℕ × ℕ × ℕ :=
  if ¬ (path.head? = some 47 ∧ h.load.succeeds = true) then (1, 0, 0)
  else if child = false ∧ h.run.succeeds (args.length + 1) = true then (args.length + 2, 0, 0)
  else 0

/-- Nor is a copy for which there is no process. -/
def forkLost (p : ProcessObj) (h : ForkHost) : ℕ × ℕ × ℕ :=
  if h.fork < 0 then (copied p h.copy, 1, 0) else 0

/-- The copies `execv` has made stay when the program is not loaded, and so does the new object. -/
def execvLost (path : CStr) (args : List Cell) (h : ExecvHost) : ℕ × ℕ × ℕ :=
  if h.copy.argv = true ∧ allocsOk args.length h.copy.arg = true ∧
      ¬ (path.head? = some 47 ∧ h.exec.load.succeeds = true) then
    (args.length + 2, 0, 0)
  else 0

/-- What an operation loses: blocks, references, and closings of what is not open. -/
def lost (t : ProcTable) : TableOp → (child : Bool) → ℕ × ℕ × ℕ
  | .start path args _ h _, child => startLost path args h child
  | .fork pid _ h, _ =>
      match t.procs[pid]? with
      | some (some (_, p)) => forkLost p h
      | _ => 0
  | .execv _ path args h _ _, _ => execvLost path args h
  | .exit _, _ => 0
  | .chdir _ _ _, _ => 0

/-- The call returns, and in each image it leaves there is a table the operations leave, and beside what it has the
    rest `r` and what was lost. -/
def Ends (res : Eff TableEnd) (r : Goods) (lost : Bool → ℕ × ℕ × ℕ) : Prop :=
  ∃ e, res = .ok e ∧ ∀ child t', e.image child = some t' →
    Formed t' ∧ ∃ d, size d = lost child ∧ stock t'.ledger = owned t'.procs + (d + r)

variable {lose : Bool → ℕ × ℕ × ℕ}

theorem Ends.terminated : Ends (.ok .terminated) r lose := ⟨_, rfl, nofun⟩

theorem Ends.returned (ht : Formed t') (d : Goods) (hd : size d = lose false)
    (hl : stock t'.ledger = owned t'.procs + (d + r)) : Ends (.ok (.returned t' none)) r lose := by
  refine ⟨_, rfl, fun child t₁ himage => ?_⟩
  cases child with
  | false =>
      cases himage
      exact ⟨ht, d, hd, hl⟩
  | true => cases himage

theorem Ends.forked {t₁ : ProcTable} (ht : Formed t') (d : Goods) (hd : size d = lose false)
    (hl : stock t'.ledger = owned t'.procs + (d + r)) (ht₁ : Formed t₁) (hd₁ : lose true = 0)
    (hl₁ : stock t₁.ledger = owned t₁.procs + r) : Ends (.ok (.returned t' (some t₁))) r lose := by
  refine ⟨_, rfl, fun child t₂ himage => ?_⟩
  cases child with
  | false =>
      cases himage
      exact ⟨ht, d, hd, hl⟩
  | true =>
      cases himage
      exact ⟨ht₁, 0, hd₁.symm ▸ map_zero size, by rw [hl₁, zero_add]⟩

/-- `delete`. -/
theorem delete_stock (ho : Shaped o) (hl : stock l = ofBlocks [b] + fields o + r) :
    ∃ l', ProcTable.delete l (b, o) = .ok l' ∧ stock l' = r := by
  rw [add_comm (ofBlocks _), add_assoc] at hl
  obtain ⟨l₁, hdestroy, h₁⟩ := destroy_stock ho hl
  obtain ⟨l', hfree, hl'⟩ := free_stock h₁
  exact ⟨l', by simp only [ProcTable.delete, hdestroy, hfree, bind, Except.bind], hl'⟩

theorem exit_ends (ht : Formed t) (hl : stock t.ledger = owned t.procs + r)
    (hproc : t.procs[pid]? = some (some (b, o))) : Ends (t.syscallExit pid) r fun _ => 0 := by
  rw [owned_proc hproc, add_assoc] at hl
  obtain ⟨l', hdelete, hl'⟩ := delete_stock (ht.shaped pid b o hproc).1 hl
  have hexit : t.syscallExit pid = .ok (.returned { t.setProc pid none with ledger := l' } none) := by
    simp only [ProcTable.syscallExit, ProcTable.proc, hproc, hdelete, bind, Except.bind]
  rw [hexit]
  refine Ends.returned ((ht.set pid fun q hq => absurd hq.symm (Option.some_ne_none q)).ledger l') 0 rfl ?_
  show stock l' = owned (t.setProc pid none).procs + (0 + r)
  rw [hl', owned_setProc hproc, zero_add]
  exact congrArg (· + r) (zero_add _).symm

theorem chdir_ends (ht : Formed t) (hl : stock t.ledger = owned t.procs + r)
    (hproc : t.procs[pid]? = some (some (b, o))) (hpid : 1 ≤ pid) {path : Cell}
    (hpath : path.block ∈ t.ledger.heap.live) (hother : ∀ c, o.cwd = some c → c.block ≠ path.block) (ok : Bool) :
    Ends (t.syscallChDir pid path ok) r fun _ => 0 := by
  have ho := (ht.shaped pid b o hproc).2 hpid
  obtain ⟨r', hfields⟩ := fields_with o
  have hold : fields o = ofEnviron o.environ + (ofCell o.cwd + r') := hfields o.environ o.infoEnviron o.cwd
  have hcwd : stock t.ledger = ofCell o.cwd + (ofEnviron o.environ + r' + (ofBlocks [b] + (others t pid + r))) := by
    rw [hl, owned_proc hproc, hold]
    abel
  obtain ⟨ret, cwd, l', hset, hl', hsome⟩ := setCwd_stock ok hcwd hpath hother
  have hchdir : t.syscallChDir pid path ok =
      .ok (.returned { t.setProc pid (some (b, { o with cwd })) with ledger := l' } none) := by
    simp only [ProcTable.syscallChDir, ProcTable.proc, hproc, hset, bind, Except.bind]
  have hwhole : Whole { o with cwd } := by
    refine ⟨⟨ho.argc, ho.argv, ho.environ⟩, ho.name, ho.path, ?_⟩
    refine Option.ne_none_iff_exists'.mp fun hnone => ?_
    obtain ⟨c, hc⟩ := ho.cwd
    rw [hsome hnone] at hc
    cases hc
  rw [hchdir]
  refine Ends.returned ((ht.set pid fun q hq => ?_).ledger l') 0 rfl ?_
  · cases hq
    exact hwhole
  · show stock l' = owned (t.setProc pid (some (b, { o with cwd }))).procs + (0 + r)
    rw [hl', owned_setProc hproc, zero_add]
    show _ = ofBlocks [b] + fields { o with cwd } + others t pid + r
    have hnew : fields { o with cwd } = ofEnviron o.environ + (ofCell cwd + r') :=
      hfields o.environ o.infoEnviron cwd
    rw [hnew]
    abel

section Files

variable {fs : FSDirect} {dir : Dirname} {value : CStr → CStr} {c path : CStr}

theorem start_ends (hfs : fs.containerPath = some c) (hc : 0 ∉ c) (hdir : Posix dir value) (ht : Formed t)
    (hl : stock t.ledger = owned t.procs + r) (hp : 0 ∉ path) {args : List Cell} (hfits : args.length + 1 < 2 ^ 32)
    (hargs : ∀ c ∈ args, c.block ∈ t.ledger.heap.live) (newProc : Bool) (h : StartHost) (fill : LoadFill) :
    Ends (t.startProcess fs dir path args newProc h fill) r (startLost path args h) := by
  cases newProc with
  | false => exact Ends.terminated
  | true =>
      rcases load_cases hfs hc hdir hp (stock_push hl) h.load fill with
        ⟨hno, o, l', hload, hl'⟩ | ⟨hyes, o, l', hload, ho, hl'⟩
      · have hstart : t.startProcess fs dir path args true h fill = .ok (.returned { t with ledger := l' } none) := by
          simp [ProcTable.startProcess, hload, bind, Except.bind]
        rw [hstart]
        refine Ends.returned (ht.ledger l') (ofBlocks [t.ledger.heap.next]) ?_ ?_
        · unfold startLost
          rw [if_pos hno]
          rfl
        · exact hl'.trans (add_left_comm _ _ _)
      · have hstill : ∀ c ∈ args, c.block ∈ l'.heap.live := fun c hc =>
          live_of_more (stock_push hl) hl' (Finset.mem_insert_of_mem (hargs c hc))
        have hpid : ¬ ¬ 1 ≤ t.procs.length := not_not_intro (List.length_pos_iff.mpr ht.dummy)
        have hset : ∀ x, (t.procs ++ [some (t.ledger.heap.next, o)]).set t.procs.length x = t.procs ++ [x] := by
          intro x
          rw [List.set_append_right _ _ (le_refl _), Nat.sub_self]
          rfl
        have howned : ∀ o', owned (t.procs ++ [some (t.ledger.heap.next, o')]) =
            ofBlocks [t.ledger.heap.next] + fields o' + owned t.procs := fun o' => owned_append _ _
        have hlost : ∀ child, startLost path args h child =
            if child = false ∧ h.run.succeeds (args.length + 1) = true then (args.length + 2, 0, 0) else 0 :=
          fun child => if_neg (not_not_intro hyes)
        rcases vrun_cases ho hl' hstill hfits h.run (-1) with
          ⟨hno, l'', hrun, hl''⟩ | ⟨hruns, o', l'', d, hrun, ho', hsize, hmore, hl''⟩
        · have hstart : t.startProcess fs dir path args true h fill =
              .ok (.returned ⟨t.procs ++ [some (t.ledger.heap.next, o)], l''⟩ none) := by
            simp [ProcTable.startProcess, hload, ho.state, hpid, hrun, ProcTable.setProc, hset, bind, Except.bind]
          rw [hstart]
          refine Ends.returned (ht.append ho.toWhole l'') 0 ?_ ?_
          · rw [hlost, if_neg fun hc => hno hc.2]
            rfl
          · show stock l'' = owned (t.procs ++ _) + _
            rw [hl'', howned]
            abel
        · have hstart : t.startProcess fs dir path args true h fill =
              .ok (.returned ⟨t.procs ++ [some (t.ledger.heap.next, o)], l''⟩
                (some ⟨t.procs ++ [some (t.ledger.heap.next, o')], l''⟩)) := by
            simp [ProcTable.startProcess, hload, ho.state, hpid, hrun, ProcTable.setProc, hset, bind, Except.bind]
          rw [hstart]
          refine Ends.forked (ht.append ho.toWhole l'') d ?_ ?_ (ht.append ho' l'') ?_ ?_
          · rw [hlost, if_pos ⟨rfl, hruns⟩, hsize]
          · show stock l'' = owned (t.procs ++ _) + _
            rw [hl'', howned]
            abel
          · rw [hlost, if_neg fun hc => Bool.noConfusion hc.1]
          · show stock l'' = owned (t.procs ++ _) + _
            rw [hl'', howned, hmore]
            abel

theorem fork_ends (ht : Formed t) (hl : stock t.ledger = owned t.procs + r)
    (hproc : t.procs[pid]? = some (some (b, o))) (hpid : 1 ≤ pid) (newProc : Bool) (h : ForkHost)
    (hcopy : newProc = true → Made o true h.copy) :
    Ends (t.processFork pid newProc h) r fun _ => forkLost o h := by
  cases newProc with
  | false =>
      have hfork : t.processFork pid false h = .ok .terminated := by
        simp only [ProcTable.processFork, ProcTable.proc, hproc, forkCopy, malloc_false, bind, Except.bind]
      rw [hfork]
      exact Ends.terminated
  | true =>
      have ho := (ht.shaped pid b o hproc).2 hpid
      have hall : stock t.ledger = fields o + (ofBlocks [b] + others t pid + r) := by
        rw [hl, owned_proc hproc]
        abel
      have hback : ∀ d : Goods, d + (fields o + (ofBlocks [b] + others t pid + r)) = owned t.procs + (d + r) := by
        intro d
        rw [owned_proc hproc]
        abel
      rcases copy_cases ho hall h.copy with ⟨hmade, b', child, l', hcall, hchild, hsize, hl'⟩ | ⟨hno, -⟩
      · rw [hback] at hl'
        by_cases hneg : h.fork < 0
        · have hfork : t.processFork pid true h = .ok (.returned { t with ledger := l' } none) := by
            simp only [ProcTable.processFork, ProcTable.proc, hproc, hcall, bind, Except.bind, if_pos hneg,
              List.dropLast_concat]
          rw [hfork]
          refine Ends.returned (ht.ledger l') _ ?_ hl'
          unfold forkLost
          rw [if_pos hneg]
          exact hsize
        · have hgrown := ht.append (b := b') hchild l'
          have hstock : ∀ i, stock l' = owned (t.procs ++ [some (b', { child with posixPID := i })]) + (0 + r) := by
            intro i
            rw [hl', owned_append, zero_add]
            show _ = (ofBlocks [b'] + fields child) + owned t.procs + r
            abel
          have hchild' : Whole { child with posixPID := h.fork } :=
            ⟨⟨hchild.argc, hchild.argv, hchild.environ⟩, hchild.name, hchild.path, hchild.cwd⟩
          have hfork : t.processFork pid true h = .ok (.returned ⟨t.procs ++ [some (b', child)], l'⟩
              (some ⟨t.procs ++ [some (b', { child with posixPID := h.fork })], l'⟩)) := by
            simp only [ProcTable.processFork, ProcTable.proc, hproc, hcall, bind, Except.bind, if_neg hneg,
              ProcTable.setProc]
            simp
          rw [hfork]
          have hnothing : forkLost o h = 0 := by
            unfold forkLost
            rw [if_neg hneg]
          refine Ends.forked hgrown 0 hnothing.symm (hstock child.posixPID) (ht.append hchild' l') hnothing ?_
          show stock l' = _
          rw [hstock h.fork, zero_add]
      · exact absurd (hcopy rfl) hno

/-- The system call: `argv` is what `execv` made. -/
theorem syscallExec_ends (hfs : fs.containerPath = some c) (hc : 0 ∉ c) (hdir : Posix dir value) (ht : Formed t)
    {cs : List Cell} {v : Nat} (hl : stock t.ledger = owned t.procs + (ofBlocks (blocks cs ++ [v]) + r))
    (hproc : t.procs[pid]? = some (some (b, o))) (hpid : 1 ≤ pid) (hp : 0 ∉ path) (h : ExecvHost)
    (self : Int) (fill : LoadFill) {lose : ℕ × ℕ × ℕ}
    (hlose : lose = if path.head? = some 47 ∧ h.exec.load.succeeds = true then 0 else (cs.length + 2, 0, 0)) :
    Ends (t.syscallExec pid fs dir path cs.length ⟨v, cs.map .ptr⟩ h self fill) r fun _ => lose := by
  cases hnew : h.newProc with
  | false =>
      have hexec : t.syscallExec pid fs dir path cs.length ⟨v, cs.map .ptr⟩ h self fill = .ok .terminated := by
        simp only [ProcTable.syscallExec, ProcTable.proc, hproc, hnew, malloc_false, bind, Except.bind]
      rw [hexec]
      exact Ends.terminated
  | true =>
      have ho := (ht.shaped pid b o hproc).2 hpid
      rcases load_cases hfs hc hdir hp (stock_push hl) h.exec.load fill with
        ⟨hno, n, l', hload, hl'⟩ | ⟨hyes, n, l', hload, hn, hl'⟩
      · have hexec : t.syscallExec pid fs dir path cs.length ⟨v, cs.map .ptr⟩ h self fill =
            .ok (.returned { t with ledger := l' } none) := by
          simp [ProcTable.syscallExec, ProcTable.proc, hproc, hnew, hload, bind, Except.bind]
        rw [hexec]
        refine Ends.returned (ht.ledger l') (ofBlocks [t.ledger.heap.next] + ofBlocks (blocks cs ++ [v])) ?_ ?_
        · rw [hlose, if_neg hno, map_add, size_ofBlocks, size_ofBlocks, List.length_append, blocks, List.length_map]
          refine Prod.ext ?_ rfl
          show 1 + (cs.length + 1) = cs.length + 2
          omega
        · show stock l' = owned t.procs + _
          rw [hl']
          abel
      · have hboth : stock l' = fields n + (fields o + (ofBlocks [t.ledger.heap.next] + ofBlocks [b] + others t pid +
            (ofBlocks (blocks cs ++ [v]) + r))) := by
          rw [hl', owned_proc hproc]
          abel
        obtain ⟨ret₁, ret₂, n₁, l₁, n₂, l₂, hset₁, hset₂, hwhole, hstate, hargv, hl₂⟩ :=
          inherit_stock hn ho hboth h.exec
        have hdelete : stock l₂ = ofBlocks [b] + fields o + (ofBlocks [t.ledger.heap.next] +
            (ofBlocks (blocks cs ++ [v]) + fields n₂) + others t pid + r) := by
          rw [hl₂]
          abel
        obtain ⟨l₃, hdel, hl₃⟩ := delete_stock ho.toShaped hdelete
        have hexec : t.syscallExec pid fs dir path cs.length ⟨v, cs.map .ptr⟩ h self fill =
            .ok (.returned { t.setProc pid
              (some (t.ledger.heap.next, n₂.started cs.length ⟨v, cs.map .ptr⟩ self)) with ledger := l₃ } none) := by
          simp [ProcTable.syscallExec, ProcTable.proc, hproc, hnew, hload, hset₁, hset₂, hdel, arun, hstate, bind,
            Except.bind]
        rw [hexec]
        refine Ends.returned ((ht.set pid fun q hq => ?_).ledger l₃) 0 ?_ ?_
        · cases hq
          exact hwhole.started cs v self
        · rw [hlose, if_pos hyes]
          rfl
        · show stock l₃ = owned (t.setProc pid _).procs + (0 + r)
          rw [hl₃, owned_setProc hproc, zero_add]
          show _ = ofBlocks [t.ledger.heap.next] + fields (n₂.started _ _ _) + others t pid + r
          rw [fields_started hargv]

theorem execv_ends (hfs : fs.containerPath = some c) (hc : 0 ∉ c) (hdir : Posix dir value) (ht : Formed t)
    (hl : stock t.ledger = owned t.procs + r) (hproc : t.procs[pid]? = some (some (b, o))) (hpid : 1 ≤ pid)
    (hp : 0 ∉ path) {args : List Cell} (hargs : ∀ c ∈ args, c.block ∈ t.ledger.heap.live) (h : ExecvHost)
    (self : Int) (fill : LoadFill) :
    Ends (t.execv pid fs dir path args h self fill) r fun _ => execvLost path args h := by
  cases hargv : h.copy.argv with
  | false =>
      have hexec : t.execv pid fs dir path args h self fill = .ok (.returned t none) := by
        simp only [ProcTable.execv, hargv, malloc_false]
      rw [hexec]
      refine Ends.returned ht 0 ?_ (hl.trans (by rw [zero_add]))
      unfold execvLost
      rw [if_neg fun hall => Bool.false_ne_true (hargv.symm.trans hall.1)]
      rfl
  | true =>
      obtain ⟨cs, m, hgrown, hcases⟩ := buildArgv_cases t.ledger h.copy.arg args.length hargs
      rw [← allocsOk_iff, Nat.sub_self, List.replicate_zero, List.append_nil] at hcases
      have hmade : stock { t.ledger with heap := m } = owned t.procs +
          (ofBlocks (blocks cs ++ [t.ledger.heap.next]) + r) := (hl ▸ grown_stock hgrown).trans (add_left_comm _ _ _)
      rcases hcases with ⟨-, hok, htexts, hcopy⟩ | ⟨hfail, rest, hcopy⟩ | ⟨hshort, -⟩
      · have hlen : cs.length = args.length := by
          have hlen := congrArg List.length htexts
          simpa using hlen
        have hexec : t.execv pid fs dir path args h self fill = ProcTable.syscallExec
            { t with ledger := { t.ledger with heap := m } } pid fs dir path cs.length
            ⟨t.ledger.heap.next, cs.map .ptr⟩ h self fill := by
          simp only [ProcTable.execv, hargv, malloc_true, hcopy, hlen, bind, Except.bind, if_true]
        rw [hexec]
        refine syscallExec_ends hfs hc hdir (ht.ledger _) hmade hproc hpid hp h self fill ?_
        unfold execvLost
        by_cases hload : path.head? = some 47 ∧ h.exec.load.succeeds = true
        · rw [if_neg fun hall => hall.2.2 hload, if_pos hload]
        · rw [if_pos ⟨hargv, hok, hload⟩, if_neg hload, hlen]
      · -- what was copied is released
        obtain ⟨m', hfree, hm'⟩ := freeArgv_built hgrown (.refl m) t.ledger (.null :: rest)
        have hexec : t.execv pid fs dir path args h self fill =
            .ok (.returned { t with ledger := { t.ledger with heap := m' } } none) := by
          simp only [ProcTable.execv, hargv, malloc_true, hcopy, hfree, bind, Except.bind]
          rfl
        rw [hexec]
        refine Ends.returned (ht.ledger _) 0 ?_ ?_
        · unfold execvLost
          rw [if_neg fun hall => hfail hall.2.1]
          rfl
        · show stock { t.ledger with heap := m' } = owned t.procs + (0 + r)
          rw [grown_stock hm', hl, ofBlocks_nil, zero_add, zero_add]
      · exact absurd hshort (Nat.lt_irrefl _)

/-! ## Runs -/

/-- Process `pid` is there, and is no dummy. -/
def Runs (t : ProcTable) (pid : Nat) : Prop := 1 ≤ pid ∧ ∃ b o, t.procs[pid]? = some (some (b, o))

/-- What is passed to the operations: strings that are there, and a directory that is not the caller's own. -/
def Allowed (t : ProcTable) : TableOp → Prop
  | .start path args _ _ _ => 0 ∉ path ∧ args.length + 1 < 2 ^ 32 ∧ ∀ c ∈ args, c.block ∈ t.ledger.heap.live
  | .fork pid _ _ => Runs t pid
  | .execv pid path args _ _ _ => Runs t pid ∧ 0 ∉ path ∧ args.length < 2 ^ 32 ∧
      ∀ c ∈ args, c.block ∈ t.ledger.heap.live
  | .exit pid => Runs t pid
  | .chdir pid path _ => Runs t pid ∧ path.block ∈ t.ledger.heap.live ∧
      ∀ b o c, t.procs[pid]? = some (some (b, o)) → o.cwd = some c → c.block ≠ path.block

/-- A fork whose copy fails. -/
def Stuck (t : ProcTable) : TableOp → Prop
  | .fork pid newProc h => newProc = true ∧
      ∀ b o, t.procs[pid]? = some (some (b, o)) → ¬ Made o true h.copy
  | _ => False

theorem run_ends (hfs : fs.containerPath = some c) (hc : 0 ∉ c) (hdir : Posix dir value) (ht : Formed t)
    (hl : stock t.ledger = owned t.procs + r) (op : TableOp) (hop : Allowed t op) :
    (¬ Stuck t op ∧ Ends (op.run fs dir t) r (lost t op)) ∨ (Stuck t op ∧ ∃ e, op.run fs dir t = .error e) := by
  cases op with
  | start path args newProc h fill =>
      obtain ⟨hp, hfits, hargs⟩ := hop
      exact Or.inl ⟨id, start_ends hfs hc hdir ht hl hp hfits hargs newProc h fill⟩
  | fork pid newProc h =>
      obtain ⟨hpid, b, o, hproc⟩ := hop
      have hlost : lost t (.fork pid newProc h) = fun _ => forkLost o h := by
        funext i
        unfold lost
        dsimp only
        rw [hproc]
      by_cases hstuck : Stuck t (.fork pid newProc h)
      · obtain ⟨rfl, hno⟩ := hstuck
        have hall : stock t.ledger = fields o + (ofBlocks [b] + others t pid + r) := by
          rw [hl, owned_proc hproc]
          abel
        rcases copy_cases ((ht.shaped pid b o hproc).2 hpid) hall h.copy with ⟨hmade, -⟩ | ⟨-, e, he⟩
        · exact absurd hmade (hno b o hproc)
        · refine Or.inr ⟨⟨rfl, hno⟩, e, ?_⟩
          simp only [TableOp.run, ProcTable.processFork, ProcTable.proc, hproc, he, bind, Except.bind]
      · refine Or.inl ⟨hstuck, hlost ▸ fork_ends ht hl hproc hpid newProc h fun hnew => ?_⟩
        refine Classical.byContradiction fun hno => hstuck ⟨hnew, fun b' o' hproc' => ?_⟩
        cases hproc.symm.trans hproc'
        exact hno
  | execv pid path args h self fill =>
      obtain ⟨⟨hpid, b, o, hproc⟩, hp, -, hargs⟩ := hop
      exact Or.inl ⟨id, execv_ends hfs hc hdir ht hl hproc hpid hp hargs h self fill⟩
  | exit pid =>
      obtain ⟨hpid, b, o, hproc⟩ := hop
      exact Or.inl ⟨id, exit_ends ht hl hproc⟩
  | chdir pid path ok =>
      obtain ⟨⟨hpid, b, o, hproc⟩, hpath, hother⟩ := hop
      exact Or.inl ⟨id, chdir_ends ht hl hproc hpid hpath (fun c => hother b o c hproc) ok⟩

/-- An image of the host process: the table, and the blocks its programs have. -/
structure Image where
  table : ProcTable
  programs : List Nat

inductive Act
  | op (o : TableOp) (child : Bool)
  | malloc
  | free (b : Nat)

/-- What goes on in an image: an operation, behind which it is the image of the caller or of the child, or a program
    takes a block or gives one back. -/
inductive Step (fs : FSDirect) (dir : Dirname) : Image → Act → Image → Prop
  | op {s : Image} {o : TableOp} {e : TableEnd} {child : Bool} {t' : ProcTable} (hop : Allowed s.table o)
      (hrun : o.run fs dir s.table = .ok e) (himage : e.image child = some t') :
      Step fs dir s (.op o child) ⟨t', s.programs⟩
  | malloc {s : Image} {b : Nat} {l : Ledger} (hb : s.table.ledger.malloc true = (some b, l)) :
      Step fs dir s .malloc ⟨{ s.table with ledger := l }, b :: s.programs⟩
  | free {s : Image} {b : Nat} {l : Ledger} (hb : b ∈ s.programs) (hfree : s.table.ledger.free (some b) = .ok l) :
      Step fs dir s (.free b) ⟨{ s.table with ledger := l }, s.programs.erase b⟩

def held (s : Image) : Goods := owned s.table.procs + ofBlocks s.programs

def actLost (s : Image) : Act → ℕ × ℕ × ℕ
  | .op o child => lost s.table o child
  | .malloc => 0
  | .free _ => 0

/-- A block the programs have is theirs to give back. -/
theorem programs_free {s : Image} (hr : stock s.table.ledger = held s + r) {b : Nat} (hb : b ∈ s.programs) :
    ∃ l, s.table.ledger.free (some b) = .ok l ∧
      stock l = owned s.table.procs + ofBlocks (s.programs.erase b) + r := by
  have hsplit : ofBlocks s.programs = ofBlocks [b] + ofBlocks (s.programs.erase b) :=
    Prod.ext (Multiset.coe_eq_coe.mpr (List.perm_cons_erase hb)) rfl
  unfold held at hr
  rw [hsplit, add_left_comm, add_assoc] at hr
  exact free_stock hr

theorem step_accounted (hfs : fs.containerPath = some c) (hc : 0 ∉ c) (hdir : Posix dir value) {s s' : Image} {a : Act}
    (hstep : Step fs dir s a s') (hs : Formed s.table) (hr : stock s.table.ledger = held s + r) :
    Formed s'.table ∧ ∃ d, size d = actLost s a ∧ stock s'.table.ledger = held s' + (d + r) := by
  cases hstep with
  | @op o e child t' hop hrun himage =>
      unfold held at hr
      rw [add_assoc] at hr
      rcases run_ends hfs hc hdir hs hr o hop with ⟨-, e', hrun', himages⟩ | ⟨-, e', hrun'⟩
      · cases hrun.symm.trans hrun'
        obtain ⟨ht', d, hd, hl'⟩ := himages child t' himage
        refine ⟨ht', d, hd, ?_⟩
        rw [hl']
        unfold held
        abel
      · cases hrun.symm.trans hrun'
  | @malloc b l hb =>
      refine ⟨hs.ledger l, 0, rfl, ?_⟩
      cases hb
      show stock _ = owned s.table.procs + (ofBlocks [_] + ofBlocks s.programs) + (0 + r)
      rw [stock_push hr]
      unfold held
      abel
  | @free b l hb hfree =>
      obtain ⟨l', hfree', hl'⟩ := programs_free hr hb
      cases hfree.symm.trans hfree'
      exact ⟨hs.ledger l, 0, rfl, by rw [zero_add]; exact hl'⟩

/-- **The memory of the process table**, over whole runs. From a table the operations leave, with `r` beside what has
    a holder, through starts, forks, execs, exits, changes of directory and what the programs allocate and release,
    and in whatever images these go on: what is live and open in the end is what the objects of the table hold, what
    the programs have, `r`, and what the operations have lost, which has the size they have been given above. There
    an operation is stuck exactly if it is a fork whose copy fails, and what the programs have they can give back. -/
theorem run_accounted (hfs : fs.containerPath = some c) (hc : 0 ∉ c) (hdir : Posix dir value) {s s' : Image}
    {tr : List (Image × Act × Image)} (hrun : Machine.Run (Step fs dir) s tr s') (hs : Formed s.table)
    (hr : stock s.table.ledger = held s + r) :
    (∃ d, size d = (tr.map fun x => actLost x.1 x.2.1).sum ∧ stock s'.table.ledger = held s' + (d + r)) ∧
      (∀ op, Allowed s'.table op → ((∃ e, op.run fs dir s'.table = .error e) ↔ Stuck s'.table op)) ∧
      ∀ b ∈ s'.programs, ∃ l, s'.table.ledger.free (some b) = .ok l := by
  obtain ⟨hs', d, hd, hl'⟩ := hrun.custody (fun s : Image => stock s.table.ledger) held size
    (fun s a _ => actLost s a) (fun t i u r ht hstep hr => step_accounted hfs hc hdir hstep ht hr) hs hr
  refine ⟨⟨d, hd, hl'⟩, fun op hop => ?_, fun b hb => ?_⟩
  · have hparts : stock s'.table.ledger = owned s'.table.procs + (ofBlocks s'.programs + (d + r)) :=
      hl'.trans (add_assoc _ _ _)
    rcases run_ends hfs hc hdir hs' hparts op hop with ⟨hno, e, hends, -⟩ | ⟨hstuck, e, he⟩
    · refine iff_of_false ?_ hno
      rintro ⟨e', he'⟩
      cases hends.symm.trans he'
    · exact iff_of_true ⟨e, he⟩ hstuck
  · obtain ⟨l, hfree, -⟩ := programs_free hl' hb
    exact ⟨l, hfree⟩

/-- The table and the memory as the constructor of the server leaves them. -/
def constructed : ProcTable := ⟨[some (0, {})], { heap := Arena.empty.push }⟩

theorem constructed_formed : Formed constructed := by
  refine ⟨List.cons_ne_nil _ _, fun pid b o hproc => ?_⟩
  cases pid with
  | zero =>
      cases hproc
      exact ⟨shaped_new, fun h => absurd h (by decide)⟩
  | succ pid => cases hproc

/-- The start of the first program, where all goes well. -/
def startInit : TableOp :=
  .start (bytes "/sys/init") [] true ⟨⟨true, true, true, true, true, true⟩, ⟨true, fun _ => true, 101⟩⟩
    ⟨fun _ => 7, fun _ => 7⟩

/-- The server has lost the vector of the arguments. -/
theorem run_accounted_init :
    ∃ (fs : FSDirect) (s' : Image) (tr : List (Image × Act × Image)) (d : Goods),
      Machine.Run (Step fs Loading.dirnameCut) ⟨constructed, []⟩ tr s' ∧ s'.table.procs.length = 2 ∧
      size d = (2, 0, 0) ∧ stock s'.table.ledger = held s' + (d + 0) := by
  let fs : FSDirect := { containerPath := some (bytes "/srv/") }
  obtain ⟨e, t, hstart, himage, hlen⟩ : ∃ e t, startInit.run fs Loading.dirnameCut constructed = .ok e ∧
      e.image false = some t ∧ t.procs.length = 2 := ⟨_, _, rfl, rfl, rfl⟩
  have hstep : Step fs Loading.dirnameCut ⟨constructed, []⟩ (.op startInit false) ⟨t, []⟩ :=
    .op ⟨by decide, by decide, nofun⟩ hstart himage
  obtain ⟨⟨d, hd, hl⟩, -, -⟩ :=
    run_accounted (r := 0) (rfl : fs.containerPath = some (bytes "/srv/")) (by decide) Loading.dirnameCut_posix
      (Machine.Run.single hstep) constructed_formed rfl
  exact ⟨fs, _, _, d, Machine.Run.single hstep, hlen, hd, hl⟩

end Files

end TableMemory
end DistributedPlatform
