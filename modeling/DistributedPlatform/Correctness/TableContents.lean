import DistributedPlatform.Correctness.Exec
import DistributedPlatform.Correctness.MainLoop
import DistributedPlatform.Correctness.TableMemory

/-!
# `Correctness.TableContents` — the table with its memory refines the table of the server

`ProcTable` and `Server` have the same operations on the same table, one with the blocks of the objects and one with
what is written in them.

* `start_contents`, `fork_contents`, `execv_contents`, `exit_contents`, `chdir_contents` — one operation;
* `op_contents` — what an operation leaves in the objects is what that of the server leaves, in every image;
* `onServer_cases` — that of the server has defined behaviour, unless it is a fork whose copy fails;
* `run_contents` — so a run with the memory is one of the server.
-/

namespace DistributedPlatform
namespace TableContents

open Ledger ProcessObj Stock ObjectStock TableMemory
open Server (FdInv)
open ForkFailures (Made)
open Loading (Posix)

variable {fs : FSDirect} {dir : Dirname} {c path : CStr} {l l' : Ledger} {o p : ProcessObj} {r : Goods} {b pid : Nat}
  {t t' : ProcTable} {s : Server} {e : TableEnd} {sp : Spawned}

/-- What is written in the objects. -/
def contents (t : ProcTable) : List (Option Process) := t.procs.map (Option.map (·.2.contents))

/-- The tables of the images in which an operation of the server goes on. -/
def Agrees (e : TableEnd) (sp : Spawned) : Prop :=
  (e.image false).map contents = some sp.srv.procs ∧ (e.image true).map contents = sp.child.map (·.procs)

theorem contents_proc (hproc : t.procs[pid]? = some (some (b, o))) (hs : s.procs = contents t) :
    s.proc pid = some o.contents := by
  unfold Server.proc
  rw [hs, contents, List.getElem?_map, hproc]
  rfl

theorem contents_set (t : ProcTable) (pid : Nat) (p : Option (Nat × ProcessObj)) (l : Ledger) :
    contents { t.setProc pid p with ledger := l } = (contents t).set pid (p.map (·.2.contents)) := List.map_set

theorem contents_append (t : ProcTable) (p : Option (Nat × ProcessObj)) (l : Ledger) :
    contents ⟨t.procs ++ [p], l⟩ = contents t ++ [p.map (·.2.contents)] := List.map_append

theorem setCwd_contents {gcwd : Cell} {ok ret : Bool} {o' : ProcessObj}
    (hset : o.setCwd l (some gcwd) ok = .ok (ret, o', l')) : o'.contents = (o.contents.setCwd gcwd.text ok).2 := by
  obtain ⟨text, htext, hset⟩ := Eff.bind_eq_ok.mp hset
  cases ok with
  | false =>
      cases hset
      rfl
  | true =>
      rw [malloc_true] at hset
      obtain ⟨l₁, -, hset⟩ := Eff.bind_eq_ok.mp hset
      obtain ⟨text', htext', hset⟩ := Eff.bind_eq_ok.mp hset
      cases hset
      have hsame : text' = gcwd.text := by
        unfold Ledger.text at htext'
        split at htext'
        · exact (Except.ok.inj htext').symm
        · cases htext'
      rw [hsame]
      rfl

theorem proc_eq (hproc : t.procs[pid]? = some (some (b, o))) : t.proc pid = .ok (b, o) := by
  unfold ProcTable.proc
  rw [hproc]

theorem exit_contents (hs : s.procs = contents t)
    (hrun : t.syscallExit pid = .ok e) {close : Nat → Int} (hsp : s.syscallExit pid close = .ok sp) : Agrees e sp := by
  obtain ⟨curr, hcurr, hrun⟩ := Eff.bind_eq_ok.mp hrun
  obtain ⟨l', -, hrun⟩ := Eff.bind_eq_ok.mp hrun
  cases hrun
  obtain ⟨_, r', -, hfree, rfl⟩ := Server.syscallExit_cases hsp
  refine ⟨?_, rfl⟩
  show some (contents _) = some ((r'.srv.setProc pid none).procs)
  rw [contents_set, ← hs, ← Server.processFree_procs hfree]
  rfl

theorem chdir_contents (hproc : t.procs[pid]? = some (some (b, o))) (hs : s.procs = contents t) {path : Cell}
    {ok : Bool} (hrun : t.syscallChDir pid path ok = .ok e) {ret : Int} {s' : Server}
    (hsp : s.syscallChDir pid path.text ok = .ok (ret, s')) : Agrees e { ret, srv := s' } := by
  obtain ⟨curr, hcurr, hrun⟩ := Eff.bind_eq_ok.mp hrun
  cases (proc_eq hproc).symm.trans hcurr
  obtain ⟨⟨done, curr, l'⟩, hset, hrun⟩ := Eff.bind_eq_ok.mp hrun
  cases hrun
  simp only [Server.syscallChDir, contents_proc hproc hs] at hsp
  cases hsp
  refine ⟨?_, rfl⟩
  show some (contents _) = some _
  rw [contents_set, ← hs]
  show _ = some (s.procs.set pid _)
  rw [← setCwd_contents hset]
  rfl

/-! ## Starting a program -/

theorem live_name (hl : stock l = fields o + r) : ∀ c, o.name = some c → c.block ∈ l.heap.live := by
  intro c hc
  obtain ⟨r', hr⟩ := fields_name o
  rw [hr, hc, add_assoc] at hl
  exact live_of_cell hl

theorem start_contents (hfs : fs.containerPath = some c) (hc : 0 ∉ c) (hdir : Posix dir dirname) (ht : Formed t)
    (hl : stock t.ledger = r) (hp : 0 ∉ path) {args : List Cell} (hfits : args.length + 1 < 2 ^ 32)
    (hargs : ∀ c ∈ args, c.block ∈ t.ledger.heap.live) (hs : s.procs = contents t) (hroot : s.filesystem = c)
    {h : StartHost} {fill : LoadFill} (hrun : t.startProcess fs dir path args true h fill = .ok e)
    (hsp : s.startProcess path (args.map (·.text)) h = .ok sp) : Agrees e sp := by
  obtain ⟨q, hload, hcontents⟩ :=
    Loading.loadFileFS_contents hfs hc hdir hp { t.ledger with heap := t.ledger.heap.push } h.load fill
  rcases load_cases hfs hc hdir hp (stock_push hl) h.load fill with
    ⟨-, o, l', hload', -⟩ | ⟨-, o, l', hload', ho, hl'⟩
  · cases hload.symm.trans hload'
    simp [ProcTable.startProcess, hload, bind, Except.bind] at hrun
    simp [Server.startProcess, hroot, hcontents, bind, Except.bind] at hsp
    subst hrun hsp
    exact ⟨congrArg some hs.symm, rfl⟩
  · cases hload.symm.trans hload'
    have hstill : ∀ c ∈ args, c.block ∈ l'.heap.live := fun c hc =>
      live_of_more (stock_push hl) hl' (Finset.mem_insert_of_mem (hargs c hc))
    have hpos : 1 ≤ t.procs.length := List.length_pos_iff.mpr ht.dummy
    have hlen : s.procs.length = t.procs.length := by rw [hs, contents, List.length_map]
    have hadd := s.processAdd_of_loaded o.contents ho.state
    have hne : ¬ (s.procs.length : Int) = -1 := by omega
    have hpid : (1 : Int) ≤ s.procs.length ∧ (s.procs.length : Int) < s.procs.length + 1 := by omega
    have hset : ∀ (x y : Option (Nat × ProcessObj)) (l : Ledger),
        contents { ProcTable.setProc ⟨t.procs ++ [x], l'⟩ t.procs.length y with ledger := l } =
          (s.procs ++ [x.map (·.2.contents)]).set s.procs.length (y.map (·.2.contents)) := by
      intro x y l
      rw [contents_set, contents_append, ← hs, hlen]
    -- the table of the caller, with the object as it was loaded
    have hsame : ∀ (x : Option (Nat × ProcessObj)) (l : Ledger),
        contents { ProcTable.setProc ⟨t.procs ++ [x], l'⟩ t.procs.length x with ledger := l } =
          s.procs ++ [x.map (·.2.contents)] := by
      intro x l
      rw [hset, List.set_append_right _ _ (le_refl _), Nat.sub_self]
      rfl
    rcases vrun_cases ho hl' hstill hfits h.run (-1) with ⟨-, l'', hrun', -⟩ | ⟨-, o', l'', d, hrun', -⟩
    · have hv := ArgVector.vrun_contents (live_name hl') hstill hfits hrun'
      simp [ProcTable.startProcess, hload, ho.state, hpos, hrun', bind, Except.bind] at hrun
      simp [Server.startProcess, hroot, hcontents, hadd, hne, Server.processRun, hpid, Server.proc, hv, bind,
        Except.bind] at hsp
      subst hrun hsp
      exact ⟨congrArg some (hsame _ l''), rfl⟩
    · have hv := ArgVector.vrun_contents (live_name hl') hstill hfits hrun'
      simp [ProcTable.startProcess, hload, ho.state, hpos, hrun', bind, Except.bind] at hrun
      simp [Server.startProcess, hroot, hcontents, hadd, hne, Server.processRun, hpid, Server.proc, hv, bind,
        Except.bind] at hsp
      subst hrun hsp
      exact ⟨congrArg some (hsame _ l''), congrArg some (hset _ _ l'')⟩

/-! ## Forking -/

/-- A whole object can be copied. -/
theorem usable_of_whole (ho : Whole o) (hl : stock l = fields o + r) : ForkFailures.Usable l o := by
  obtain ⟨q, hq⟩ := ho.path
  obtain ⟨n, hn⟩ := ho.name
  obtain ⟨d, hd⟩ := ho.cwd
  obtain ⟨rp, hrp⟩ := fields_path o
  obtain ⟨re, hre⟩ := fields_with o
  have hboth : fields o = ofEnviron o.environ + (ofCell o.cwd + re) := hre o.environ o.infoEnviron o.cwd
  obtain ⟨ra, hra⟩ : ∃ ra, fields o = ofArgv o + ra := ⟨_, rfl⟩
  refine ⟨ho.argc, fun a ha => ?_, ⟨n, hn, live_name hl n hn⟩, ⟨q, hq, ?_⟩, ⟨d, hd, ?_⟩, fun env henv => ?_⟩
  · obtain ⟨cs, rest, hslots, hargc⟩ := ho.argv a ha
    have hvector : stock l = ofBlocks (blocks cs ++ [a.block]) + (ra + r) := by
      rw [hl, hra, ofArgv_of_slots ha hslots hargc, add_assoc]
    refine ⟨cs, rest, ?_, hslots, hargc, fun c hc => ?_⟩
    · exact live_of_stock hvector (List.mem_append_right _ List.mem_cons_self)
    · exact live_of_stock hvector (List.mem_append_left _ (List.mem_map_of_mem hc))
  · rw [hrp, hq, add_assoc] at hl
    exact live_of_cell hl
  · rw [hboth, add_left_comm, hd, add_assoc] at hl
    exact live_of_cell hl
  · rw [hboth, henv, add_assoc] at hl
    exact readable_of_stock (ho.environ env henv) hl

/-- … and is usable where it stands. -/
theorem usable_of_proc (ht : Formed t) (hl : stock t.ledger = owned t.procs + r)
    (hproc : t.procs[pid]? = some (some (b, o))) (hpid : 1 ≤ pid) :
    Whole o ∧ stock t.ledger = fields o + (ofBlocks [b] + others t pid + r) ∧ ForkFailures.Usable t.ledger o := by
  have ho := (ht.shaped pid b o hproc).2 hpid
  have hall : stock t.ledger = fields o + (ofBlocks [b] + others t pid + r) := by
    rw [hl, owned_proc hproc]
    abel
  exact ⟨ho, hall, usable_of_whole ho hall⟩

theorem fork_contents (ht : Formed t) (hl : stock t.ledger = owned t.procs + r)
    (hproc : t.procs[pid]? = some (some (b, o))) (hpid : 1 ≤ pid) (hs : s.procs = contents t)
    {h : ForkHost} (hrun : t.processFork pid true h = .ok e) (hsp : s.processFork pid h = .ok sp) : Agrees e sp := by
  obtain ⟨ho, hall, huse⟩ := usable_of_proc ht hl hproc hpid
  have hparent := contents_proc hproc hs
  obtain ⟨x, hx, hrun⟩ := Eff.bind_eq_ok.mp hrun
  cases (proc_eq hproc).symm.trans hx
  obtain ⟨copy, hcopy, hrun⟩ := Eff.bind_eq_ok.mp hrun
  rcases copy_cases ho hall h.copy with ⟨hmade, b', child, l', hcall, -⟩ | ⟨-, e', hcall⟩
  · obtain ⟨child', l'', hcall', hcontents⟩ := ForkFailures.forkCopy_contents huse hmade
    cases hcall.symm.trans hcopy
    cases hcall.symm.trans hcall'
    simp only [Server.processFork, hparent, hcontents, bind, Except.bind] at hsp
    dsimp only at hrun
    by_cases hneg : h.fork < 0
    · rw [if_pos hneg] at hrun hsp
      cases hrun
      cases hsp
      refine ⟨?_, rfl⟩
      show some (contents _) = some (s.procs ++ [_]).dropLast
      rw [List.dropLast_concat, hs]
      simp only [contents, List.dropLast_concat]
    · rw [if_neg hneg] at hrun hsp
      cases hrun
      cases hsp
      refine ⟨?_, ?_⟩
      · show some (contents _) = some (s.procs ++ [_])
        rw [contents_append, hs]
        rfl
      · show some (contents _) = some ((s.procs ++ [_]).set s.procs.length _)
        have hlen : s.procs.length = t.procs.length := by rw [hs, contents, List.length_map]
        have hset := contents_set ⟨t.procs ++ [some (t.ledger.heap.next, child)], l'⟩ t.procs.length
          (some (t.ledger.heap.next, { child with posixPID := h.fork })) l'
        rw [contents_append, ← hs] at hset
        rw [hlen]
        exact congrArg some hset
  · cases hcall.symm.trans hcopy

/-- A process is forked in both or in neither. -/
theorem fork_iff (ht : Formed t) (hl : stock t.ledger = owned t.procs + r)
    (hproc : t.procs[pid]? = some (some (b, o))) (hpid : 1 ≤ pid) (hs : s.procs = contents t) (h : ForkHost) :
    (Made o true h.copy → ∃ sp, s.processFork pid h = .ok sp) ∧
    (¬ Made o true h.copy → ∃ e, s.processFork pid h = .error e) := by
  obtain ⟨ho, -, huse⟩ := usable_of_proc ht hl hproc hpid
  have hparent := contents_proc hproc hs
  have hstrings : o.contents.name ≠ none ∧ o.contents.path ≠ none ∧ o.contents.cwd ≠ none := by
    obtain ⟨n, hn⟩ := ho.name
    obtain ⟨q, hq⟩ := ho.path
    obtain ⟨d, hd⟩ := ho.cwd
    simp [ProcessObj.contents, hn, hq, hd]
  obtain ⟨hcopies, hfails⟩ := Process.forkCopy_iff hstrings h.copy
  rw [huse.made_iff]
  refine ⟨fun hmade => ?_, fun hno => ?_⟩
  · obtain ⟨child, hchild⟩ := hcopies hmade
    simp only [Server.processFork, hparent, hchild, bind, Except.bind]
    split <;> exact ⟨_, rfl⟩
  · obtain ⟨e, he⟩ := hfails (Bool.eq_false_of_not_eq_true hno)
    exact ⟨e, by simp only [Server.processFork, hparent, he, bind, Except.bind]⟩

/-! ## Replacing a program -/

theorem syscallExec_contents (hfs : fs.containerPath = some c) (hc : 0 ∉ c) (hdir : Posix dir dirname) (ht : Formed t)
    {cs : List Cell} {v : Nat} (hl : stock t.ledger = owned t.procs + (ofBlocks (blocks cs ++ [v]) + r))
    (hproc : t.procs[pid]? = some (some (b, o))) (hpid : 1 ≤ pid) (hp : 0 ∉ path) (hs : s.procs = contents t)
    (hroot : s.filesystem = c) {h : ExecvHost} {self : Int} {fill : LoadFill}
    (hrun : t.syscallExec pid fs dir path cs.length ⟨v, cs.map .ptr⟩ h self fill = .ok e) (hend : e ≠ .terminated)
    (hsp : s.syscallExec pid path (cs.map (·.text)) h.exec self = .ok sp) : Agrees e sp := by
  have ho := (ht.shaped pid b o hproc).2 hpid
  have hnew : h.newProc = true := by
    cases hnew : h.newProc with
    | true => rfl
    | false =>
        simp only [ProcTable.syscallExec, ProcTable.proc, hproc, hnew, malloc_false, bind, Except.bind] at hrun
        cases hrun
        exact absurd rfl hend
  obtain ⟨d, hd⟩ := ho.cwd
  have hparent := contents_proc hproc hs
  have hcwd : o.contents.cwd = some d.text := by
    show o.cwd.map (·.text) = _
    rw [hd]
    rfl
  obtain ⟨q, hload, hcontents⟩ :=
    Loading.loadFileFS_contents hfs hc hdir hp { t.ledger with heap := t.ledger.heap.push } h.exec.load fill
  rcases load_cases hfs hc hdir hp (stock_push hl) h.exec.load fill with
    ⟨-, n, l', hload', -⟩ | ⟨-, n, l', hload', hn, hl'⟩
  · cases hload.symm.trans hload'
    simp [ProcTable.syscallExec, ProcTable.proc, hproc, hnew, hload, bind, Except.bind] at hrun
    simp [Server.syscallExec, hparent, hroot, hcontents, bind, Except.bind] at hsp
    subst hrun hsp
    exact ⟨congrArg some hs.symm, rfl⟩
  · cases hload.symm.trans hload'
    have hboth : stock l' = fields n + (fields o + (ofBlocks [t.ledger.heap.next] + ofBlocks [b] + others t pid +
        (ofBlocks (blocks cs ++ [v]) + r))) := by
      rw [hl', owned_proc hproc]
      abel
    obtain ⟨ret₁, ret₂, n₁, l₁, n₂, l₂, hset₁, hset₂, -, hstate, -, -⟩ := inherit_stock hn ho hboth h.exec
    have henv : n₁.contents = (n.contents.setEnviron o.contents.environ h.exec.environ h.exec.environEntry).2 := by
      obtain ⟨n', l'', hset, hn'⟩ := EnvironCopy.setEnviron_contents (l := l') (o := n) o.environ h.exec.environ
        h.exec.environEntry (fun a ha => absurd (ha.symm.trans hn.noEnviron) (Option.some_ne_none a)) (fun a ha => by
          obtain ⟨ro, hro⟩ := fields_with o
          have hold : fields o = ofEnviron o.environ + (ofCell o.cwd + ro) := hro o.environ o.infoEnviron o.cwd
          rw [hold, ha, add_left_comm, add_assoc] at hboth
          refine ⟨readable_of_stock (ho.environ a ha) hboth, fun old hold => ?_⟩
          exact absurd (hold.symm.trans hn.noEnviron) (Option.some_ne_none old))
      cases hset₁.symm.trans hset
      exact hn'
    have hdirs : n₂.contents = (n₁.contents.setCwd d.text h.exec.cwd).2 := by
      rw [hd] at hset₂
      exact setCwd_contents hset₂
    cases hdel : ProcTable.delete l₂ (b, o) with
    | error e' =>
        simp [ProcTable.syscallExec, ProcTable.proc, hproc, hnew, hload, hset₁, hset₂, hdel, bind, Except.bind] at hrun
    | ok l₃ =>
        simp [ProcTable.syscallExec, ProcTable.proc, hproc, hnew, hload, hset₁, hset₂, hdel, arun, hstate, bind,
          Except.bind] at hrun
        subst hrun
        cases hfree : s.processFree o.contents h.exec.close with
        | error e' => simp [Server.syscallExec, hparent, hroot, hcontents, hcwd, hfree, bind, Except.bind] at hsp
        | ok r' =>
            have hran : n₂.contents.arun false (cs.map (·.text)) 0 self =
                ⟨true, some (n₂.contents.started (cs.map (·.text)) self)⟩ := by
              unfold Process.arun
              exact if_neg (not_not_intro hstate)
            simp [Server.syscallExec, hparent, hroot, hcontents, hcwd, hfree, ← henv, ← hdirs, hran, bind,
              Except.bind] at hsp
            subst hsp
            refine ⟨?_, rfl⟩
            show some (contents _) = some (r'.srv.procs.set pid _)
            rw [contents_set, Server.processFree_procs hfree, hs]
            exact congrArg (fun p => some ((contents t).set pid (some p)))
              (ArgVector.started_contents n₂ v self)

theorem execv_contents (hfs : fs.containerPath = some c) (hc : 0 ∉ c) (hdir : Posix dir dirname) (ht : Formed t)
    (hl : stock t.ledger = owned t.procs + r) (hproc : t.procs[pid]? = some (some (b, o))) (hpid : 1 ≤ pid)
    (hp : 0 ∉ path) {args : List Cell} (hargs : ∀ c ∈ args, c.block ∈ t.ledger.heap.live) (hs : s.procs = contents t)
    (hroot : s.filesystem = c) {h : ExecvHost} {self : Int} {fill : LoadFill}
    (hrun : t.execv pid fs dir path args h self fill = .ok e) (hend : e ≠ .terminated)
    (hsp : (if h.copy.argv = true ∧ allocsOk args.length h.copy.arg = true then
      s.syscallExec pid path (args.map (·.text)) h.exec self else .ok { ret := -1, srv := s }) = .ok sp) :
    Agrees e sp := by
  cases hargv : h.copy.argv with
  | false =>
      rw [if_neg fun hall => Bool.false_ne_true (hargv.symm.trans hall.1)] at hsp
      simp only [ProcTable.execv, hargv, malloc_false] at hrun
      cases hrun
      cases hsp
      exact ⟨congrArg some hs.symm, rfl⟩
  | true =>
      obtain ⟨cs, m, hgrown, hcases⟩ := buildArgv_cases t.ledger h.copy.arg args.length hargs
      rw [← allocsOk_iff, Nat.sub_self, List.replicate_zero, List.append_nil] at hcases
      rcases hcases with ⟨-, hok, htexts, hcopy⟩ | ⟨hfail, rest, hcopy⟩ | ⟨hshort, -⟩
      · have hlen : cs.length = args.length := by
          have hlen := congrArg List.length htexts
          simpa using hlen
        have hmade : stock { t.ledger with heap := m } = owned t.procs +
            (ofBlocks (blocks cs ++ [t.ledger.heap.next]) + r) := (hl ▸ grown_stock hgrown).trans (add_left_comm _ _ _)
        simp only [ProcTable.execv, hargv, malloc_true, hcopy, bind, Except.bind, if_true] at hrun
        rw [← hlen] at hrun
        rw [if_pos ⟨hargv, hok⟩, ← htexts] at hsp
        exact syscallExec_contents (t := { t with ledger := { t.ledger with heap := m } }) hfs hc hdir (ht.ledger _)
          hmade hproc hpid hp hs hroot hrun hend hsp
      · rw [if_neg fun hall => hfail hall.2] at hsp
        simp only [ProcTable.execv, hargv, malloc_true, hcopy, bind, Except.bind] at hrun
        cases hfree : Ledger.freeArgv { t.ledger with heap := m } ⟨t.ledger.heap.next, cs.map .ptr ++ .null :: rest⟩
          cs.length with
        | error e' =>
            rw [hfree] at hrun
            cases hrun
        | ok l' =>
            rw [hfree] at hrun
            cases hrun
            cases hsp
            exact ⟨congrArg some hs.symm, rfl⟩
      · exact absurd hshort (Nat.lt_irrefl _)

/-! ## All of them -/

/-- The operation of the server, by what is written in the arguments; `close` answers for the descriptors of a
    process that exits. -/
def onServer (s : Server) (close : Nat → Int) : TableOp → Eff Spawned
  | .start path args _ h _ => s.startProcess path (args.map (·.text)) h
  | .fork pid _ h => s.processFork pid h
  | .execv pid path args h self _ =>
      if h.copy.argv = true ∧ allocsOk args.length h.copy.arg = true then
        s.syscallExec pid path (args.map (·.text)) h.exec self
      else .ok { ret := -1, srv := s }
  | .exit pid => s.syscallExit pid close
  | .chdir pid path ok => do
      let (ret, s) ← s.syscallChDir pid path.text ok
      .ok { ret, srv := s }

/-- **One operation**: what it leaves in the objects is what that of the server leaves. -/
theorem op_contents (hfs : fs.containerPath = some c) (hc : 0 ∉ c) (hdir : Posix dir dirname) (ht : Formed t)
    (hl : stock t.ledger = owned t.procs + r) (hs : s.procs = contents t) (hroot : s.filesystem = c) {op : TableOp}
    (hop : Allowed t op) {close : Nat → Int} (hrun : op.run fs dir t = .ok e) (hend : e ≠ .terminated)
    (hsp : onServer s close op = .ok sp) : Agrees e sp := by
  cases op with
  | start path args newProc h fill =>
      obtain ⟨hp, hfits, hargs⟩ := hop
      cases newProc with
      | true => exact start_contents hfs hc hdir ht hl hp hfits hargs hs hroot hrun hsp
      | false =>
          cases hrun
          exact absurd rfl hend
  | fork pid newProc h =>
      obtain ⟨hpid, b, o, hproc⟩ := hop
      cases newProc with
      | true => exact fork_contents ht hl hproc hpid hs hrun hsp
      | false =>
          simp only [TableOp.run, ProcTable.processFork, ProcTable.proc, hproc, forkCopy, malloc_false, bind,
            Except.bind] at hrun
          cases hrun
          exact absurd rfl hend
  | execv pid path args h self fill =>
      obtain ⟨⟨hpid, b, o, hproc⟩, hp, -, hargs⟩ := hop
      exact execv_contents hfs hc hdir ht hl hproc hpid hp hargs hs hroot hrun hend hsp
  | exit pid => exact exit_contents hs hrun hsp
  | chdir pid path ok =>
      obtain ⟨⟨-, b, o, hproc⟩, -⟩ := hop
      obtain ⟨⟨ret, s'⟩, hchdir, hsp⟩ := Eff.bind_eq_ok.mp hsp
      cases hsp
      exact chdir_contents hproc hs hrun hchdir

/-- A fork whose copy fails, whether or not there is memory for the object. -/
def CopyFails (t : ProcTable) : TableOp → Prop
  | .fork pid _ h => ∀ b o, t.procs[pid]? = some (some (b, o)) → ¬ Made o true h.copy
  | _ => False

/-- It does not return. -/
theorem not_copyFails (ht : Formed t) (hl : stock t.ledger = owned t.procs + r) {op : TableOp} (hop : Allowed t op)
    (hrun : op.run fs dir t = .ok e) (hend : e ≠ .terminated) : ¬ CopyFails t op := by
  cases op with
  | fork pid newProc h =>
      obtain ⟨hpid, b, o, hproc⟩ := hop
      obtain ⟨ho, hall, -⟩ := usable_of_proc ht hl hproc hpid
      intro hfails
      cases newProc with
      | true =>
          rcases copy_cases ho hall h.copy with ⟨hmade, -⟩ | ⟨-, e', he⟩
          · exact hfails b o hproc hmade
          · simp only [TableOp.run, ProcTable.processFork, ProcTable.proc, hproc, he, bind, Except.bind] at hrun
            cases hrun
      | false =>
          simp only [TableOp.run, ProcTable.processFork, ProcTable.proc, hproc, forkCopy, malloc_false, bind,
            Except.bind] at hrun
          cases hrun
          exact hend rfl
  | start path args newProc h fill => exact id
  | execv pid path args h self fill => exact id
  | exit pid => exact id
  | chdir pid path ok => exact id

/-- The operation of the server has defined behaviour, unless the copy fails. -/
theorem onServer_cases (ht : Formed t) (hl : stock t.ledger = owned t.procs + r) (hs : s.procs = contents t)
    (hinv : FdInv s) {op : TableOp} (hop : Allowed t op) (close : Nat → Int) :
    (¬ CopyFails t op ∧ ∃ sp, onServer s close op = .ok sp) ∨
      (CopyFails t op ∧ ∃ e, onServer s close op = .error e) := by
  cases op with
  | start path args newProc h fill =>
      have hne : s.procs ≠ [] := by
        rw [hs, contents, Ne, List.map_eq_nil_iff]
        exact ht.dummy
      refine Or.inl ⟨id, ?_⟩
      rcases Server.startProcess_cases hne path (args.map (·.text)) h with ⟨-, hstart⟩ | ⟨-, hstart⟩
      · exact ⟨_, hstart⟩
      · exact ⟨_, hstart⟩
  | fork pid newProc h =>
      obtain ⟨hpid, b, o, hproc⟩ := hop
      obtain ⟨hcopies, hfails⟩ := fork_iff ht hl hproc hpid hs h
      by_cases hmade : Made o true h.copy
      · exact Or.inl ⟨fun hno => hno b o hproc hmade, hcopies hmade⟩
      · refine Or.inr ⟨fun b' o' hproc' => ?_, hfails hmade⟩
        cases hproc.symm.trans hproc'
        exact hmade
  | execv pid path args h self fill =>
      obtain ⟨⟨hpid, b, o, hproc⟩, -⟩ := hop
      have hcwd : o.contents.cwd ≠ none := by
        obtain ⟨d, hd⟩ := ((ht.shaped pid b o hproc).2 hpid).cwd
        simp [ProcessObj.contents, hd]
      refine Or.inl ⟨id, ?_⟩
      by_cases hcopied : h.copy.argv = true ∧ allocsOk args.length h.copy.arg = true
      · obtain ⟨sp, hsp⟩ :=
          Exec.syscallExec_ok hinv (contents_proc hproc hs) hcwd path (args.map (·.text)) h.exec self
        exact ⟨sp, (if_pos hcopied).trans hsp⟩
      · exact ⟨_, if_neg hcopied⟩
  | exit pid =>
      obtain ⟨-, b, o, hproc⟩ := hop
      have hcurr := contents_proc hproc hs
      obtain ⟨r', hfree, -⟩ := hinv.free hcurr close
      refine Or.inl ⟨id, ⟨0, r'.srv.setProc pid none, none, r'.calls⟩, ?_⟩
      simp only [onServer, Server.syscallExit, hcurr, hfree, bind, Except.bind]
  | chdir pid path ok =>
      obtain ⟨⟨-, b, o, hproc⟩, -⟩ := hop
      refine Or.inl ⟨id, ?_⟩
      simp only [onServer, Server.syscallChDir, contents_proc hproc hs, bind, Except.bind]
      exact ⟨_, rfl⟩

/-! ## Runs -/

/-- Closing the descriptors of a process leaves the container. -/
theorem freeFds_filesystem {close : Nat → Int} {left procFd : Nat} {s : Server} {proc : Process} {res : FdResult}
    (hr : Server.freeFds close left procFd s proc = .ok res) : res.srv.filesystem = s.filesystem := by
  induction left generalizing procFd s proc res with
  | zero =>
      cases hr
      rfl
  | succ left ih =>
      unfold Server.freeFds at hr
      split at hr
      · cases hr
      · split at hr
        · exact ih hr
        · split at hr
          · cases hr
          · next r₁ hclose =>
              split at hr
              · cases hr
              · next r₂ hrest =>
                  cases hr
                  refine (ih hrest).trans ?_
                  rcases Server.fdClose_inv hclose with ⟨-, -, ⟨socks, hsrv⟩, -⟩ | ⟨-, -, entries, socks, hsrv⟩
                  · rw [hsrv]
                  · rw [hsrv]

theorem onServer_filesystem {close : Nat → Int} {op : TableOp} (hsp : onServer s close op = .ok sp) :
    sp.srv.filesystem = s.filesystem ∧ ∀ s', sp.child = some s' → s'.filesystem = s.filesystem := by
  cases op with
  | start path args newProc h fill =>
      obtain ⟨⟨procs, hsrv⟩, hchild⟩ := MainLoop.startProcess_only hsp
      refine ⟨by rw [hsrv], fun s' hs' => ?_⟩
      obtain ⟨procs', rfl⟩ := hchild s' hs'
      rfl
  | fork pid newProc h =>
      rcases Server.processFork_cases hsp with ⟨-, rfl⟩ | ⟨child, -, -, -, rfl⟩
      · exact ⟨rfl, nofun⟩
      · refine ⟨rfl, fun s' hs' => ?_⟩
        cases hs'
        rfl
  | execv pid path args h self fill =>
      have hsp : (if h.copy.argv = true ∧ allocsOk args.length h.copy.arg = true then
        s.syscallExec pid path (args.map (·.text)) h.exec self else .ok { ret := -1, srv := s }) = .ok sp := hsp
      split at hsp
      · rcases Server.syscallExec_exact hsp with ⟨-, rfl⟩ | ⟨curr, cwd, r', -, -, -, hfree, rfl⟩
        · exact ⟨rfl, nofun⟩
        · exact ⟨freeFds_filesystem hfree, nofun⟩
      · cases hsp
        exact ⟨rfl, nofun⟩
  | exit pid =>
      obtain ⟨curr, r', -, hfree, rfl⟩ := Server.syscallExit_cases hsp
      exact ⟨freeFds_filesystem hfree, nofun⟩
  | chdir pid path ok =>
      obtain ⟨⟨ret, s'⟩, hchdir, hsp⟩ := Eff.bind_eq_ok.mp hsp
      cases hsp
      obtain ⟨curr, -, hset⟩ := Server.syscallChDir_only hchdir
      exact ⟨by rw [hset]; rfl, nofun⟩

/-- The table has what the server has in it, and its memory is accounted for. -/
structure Matches (c : CStr) (im : Image) (s : Server) : Prop where
  formed : Formed im.table
  stock : ∃ r, stock im.table.ledger = held im + r
  procs : s.procs = contents im.table
  inv : FdInv s
  filesystem : s.filesystem = c

/-- The image of the server behind an operation; what the programs allocate is not in it. The label has the answers
    to closing the descriptors of a process that exits too. -/
inductive ServerStep (s : Server) : Act × (Nat → Int) → Server → Prop
  | op {o : TableOp} {child : Bool} {close : Nat → Int} {sp : Spawned} {s' : Server} (hsp : onServer s close o = .ok sp)
      (hserver : (if child then sp.child else some sp.srv) = some s') : ServerStep s (.op o child, close) s'
  | malloc {close : Nat → Int} : ServerStep s (.malloc, close) s
  | free {b : Nat} {close : Nat → Int} : ServerStep s (.free b, close) s

/-- A step in an image with its memory, which does not ask for these answers. -/
def MemoryStep (fs : FSDirect) (dir : Dirname) (im : Image) (l : Act × (Nat → Int)) (im' : Image) : Prop :=
  Step fs dir im l.1 im'

/-- Linked tables are so in both images an operation leaves. -/
theorem onServer_inv {close : Nat → Int} {op : TableOp} (hinv : FdInv s) (hsp : onServer s close op = .ok sp) :
    FdInv sp.srv ∧ ∀ s', sp.child = some s' → FdInv s' := by
  have himage : ∀ i : FdTable.ImageOp, i.run s = .ok sp → FdInv sp.srv ∧ ∀ s', sp.child = some s' → FdInv s' := by
    intro i hrun
    have hkept : ∀ s', sp.srv = s' ∨ sp.child = some s' → FdInv s' := fun s' hs' =>
      (FdTable.kept_step (l := (i, sp.calls)) hinv ⟨sp, hrun, rfl, hs'⟩).inv
    exact ⟨hkept sp.srv (Or.inl rfl), fun s' hs' => hkept s' (Or.inr hs')⟩
  cases op with
  | start path args newProc h fill =>
      have hstart : (FdTable.ImageOp.start path (args.map (·.text)) h).run s = .ok sp := by
        rw [FdTable.ImageOp.run, ← hsp, onServer]
      exact himage _ hstart
  | fork pid newProc h =>
      have hfork : (FdTable.ImageOp.fork pid h).run s = .ok sp := by
        rw [FdTable.ImageOp.run, ← hsp, onServer]
      exact himage _ hfork
  | execv pid path args h self fill =>
      have hsp : (if h.copy.argv = true ∧ allocsOk args.length h.copy.arg = true then
        s.syscallExec pid path (args.map (·.text)) h.exec self else .ok { ret := -1, srv := s }) = .ok sp := hsp
      split at hsp
      · have hexec : (FdTable.ImageOp.exec pid path (args.map (·.text)) h.exec self).run s = .ok sp := by
          rw [FdTable.ImageOp.run, hsp]
        exact himage _ hexec
      · cases hsp
        exact ⟨hinv, nofun⟩
  | exit pid =>
      have hexit : (FdTable.ImageOp.exit pid close).run s = .ok sp := by
        rw [FdTable.ImageOp.run, ← hsp, onServer]
      exact himage _ hexit
  | chdir pid path ok =>
      obtain ⟨⟨ret, s'⟩, hchdir, hsp⟩ := Eff.bind_eq_ok.mp hsp
      cases hsp
      exact ⟨Server.syscallChDir_inv hinv hchdir, nofun⟩

/-- **One step**: the server takes it too. -/
theorem step_matched (hfs : fs.containerPath = some c) (hc : 0 ∉ c) (hdir : Posix dir dirname) {im im' : Image}
    {a : Act × (Nat → Int)} (hx : Matches c im s) (hstep : MemoryStep fs dir im a im') :
    ∃ s', ServerStep s a s' ∧ Matches c im' s' := by
  obtain ⟨a, close⟩ := a
  obtain ⟨r, hr⟩ := hx.stock
  obtain ⟨hformed, d, -, hl'⟩ := step_accounted hfs hc hdir hstep hx.formed hr
  cases hstep with
  | @op o e child t' hop hrun himage =>
      have hl : Stock.stock im.table.ledger = owned im.table.procs + (ofBlocks im.programs + r) :=
        hr.trans (add_assoc _ _ _)
      have hend : e ≠ .terminated := by
        rintro rfl
        cases himage
      rcases onServer_cases hx.formed hl hx.procs hx.inv hop close with ⟨-, sp, hsp⟩ | ⟨hfails, -⟩
      · obtain ⟨hcaller, hchild⟩ := op_contents hfs hc hdir hx.formed hl hx.procs hx.filesystem hop hrun hend hsp
        obtain ⟨hroot, hroots⟩ := onServer_filesystem hsp
        obtain ⟨hinv, hinvs⟩ := onServer_inv hx.inv hsp
        cases child with
        | false =>
            rw [himage] at hcaller
            exact ⟨sp.srv, .op hsp rfl, hformed, ⟨_, hl'⟩, (Option.some.inj hcaller).symm, hinv,
              hroot.trans hx.filesystem⟩
        | true =>
            rw [himage] at hchild
            obtain ⟨s', hs', hprocs⟩ := Option.map_eq_some_iff.mp hchild.symm
            exact ⟨s', .op hsp hs', hformed, ⟨_, hl'⟩, hprocs, hinvs s' hs', (hroots s' hs').trans hx.filesystem⟩
      · exact absurd hfails (not_copyFails hx.formed hl hop hrun hend)
  | malloc hb =>
      cases hb
      exact ⟨s, .malloc, hformed, ⟨_, hl'⟩, hx.procs, hx.inv, hx.filesystem⟩
  | free hb hfree =>
      exact ⟨s, .free, hformed, ⟨_, hl'⟩, hx.procs, hx.inv, hx.filesystem⟩

/-- **The table with its memory refines the table of the server.** Let both have the same in them. Then a run of the
    first, through whatever images it goes and whatever the host answers, is one of the second, by the same
    operations and with the same in the tables at its end. There the one faults where the other does, unless it has
    no memory for the object of a fork. -/
theorem run_contents (hfs : fs.containerPath = some c) (hc : 0 ∉ c) (hdir : Posix dir dirname) {im im' : Image}
    {tr : List (Image × (Act × (Nat → Int)) × Image)} (hrun : Machine.Run (MemoryStep fs dir) im tr im')
    (hformed : Formed im.table) (hstock : stock im.table.ledger = held im + r) (hs : s.procs = contents im.table)
    (hinv : FdInv s) (hroot : s.filesystem = c) :
    ∃ tr' s', Machine.Run ServerStep s tr' s' ∧ tr'.map (·.2.1) = tr.map (·.2.1) ∧ s'.procs = contents im'.table ∧
      ∀ op, Allowed im'.table op → ∀ close,
        ((∃ e, op.run fs dir im'.table = .error e) → ∃ e, onServer s' close op = .error e) ∧
        ((∃ e, onServer s' close op = .error e) →
          (∃ e, op.run fs dir im'.table = .error e) ∨ op.run fs dir im'.table = .ok .terminated) := by
  obtain ⟨tr', s', hserver, hacts, hmatch⟩ := hrun.simulated id
    (fun im a im' s hx hstep => step_matched hfs hc hdir hx hstep)
    (⟨hformed, ⟨r, hstock⟩, hs, hinv, hroot⟩ : Matches c im s)
  obtain ⟨q, hq⟩ := hmatch.stock
  have hl : Stock.stock im'.table.ledger = owned im'.table.procs + (ofBlocks im'.programs + q) :=
    hq.trans (add_assoc _ _ _)
  refine ⟨tr', s', hserver, hacts, hmatch.procs, fun op hop close => ?_⟩
  have hcases := onServer_cases hmatch.formed hl hmatch.procs hmatch.inv hop close
  constructor
  · rintro ⟨e, he⟩
    rcases run_ends hfs hc hdir hmatch.formed hl op hop with ⟨-, e', hends, -⟩ | ⟨hstuck, -⟩
    · cases he.symm.trans hends
    · rcases hcases with ⟨hno, -⟩ | ⟨-, hfault⟩
      · refine absurd ?_ hno
        cases op with
        | fork pid newProc h => exact hstuck.2
        | start path args newProc h fill => exact hstuck
        | execv pid path args h self fill => exact hstuck
        | exit pid => exact hstuck
        | chdir pid path ok => exact hstuck
      · exact hfault
  · rintro ⟨e, he⟩
    rcases hcases with ⟨-, sp, hsp⟩ | ⟨hfails, -⟩
    · cases he.symm.trans hsp
    · cases hcall : op.run fs dir im'.table with
      | error e' => exact Or.inl ⟨e', rfl⟩
      | ok e' =>
          refine Or.inr (congrArg _ (Classical.byContradiction fun hend => ?_))
          exact not_copyFails hmatch.formed hl hop hcall hend hfails

/-- A fork of the first program, where all goes well. -/
def forkInit : TableOp :=
  .fork 1 true ⟨⟨true, fun _ => true, true, true, true, true, true, true, fun _ => true⟩, 102⟩

/-- The first program is started, and forks in its own image. -/
theorem run_contents_init :
    ∃ (fs : FSDirect) (im' : Image) (s' : Server) (tr : List (Image × (Act × (Nat → Int)) × Image))
      (tr' : List (Server × (Act × (Nat → Int)) × Server)),
      Machine.Run (MemoryStep fs Loading.dirnameCut) ⟨constructed, []⟩ tr im' ∧
      Machine.Run ServerStep { filesystem := bytes "/srv/" } tr' s' ∧ tr'.map (·.2.1) = tr.map (·.2.1) ∧
      s'.procs = contents im'.table ∧
      s'.procs.map (Option.map (·.state)) = [some .none, some .running, some .running] := by
  let fs : FSDirect := { containerPath := some (bytes "/srv/") }
  obtain ⟨e, t, e', t', hstart, himage, hfork, himage', hruns, hstates⟩ :
      ∃ e t e' t', startInit.run fs Loading.dirnameCut constructed = .ok e ∧ e.image true = some t ∧
        forkInit.run fs Loading.dirnameCut t = .ok e' ∧ e'.image true = some t' ∧
        (∃ b o, t.procs[1]? = some (some (b, o))) ∧
        (contents t').map (Option.map (·.state)) = [some .none, some .running, some .running] :=
    ⟨_, _, _, _, rfl, rfl, rfl, rfl, ⟨_, _, rfl⟩, rfl⟩
  have hfirst : MemoryStep fs Loading.dirnameCut ⟨constructed, []⟩ (.op startInit true, fun _ => 0) ⟨t, []⟩ :=
    .op ⟨by decide, by decide, nofun⟩ hstart himage
  have hsecond : MemoryStep fs Loading.dirnameCut ⟨t, []⟩ (.op forkInit true, fun _ => 0) ⟨t', []⟩ :=
    .op ⟨le_refl 1, hruns⟩ hfork himage'
  have hrun := (Machine.Run.single hfirst).tail hsecond
  have hunopened : FdTable.Unopened { filesystem := bytes "/srv/" } := by
    refine ⟨fun v => ?_, fun pid => ?_, fun k hk => ?_, fun {k j} hk => ?_⟩
    · simp [Server.fdGet]
    · cases pid <;> rfl
    · cases hk
    · cases hk
  obtain ⟨tr', s', hserver, hacts, hprocs, -⟩ :=
    run_contents (r := 0) (rfl : fs.containerPath = some (bytes "/srv/")) (by decide) Loading.dirnameCut_posix hrun
      constructed_formed rfl rfl hunopened.fdInv rfl
  exact ⟨fs, _, s', _, tr', hrun, hserver, hacts, hprocs, hprocs ▸ hstates⟩

end TableContents
end DistributedPlatform
