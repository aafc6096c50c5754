import DistributedPlatform.Correctness.PidTable

/-!
# `Correctness.Pids` — who made a system call, and under which PID

`serverSysCall` takes the first entry of the caller's image whose host process id is the caller's. Entries of
ended ancestors stay in every copy of the table, so the search is right as long as no fork gets an id that
is still recorded in the forking image: that an id is not that of a *live* process is not enough
(`attributed_iff_newPid`). Indices are given out by each image on its own, so that PIDs are distinct asks for
more: the length of the forking image's table must not be the PID of any live process
(`distinct_iff_unusedPid`).

Both rest on `step_seen`: a step adds at most one process to what is seen of the live ones, and the search
finds the others where it found them before.
-/

namespace DistributedPlatform
namespace Pids

open Machine Server World

/-! ## What a step does -/

/-- The event makes a child with the host process id `F`, forked from the image `s`. -/
inductive Births (w : World) : Event → Int → Server → Prop
  | start {path : CStr} {args : List CStr} {h : StartHost} :
      path.head? = some 47 → h.succeeds args.length = true →
      Births w (.start path args h) h.run.fork w.server
  | fork {self : Int} {h : SysHost} {m : Member} {pid : Nat} :
      w.live self = some m → m.image.findCaller self = some pid → m.image.Forks pid h.fork →
      Births w (.call self .processFork h) h.fork.fork m.image

theorem Births.unique {w : World} {e : Event} {F G : Int} {s t : Server} (h : Births w e F s)
    (h' : Births w e G t) : F = G ∧ s = t := by
  cases h with
  | start _ _ => cases h'; exact ⟨rfl, rfl⟩
  | fork hm _ _ =>
      cases h' with
      | fork hm' _ _ =>
          rw [hm] at hm'
          cases hm'
          exact ⟨rfl, rfl⟩

/-- Of a live process: the index of its entry, and the index the search finds for it. -/
def seen (w : World) (self : Int) : Option (Nat × Option Nat) :=
  (w.live self).map fun m => (m.own, m.image.findCaller self)

/-- No entry of the server's own image records a host process id: what it starts, it starts in a child. -/
structure Quiet (w : World) : Prop where
  dummy : w.server.procs ≠ []
  pids : ∀ self, 0 < self → w.server.findCaller self = none

theorem Quiet.of_booted {w : World} (h : Booted w) : Quiet w where
  dummy := h.dummy
  pids self hself := by
    rw [findCaller_eq_none]
    intro hmem
    obtain ⟨x, hx, hsome⟩ := List.mem_map.mp hmem
    obtain ⟨p, rfl, hp⟩ := Option.map_eq_some_iff.mp hsome
    have hneg := h.pids (some p) hx p rfl
    omega

/-- Where the caller of a new process is found: at its own entry, or before it. -/
def foundAt (s : Server) (F : Int) : Nat := (s.findCaller F).getD s.procs.length

theorem findCaller_child {s t : Server} {F : Int} (ht : pids t = pids s ++ [some F]) :
    t.findCaller F = some (foundAt s F) := by
  unfold foundAt
  cases hs : s.findCaller F with
  | none => exact findCaller_new ht hs
  | some i => exact findCaller_append ht hs

theorem seen_put_self (w : World) (F : Int) (m : Member) :
    seen (w.put F (some m)) F = some (m.own, m.image.findCaller F) := by
  simp [seen]

theorem seen_put_ne {w : World} {F q : Int} (h : q ≠ F) (m : Option Member) :
    seen (w.put F m) q = seen w q := by
  unfold seen
  rw [put_live_ne h]

/-- The child joins: only what is seen at its id changes. -/
theorem seen_spawn (w : World) (F : Int) {s child : Server} (hc : pids child = pids s ++ [some F]) :
    seen (w.spawn F s.procs.length (some child)) =
      Function.update (seen w) F (some (s.procs.length, some (foundAt s F))) := by
  funext q
  by_cases hq : q = F
  · subst hq
    rw [Function.update_self]
    change seen (w.put q _) q = _
    rw [seen_put_self, findCaller_child hc]
  · rw [Function.update_of_ne hq]
    exact seen_put_ne hq _

/-- The caller returns with an image in which it is found as before: nothing that is seen changes. -/
theorem seen_returned {w : World} {self : Int} {m : Member} {op : ServerOp} {image : Server}
    (hm : w.live self = some m) (hexit : op.isExit = false)
    (himage : image.findCaller self = m.image.findCaller self) :
    seen (w.returned self m op image) = seen w := by
  funext q
  by_cases hq : q = self
  · subst hq
    unfold returned
    rw [hexit, if_neg Bool.false_ne_true, seen_put_self, himage]
    simp [seen, hm]
  · exact seen_put_ne hq _

/-- A process that is gone is not seen, and the others are seen as before. -/
theorem seen_gone (w : World) (self q : Int) :
    seen (w.put self none) q = none ∨ seen (w.put self none) q = seen w q := by
  by_cases hq : q = self
  · subst hq
    exact Or.inl (by simp [seen])
  · exact Or.inr (seen_put_ne hq none)

/-- Without a child some processes may be gone and nothing else changes; with one, it joins the live
    processes. -/
def Joins (w : World) (e : Event) (u : World) : Prop :=
  (∀ F s, ¬ Births w e F s) ∧ (∀ q, seen u q = none ∨ seen u q = seen w q) ∨
    ∃ F s, Births w e F s ∧ w.Free F ∧
      seen u = Function.update (seen w) F (some (s.procs.length, some (foundAt s F)))

/-- The server starts a program: an entry is added that records no id in the server's own image. -/
theorem joins_start {w : World} (hw : Quiet w) {path : CStr} {args : List CStr} {h : StartHost}
    {r : Spawned} (hrun : w.server.startProcess path args h = .ok r)
    (hfree : r.child ≠ none → w.Free h.run.fork) :
    Quiet { w with server := r.srv } ∧
      Joins w (.start path args h)
        ({ w with server := r.srv }.spawn h.run.fork w.server.procs.length r.child) := by
  obtain ⟨r', hrun', hne, hpids, hchild⟩ := startProcess_pids hw.dummy path args h
  rw [hrun] at hrun'
  cases hrun'
  constructor
  · refine ⟨hne, fun self hself => ?_⟩
    have hold := findCaller_eq_none.mp (hw.pids self hself)
    rw [findCaller_eq_none]
    rcases hpids with heq | heq <;> rw [heq]
    · exact hold
    · intro hmem
      rcases List.mem_append.mp hmem with hmem | hmem
      · exact hold hmem
      · have hneg : self = -1 := by simpa using hmem
        omega
  · rcases hchild with ⟨hno, hnone⟩ | ⟨⟨habs, hok⟩, child, hsome, hc⟩
    · rw [hnone]
      refine Or.inl ⟨?_, fun q => Or.inr rfl⟩
      intro F s hb
      cases hb with
      | start habs hok => exact hno ⟨habs, hok⟩
    · have hF : w.Free h.run.fork := hfree (by rw [hsome]; exact Option.some_ne_none _)
      rw [hsome]
      refine Or.inr ⟨_, _, .start habs hok, hF, ?_⟩
      exact seen_spawn { w with server := r.srv } h.run.fork hc

/-- A process forks. -/
theorem joins_fork {w : World} {self : Int} {h : SysHost} {m : Member} {pid : Nat} {r : SysResult}
    (hm : w.live self = some m) (hpid : m.image.findCaller self = some pid)
    (hrun : m.image.perform pid .processFork h = .ok r) (hfree : r.child ≠ none → w.Free h.fork.fork) :
    Joins w (.call self .processFork h)
      ((w.returned self m .processFork r.srv).spawn h.fork.fork m.image.procs.length r.child) := by
  rcases perform_fork hrun with ⟨hno, hnone, hsrv⟩ | ⟨hforks, -, hpids, child, hsome, hc⟩
  · rw [hnone, hsrv]
    refine Or.inl ⟨?_, fun q => Or.inr (congrFun (seen_returned hm rfl rfl) q)⟩
    intro F s hb
    cases hb with
    | fork hm' hpid' hforks =>
        rw [hm] at hm'; cases hm'
        rw [hpid] at hpid'; cases hpid'
        exact hno hforks
  · have hF : w.Free h.fork.fork := hfree (by rw [hsome]; exact Option.some_ne_none _)
    have hcaller : r.srv.findCaller self = m.image.findCaller self := by
      rw [hpid]
      exact findCaller_append hpids hpid
    rw [hsome]
    refine Or.inr ⟨_, _, .fork hm hpid hforks, hF, ?_⟩
    rw [seen_spawn _ _ hc, seen_returned hm rfl hcaller]

/-- A process makes any other system call. -/
theorem joins_other {w : World} {self : Int} {op : ServerOp} {h : SysHost} {m : Member} {pid : Nat}
    {r : SysResult} (hm : w.live self = some m) (hpid : m.image.findCaller self = some pid)
    (hself : h.self = self) (hfork : op ≠ .processFork) (hrun : m.image.perform pid op h = .ok r) :
    Joins w (.call self op h)
      ((w.returned self m op r.srv).spawn h.fork.fork m.image.procs.length r.child) := by
  have hbirth : ∀ F s, ¬ Births w (.call self op h) F s := by
    intro F s hb
    cases hb
    exact hfork rfl
  by_cases hexit : op.isExit = true
  · -- the caller is gone, and there is no child
    rw [perform_exit hexit hrun]
    refine Or.inl ⟨hbirth, fun q => ?_⟩
    unfold spawn returned
    rw [hexit]
    exact seen_gone w self q
  · have hexit' : op.isExit = false := by simpa using hexit
    obtain ⟨hnone, hpids⟩ := perform_other hfork hexit' hrun
    have hcaller : r.srv.findCaller self = m.image.findCaller self := by
      rcases hpids with heq | heq
      · exact findCaller_congr heq self
      · rw [hself] at heq
        rw [hpid]
        exact findCaller_set hpid heq
    rw [hnone]
    exact Or.inl ⟨hbirth, fun q => Or.inr (congrFun (seen_returned hm hexit' hcaller) q)⟩

/-- **What a step does.** At most one process joins those that are seen, the others are seen as before, and
    the server's own image records no id. -/
theorem step_seen {w u : World} {e : Event} (hw : Quiet w) (h : Step w e u) :
    Quiet u ∧ Joins w e u := by
  cases h with
  | @start path args h r hrun hfree =>
      obtain ⟨hquiet, hjoins⟩ := joins_start hw hrun hfree
      refine ⟨?_, hjoins⟩
      cases r.child <;> exact ⟨hquiet.dummy, hquiet.pids⟩
  | @call self op h m pid r hm hpid hself hrun hfree =>
      refine ⟨?_, ?_⟩
      · cases r.child <;> exact ⟨hw.dummy, hw.pids⟩
      · by_cases hfork : op = .processFork
        · subst hfork
          exact joins_fork hm hpid hrun hfree
        · exact joins_other hm hpid hself hfork hrun
  | @unknown self op h m hm hnone =>
      refine ⟨hw, Or.inl ⟨?_, fun q => Or.inr rfl⟩⟩
      intro F s hb
      cases hb with
      | fork hm' hpid' _ =>
          rw [hm] at hm'; cases hm'
          rw [hnone] at hpid'; cases hpid'
  | @ends self m hm =>
      refine ⟨⟨hw.dummy, hw.pids⟩, Or.inl ⟨?_, fun q => seen_gone w self q⟩⟩
      intro F s hb
      cases hb

/-! ## Attribution -/

/-- Every live process is found, and at its own entry. -/
def Attributed (w : World) : Prop :=
  ∀ self m, w.live self = some m → m.image.findCaller self = some m.own

/-- The id the host gives to a child is not recorded in the table of the image that forks. -/
def NewPid (w : World) (e : Event) : Prop :=
  ∀ F s, Births w e F s → some F ∉ pids s

theorem attributed_iff_seen {w : World} :
    Attributed w ↔ ∀ self own i, seen w self = some (own, i) → i = some own := by
  unfold Attributed seen
  constructor
  · intro h self own i hs
    obtain ⟨m, hm, heq⟩ := Option.map_eq_some_iff.mp hs
    cases heq
    exact h self m hm
  · intro h self m hm
    exact h self m.own _ (by rw [hm]; rfl)

/-- A step whose child gets an unrecorded id keeps every process at its own entry. -/
theorem attributed_step {w u : World} {e : Event} (hw : Quiet w) (ha : Attributed w)
    (hnew : NewPid w e) (h : Step w e u) : Attributed u := by
  rw [attributed_iff_seen] at ha ⊢
  obtain ⟨-, ⟨-, hsame⟩ | ⟨F, s, hb, -, hseen⟩⟩ := step_seen hw h
  · intro self own i hs
    rcases hsame self with hgone | heq
    · rw [hgone] at hs; cases hs
    · exact ha self own i (heq ▸ hs)
  · intro self own i hs
    rw [hseen] at hs
    by_cases hself : self = F
    · -- the search passes over the whole old table and stops at the new entry
      subst hself
      have hnone := findCaller_eq_none.mpr (hnew self s hb)
      rw [Function.update_self, foundAt, hnone] at hs
      cases hs
      rfl
    · rw [Function.update_of_ne hself] at hs
      exact ha self own i hs

/-- A child with a recorded id is found at the entry of another process. -/
theorem misattributed_step {w u : World} {e : Event} (hw : Quiet w) (hold : ¬ NewPid w e)
    (h : Step w e u) : ¬ Attributed u := by
  rw [attributed_iff_seen]
  intro ha
  apply hold
  intro G t hb' hmem
  obtain ⟨-, ⟨hno, -⟩ | ⟨F, s, hb, -, hseen⟩⟩ := step_seen hw h
  · exact hno G t hb'
  · obtain ⟨rfl, rfl⟩ := hb.unique hb'
    cases hi : s.findCaller F with
    | none => exact findCaller_eq_none.mp hi hmem
    | some i =>
        have hat := ha F s.procs.length (some (foundAt s F)) (by rw [hseen, Function.update_self])
        rw [foundAt, hi] at hat
        have hlt := findCaller_lt hi
        simp only [Option.getD_some, Option.some.injEq] at hat
        omega

/-- **Whose system call it is.** Along a run of the server and the processes forked from it, every process
    is found at its own entry after each step if and only if no child gets a host process id that the
    forking image still records. -/
theorem attributed_iff_newPid {w u : World} {tr : List (World × Event × World)} (hw : Booted w)
    (h : Run Step w tr u) :
    (∀ x ∈ tr, Attributed x.2.2) ↔ ∀ x ∈ tr, NewPid x.1 x.2.1 := by
  refine Run.always_iff_good (I := fun w => Quiet w ∧ Attributed w) (Q := fun _ _ u => Attributed u)
    ?_ ?_ h ⟨Quiet.of_booted hw, ?_⟩
  · rintro t e u ⟨hq, ha⟩ hnew hstep
    have hau := attributed_step hq ha hnew hstep
    exact ⟨⟨(step_seen hq hstep).1, hau⟩, hau⟩
  · rintro t e u ⟨hq, -⟩ hold hstep
    exact misattributed_step hq hold hstep
  · intro self m hm
    rw [hw.live] at hm
    cases hm

/-- Host answers with which a program starts as the process `pid`. -/
def startsAs (pid : Int) : StartHost where
  load := ⟨true, true, true, true, true, true⟩
  run := ⟨true, fun _ => true, pid⟩

/-- Host answers with which the process `self` forks the process `pid`. -/
def forksAs (self pid : Int) : SysHost where
  fork := ⟨⟨true, fun _ => true, true, true, true, true, true, true, fun _ => true⟩, pid⟩
  exec := ⟨⟨true, true, true, true, true, true⟩, true, fun _ => true, true, fun _ => 0⟩
  self := self
  exitClose := fun _ => 0
  realloc := .null
  setCwd := true
  read := none
  write := -1
  open_ := ⟨true, -1, true, 0⟩
  close := 0

/-- A server about to start its first program. -/
def hosts : World where
  server := { filesystem := bytes "/srv" }
  live := fun _ => none

theorem hosts_booted : Booted hosts where
  live _ := rfl
  dummy := by decide
  pids := by decide

/-- The shell 100 starts and forks 101. -/
theorem attributed_iff_newPid_fork :
    ∃ tr u, Run Step hosts tr u ∧ tr.length = 2 ∧
      ((∀ x ∈ tr, Attributed x.2.2) ↔ ∀ x ∈ tr, NewPid x.1 x.2.1) := by
  have h1 : Run Step hosts _ _ := Run.single (i := .start (bytes "/bin/shell") [] (startsAs 100))
    (.start rfl (fun _ => ⟨by decide, rfl⟩))
  have h2 := Run.tail h1 (i := .call 100 .processFork (forksAs 100 101))
    (Step.call (h := forksAs 100 101) rfl rfl rfl rfl (fun _ => ⟨by decide, rfl⟩))
  exact ⟨_, _, h2, rfl, attributed_iff_newPid hosts_booted h2⟩

/-- The shell 100 starts, forks 101 and ends; 101 forks, and the host gives the child the id 100 again. -/
theorem misattributed_reused :
    ¬ ∀ tr u, Run Step hosts tr u → Attributed u := by
  intro hall
  have h1 : Run Step hosts _ _ := Run.single (i := .start (bytes "/bin/shell") [] (startsAs 100))
    (.start rfl (fun _ => ⟨by decide, rfl⟩))
  have h2 := Run.tail h1 (i := .call 100 .processFork (forksAs 100 101))
    (Step.call (h := forksAs 100 101) rfl rfl rfl rfl (fun _ => ⟨by decide, rfl⟩))
  have h3 := Run.tail h2 (i := .ends 100) (.ends rfl)
  have h4 := Run.tail h3 (i := .call 101 .processFork (forksAs 101 100))
    (Step.call (h := forksAs 101 100) rfl rfl rfl rfl (fun _ => ⟨by decide, rfl⟩))
  have hfound := hall _ _ h4 100 _ rfl
  revert hfound
  decide

/-! ## Distinct PIDs -/

/-- No two live processes get the same value from `getpid()`. -/
def Distinct (w : World) : Prop :=
  ∀ p q v, w.getpid p = some v → w.getpid q = some v → p = q

/-- A fork that makes a child stores, for the parent, the value that `getpid()` returns in the child and in
    no other live process. -/
def ForkReturns (w : World) (e : Event) (u : World) : Prop :=
  ∀ self h m pid r, e = .call self .processFork h → w.live self = some m →
    m.image.findCaller self = some pid → m.image.perform pid .processFork h = .ok r → r.child ≠ none →
    ∃ v, r.stored = some (.int v) ∧ ∀ q, u.getpid q = some v ↔ q = h.fork.fork

/-- The index of the child's entry, the length of the table of the image that forks, is the PID of no live
    process, and the child is found there: as an `int32_t`, the index of an entry that records its id
    already is not told apart only in a table of 2^32 entries. -/
def UnusedPid (w : World) (e : Event) : Prop :=
  ∀ F s, Births w e F s →
    (∀ i, s.findCaller F = some i → toI32 i = toI32 s.procs.length) ∧
      ∀ q, w.getpid q ≠ some (toI32 s.procs.length)

theorem getpid_eq_seen (w : World) (self : Int) :
    w.getpid self = (seen w self).bind fun x => x.2.map fun pid => toI32 pid := by
  unfold getpid seen
  cases w.live self <;> rfl

/-- A process that is gone has no PID, and one that stays has the PID it had. -/
theorem getpid_of_seen {w u : World} {q : Int} {v : Int}
    (h : seen u q = none ∨ seen u q = seen w q) (hv : u.getpid q = some v) : w.getpid q = some v := by
  rw [getpid_eq_seen] at hv ⊢
  rcases h with hnone | heq
  · rw [hnone] at hv; cases hv
  · rw [← heq]; exact hv

theorem getpid_child {w u : World} {F : Int} {s : Server}
    (h : seen u = Function.update (seen w) F (some (s.procs.length, some (foundAt s F)))) :
    u.getpid F = some (toI32 (foundAt s F)) := by
  rw [getpid_eq_seen, h, Function.update_self]
  rfl

theorem getpid_others {w u : World} {F q : Int} {x : Option (Nat × Option Nat)}
    (h : seen u = Function.update (seen w) F x) (hq : q ≠ F) : u.getpid q = w.getpid q := by
  rw [getpid_eq_seen, getpid_eq_seen, h, Function.update_of_ne hq]

theorem getpid_of_free {w : World} {F : Int} (h : w.Free F) : w.getpid F = none := by
  simp [getpid, h.2]

/-- The PID of a child whose id stands, if at all, where its own entry would. -/
theorem foundAt_toI32 {s : Server} {F : Int}
    (h : ∀ i, s.findCaller F = some i → toI32 i = toI32 s.procs.length) :
    toI32 (foundAt s F) = toI32 s.procs.length := by
  unfold foundAt
  cases hi : s.findCaller F with
  | none => rfl
  | some i => exact h i hi

/-- What a fork that makes a child stores. -/
theorem fork_stored {s : Server} {pid : Nat} {h : SysHost} (hforks : s.Forks pid h.fork) :
    ∃ r, s.perform pid .processFork h = .ok r ∧ r.child ≠ none ∧
      r.stored = some (.int (toI32 s.procs.length)) := by
  have hran : ∃ r, s.perform pid .processFork h = .ok r := by
    obtain ⟨hnn, parent, child, hp, hcopy⟩ := hforks
    have hnot : ¬ h.fork.fork < 0 := by omega
    cases hr : s.processFork pid h.fork with
    | error e => simp [processFork, hp, hcopy, hnot, bind, Except.bind] at hr
    | ok r' => exact ⟨_, by simp only [perform, hr]; rfl⟩
  obtain ⟨r, hr⟩ := hran
  rcases perform_fork hr with ⟨hno, -⟩ | ⟨-, hstored, -, child, hchild, -⟩
  · exact absurd hforks hno
  · exact ⟨r, hr, by rw [hchild]; exact Option.some_ne_none _, hstored⟩

/-- A step whose child gets an unused PID keeps the PIDs distinct, and a fork returns the child's. -/
theorem distinct_step {w u : World} {e : Event} (hw : Quiet w) (hd : Distinct w)
    (hnew : UnusedPid w e) (h : Step w e u) : Distinct u ∧ ForkReturns w e u := by
  obtain ⟨-, ⟨hno, hsame⟩ | ⟨F, s, hb, -, hseen⟩⟩ := step_seen hw h
  · constructor
    · intro p q v hp hq
      exact hd p q v (getpid_of_seen (hsame p) hp) (getpid_of_seen (hsame q) hq)
    · rintro self h' m pid r rfl hm hpid hrun hchild
      rcases perform_fork hrun with ⟨-, hnone, -⟩ | ⟨hforks, -⟩
      · exact absurd hnone hchild
      · exact absurd (.fork hm hpid hforks) (hno _ _)
  · obtain ⟨hat, hunused⟩ := hnew F s hb
    have hchild : u.getpid F = some (toI32 s.procs.length) := by
      rw [getpid_child hseen, foundAt_toI32 hat]
    -- the child's PID is new, so a process that has it is the child
    have honly : ∀ q, u.getpid q = some (toI32 s.procs.length) → q = F := by
      intro q hq
      by_contra hne
      rw [getpid_others hseen hne] at hq
      exact hunused q hq
    constructor
    · intro p q v hp hq
      by_cases hv : v = toI32 s.procs.length
      · rw [hv] at hp hq
        rw [honly p hp, honly q hq]
      · have hne : ∀ x, u.getpid x = some v → x ≠ F := by
          rintro x hx rfl
          rw [hchild] at hx
          exact hv (Option.some.inj hx).symm
        rw [getpid_others hseen (hne p hp)] at hp
        rw [getpid_others hseen (hne q hq)] at hq
        exact hd p q v hp hq
    · rintro self h' m pid r rfl hm hpid hrun hne
      rcases perform_fork hrun with ⟨-, hnone, -⟩ | ⟨hforks, hstored, -⟩
      · exact absurd hnone hne
      · obtain ⟨rfl, rfl⟩ := hb.unique (.fork hm hpid hforks)
        refine ⟨_, hstored, fun q => ⟨honly q, ?_⟩⟩
        rintro rfl
        exact hchild

/-- A child whose PID is in use already, or is not the index of its own entry, breaks one of the two. -/
theorem not_distinct_step {w u : World} {e : Event} (hw : Quiet w) (hused : ¬ UnusedPid w e)
    (h : Step w e u) : ¬ (Distinct u ∧ ForkReturns w e u) := by
  rintro ⟨hd, hf⟩
  apply hused
  intro G t hb'
  obtain ⟨-, ⟨hno, -⟩ | ⟨F, s, hb, hfree, hseen⟩⟩ := step_seen hw h
  · exact absurd hb' (hno G t)
  obtain ⟨rfl, rfl⟩ := hb.unique hb'
  have hchild := getpid_child hseen
  -- the processes that lived before the step are others than the child, and answer as before
  have hothers : ∀ q v, w.getpid q = some v → q ≠ F ∧ u.getpid q = some v := by
    intro q v hq
    have hne : q ≠ F := by
      rintro rfl
      rw [getpid_of_free hfree] at hq
      cases hq
    exact ⟨hne, by rw [getpid_others hseen hne, hq]⟩
  cases hb with
  | @start path args h' _ _ =>
      -- the server's table records no id: the child is found at its own entry
      have hnone := hw.pids _ hfree.1
      constructor
      · intro i hi
        rw [hnone] at hi
        cases hi
      · intro q hq
        obtain ⟨hne, hq'⟩ := hothers q _ hq
        rw [foundAt, hnone] at hchild
        exact hne (hd q _ _ hq' hchild)
  | fork hm hpid hforks =>
      -- the parent is told the index; who answers it is the child only
      obtain ⟨r, hrun, hne, hstored⟩ := fork_stored hforks
      obtain ⟨v, hv, honly⟩ := hf _ _ _ _ r rfl hm hpid hrun hne
      have hval := RetVal.int.inj (Option.some.inj (hstored.symm.trans hv))
      rw [← hval] at honly
      constructor
      · intro i hi
        have hval := (honly _).mpr rfl
        rw [hchild, foundAt, hi] at hval
        exact Option.some.inj hval
      · intro q hq
        obtain ⟨hqne, hq'⟩ := hothers q _ hq
        exact hqne ((honly q).mp hq')

/-- **When PIDs are distinct.** Along a run of the server and the processes forked from it, after each step
    no two live processes get the same value from `getpid()` and each fork returns the value of its child,
    if and only if each child's entry has an index that is the PID of no live process, in a table that does
    not record the child's id before. -/
theorem distinct_iff_unusedPid {w u : World} {tr : List (World × Event × World)} (hw : Booted w)
    (h : Run Step w tr u) :
    (∀ x ∈ tr, Distinct x.2.2 ∧ ForkReturns x.1 x.2.1 x.2.2) ↔ ∀ x ∈ tr, UnusedPid x.1 x.2.1 := by
  refine Run.always_iff_good (I := fun w => Quiet w ∧ Distinct w)
    (Q := fun w e u => Distinct u ∧ ForkReturns w e u) ?_ ?_ h ⟨Quiet.of_booted hw, ?_⟩
  · rintro t e u ⟨hq, hd⟩ hnew hstep
    have hdu := distinct_step hq hd hnew hstep
    exact ⟨⟨(step_seen hq hstep).1, hdu.1⟩, hdu⟩
  · rintro t e u ⟨hq, -⟩ hused hstep
    exact not_distinct_step hq hused hstep
  · intro p q v hp
    simp [getpid, hw.live] at hp

/-- A shell starts and forks. -/
theorem distinct_iff_unusedPid_fork :
    ∃ tr u, Run Step hosts tr u ∧ tr.length = 2 ∧
      ((∀ x ∈ tr, Distinct x.2.2 ∧ ForkReturns x.1 x.2.1 x.2.2) ↔ ∀ x ∈ tr, UnusedPid x.1 x.2.1) := by
  have h1 : Run Step hosts _ _ := Run.single (i := .start (bytes "/bin/shell") [] (startsAs 100))
    (.start rfl (fun _ => ⟨by decide, rfl⟩))
  have h2 := Run.tail h1 (i := .call 100 .processFork (forksAs 100 101))
    (Step.call (h := forksAs 100 101) rfl rfl rfl rfl (fun _ => ⟨by decide, rfl⟩))
  exact ⟨_, _, h2, rfl, distinct_iff_unusedPid hosts_booted h2⟩

/-- The shell 100 starts and forks 101, which is PID 2 of their images; the server starts the shell 102,
    which is PID 2 of its own. -/
theorem same_pid_twice :
    ¬ ∀ tr u, Run Step hosts tr u → Distinct u := by
  intro hall
  have h1 : Run Step hosts _ _ := Run.single (i := .start (bytes "/bin/shell") [] (startsAs 100))
    (.start rfl (fun _ => ⟨by decide, rfl⟩))
  have h2 := Run.tail h1 (i := .call 100 .processFork (forksAs 100 101))
    (Step.call (h := forksAs 100 101) rfl rfl rfl rfl (fun _ => ⟨by decide, rfl⟩))
  have h3 := Run.tail h2 (i := .start (bytes "/bin/shell") [] (startsAs 102))
    (.start rfl (fun _ => ⟨by decide, rfl⟩))
  have hsame := hall _ _ h3 101 102 2 rfl rfl
  omega

end Pids
end DistributedPlatform
