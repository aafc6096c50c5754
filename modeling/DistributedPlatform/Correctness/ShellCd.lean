import DistributedPlatform.Correctness.PathDisplay
import DistributedPlatform.Correctness.WorkingDir
import DistributedPlatform.Lib.Run
import DistributedPlatform.Programs.ShellLine

/-!
# `Correctness.ShellCd` — changing directory

`cd` hands its path to `shellPathAbsolute`, which puts the home directory in the place of a `~` in front and
otherwise only reduces; the server takes whatever string it is given for the directory. So where a path leads does
not depend on where the shell is.

* `cd_refused`, `cd_resolved` — one command, as far as its branches go;
* `meant` — what a path is to stand for, and `tidy_expand_eq_meant`, `tidy_expand_ne`: the paths resolved to it;
* `settled_iff` — the runs that stay at absolute reduced paths and go where they are told to.
-/

namespace DistributedPlatform
namespace ShellCd

open Shell PathDisplay PathReduce Spelling Lexical

variable {s : Session} {h : LineHost} {p : CStr}

/-! ## One command -/

/-- Without a path, without memory for it, or with a `~` that stands for nothing: nothing happens. -/
theorem cd_refused {gpath : Option CStr}
    (hg : ∀ p, gpath = some p → h.malloc = none ∨ (p.head? = some 126 ∧ s.home = none)) :
    s.cd gpath h = .ok { session := s } := by
  have habs : shellPathAbsolute s.home gpath h.malloc = .ok none := by
    unfold shellPathAbsolute
    cases gpath with
    | none => rfl
    | some p =>
        rcases hg p rfl with hm | ⟨htilde, hhome⟩
        · simp only [hm, joinPath]
          split_ifs
          · cases s.home <;> rfl
          · rfl
        · simp only [hhome, if_pos htilde]
  simp only [Session.cd, habs, bind, Except.bind]

/-- The server takes the directory, or it has no memory for a copy. -/
theorem syscallChDir_eq (hs : s.Runs) (d : CStr) (alloc : Bool) :
    s.srv.syscallChDir s.pid d alloc = .ok (if alloc then (0, s.movedTo d) else (-1, s.srv)) := by
  obtain ⟨curr, hcurr⟩ := Option.ne_none_iff_exists'.mp hs.live
  unfold Server.syscallChDir Session.movedTo
  rw [hcurr]
  cases alloc with
  | true => rfl
  | false =>
      simp only [Process.setCwd, Bool.false_eq_true, if_false, Server.setProc_self hcurr]

/-- **A path that is resolved**: the server's directory is the reduced form of the path, with the home directory
    in the place of a `~`, unless the server has no memory for it. -/
theorem cd_resolved (hs : s.Runs) {p : CStr} (hne : p ≠ []) (hp : 0 ∉ p) (hm : h.malloc ≠ none)
    (hhome : p.head? = some 126 → s.home ≠ none) :
    ∃ e : LibEnv, e.Denviron = s.env.Denviron ∧ s.cd (some p) h = .ok
      { session := { s with srv := if h.setCwd then s.movedTo (tidy 47 (expand (s.home.getD []) p)) else s.srv,
                            env := e },
        moved := h.setCwd, nullCopy := decide (p.head? ≠ some 126) } := by
  obtain ⟨fill, hfill⟩ := Option.ne_none_iff_exists'.mp hm
  obtain ⟨w, -, habs⟩ := absolute_eq s.home p fill hhome hne hs.notMem_home hp
  have hnul := notMem_tidy (notMem_expand hs.notMem_home hp) 47
  have hstr := strAt_append hnul [] w
  have hchdir := syscallChDir_eq hs (tidy 47 (expand (s.home.getD []) p)) h.setCwd
  rw [← hfill] at habs
  rw [List.nil_append, List.length_nil] at hstr
  simp only [Session.cd, habs, hstr, hchdir, bind, Except.bind, Option.bind_some]
  cases hset : h.setCwd with
  | false => exact ⟨s.env, rfl, rfl⟩
  | true =>
      rw [hset, if_pos rfl] at hchdir
      obtain ⟨curr, hcurr, hcwd⟩ := WorkingDir.cwd_of_chdir hchdir
      have hsize : LINESIZE ≠ 0 := by decide
      obtain ⟨b₁, b₂, hget, -, h₂⟩ := WorkingDir.getcwd_ok hcurr hcwd hsize (Nat.le_of_eq h.size.symm)
      have hend : 0 ∈ b₂ := by
        obtain ⟨-, rfl⟩ := Buffer.write_eq_some_iff.mp h₂
        simp
      simp only [if_true, ne_eq, not_true_eq_false, if_false, hget, strAt_of_mem hend]
      split
      · exact ⟨_, LibEnv.setenv_Denviron _ _ _ _, rfl⟩
      · exact ⟨_, rfl, rfl⟩

/-- Either way the command returns. What it copies the home directory from is null for a path without a `~`. -/
theorem cd_returns (hs : s.Runs) {gpath : Option CStr} (hg : ∀ p, gpath = some p → p ≠ [] ∧ 0 ∉ p) :
    ∃ r, s.cd gpath h = .ok r ∧
      (r.nullCopy = false ↔ ∀ p, gpath = some p → p.head? = some 126 ∨ h.malloc = none) := by
  by_cases hrefused : ∀ p, gpath = some p → h.malloc = none ∨ (p.head? = some 126 ∧ s.home = none)
  · refine ⟨_, cd_refused hrefused, iff_of_true rfl fun p hp => ?_⟩
    rcases hrefused p hp with hm | ⟨htilde, -⟩
    · exact Or.inr hm
    · exact Or.inl htilde
  · push Not at hrefused
    obtain ⟨p, rfl, hm, hhome⟩ := hrefused
    obtain ⟨hne, hp⟩ := hg p rfl
    obtain ⟨e, -, hcd⟩ := cd_resolved hs hne hp hm hhome
    refine ⟨_, hcd, ?_⟩
    rw [decide_eq_false_iff_not, not_not]
    constructor
    · intro htilde p' hp'
      exact Or.inl (Option.some.inj hp' ▸ htilde)
    · intro hall
      exact (hall p rfl).resolve_right hm

/-! ## What a path is to mean -/

/-- `~` or `~/rest`. -/
def InHome (p : CStr) : Prop := p = bytes "~" ∨ bytes "~/" <+: p

instance (p : CStr) : Decidable (InHome p) := inferInstanceAs (Decidable (_ ∨ _))

/-- The directory a path stands for: itself, one in the home directory, or one in the directory before. -/
def meant (home prev p : CStr) : CStr :=
  if p.head? = some 47 then p else if InHome p then home ++ p.drop 1 else prev ++ 47 :: p

theorem inHome_iff {q : CStr} : InHome (126 :: q) ↔ q = [] ∨ q.head? = some 47 := by
  unfold InHome
  rw [show bytes "~" = [126] from rfl, show bytes "~/" = [126, 47] from rfl, List.cons_prefix_cons]
  cases q with
  | nil => simp
  | cons b q => simp [List.cons_prefix_cons, eq_comm]

theorem expand_tilde (home q : CStr) : expand home (126 :: q) = home ++ 47 :: q := if_pos rfl

theorem meant_ne_nil {home prev : CStr} (hhome : home.head? = some 47) : meant home prev p ≠ [] := by
  unfold meant
  split_ifs with hroot
  · rintro rfl
    cases hroot
  · cases home with
    | nil => cases hhome
    | cons b r => exact List.cons_ne_nil _ _
  · exact List.append_ne_nil_of_right_ne_nil _ (List.cons_ne_nil _ _)

theorem notMem_meant {home prev : CStr} (hhome : 0 ∉ home) (hprev : 0 ∉ prev) (hp : 0 ∉ p) :
    0 ∉ meant home prev p := by
  unfold meant
  split_ifs
  · exact hp
  · have hdrop : 0 ∉ p.drop 1 := fun h0 => hp (List.mem_of_mem_drop h0)
    simp only [List.mem_append, not_or]
    exact ⟨hhome, hdrop⟩
  · simp only [List.mem_append, List.mem_cons, not_or]
    exact ⟨hprev, by decide, hp⟩

theorem head?_expand {home : CStr} (hhome : home.head? = some 47) (hp : p.head? = some 47 ∨ InHome p) :
    (expand home p).head? = some 47 := by
  rcases hp with hroot | hin
  · rw [expand_of_root hroot]
    exact hroot
  · obtain ⟨q, rfl⟩ : ∃ q, p = 126 :: q := by
      rcases hin with rfl | ⟨q, rfl⟩
      · exact ⟨[], rfl⟩
      · exact ⟨47 :: q, rfl⟩
    rw [expand_tilde]
    cases home with
    | nil => cases hhome
    | cons b r => exact hhome

/-- In the home directory the slash put behind it makes no difference. -/
theorem tidy_expand {home q : CStr} (hhome : home.head? = some 47) (hq : q = [] ∨ q.head? = some 47) :
    tidy 47 (home ++ 47 :: q) = tidy 47 (home ++ q) := by
  obtain ⟨b, r, rfl⟩ : ∃ b r, home = b :: r := by
    cases home with
    | nil => cases hhome
    | cons b r => exact ⟨b, r, rfl⟩
  refine tidy_eq_tidy_iff.mpr ⟨by simp, ?_⟩
  rw [components_append]
  rcases hq with rfl | hq
  · rw [components_nil, List.append_nil, List.append_nil]
  · cases q with
    | nil => cases hq
    | cons c q =>
        cases hq
        rw [components_append, components_cons_sep]

/-- Any other path is not made absolute, or names something else in the home directory. -/
theorem tidy_expand_ne {home prev : CStr} (hprev : prev.head? = some 47) (hne : p ≠ []) (hroot : p.head? ≠ some 47)
    (hp : ¬ InHome p) : tidy 47 (expand home p) ≠ tidy 47 (prev ++ 47 :: p) := by
  obtain ⟨c, prev', rfl⟩ : ∃ c r, prev = c :: r := by
    cases prev with
    | nil => cases hprev
    | cons c r => exact ⟨c, r, rfl⟩
  obtain ⟨b, q, rfl⟩ := List.exists_cons_of_ne_nil hne
  intro heq
  obtain ⟨hheads, hcomps⟩ := tidy_eq_tidy_iff.mp heq
  by_cases htilde : b = 126
  · subst htilde
    rw [inHome_iff, not_or] at hp
    obtain ⟨a, q, rfl⟩ := List.exists_cons_of_ne_nil hp.1
    have ha : a ≠ 47 := fun h => hp.2 (congrArg some h)
    have htilde : (126 : Byte) ≠ 47 := by decide
    obtain ⟨w, ws, hw, hw'⟩ := components_cons_cons htilde ha q
    rw [expand_tilde, components_append, components_append, hw, hw'] at hcomps
    -- the last components are the same ones, and one of them has a `~` more
    obtain ⟨-, hlast⟩ := List.append_inj' hcomps rfl
    have hlen := congrArg List.length (List.cons.inj hlast).1
    simp at hlen
  · have hsame : expand home (b :: q) = b :: q := if_neg fun h => htilde (Option.some.inj h)
    rw [hsame] at hheads
    exact hroot (hheads.mpr hprev)

/-! ## Runs -/

/-- A `cd` as it is given: its argument, if there is one, and the answers of the host. -/
structure CdCmd where
  gpath : Option { p : CStr // p ≠ [] ∧ 0 ∉ p }
  host : LineHost

def CdCmd.run (c : CdCmd) (s : Session) : Eff Handled := s.cd (c.gpath.map (·.1)) c.host

def CdStep (s : Session) (c : CdCmd) (t : Session) : Prop := ∃ r, c.run s = .ok r ∧ t = r.session

/-- The directory held by the server is an absolute reduced path. -/
def Settled (s : Session) : Prop := ∃ d, s.dir = some d ∧ d.head? = some 47 ∧ ReducesTo d d

/-- A command that succeeds moves the shell to the reduced form of what its path means. -/
def Moves (s : Session) (c : CdCmd) (t : Session) : Prop :=
  ∀ r p home prev, c.run s = .ok r → r.moved = true → c.gpath = some p → s.home = some home → s.dir = some prev →
    ∃ d, t.dir = some d ∧ ReducesTo (meant home prev p.1) d

/-- The path is absolute, or one in the home directory; or there is no memory for it. -/
def Resolved (c : CdCmd) : Prop :=
  ∀ p, c.gpath = some p → c.host.malloc = none ∨ c.host.setCwd = false ∨ p.1.head? = some 47 ∨ InHome p.1

/-- What a run of commands starts from and keeps. -/
structure Resolving (s : Session) : Prop where
  runs : s.Runs
  home : ∃ home, s.home = some home ∧ home.head? = some 47
  dir : ∃ d, s.dir = some d ∧ 0 ∉ d ∧ d.head? = some 47

theorem settled_of_tidy {d : CStr} (hdir : s.dir = some (tidy 47 d)) (hd : 0 ∉ d) (hroot : d.head? = some 47) :
    Settled s := by
  have hne : tidy 47 d ≠ [] := by
    apply tidy_ne_nil
    rintro rfl
    cases hroot
  have hagain := reducesTo_tidy hne (notMem_tidy hd 47)
  rw [tidy_tidy] at hagain
  exact ⟨_, hdir, (head?_tidy 47 d).mpr hroot, hagain⟩

/-- What a path of the good kinds is resolved to is what it means. -/
theorem tidy_expand_eq_meant {home : CStr} (prev : CStr) (hhome : home.head? = some 47)
    (hp : p.head? = some 47 ∨ InHome p) : tidy 47 (expand home p) = tidy 47 (meant home prev p) := by
  unfold meant
  by_cases hroot : p.head? = some 47
  · rw [if_pos hroot, expand_of_root hroot]
  · have hin := hp.resolve_left hroot
    rw [if_neg hroot, if_pos hin]
    obtain ⟨q, rfl⟩ : ∃ q, p = 126 :: q := by
      rcases hin with rfl | ⟨q, rfl⟩
      · exact ⟨[], rfl⟩
      · exact ⟨47 :: q, rfl⟩
    rw [expand_tilde]
    exact tidy_expand hhome (inHome_iff.mp hin)

/-- **One step**: the invariant is kept, and the directory is as it was or the one the path was resolved to. -/
theorem CdStep.cases {c : CdCmd} {t : Session} (hs : Resolving s) (hstep : CdStep s c t) :
    (t.env.Denviron = s.env.Denviron ∧ t.Runs) ∧
    ((t.dir = s.dir ∧ (∀ p, c.gpath = some p → c.host.malloc = none ∨ c.host.setCwd = false) ∧
        ∀ r, c.run s = .ok r → r.moved = false) ∨
      ∃ p, c.gpath = some p ∧ c.host.malloc ≠ none ∧ c.host.setCwd = true ∧
        t.dir = some (tidy 47 (expand (s.home.getD []) p.1)) ∧ ∀ r, c.run s = .ok r → r.moved = true) := by
  obtain ⟨r, hr, rfl⟩ := hstep
  obtain ⟨home, hhome, -⟩ := hs.home
  by_cases hrefused : ∀ p, c.gpath = some p → c.host.malloc = none
  · have hcd : c.run s = .ok { session := s } := by
      refine cd_refused fun p hp => Or.inl ?_
      obtain ⟨p, hp, -⟩ := Option.map_eq_some_iff.mp hp
      exact hrefused p hp
    cases hcd.symm.trans hr
    refine ⟨⟨rfl, hs.runs⟩, Or.inl ⟨rfl, fun p hp => Or.inl (hrefused p hp), fun r' hr' => ?_⟩⟩
    cases hr.symm.trans hr'
    rfl
  · push Not at hrefused
    obtain ⟨p, hp, hm⟩ := hrefused
    obtain ⟨e, he, hcd⟩ := cd_resolved hs.runs p.2.1 p.2.2 hm fun _ => by
      rw [hhome]
      exact Option.some_ne_none _
    have hrun : c.run s = s.cd (some p.1) c.host := by
      unfold CdCmd.run
      rw [hp]
      rfl
    rw [← hrun] at hcd
    cases hcd.symm.trans hr
    cases hset : c.host.setCwd with
    | false =>
        refine ⟨⟨he, hs.runs.live, fun env henv => hs.runs.strings env (he ▸ henv)⟩,
          Or.inl ⟨rfl, fun _ _ => Or.inr rfl, fun r' hr' => ?_⟩⟩
        cases hr.symm.trans hr'
        exact hset
    | true =>
        refine ⟨⟨he, hs.runs.moved he _⟩, Or.inr ⟨p, hp, hm, rfl, Session.dir_movedTo hs.runs _, fun r' hr' => ?_⟩⟩
        cases hr.symm.trans hr'
        exact hset

theorem Settled.of_dir {t : Session} (hs : Settled s) (hdir : t.dir = s.dir) : Settled t := by
  obtain ⟨d, hd, hroot, hreduced⟩ := hs
  exact ⟨d, hdir.trans hd, hroot, hreduced⟩

/-- A command with a good path, or that does not succeed. -/
theorem resolved_step {c : CdCmd} {t : Session} (hs : Resolving s) (hset : Settled s) (hc : Resolved c)
    (hstep : CdStep s c t) : (Resolving t ∧ Settled t) ∧ Settled t ∧ Moves s c t := by
  obtain ⟨home, hhome, hroot⟩ := hs.home
  have hnul : 0 ∉ home := by
    have h := hs.runs.notMem_home
    rwa [hhome] at h
  obtain ⟨⟨he, hruns⟩, ⟨hdir, -, hstay⟩ | ⟨p, hp, hm, hsetCwd, hdir, hmoved⟩⟩ := hstep.cases hs
  · have hset' := hset.of_dir hdir
    refine ⟨⟨⟨hruns, ?_, ?_⟩, hset'⟩, hset', ?_⟩
    · rw [Session.home_of_Denviron he]
      exact hs.home
    · rw [hdir]
      exact hs.dir
    · intro r p home prev hr hmoved
      rw [hstay r hr] at hmoved
      cases hmoved
  · have hgood : p.1.head? = some 47 ∨ InHome p.1 := by
      rcases hc p hp with hnone | hfalse | hgood
      · exact absurd hnone hm
      · rw [hsetCwd] at hfalse
        cases hfalse
      · exact hgood
    rw [hhome, Option.getD_some] at hdir
    have hhead := head?_expand hroot hgood
    have hexpand := notMem_expand hnul p.2.2
    have hset' := settled_of_tidy hdir hexpand hhead
    refine ⟨⟨⟨hruns, ?_, ?_⟩, hset'⟩, hset', ?_⟩
    · rw [Session.home_of_Denviron he]
      exact hs.home
    · exact ⟨_, hdir, notMem_tidy hexpand 47, (head?_tidy 47 _).mpr hhead⟩
    · intro r p' home' prev _ _ hp' hhome' hprev
      cases hp.symm.trans hp'
      cases hhome.symm.trans hhome'
      obtain ⟨d, hd, hprevNul, -⟩ := hs.dir
      cases hd.symm.trans hprev
      refine ⟨_, hdir, ?_⟩
      rw [tidy_expand_eq_meant prev hroot hgood]
      exact reducesTo_tidy (meant_ne_nil hroot) (notMem_meant hnul hprevNul p.2.2)

/-- A command that succeeds with any other path moves the shell somewhere else. -/
theorem unresolved_step {c : CdCmd} {t : Session} (hs : Resolving s) (hc : ¬ Resolved c) (hstep : CdStep s c t) :
    ¬ Moves s c t := by
  obtain ⟨home, hhome, hroot⟩ := hs.home
  obtain ⟨prev, hprev, hprevNul, hprevRoot⟩ := hs.dir
  have hnul : 0 ∉ home := by
    have h := hs.runs.notMem_home
    rwa [hhome] at h
  unfold Resolved at hc
  push Not at hc
  obtain ⟨p, hp, hm, hset, hnoroot, hout⟩ := hc
  intro hmoves
  obtain ⟨-, ⟨-, hfails, -⟩ | ⟨p', hp', -, -, hdir, hmoved⟩⟩ := hstep.cases hs
  · rcases hfails p hp with hnone | hfalse
    · exact hm hnone
    · exact hset hfalse
  · cases hp.symm.trans hp'
    obtain ⟨r, hr, -⟩ := hstep
    obtain ⟨d, hd, hreduces⟩ := hmoves r p home prev hr (hmoved r hr) hp hhome hprev
    have htidy := hreduces.unique (reducesTo_tidy (meant_ne_nil hroot) (notMem_meant hnul hprevNul p.2.2))
    rw [hdir, hhome] at hd
    cases hd
    unfold meant at htidy
    rw [if_neg hnoroot, if_neg hout] at htidy
    exact tidy_expand_ne hprevRoot p.2.1 hnoroot hout htidy

/-- **Changing directory, over whole runs**: the directory held for the shell is an absolute reduced path wherever a
    run of commands gets to, and each command that succeeds moves it to what its path means, exactly when the
    directory it starts in is reduced and no command succeeds with a path that is neither absolute nor one in the
    home directory. -/
theorem settled_iff {t : Session} {tr : List (Session × CdCmd × Session)} (hs : Resolving s)
    (hrun : Machine.Run CdStep s tr t) :
    (Settled s ∧ ∀ x ∈ tr, Settled x.2.2 ∧ Moves x.1 x.2.1 x.2.2) ↔
      (∃ d, s.dir = some d ∧ ReducesTo d d) ∧ ∀ x ∈ tr, Resolved x.2.1 := by
  have hstart : Settled s ↔ ∃ d, s.dir = some d ∧ ReducesTo d d := by
    obtain ⟨d, hd, -, hroot⟩ := hs.dir
    constructor
    · rintro ⟨d, hd, -, hreduced⟩
      exact ⟨d, hd, hreduced⟩
    · rintro ⟨d', hd', hreduced⟩
      cases hd.symm.trans hd'
      exact ⟨d, hd, hroot, hreduced⟩
  rw [← hstart, and_congr_right_iff]
  intro hset
  refine hrun.always_iff_good (I := fun s => Resolving s ∧ Settled s) (C := fun _ c => Resolved c)
    (Q := fun s c t => Settled t ∧ Moves s c t) ?_ ?_ ⟨hs, hset⟩
  · intro s c t hI hc hstep
    exact resolved_step hI.1 hI.2 hc hstep
  · intro s c t hI hc hstep hQ
    exact unresolved_step hI.1 hc hstep hQ.2

/-- A shell in the root directory. -/
def atRoot : Session where
  srv := { procs := [some {}, some { state := .running, cwd := some (bytes "/") }] }
  pid := 1
  env := { Denviron := some [bytes "HOME=/home"] }

theorem atRoot_resolving : Resolving atRoot where
  runs := ⟨by decide, fun env henv => by cases henv; decide⟩
  home := ⟨bytes "/home", rfl, rfl⟩
  dir := ⟨bytes "/", rfl, by decide, rfl⟩

theorem atRoot_settled : Settled atRoot :=
  settled_of_tidy (d := bytes "/") rfl (by decide) rfl

/-- A command with a path, and calls that all succeed. -/
def cdTo (p : CStr) (hne : p ≠ []) (hp : 0 ∉ p) : CdCmd where
  gpath := some ⟨p, hne, hp⟩
  host := ⟨some fun _ => 0, true, true, List.replicate LINESIZE 0, length_blank⟩

theorem cdTo_step (p : CStr) (hne : p ≠ []) (hp : 0 ∉ p) : ∃ t, CdStep atRoot (cdTo p hne hp) t := by
  obtain ⟨e, -, hcd⟩ := cd_resolved (h := (cdTo p hne hp).host) atRoot_resolving.runs hne hp
    (Option.some_ne_none _) (fun _ => Option.some_ne_none _)
  exact ⟨_, _, hcd, rfl⟩

/-- `cd ~/a` -/
theorem settled_iff_home : ∃ t tr, Machine.Run CdStep atRoot tr t ∧ tr ≠ [] ∧
    Settled atRoot ∧ ∀ x ∈ tr, Settled x.2.2 ∧ Moves x.1 x.2.1 x.2.2 := by
  obtain ⟨t, hstep⟩ := cdTo_step (bytes "~/a") (by decide) (by decide)
  refine ⟨t, _, Machine.Run.single hstep, List.cons_ne_nil _ _, ?_⟩
  obtain ⟨d, hd, -, hreduced⟩ := atRoot_settled
  refine (settled_iff atRoot_resolving (Machine.Run.single hstep)).mpr ⟨⟨d, hd, hreduced⟩, fun x hx => ?_⟩
  cases List.mem_singleton.mp hx
  intro p hp
  cases hp
  exact Or.inr (Or.inr (Or.inr (by decide)))

/-- `cd a` leaves the shell in a directory that is no absolute path. -/
theorem relative_kept :
    ¬ ∀ (s t : Session) (tr : List (Session × CdCmd × Session)), Resolving s → Settled s →
      Machine.Run CdStep s tr t → ∀ x ∈ tr, Settled x.2.2 ∧ Moves x.1 x.2.1 x.2.2 := by
  intro hall
  obtain ⟨t, hstep⟩ := cdTo_step (bytes "a") (by decide) (by decide)
  have hmoves := hall atRoot t _ atRoot_resolving atRoot_settled (Machine.Run.single hstep) _ List.mem_cons_self
  refine unresolved_step atRoot_resolving (fun hc => ?_) hstep hmoves.2
  rcases hc _ rfl with hnone | hfalse | hroot | hin
  · cases hnone
  · cases hfalse
  · cases hroot
  · exact absurd hin (by decide)

end ShellCd
end DistributedPlatform
