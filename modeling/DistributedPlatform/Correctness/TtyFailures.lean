import DistributedPlatform.Correctness.Rounds

/-!
# `Correctness.TtyFailures` — what a failed `type tty` leaves behind

`tcpRead` serves `type tty` in four steps (a name, a device, a process, a shell) and returns after the first
that fails, without undoing the ones before it. A failure before the device is registered leaves registry and
process table as they were; a failure to start the shell does not.

* `restores_iff` — along a run of the main loop every such command that gives no type leaves both as they
  were, if and only if the shell starts each time a device was registered for it;
* `not_accumulated` — then any number of them, with whatever else the clients send, leaves both as they were.
-/

namespace DistributedPlatform
namespace PollLoop

open Machine Server

/-- The round reads a `type tty` from connection `c` and leaves the connection as `c'`. -/
structure ServesTty (p : Poll) (h : ReadHost) (q : Poll) (c c' : Connection) : Prop where
  next : ∃ rest, p.rest = c :: rest
  ready : p.srv.isReady p.ready c.sock = true
  read : h.fails = false
  asks : commandOf h.message = .typeTty
  left : q.done = p.done ++ [c']

/-- The command did not give the connection type `TypeTTY`. -/
def NotGiven (c c' : Connection) : Prop := c.type = .typeTTY ∨ c'.type ≠ .typeTTY

/-- A `type tty` that gives no type leaves the device registry and the process table as they were. -/
def Restores (p : Poll) (e : LoopEvent) (q : Poll) : Prop :=
  ∀ h c c', e = .round h → ServesTty p h q c c' → NotGiven c c' →
    q.srv.devices = p.srv.devices ∧ q.srv.procs = p.srv.procs

/-- The round does not fail to start the shell of a connection whose device it has registered. -/
def ShellStarts (p : Poll) (e : LoopEvent) : Prop :=
  ∀ h c rest, e = .round h → p.rest = c :: rest → p.srv.isReady p.ready c.sock = true → h.fails = false →
    commandOf h.message = .typeTty → c.type = .typeNone →
    p.srv.devices.exists_ (p.srv.findTty 1023 0) = false → h.tty.add = true → h.tty.start.succeeds 1 = true

variable {p q : Poll} {c c' : Connection} {h : ReadHost}

/-- What serving the command did to the server: one of the exits of `tcpRead`. -/
theorem ServesTty.served (hs : ServesTty p h q c c') (hw : Walking p) (hn : p.next (fun _ => h) = .ok q) :
    ∃ r, Served p.srv c h.message h.tty r ∧ r.con = c' ∧ q.srv.devices = r.srv.devices ∧
      q.srv.procs = r.srv.procs := by
  obtain ⟨rest, hrest⟩ := hs.next
  rcases next_cases hw hrest hn with ⟨hr, -⟩ | ⟨-, hf, -⟩ | ⟨-, -, r, hserved, rfl⟩
  · rw [hs.ready] at hr
    cases hr
  · rw [hs.read] at hf
    cases hf
  · have hcon := List.append_cancel_left hs.left
    exact ⟨r, hserved, by simpa using hcon, rfl, rfl⟩

/-- A step in which the shell starts where it should. -/
theorem restores_of_shellStarts {e : LoopEvent} (hw : Walking p) (hgood : ShellStarts p e)
    (hst : LoopStep p e q) : Restores p e q := by
  rintro h c c' rfl hs hno
  cases hst with
  | round hne hn =>
      obtain ⟨r, hserved, rfl, hdev, hprocs⟩ := hs.served hw hn
      rw [hdev, hprocs]
      cases hserved with
      | ignored _ => exact ⟨rfl, rfl⟩
      | stopped hstop =>
          rw [hs.asks] at hstop
          cases hstop
      | noDevice _ _ _ => exact ⟨rfl, rfl⟩
      | noShell procs _ htype hfree hadd hstart =>
          obtain ⟨rest, hrest⟩ := hs.next
          have hok := hgood h c rest rfl hrest hs.ready hs.read hs.asks htype hfree hadd
          rw [hstart] at hok
          cases hok
      | tty procs procs' _ htype _ _ _ =>
          -- the type was given
          rcases hno with hno | hno
          · rw [htype] at hno
            cases hno
          · exact absurd rfl hno

/-- Where the shell does not start, the device that was registered for it stays. -/
theorem not_restores {e : LoopEvent} (hw : Walking p) (hbad : ¬ ShellStarts p e) (hst : LoopStep p e q) :
    ¬ Restores p e q := by
  intro hres
  apply hbad
  rintro h c rest rfl hrest hr hf hmsg htype hfree hadd
  by_contra hstart
  cases hst with
  | round hne hn =>
      rcases next_cases hw hrest hn with ⟨hr', -⟩ | ⟨-, hf', -⟩ | ⟨-, -, r, hserved, rfl⟩
      · rw [hr] at hr'
        cases hr'
      · rw [hf] at hf'
        cases hf'
      · cases hserved with
        | ignored hwhy =>
            rcases hwhy with hwhy | ⟨-, hwhy⟩
            · rw [hmsg] at hwhy
              cases hwhy
            · exact hwhy htype
        | stopped hstop =>
            rw [hmsg] at hstop
            cases hstop
        | noDevice _ _ hwhy =>
            rcases hwhy with hwhy | hwhy
            · rw [hfree] at hwhy
              cases hwhy
            · rw [hadd] at hwhy
              cases hwhy
        | noShell procs _ _ _ _ _ =>
            have hsame := (hres h c c rfl ⟨⟨rest, hrest⟩, hr, hf, hmsg, rfl⟩
              (Or.inr (by rw [htype]; nofun))).1
            -- the registry has one entry more
            have hlen := congrArg (fun d : Devices Nat => d.entries.length) hsame
            simp [withTty] at hlen
        | tty _ _ _ _ _ _ hok => exact hstart hok

/-- **When failed commands leave nothing behind.** Along a run of the main loop from a server without
    connections, every `type tty` that gives no type leaves the device registry and the process table as they
    were before it, if and only if in every round the shell starts where a device was registered for it. -/
theorem restores_iff {tr : List (Poll × LoopEvent × Poll)} (hp : Unconnected p) (hrun : Run LoopStep p tr q) :
    (∀ x ∈ tr, Restores x.1 x.2.1 x.2.2) ↔ ∀ x ∈ tr, ShellStarts x.1 x.2.1 :=
  hrun.always_iff_good (I := Walking) (C := ShellStarts) (Q := Restores)
    (fun _ _ _ hw hgood hst => ⟨hw.step hst, restores_of_shellStarts hw hgood hst⟩)
    (fun _ _ _ hw hbad hst => not_restores hw hbad hst) hp.walking

/-- The step gives a connection type `TypeTTY`. -/
def Gives (p : Poll) (e : LoopEvent) (q : Poll) : Prop :=
  ∃ h c c', e = .round h ∧ ServesTty p h q c c' ∧ ¬ NotGiven c c'

/-- Only a `type tty` touches the two tables. -/
theorem same_of_not_gives {e : LoopEvent} (hw : Walking p) (hres : Restores p e q) (hno : ¬ Gives p e q)
    (hst : LoopStep p e q) : q.srv.devices = p.srv.devices ∧ q.srv.procs = p.srv.procs := by
  cases hst with
  | begin _ _ _ hp =>
      rcases pollBegin_ok hp with ⟨-, rfl⟩ | ⟨hbit, -, rfl⟩
      · exact ⟨rfl, rfl⟩
      · exact ⟨rfl, rfl⟩
  | @round _ h hne hn =>
      obtain ⟨c, rest, hrest⟩ := List.exists_cons_of_ne_nil hne
      rcases next_cases hw hrest hn with ⟨-, rfl⟩ | ⟨-, -, d, rest', fd, -, -, rfl⟩ | ⟨hr, hf, r, hserved, rfl⟩
      · exact ⟨rfl, rfl⟩
      · exact ⟨rfl, rfl⟩
      · by_cases hmsg : commandOf h.message = .typeTty
        · refine hres h c r.con rfl ⟨⟨rest, hrest⟩, hr, hf, hmsg, rfl⟩ (not_not.mp fun hgiven => ?_)
          exact hno ⟨h, c, r.con, rfl, ⟨⟨rest, hrest⟩, hr, hf, hmsg, rfl⟩, hgiven⟩
        · cases hserved with
          | ignored _ => exact ⟨rfl, rfl⟩
          | stopped _ => exact ⟨rfl, rfl⟩
          | noDevice htty _ _ => exact absurd htty hmsg
          | noShell _ htty _ _ _ _ => exact absurd htty hmsg
          | tty _ _ htty _ _ _ _ => exact absurd htty hmsg

/-- **Nothing accumulates.** In a run whose failed commands leave nothing behind, and in which no connection is
    given a type, registry and process table end as they began. -/
theorem not_accumulated {tr : List (Poll × LoopEvent × Poll)} (hp : Unconnected p)
    (hrun : Run LoopStep p tr q) (hres : ∀ x ∈ tr, Restores x.1 x.2.1 x.2.2)
    (hno : ∀ x ∈ tr, ¬ Gives x.1 x.2.1 x.2.2) :
    q.srv.devices = p.srv.devices ∧ q.srv.procs = p.srv.procs := by
  induction hrun with
  | refl => exact ⟨rfl, rfl⟩
  | @tail tr t u e hrun hst ih =>
      have hpre := ih (fun x hx => hres x (List.mem_append_left _ hx))
        fun x hx => hno x (List.mem_append_left _ hx)
      have hw : Walking t := hrun.invariant (fun _ _ _ hI hst => hI.step hst) hp.walking
      have hlast := same_of_not_gives hw (hres (t, e, u) (by simp)) (hno (t, e, u) (by simp)) hst
      exact ⟨hlast.1.trans hpre.1, hlast.2.trans hpre.2⟩

/-- A client connects on 5 and asks for a tty, and the registry has no memory for it: nothing is left. -/
theorem restores_iff_refused :
    ∃ tr q, Run LoopStep listening tr q ∧ tr.length = 4 ∧
      ((∀ x ∈ tr, Restores x.1 x.2.1 x.2.2) ↔ ∀ x ∈ tr, ShellStarts x.1 x.2.1) := by
  have h1 : Run LoopStep listening _ _ := Run.single (i := .begin {3} 5)
    (.begin rfl (by decide) ⟨by decide, by decide⟩ rfl)
  have h2 := Run.tail h1 (i := .round ⟨none, ttyStarts⟩) (.round (by decide) rfl)
  have h3 := Run.tail h2 (i := .begin {5} (-1)) (.begin rfl (by decide) ⟨by decide, by decide⟩ rfl)
  have h4 := Run.tail h3 (i := .round ⟨some (bytes "type tty\n"), { ttyStarts with add := false }⟩)
    (.round (by decide) rfl)
  exact ⟨_, _, h4, rfl, restores_iff listening_unconnected h4⟩

/-- Answers with which the device is registered and the shell cannot be loaded. -/
def ttyNoShell : TtyHost where
  add := true
  start := { load := ⟨true, true, false, true, true, true⟩, run := ⟨true, fun _ => true, 100⟩ }

/-- The client asks for a tty and `/bin/shell` cannot be loaded: `tty0` stays registered. -/
theorem device_left_behind :
    ¬ ∀ tr q, Run LoopStep listening tr q → ∀ x ∈ tr, Restores x.1 x.2.1 x.2.2 := by
  intro hall
  have h1 : Run LoopStep listening _ _ := Run.single (i := .begin {3} 5)
    (.begin rfl (by decide) ⟨by decide, by decide⟩ rfl)
  have h2 := Run.tail h1 (i := .round ⟨none, ttyStarts⟩) (.round (by decide) rfl)
  have h3 := Run.tail h2 (i := .begin {5} (-1)) (.begin rfl (by decide) ⟨by decide, by decide⟩ rfl)
  have h4 := Run.tail h3 (i := .round ⟨some (bytes "type tty\n"), ttyNoShell⟩) (.round (by decide) rfl)
  have hlast := hall _ _ h4 _ (List.mem_append_right _ (List.mem_singleton_self _))
  have hsame := (hlast _ _ _ rfl ⟨⟨[], rfl⟩, by decide, by decide, by decide, rfl⟩
    (Or.inr (by decide))).1
  exact absurd hsame (by decide)

end PollLoop
end DistributedPlatform
