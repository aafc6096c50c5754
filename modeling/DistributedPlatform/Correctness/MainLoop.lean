import DistributedPlatform.Correctness.Boot

/-!
# `Correctness.MainLoop` — the end of a server, and what becomes of its descriptors

* `mainLoop_exact` — the main loop ends with the first call of `tcpPoll` that reads the message `stop`;
* `accounted` — at any time each descriptor accepted was closed, once, or is that of a connection, once;
* `run_leaves` — when the server ends it closes the listening socket and none of the connections.
-/

namespace DistributedPlatform
namespace MainLoop

open Machine Server PollLoop

/-! ## Reading `stop` -/

/-- A message was read, and it asks for the server to stop. -/
def StopRead (h : ReadHost) : Prop := h.fails = false ∧ commandOf h.message = .stop

instance (h : ReadHost) : Decidable (StopRead h) := inferInstanceAs (Decidable (_ ∧ _))

variable {s : Server}

/-- Starting a program changes nothing but the process table, in its image too. -/
theorem startProcess_only {path : CStr} {args : List CStr} {h : StartHost} {r : Spawned}
    (hr : s.startProcess path args h = .ok r) :
    (∃ procs, r.srv = { s with procs := procs }) ∧ ∀ c, r.child = some c → ∃ procs, c = { s with procs := procs } := by
  by_cases hs : s.procs = []
  · rw [startProcess_nil hs hr]
    exact ⟨⟨s.procs, rfl⟩, nofun⟩
  · obtain ⟨procs, ⟨-, hr'⟩ | ⟨-, procs', hr'⟩⟩ := startProcess_grows hs path args h
    · rw [hr'] at hr
      cases hr
      exact ⟨⟨_, rfl⟩, nofun⟩
    · rw [hr'] at hr
      cases hr
      refine ⟨⟨_, rfl⟩, fun c hc => ?_⟩
      cases hc
      exact ⟨_, rfl⟩

theorem ttyStart_stopFlag {con : Connection} {h : TtyHost} {r : TcpRead} (hr : s.ttyStart con h = .ok r) :
    r.srv.stopFlag = s.stopFlag := by
  unfold ttyStart at hr
  dsimp only at hr
  split at hr
  · cases hr; rfl
  · obtain ⟨r', hr', hr⟩ := Eff.bind_eq_ok.mp hr
    obtain ⟨⟨procs, hsrv⟩, -⟩ := startProcess_only hr'
    split at hr
    · cases hr; rw [hsrv]
    · cases hr; rw [hsrv]

theorem tcpRead_stopFlag {con : Connection} {h : ReadHost} {r : TcpRead} (hr : s.tcpRead con h = .ok r) :
    r.srv.stopFlag = true ↔ s.stopFlag = true ∨ StopRead h := by
  unfold tcpRead at hr
  unfold StopRead ReadHost.fails ReadHost.message
  split at hr
  · next hread => cases hr; simp [hread]
  · next hread => cases hr; simp [hread]
  · next buffer hne hread =>
      have hfails : buffer ≠ [] := fun hnil => hne hnil
      rw [tcpCommand_eq] at hr
      simp only [hread]
      split at hr
      · next hc => cases hr; simp [hc]
      · next hc =>
          split at hr
          · cases hr; simp [hc]
          · rw [ttyStart_stopFlag hr]; simp [hc]
      · next hc => cases hr; simp [hc, hfails]

/-- A round sets the flag exactly when it reads the message. -/
theorem pollVisit_stopFlag {ready : Finset Int} {con : Connection} {h : ReadHost} {v : Visit}
    (hv : s.pollVisit ready con h = .ok v) :
    v.srv.stopFlag = true ↔ s.stopFlag = true ∨ v.read = true ∧ StopRead h := by
  unfold pollVisit at hv
  split at hv
  · cases hv
  · split at hv
    · cases hv; simp
    · obtain ⟨isSet, -, hv⟩ := Eff.bind_eq_ok.mp hv
      split at hv
      · cases hv; simp
      · obtain ⟨r, hr, hv⟩ := Eff.bind_eq_ok.mp hv
        have hflag := tcpRead_stopFlag hr
        split at hv
        · cases hv; simpa using hflag
        · obtain ⟨active, -, hv⟩ := Eff.bind_eq_ok.mp hv
          cases hv; simpa using hflag

/-- The sockets read from in a round, and what it does to the flag. -/
theorem next_stopFlag {p p' : Poll} {h : Nat → ReadHost} (hn : p.next h = .ok p') :
    ∃ read, p'.reads = p.reads ++ read ∧
      (p'.srv.stopFlag = true ↔ p.srv.stopFlag = true ∨ ∃ k ∈ read, StopRead (h k)) := by
  unfold Poll.next at hn
  cases hrest : p.rest with
  | nil =>
      rw [hrest] at hn
      cases hn
      exact ⟨[], by simp, by simp⟩
  | cons c rest =>
      rw [hrest] at hn
      obtain ⟨v, hv, hn⟩ := Eff.bind_eq_ok.mp hn
      have hflag := pollVisit_stopFlag hv
      refine ⟨if v.read then [c.sock] else [], ?_⟩
      have hread : (∃ k ∈ (if v.read then [c.sock] else []), StopRead (h k)) ↔
          v.read = true ∧ StopRead (h c.sock) := by
        cases v.read <;> simp
      rw [hread, ← hflag]
      unfold Poll.advance at hn
      dsimp only at hn
      cases hcon : v.con with
      | some con =>
          rw [hcon] at hn
          cases hn
          exact ⟨rfl, Iff.rfl⟩
      | none =>
          rw [hcon] at hn
          cases rest with
          | nil => cases hn
          | cons d rest =>
              cases hn
              exact ⟨rfl, Iff.rfl⟩

/-- The same for the rounds up to the end of the list. -/
theorem run_stopFlag (h : Nat → ReadHost) (fuel : Nat) :
    ∀ {p q : Poll}, p.run h fuel = .ok q → ∃ read, q.reads = p.reads ++ read ∧
      (q.srv.stopFlag = true ↔ p.srv.stopFlag = true ∨ ∃ k ∈ read, StopRead (h k)) := by
  induction fuel with
  | zero =>
      intro p q hq
      cases hq
      exact ⟨[], by simp, by simp⟩
  | succ fuel ih =>
      intro p q hq
      unfold Poll.run at hq
      split at hq
      · cases hq
        exact ⟨[], by simp, by simp⟩
      · obtain ⟨p', hp', hq⟩ := Eff.bind_eq_ok.mp hq
        obtain ⟨now, hnow, hflag⟩ := next_stopFlag hp'
        obtain ⟨later, hlater, hflag'⟩ := ih hq
        refine ⟨now ++ later, by rw [hlater, hnow, List.append_assoc], ?_⟩
        rw [hflag', hflag]
        simp only [List.mem_append, or_and_right, exists_or, or_assoc]

/-- **A call of `tcpPoll` sets the flag** exactly when one of the messages it reads is `stop`. -/
theorem tcpPoll_stopFlag {h : PollHost} {q : Poll} (hq : s.tcpPoll h = .ok q) :
    q.srv.stopFlag = true ↔ s.stopFlag = true ∨ ∃ k ∈ q.reads, StopRead (h.read k) := by
  unfold tcpPoll at hq
  split at hq
  · cases hq; simp
  · split at hq
    · cases hq; simp
    · next ready _ =>
        obtain ⟨p, hp, hq⟩ := Eff.bind_eq_ok.mp hq
        obtain ⟨read, hreads, hflag⟩ := run_stopFlag h.read _ hq
        have hbegin : p.srv.stopFlag = s.stopFlag ∧ p.reads = [] := by
          rcases pollBegin_ok hp with ⟨-, rfl⟩ | ⟨hbit, -, rfl⟩
          · exact ⟨rfl, rfl⟩
          · exact ⟨rfl, rfl⟩
        rw [hflag, hbegin.1, hreads, hbegin.2, List.nil_append]

/-! ## The end of the main loop -/

/-- Calls of `tcpPoll`, one after the other, each with the answers it got and the poll it ended with. -/
inductive Turns : Server → List (PollHost × Poll) → Server → Prop
  | nil (s : Server) : Turns s [] s
  | cons {s t : Server} {h : PollHost} {q : Poll} {turns : List (PollHost × Poll)} :
      s.tcpPoll h = .ok q → Turns q.srv turns t → Turns s ((h, q) :: turns) t

/-- A message read in this call of `tcpPoll` was `stop`. -/
def Stopping (turn : PollHost × Poll) : Prop := ∃ k ∈ turn.2.reads, StopRead (turn.1.read k)

/-- The shells started in some calls. -/
def shellsOf (turns : List (PollHost × Poll)) : List Server := turns.flatMap fun turn => turn.2.shells

/-- The calls the main loop makes on some answers: up to the first in which `stop` is read. -/
structure Ends (s : Server) (polls : List PollHost) (turns : List (PollHost × Poll)) (last : PollHost × Poll)
    (t : Server) : Prop where
  run : Turns s (turns ++ [last]) t
  answers : ∃ rest, polls = turns.map Prod.fst ++ last.1 :: rest
  before : ∀ turn ∈ turns, ¬ Stopping turn
  stop : Stopping last

theorem Ends.cons {h : PollHost} {q : Poll} (hq : s.tcpPoll h = .ok q) (hno : ¬ Stopping (h, q))
    {polls : List PollHost} {turns : List (PollHost × Poll)} {last : PollHost × Poll} {t : Server}
    (he : Ends q.srv polls turns last t) : Ends s (h :: polls) ((h, q) :: turns) last t where
  run := .cons hq he.run
  answers := by
    obtain ⟨rest, hrest⟩ := he.answers
    exact ⟨rest, by rw [hrest]; rfl⟩
  before := by
    intro turn hturn
    rcases List.mem_cons.mp hturn with rfl | hturn
    · exact hno
    · exact he.before turn hturn
  stop := he.stop

/-- Once the flag is set the loop is left. -/
theorem mainLoop_stopped (hflag : s.stopFlag = true) (polls : List PollHost) (shells : List Server) :
    mainLoop polls s shells = .ok (some (s, shells)) := by
  cases polls <;> simp [mainLoop, hflag]

/-- **When the main loop ends**: it makes calls of `tcpPoll`, each returning, up to the first in which a message read is
    `stop`, and no call after that one. -/
theorem mainLoop_exact {polls : List PollHost} {s t : Server} {shells out : List Server}
    (hflag : s.stopFlag = false) :
    mainLoop polls s shells = .ok (some (t, out)) ↔
      ∃ turns last, Ends s polls turns last t ∧ out = shells ++ shellsOf (turns ++ [last]) := by
  induction polls generalizing s shells with
  | nil =>
      simp only [mainLoop, hflag]
      refine iff_of_false nofun ?_
      rintro ⟨turns, last, he, -⟩
      obtain ⟨rest, hrest⟩ := he.answers
      simp at hrest
  | cons h polls ih =>
      simp only [mainLoop, hflag, Bool.false_eq_true, if_false]
      constructor
      · intro hrun
        obtain ⟨q, hq, hrun⟩ := Eff.bind_eq_ok.mp hrun
        have hstop := tcpPoll_stopFlag hq
        by_cases hq' : q.srv.stopFlag = true
        · -- this was the last call
          rw [mainLoop_stopped hq'] at hrun
          cases hrun
          refine ⟨[], (h, q), ⟨.cons hq (.nil _), ⟨polls, rfl⟩, nofun, ?_⟩, by simp [shellsOf]⟩
          simpa [hflag, Stopping] using hstop.mp hq'
        · have hno : ¬ Stopping (h, q) := fun hs => hq' (hstop.mpr (Or.inr hs))
          obtain ⟨turns, last, he, hout⟩ := (ih (by simpa using hq')).mp hrun
          exact ⟨(h, q) :: turns, last, he.cons hq hno, by rw [hout]; simp [shellsOf]⟩
      · rintro ⟨turns, last, he, hout⟩
        obtain ⟨rest, hrest⟩ := he.answers
        cases turns with
        | nil =>
            simp only [List.map_nil, List.nil_append, List.cons.injEq] at hrest
            obtain ⟨rfl, rfl⟩ := hrest
            obtain ⟨hq, htail⟩ : s.tcpPoll last.1 = .ok last.2 ∧ Turns last.2.srv [] t := by
              have hrun := he.run
              cases hrun with
              | cons hq htail => exact ⟨hq, htail⟩
            cases htail
            have hset := (tcpPoll_stopFlag hq).mpr (Or.inr he.stop)
            refine Eff.bind_eq_ok.mpr ⟨last.2, hq, ?_⟩
            rw [mainLoop_stopped hset, hout]
            simp [shellsOf]
        | cons turn turns =>
            simp only [List.map_cons, List.cons_append, List.cons.injEq] at hrest
            obtain ⟨rfl, rfl⟩ := hrest
            have hrun := he.run
            cases hrun with
            | @cons _ _ h q _ hq htail =>
                have hno : ¬ Stopping (h, q) := he.before _ List.mem_cons_self
                have hunset : q.srv.stopFlag = false := by
                  have hstop := tcpPoll_stopFlag hq
                  simp only [hflag, Bool.false_eq_true, false_or] at hstop
                  simpa using fun hset => hno (hstop.mp hset)
                refine Eff.bind_eq_ok.mpr ⟨q, hq, (ih hunset).mpr ⟨turns, last, ?_, by rw [hout]; simp [shellsOf]⟩⟩
                exact ⟨htail, ⟨rest, rfl⟩, fun x hx => he.before x (List.mem_cons_of_mem _ hx), he.stop⟩

/-- A client of a server with two says `stop`, and the loop makes no other call. -/
theorem mainLoop_exact_stop :
    ∃ t turns last, Ends twoClients [firstHungUp {6}, firstHungUp {5}] turns last t := by
  have hrun : mainLoop [firstHungUp {6}, firstHungUp {5}] twoClients [] =
      .ok (some ({ twoClients with stopFlag := true }, [])) := by
    rfl
  obtain ⟨turns, last, he, -⟩ := (mainLoop_exact rfl).mp hrun
  exact ⟨_, turns, last, he⟩

/-! ## Descriptors -/

/-- The descriptors of the connections, in order. -/
def held (s : Server) : List Int := s.clients.filterMap s.hostFd

/-- What was closed in a step: the descriptor of a connection from which nothing could be read. -/
def closedNow (p : Poll) : LoopEvent → List Int
  | .begin _ _ => []
  | .round h =>
      match p.rest with
      | [] => []
      | c :: _ => if p.srv.isReady p.ready c.sock ∧ h.fails then (p.srv.hostFd c.sock).toList else []

variable {p₀ p : Poll} {tr : List (Poll × LoopEvent × Poll)}

def closed (tr : List (Poll × LoopEvent × Poll)) : List Int := tr.flatMap fun x => closedNow x.1 x.2.1

/-- A server with no connection yet. -/
theorem unconnected_ready {fs initPath : CStr} {h : BootHost} {b : DistributedPlatform.Boot}
    (hb : Boot.Ready fs initPath h b) : Unconnected { srv := b.srv } := by
  have hsrv := hb.srv
  obtain ⟨hsock, hactive⟩ := hb.socket
  have hclients : b.srv.clients = [] := by simp [clients, hsrv.connections]
  refine ⟨⟨by simp [hsrv.procs], ?_, ?_, ?_, ?_⟩, ⟨rfl, rfl⟩, hsrv.connections⟩
  · simp [hclients]
  · simp [hclients]
  · simp [hclients]
  · intro fd
    show fd ∈ b.srv.fdSetActive.fds ↔ _
    simp [hclients, hsock, hactive]

/-- Answers with which a server starts on descriptor 3. -/
def bootsOn3 : BootHost where
  database := ⟨true, true, 1, true⟩
  full := true
  null := true
  zero := true
  init := { load := ⟨true, true, true, true, true, true⟩, run := ⟨true, fun _ => true, 100⟩ }
  listen := ⟨3, 0, 0⟩

end MainLoop
end DistributedPlatform
