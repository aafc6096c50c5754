import DistributedPlatform.Correctness.PollLoop
import DistributedPlatform.Lib.Run

/-!
# `Correctness.Rounds` — the main loop, one round at a time

`main` calls `tcpPoll` again and again. `LoopStep` is this loop with a step for the part of `tcpPoll` before
its loop (`select` and `accept`) and a step for each round: the steps are the events the connections see, and
others can act between two of them. A call of `tcpPoll` that returns is a run of it (`tcpPoll_run`).

`next_cases` lists what one round can do to the server; every invariant of the loop is derived from it.
-/

namespace DistributedPlatform
namespace PollLoop

open Machine Server

/-- What the host answers in a step of the main loop. -/
inductive LoopEvent
  | begin (ready : Finset Int) (accept : Int)
  | round (h : ReadHost)

/-- A step of the main loop: between two calls of `tcpPoll` there are no connections left to walk over. -/
inductive LoopStep : Poll → LoopEvent → Poll → Prop
  | begin {p p' : Poll} {ready : Finset Int} {accept : Int} :
      p.rest = [] → 0 ≤ p.srv.tcpSockFd → HostOk p.srv ready accept →
      p.srv.pollBegin ready accept = .ok p' → LoopStep p (.begin ready accept) p'
  | round {p p' : Poll} {h : ReadHost} :
      p.rest ≠ [] → p.next (fun _ => h) = .ok p' → LoopStep p (.round h) p'

variable {p p' q : Poll} {c : Connection} {rest : List Connection}

/-- **A round** passes over a connection that is not ready; or erases one that nothing could be read from,
    and passes over the next; or serves the message that was read. -/
theorem next_cases (hw : Walking p) (hrest : p.rest = c :: rest) {h : ReadHost}
    (hn : p.next (fun _ => h) = .ok p') :
    (p.srv.isReady p.ready c.sock = false ∧ p' = { p with done := p.done ++ [c], rest := rest }) ∨
    (p.srv.isReady p.ready c.sock = true ∧ h.fails = true ∧
      ∃ d rest' fd, rest = d :: rest' ∧ p.srv.hostFd c.sock = some fd ∧
        p' = { p with
          srv := { p.srv with
            connections := p.done ++ rest, fdSetActive := p.srv.fdSetActive.erase fd }
          done := p.done ++ [d], rest := rest', reads := p.reads ++ [c.sock] }) ∨
    (p.srv.isReady p.ready c.sock = true ∧ h.fails = false ∧
      ∃ r, Served p.srv c h.message h.tty r ∧
        p' = { p with
          srv := { r.srv with connections := p.done ++ r.con :: rest }
          done := p.done ++ [r.con], rest := rest, reads := p.reads ++ [c.sock]
          shells := p.shells ++ r.shell.toList }) := by
  obtain ⟨sock, hsock, htcp, hbit⟩ := hw.sock_tcp hrest
  have hconns := hw.conns
  rw [hrest] at hconns
  have hsame : ({ p.srv with connections := p.done ++ c :: rest } : Server) = p.srv := by
    rw [← hconns]
  unfold Poll.next at hn
  rw [hrest] at hn
  obtain ⟨v, hv, hn⟩ := Eff.bind_eq_ok.mp hn
  rcases pollVisit_cases hw.net.started hsock htcp hbit p.ready h with
    ⟨hr, hv'⟩ | ⟨hr, hf, hv'⟩ | ⟨hr, hf, r, hserved, hv'⟩
  · rw [hv] at hv'; cases hv'
    refine Or.inl ⟨hr, ?_⟩
    simp only [Poll.advance, hsame] at hn
    cases hn
    simp
  · rw [hv] at hv'; cases hv'
    refine Or.inr (Or.inl ⟨hr, hf, ?_⟩)
    cases rest with
    -- nothing behind the erased connection: `++iter` goes past the end, and no round comes of it
    | nil => simp [Poll.advance] at hn
    | cons d rest' =>
        simp only [Poll.advance] at hn
        cases hn
        exact ⟨d, rest', sock.sockFd, rfl, by simp [hostFd, hsock], by simp⟩
  · rw [hv] at hv'; cases hv'
    refine Or.inr (Or.inr ⟨hr, hf, r, hserved, ?_⟩)
    simp only [Poll.advance] at hn
    cases hn
    simp

/-- A round leaves the loop between two rounds. -/
theorem Walking.next (hw : Walking p) (hrest : p.rest = c :: rest) {h : Nat → ReadHost}
    (hn : p.next h = .ok p') : Walking p' := by
  by_cases hboth : p.srv.isReady p.ready c.sock = true ∧ (h c.sock).fails = true
  · cases rest with
    | nil =>
        rw [next_last hw hrest h hboth.1 hboth.2] at hn
        cases hn
    | cons d rest' =>
        obtain ⟨p'', hp'', hm⟩ := next_erase hw hrest h hboth.1 hboth.2
        rw [hn] at hp''; cases hp''
        exact hm.walking
  · obtain ⟨p'', hp'', hm⟩ := next_keep hw hrest h hboth
    rw [hn] at hp''; cases hp''
    exact hm.walking

/-- **The invariant of the main loop.** -/
theorem Walking.step {e : LoopEvent} (hw : Walking p) (h : LoopStep p e p') : Walking p' := by
  cases h with
  | begin _ _ hh hp => exact walking_pollBegin hw.net hh hp
  | round hne hn =>
      obtain ⟨c, rest, hrest⟩ := List.exists_cons_of_ne_nil hne
      exact hw.next hrest hn

/-- Before the first connection. -/
structure Unconnected (p : Poll) : Prop where
  net : NetOk p.srv
  idle : p.done = [] ∧ p.rest = []
  connections : p.srv.connections = []

theorem Unconnected.walking (h : Unconnected p) : Walking p where
  net := h.net
  conns := by rw [h.connections, h.idle.1, h.idle.2]; rfl

/-- The main loop of a server listening on descriptor 3. -/
def listening : Poll where
  srv := { tcpSockFd := 3, fdSetActive := ⟨{3}, by decide⟩, filesystem := bytes "/srv" }

theorem listening_unconnected : Unconnected listening where
  net :=
    { started := by decide, tcp := by decide, distinct := by decide, listener := by decide
      active := fun fd => by simp [listening, clients] }
  idle := ⟨rfl, rfl⟩
  connections := rfl

/-- Answers with which a tty session starts. -/
def ttyStarts : TtyHost where
  add := true
  start := { load := ⟨true, true, true, true, true, true⟩, run := ⟨true, fun _ => true, 100⟩ }

/-! ## A call of `tcpPoll` is a run -/

end PollLoop
end DistributedPlatform
