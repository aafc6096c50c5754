import Mathlib.Data.List.Nodup
import DistributedPlatform.Lib.Sweep
import DistributedPlatform.Server.Tcp

/-!
# `Correctness.PollLoop` — what one `tcpPoll` visits, drops and keeps

The loop of `tcpPoll` is a `Sweep` over the sockets of the connections: a connection is visited when its
socket is ready and dropped when nothing can be read from it. After `erase` the iterator is advanced once
too often, so the call does its whole job exactly when no dropped connection is followed by a ready one, none
is the last of the list, and a descriptor that was accepted has a bit in the set (`tcpPoll_complete_iff`).

`NetOk` is what ties the connections to the descriptor set; a call that returns keeps it, whatever was
passed over.
-/

namespace DistributedPlatform
namespace PollLoop

open Server

/-- The connections are distinct open TCP sockets apart from the listening one, and `fdSetActive` holds
    the descriptors of just these. -/
structure NetOk (s : Server) : Prop where
  started : s.procs ≠ []
  tcp : ∀ k ∈ s.clients, ∃ sock, s.socks[k]? = some sock ∧ sock.type = .typeTcp
  distinct : (s.clients.map s.hostFd).Nodup
  listener : ∀ k ∈ s.clients, s.hostFd k ≠ some s.tcpSockFd
  active : ∀ fd, fd ∈ s.fdSetActive ↔ fd = s.tcpSockFd ∨ ∃ k ∈ s.clients, s.hostFd k = some fd

/-- The loop is between two rounds of a walk over the connections. -/
structure Walking (p : Poll) : Prop where
  net : NetOk p.srv
  conns : p.srv.connections = p.done ++ p.rest

theorem hostFd_congr {s t : Server} (h : t.socks = s.socks) : t.hostFd = s.hostFd := by
  funext k; simp [hostFd, h]

theorem isReady_congr {s t : Server} (h : t.socks = s.socks) : t.isReady = s.isReady := by
  funext ready k; simp [isReady, hostFd_congr h]

theorem NetOk.listener_hasBit {s : Server} (h : NetOk s) : HasBit s.tcpSockFd :=
  s.fdSetActive.hasBit _ ((h.active _).mpr (Or.inl rfl))

theorem NetOk.client_hasBit {s : Server} (h : NetOk s) {k : Nat} {fd : Int} (hk : k ∈ s.clients)
    (hfd : s.hostFd k = some fd) : HasBit fd :=
  s.fdSetActive.hasBit _ ((h.active _).mpr (Or.inr ⟨k, hk, hfd⟩))

theorem NetOk.eq_of_hostFd {s : Server} (h : NetOk s) {c c' : Connection} (hc : c ∈ s.connections)
    (hc' : c' ∈ s.connections) (heq : s.hostFd c'.sock = s.hostFd c.sock) : c' = c := by
  have hdist : (s.connections.map fun c => s.hostFd c.sock).Nodup := by
    have hd := h.distinct
    rwa [clients, List.map_map] at hd
  exact List.inj_on_of_nodup_map hdist hc' hc heq

theorem NetOk.congr {s t : Server} (h : NetOk s) (hclients : t.clients = s.clients)
    (hsame : SameNet { s with connections := t.connections } t) : NetOk t where
  started := hsame.procs h.started
  tcp k hk := by
    rw [hsame.socks]; exact h.tcp k (hclients ▸ hk)
  distinct := by
    rw [hclients, hostFd_congr hsame.socks]; exact h.distinct
  listener k hk := by
    rw [hostFd_congr hsame.socks, hsame.tcpSockFd]; exact h.listener k (hclients ▸ hk)
  active fd := by
    rw [hsame.fdSetActive, hsame.tcpSockFd, hclients, hostFd_congr hsame.socks]; exact h.active fd

/-- Dropping one client and its descriptor. -/
theorem NetOk.erase {s : Server} (h : NetOk s) {before after : List Nat} {k : Nat} {fd : Int}
    (hs : s.clients = before ++ k :: after) (hfd : s.hostFd k = some fd) {conns : List Connection}
    (hconns : conns.map (·.sock) = before ++ after) :
    NetOk { s with connections := conns, fdSetActive := s.fdSetActive.erase fd } := by
  have hmem : ∀ {j}, j ∈ before ++ after → j ∈ s.clients := by
    intro j hj; rw [hs]; simp only [List.mem_append, List.mem_cons] at hj ⊢; tauto
  have hkmem : k ∈ s.clients := by rw [hs]; simp
  have hdist := h.distinct
  rw [hs, List.map_append, List.map_cons] at hdist
  have hnodup := List.nodup_cons.mp (List.perm_middle.nodup_iff.mp hdist)
  refine ⟨h.started, fun j hj => ?_, ?_, fun j hj => ?_, fun fd' => ?_⟩
  · exact h.tcp j (hmem (hconns ▸ hj))
  · show ((conns.map (·.sock)).map s.hostFd).Nodup
    rw [hconns, List.map_append]; exact hnodup.2
  · exact h.listener j (hmem (hconns ▸ hj))
  · -- distinct clients have distinct descriptors, so erasing that of `k` erases no other's
    show fd' ∈ s.fdSetActive.erase fd ↔ fd' = s.tcpSockFd ∨ ∃ j ∈ conns.map (·.sock), s.hostFd j = some fd'
    rw [FdSet.mem_erase, h.active, hconns, hs]
    constructor
    · rintro ⟨hne, rfl | ⟨j, hj, hjfd⟩⟩
      · exact Or.inl rfl
      · refine Or.inr ⟨j, ?_, hjfd⟩
        simp only [List.mem_append, List.mem_cons] at hj ⊢
        rcases hj with hj | rfl | hj
        · exact Or.inl hj
        · rw [hfd] at hjfd; exact absurd (Option.some.inj hjfd).symm hne
        · exact Or.inr hj
    · rintro (rfl | ⟨j, hj, hjfd⟩)
      · refine ⟨?_, Or.inl rfl⟩
        rintro rfl; exact h.listener k hkmem hfd
      · refine ⟨?_, Or.inr ⟨j, ?_, hjfd⟩⟩
        · rintro rfl
          apply hnodup.1
          rw [← List.map_append, hfd, ← hjfd]
          exact List.mem_map_of_mem hj
        · simp only [List.mem_append, List.mem_cons] at hj ⊢; tauto

/-! ## One round -/

/-- A round kept client `kept` behind the iterator, left `rest` before it, and called `tcpRead` on
    `visited`. -/
structure Moved (p p' : Poll) (kept : Nat) (rest : List Connection) (visited : List Nat) : Prop where
  walking : Walking p'
  done : p'.done.map (·.sock) = p.done.map (·.sock) ++ [kept]
  rest : p'.rest = rest
  reads : p'.reads = p.reads ++ visited
  ready : p'.ready = p.ready
  socks : p'.srv.socks = p.srv.socks
  tcpSockFd : p'.srv.tcpSockFd = p.srv.tcpSockFd

variable {p : Poll} {c d : Connection} {rest : List Connection}

theorem Walking.clients_eq (hw : Walking p) (hrest : p.rest = c :: rest) :
    p.srv.clients = p.done.map (·.sock) ++ c.sock :: rest.map (·.sock) := by
  simp [clients, hw.conns, hrest]

theorem Walking.sock_tcp (hw : Walking p) (hrest : p.rest = c :: rest) :
    ∃ sock, p.srv.socks[c.sock]? = some sock ∧ sock.type = .typeTcp ∧ HasBit sock.sockFd := by
  have hmem : c.sock ∈ p.srv.clients := by rw [hw.clients_eq hrest]; simp
  obtain ⟨sock, hsock, htcp⟩ := hw.net.tcp c.sock hmem
  exact ⟨sock, hsock, htcp, hw.net.client_hasBit hmem (by simp [hostFd, hsock])⟩

/-- A round that erases nothing. -/
theorem next_keep (hw : Walking p) (hrest : p.rest = c :: rest) (h : Nat → ReadHost)
    (hno : ¬ (p.srv.isReady p.ready c.sock = true ∧ (h c.sock).fails = true)) :
    ∃ p', p.next h = .ok p' ∧
      Moved p p' c.sock rest (if p.srv.isReady p.ready c.sock then [c.sock] else []) := by
  obtain ⟨sock, hsock, htcp, hbit⟩ := hw.sock_tcp hrest
  rcases pollVisit_cases hw.net.started hsock htcp hbit p.ready (h c.sock) with
    ⟨hr, hv⟩ | ⟨hr, hf, -⟩ | ⟨hr, -, r, hserved, hv⟩
  · refine ⟨_, by simp [Poll.next, hrest, hv, Poll.advance, bind, Except.bind]; rfl, ?_⟩
    refine ⟨⟨hw.net.congr ?_ ⟨rfl, rfl, rfl, rfl, id⟩, by simp⟩, by simp, rfl, by simp [hr], rfl, rfl, rfl⟩
    rw [hw.clients_eq hrest]; simp [clients]
  · exact absurd ⟨hr, hf⟩ hno
  · have hsame := hserved.sameNet
    refine ⟨_, by simp [Poll.next, hrest, hv, Poll.advance, bind, Except.bind]; rfl, ?_⟩
    refine ⟨⟨hw.net.congr ?_ ⟨rfl, hsame.socks, hsame.tcpSockFd, hsame.fdSetActive, hsame.procs⟩,
      by simp⟩, by simp [hserved.sock_eq], rfl, by simp [hr], rfl, hsame.socks, hsame.tcpSockFd⟩
    rw [hw.clients_eq hrest]; simp [clients, hserved.sock_eq]

/-- A round that erases the last connection leaves the list. -/
theorem next_last (hw : Walking p) (hrest : p.rest = [c]) (h : Nat → ReadHost)
    (hr : p.srv.isReady p.ready c.sock = true) (hf : (h c.sock).fails = true) :
    p.next h = .error .pastEnd := by
  obtain ⟨sock, hsock, htcp, hbit⟩ := hw.sock_tcp hrest
  rcases pollVisit_cases hw.net.started hsock htcp hbit p.ready (h c.sock) with
    ⟨hr', -⟩ | ⟨-, -, hv⟩ | ⟨-, hf', -⟩
  · rw [hr] at hr'; cases hr'
  · simp [Poll.next, hrest, hv, Poll.advance, bind, Except.bind]
  · rw [hf] at hf'; cases hf'

/-- A round that erases another connection passes over the one after it. -/
theorem next_erase (hw : Walking p) (hrest : p.rest = c :: d :: rest) (h : Nat → ReadHost)
    (hr : p.srv.isReady p.ready c.sock = true) (hf : (h c.sock).fails = true) :
    ∃ p', p.next h = .ok p' ∧ Moved p p' d.sock rest [c.sock] := by
  obtain ⟨sock, hsock, htcp, hbit⟩ := hw.sock_tcp hrest
  rcases pollVisit_cases hw.net.started hsock htcp hbit p.ready (h c.sock) with
    ⟨hr', -⟩ | ⟨-, -, hv⟩ | ⟨-, hf', -⟩
  · rw [hr] at hr'; cases hr'
  · refine ⟨_, by simp [Poll.next, hrest, hv, Poll.advance, bind, Except.bind]; rfl, ?_⟩
    refine ⟨⟨?_, by simp⟩, by simp, rfl, by simp, rfl, rfl, rfl⟩
    exact hw.net.erase (hw.clients_eq hrest) (by simp [hostFd, hsock]) (by simp)
  · rw [hf] at hf'; cases hf'

/-! ## The whole walk -/

/-- A walk from `p` ended in `q`, having kept and visited the clients of `r`. -/
structure Swept (p q : Poll) (r : List Nat × List Nat) : Prop where
  net : NetOk q.srv
  clients : q.srv.clients = p.done.map (·.sock) ++ r.1
  reads : q.reads = p.reads ++ r.2
  tcpSockFd : q.srv.tcpSockFd = p.srv.tcpSockFd

/-- The walk of a loop that has reached the end. -/
theorem Walking.swept_nil (hw : Walking p) (hrest : p.rest = []) : Swept p p ([], []) := by
  have hconns := hw.conns
  rw [hrest, List.append_nil] at hconns
  exact ⟨hw.net, by simp [Server.clients, hconns], by simp, rfl⟩

/-- A round in front of a walk. -/
theorem Swept.cons {p' q : Poll} {kept : Nat} {visited : List Nat} {r : List Nat × List Nat}
    (hm : Moved p p' kept rest visited) (hs : Swept p' q r) :
    Swept p q (kept :: r.1, visited ++ r.2) where
  net := hs.net
  clients := by simp [hs.clients, hm.done]
  reads := by simp [hs.reads, hm.reads]
  tcpSockFd := hs.tcpSockFd.trans hm.tcpSockFd

/-- A walk from `p` does what the sweep did: it leaves the list with it, or keeps and visits the same clients. -/
def SweepsTo (p : Poll) (x : Eff Poll) (swept : Option (List Nat × List Nat)) : Prop :=
  (swept = none → x = .error .pastEnd) ∧ ∀ r, swept = some r → ∃ q, x = .ok q ∧ Swept p q r

theorem SweepsTo.cons {p' : Poll} {kept : Nat} {visited : List Nat} {x : Eff Poll}
    {swept : Option (List Nat × List Nat)} (hm : Moved p p' kept rest visited) (h : SweepsTo p' x swept) :
    SweepsTo p x (swept.map fun r => (kept :: r.1, visited ++ r.2)) := by
  refine ⟨fun hnone => h.1 (Option.map_eq_none_iff.mp hnone), ?_⟩
  intro _ hsome
  obtain ⟨r, hr, rfl⟩ := Option.map_eq_some_iff.mp hsome
  obtain ⟨q, hq, hs⟩ := h.2 r hr
  exact ⟨q, hq, hs.cons hm⟩

theorem Walking.sweepsTo_nil (hw : Walking p) (hrest : p.rest = []) : SweepsTo p (.ok p) (some ([], [])) := by
  refine ⟨nofun, ?_⟩
  rintro _ ⟨⟩
  exact ⟨p, rfl, hw.swept_nil hrest⟩

/-- **The loop is a sweep.** It leaves the list when the sweep does; otherwise it keeps and visits what the
    sweep does, and ends at the end of the list. -/
theorem run_sweep (h : Nat → ReadHost) (fuel : Nat) :
    ∀ p : Poll, Walking p → p.rest.length ≤ fuel →
      SweepsTo p (p.run h fuel)
        (Sweep.sweep (p.srv.isReady p.ready) (fun k => (h k).fails) (p.rest.map (·.sock))) := by
  induction fuel with
  | zero =>
      intro p hw hlen
      have hrest : p.rest = [] := List.length_eq_zero_iff.mp (by omega)
      rw [hrest]
      exact hw.sweepsTo_nil hrest
  | succ fuel ih =>
      intro p hw hlen
      cases hrest : p.rest with
      | nil =>
          have hrun : p.run h (fuel + 1) = .ok p := by simp [Poll.run, hrest]
          rw [hrun]
          exact hw.sweepsTo_nil hrest
      | cons c rest =>
          rw [hrest, List.length_cons] at hlen
          have hrun : p.run h (fuel + 1) = p.next h >>= fun p' => p'.run h fuel := by
            simp [Poll.run, hrest]
          rw [hrun]
          by_cases hboth : p.srv.isReady p.ready c.sock = true ∧ (h c.sock).fails = true
          · -- dropped: the `++iter` after the erase passes over the next connection, or over the end
            obtain ⟨hr, hf⟩ := hboth
            cases rest with
            | nil =>
                rw [next_last hw hrest h hr hf]
                exact ⟨fun _ => rfl, fun r hsw => by simp [Sweep.sweep, hr, hf] at hsw⟩
            | cons d rest =>
                obtain ⟨p', hp', hm⟩ := next_erase hw hrest h hr hf
                have hih := ih p' hm.walking (by rw [hm.rest]; simp at hlen; omega)
                rw [isReady_congr hm.socks, hm.ready, hm.rest] at hih
                rw [hp']
                simp only [List.map_cons, Sweep.sweep, hr, hf, if_true]
                exact hih.cons hm
          · -- kept: visited if ready, and the walk goes on behind it
            obtain ⟨p', hp', hm⟩ := next_keep hw hrest h hboth
            have hih := ih p' hm.walking (by rw [hm.rest]; omega)
            rw [isReady_congr hm.socks, hm.ready, hm.rest] at hih
            rw [hp', List.map_cons, Sweep.sweep_keep _ _ (rest.map (·.sock)) hboth]
            exact hih.cons hm

/-! ## One call of `tcpPoll` -/

/-- An accepted connection, on a descriptor that was not in use. -/
theorem NetOk.withClient {s : Server} (h : NetOk s) {newFd : Int} (hbit : HasBit newFd)
    (hnew : newFd ∉ s.fdSetActive) : NetOk (s.withClient newFd hbit) := by
  -- the new object stands behind the old ones, so the old connections see no difference
  have hclients : (s.withClient newFd hbit).clients = s.clients ++ [s.socks.length] := by
    simp [clients, Server.withClient]
  have hlt : ∀ {k}, k ∈ s.clients → k < s.socks.length := by
    intro k hk
    obtain ⟨sock, hsock, -⟩ := h.tcp k hk
    exact (List.getElem?_eq_some_iff.mp hsock).1
  have hold : ∀ {k}, k ∈ s.clients → (s.withClient newFd hbit).socks[k]? = s.socks[k]? := by
    intro k hk
    exact List.getElem?_append_left (hlt hk)
  have holdFd : ∀ k ∈ s.clients, (s.withClient newFd hbit).hostFd k = s.hostFd k := by
    intro k hk
    rw [hostFd, hold hk, hostFd]
  have hnewFd : (s.withClient newFd hbit).hostFd s.socks.length = some newFd := by
    simp [hostFd, Server.withClient]
  have hnotOld : ∀ k ∈ s.clients, s.hostFd k ≠ some newFd := by
    intro k hk hfd
    exact hnew ((h.active newFd).mpr (Or.inr ⟨k, hk, hfd⟩))
  refine ⟨h.started, ?_, ?_, ?_, ?_⟩
  · intro k hk
    rw [hclients, List.mem_append, List.mem_singleton] at hk
    rcases hk with hk | rfl
    · rw [hold hk]; exact h.tcp k hk
    · exact ⟨_, by simp [Server.withClient]; rfl, rfl⟩
  · rw [hclients, List.map_append, List.map_singleton, hnewFd, List.map_congr_left holdFd,
      List.nodup_append]
    refine ⟨h.distinct, by simp, ?_⟩
    rintro a ha b hb rfl
    rw [List.mem_singleton] at hb
    obtain ⟨k, hk, hkfd⟩ := List.mem_map.mp ha
    exact hnotOld k hk (hkfd.trans hb)
  · intro k hk
    rw [hclients, List.mem_append, List.mem_singleton] at hk
    rcases hk with hk | rfl
    · rw [holdFd k hk]; exact h.listener k hk
    · rw [hnewFd]
      intro heq
      exact hnew ((h.active newFd).mpr (Or.inl (Option.some.inj heq)))
  · intro fd
    show fd ∈ s.fdSetActive.insert newFd hbit ↔ fd = s.tcpSockFd ∨ _
    rw [FdSet.mem_insert, h.active, hclients]
    constructor
    · rintro (rfl | hfd | ⟨k, hk, hkfd⟩)
      · exact Or.inr ⟨s.socks.length, by simp, hnewFd⟩
      · exact Or.inl hfd
      · exact Or.inr ⟨k, by simp [hk], by rw [holdFd k hk, hkfd]⟩
    · rintro (hfd | ⟨k, hk, hkfd⟩)
      · exact Or.inr (Or.inl hfd)
      · rw [List.mem_append, List.mem_singleton] at hk
        rcases hk with hk | rfl
        · exact Or.inr (Or.inr ⟨k, hk, by rw [← hkfd, holdFd k hk]⟩)
        · rw [hnewFd] at hkfd
          exact Or.inl (Option.some.inj hkfd).symm

/-- The host's answers to one call: `select` reports descriptors it was asked about, and `accept` gives
    one that is not in use. -/
structure HostOk (s : Server) (ready : Finset Int) (accept : Int) : Prop where
  select : ∀ fd ∈ ready, fd ∈ s.fdSetActive
  accept : s.tcpSockFd ∈ ready → 0 ≤ accept → accept ∉ s.fdSetActive

/-- The socket objects of the connections the loop walks over: a client accepted in this call is the last. -/
def walked (s : Server) (ready : Finset Int) (accept : Int) : List Nat :=
  s.clients ++ if s.Accepts ready accept then [s.socks.length] else []

/-- A client accepted in this call is not found ready in it. -/
theorem isReady_withClient {s : Server} {ready : Finset Int} {newFd : Int} (hbit : HasBit newFd)
    (hnew : newFd ∉ ready) : (s.withClient newFd hbit).isReady ready = s.isReady ready := by
  funext k
  rcases Nat.lt_trichotomy k s.socks.length with hlt | rfl | hgt
  · simp [isReady, hostFd, Server.withClient, List.getElem?_append_left hlt]
  · simp [isReady, hostFd, Server.withClient, SocketTcp.listen, hnew]
  · have hnone : s.socks[k]? = none := List.getElem?_eq_none (Nat.le_of_lt hgt)
    have hnone' : (s.withClient newFd hbit).socks[k]? = none :=
      List.getElem?_eq_none (List.length_append.trans_le hgt)
    rw [isReady, isReady, hostFd, hostFd, hnone, hnone']

variable {s : Server} {ready : Finset Int} {accept : Int}

/-- The state the loop starts from: a new connection has been accepted. -/
structure Begun (s : Server) (ready : Finset Int) (accept : Int) (p : Poll) : Prop where
  walking : Walking p
  found : p.ready = ready
  isReady : p.srv.isReady ready = s.isReady ready
  reads : p.reads = []
  rest : p.rest.map (·.sock) = walked s ready accept
  tcpSockFd : p.srv.tcpSockFd = s.tcpSockFd
  done : p.done = []

theorem NetOk.begun (hs : NetOk s) (hh : HostOk s ready accept) {p : Poll}
    (hp : s.pollBegin ready accept = .ok p) : Begun s ready accept p := by
  rcases pollBegin_ok hp with ⟨hno, rfl⟩ | ⟨hbit, hyes, rfl⟩
  · exact ⟨⟨hs, rfl⟩, rfl, rfl, rfl, by simp [walked, hno, clients], rfl, rfl⟩
  · have hnew := hh.accept hyes.1 hyes.2
    refine ⟨⟨hs.withClient hbit hnew, rfl⟩, rfl, ?_, rfl, ?_, rfl, rfl⟩
    · exact isReady_withClient hbit fun hin => hnew (hh.select _ hin)
    · simp [walked, hyes, clients, Server.withClient]

theorem walking_pollBegin (hs : NetOk s) (hh : HostOk s ready accept) {p : Poll}
    (hp : s.pollBegin ready accept = .ok p) : Walking p := (hs.begun hh hp).walking

/-- What is asked of a call that ends its loop at `q`: `tcpRead` was called once on every client whose socket
    was ready, the clients it failed on are gone and all others are there in their order, a new one last, and
    `fdSetActive` holds the listening socket and the sockets of the clients left. -/
structure Complete (s : Server) (h : PollHost) (ready : Finset Int) (q : Poll) : Prop where
  reads : q.reads = s.clients.filter (s.isReady ready)
  kept : q.srv.clients =
    (walked s ready h.accept).filter fun k => ! (s.isReady ready k && (h.read k).fails)
  active : ∀ fd, fd ∈ q.srv.fdSetActive ↔
    fd = s.tcpSockFd ∨ ∃ k ∈ q.srv.clients, q.srv.hostFd k = some fd

/-- Every client whose `tcpRead` fails is followed by a client whose socket is not ready. -/
def NoSkip (s : Server) (h : PollHost) (ready : Finset Int) : Prop :=
  ∀ i k, (walked s ready h.accept)[i]? = some k → s.isReady ready k = true → (h.read k).fails = true →
    ∃ k', (walked s ready h.accept)[i + 1]? = some k' ∧ s.isReady ready k' = false

/-- The client accepted is not visited. -/
theorem filter_walked (s : Server) (ready : Finset Int) (accept : Int) :
    (walked s ready accept).filter (s.isReady ready) = s.clients.filter (s.isReady ready) := by
  have hnew : s.isReady ready s.socks.length = false := by simp [isReady, hostFd]
  unfold walked
  split
  · simp [hnew]
  · simp

/-- The loop from where `pollBegin` leaves it. -/
theorem run_complete_iff {h : PollHost} {p : Poll} (hb : Begun s ready h.accept p) :
    (∃ q, p.run h.read p.rest.length = .ok q ∧ Complete s h ready q) ↔ NoSkip s h ready := by
  have hsweep := run_sweep h.read p.rest.length p hb.walking (Nat.le_refl _)
  rw [hb.found, hb.isReady, hb.rest] at hsweep
  refine Iff.trans ?_ (Sweep.sweep_complete_iff (walked s ready h.accept))
  constructor
  · rintro ⟨q, hq, hc⟩
    cases hsw : Sweep.sweep (s.isReady ready) (fun k => (h.read k).fails) (walked s ready h.accept) with
    | none => rw [hsweep.1 hsw] at hq; cases hq
    | some r =>
        obtain ⟨q', hq', hr⟩ := hsweep.2 r hsw
        rw [hq] at hq'
        cases hq'
        have hclients := hr.clients
        have hreads := hr.reads
        rw [hb.done, List.map_nil, List.nil_append] at hclients
        rw [hb.reads, List.nil_append, hc.reads, ← filter_walked s ready h.accept] at hreads
        exact congrArg some (Prod.ext (hclients.symm.trans hc.kept) hreads.symm)
  · intro hsw
    obtain ⟨q, hq, hr⟩ := hsweep.2 _ hsw
    refine ⟨q, hq, ?_, ?_, ?_⟩
    · rw [hr.reads, hb.reads, List.nil_append, filter_walked]
    · rw [hr.clients, hb.done, List.map_nil, List.nil_append]
    · rw [← hb.tcpSockFd, ← hr.tcpSockFd]
      exact hr.net.active

/-- **When a call does its whole job.** `tcpPoll` returns, having served every ready client, dropped exactly
    those it could not read from and kept the others and the descriptor set in order, if and only if a
    descriptor it accepted is below `FD_SETSIZE` and each client it could not read from is followed by one
    that was not ready. -/
theorem tcpPoll_complete_iff (hs : NetOk s) {h : PollHost} (hsel : h.select = some ready)
    (hh : HostOk s ready h.accept) :
    (∃ q, s.tcpPoll h = .ok q ∧ Complete s h ready q) ↔
      (s.tcpSockFd ∈ ready → h.accept < FD_SETSIZE) ∧ NoSkip s h ready := by
  have hlisten := hs.listener_hasBit
  have hpoll : s.tcpPoll h = s.pollBegin ready h.accept >>= fun p => p.run h.read p.rest.length := by
    have hvalid : ¬ s.tcpSockFd < 0 := by have := hlisten.1; omega
    simp [tcpPoll, hsel, hvalid]
  rw [hpoll]
  rcases pollBegin_cases hlisten ready h.accept with ⟨hno, hp⟩ | ⟨hbit, hyes, hp⟩ | ⟨hyes, hbig, hp⟩
  · have hsmall : s.tcpSockFd ∈ ready → h.accept < FD_SETSIZE := by
      intro hin
      have hneg : ¬ 0 ≤ h.accept := fun h0 => hno ⟨hin, h0⟩
      have hpos : (0 : Int) < FD_SETSIZE := by decide
      omega
    rw [hp, and_iff_right hsmall]
    exact run_complete_iff (hs.begun hh hp)
  · rw [hp, and_iff_right fun _ => hbit.2]
    exact run_complete_iff (hs.begun hh hp)
  · rw [hp]
    refine iff_of_false ?_ ?_
    · rintro ⟨q, hq, -⟩
      cases hq
    · rintro ⟨hsmall, -⟩
      have := hsmall hyes.1
      omega

/-- A server listening on descriptor 3, with clients on 5 and 6. -/
def twoClients : Server where
  tcpSockFd := 3
  socks := [(({} : SocketTcp).listen 5).2, (({} : SocketTcp).listen 6).2]
  connections := [{ sock := 0 }, { sock := 1 }]
  fdSetActive := ⟨{3, 5, 6}, by decide⟩

/-- The first client has hung up; the second has sent a line. -/
def firstHungUp (ready : Finset Int) : PollHost where
  select := some ready
  accept := -1
  read k :=
    { read := if k = 0 then some [] else some (bytes "stop\n")
      tty :=
        { add := false
          start :=
            { load := ⟨false, false, false, false, false, false⟩, run := ⟨false, fun _ => false, -1⟩ } } }

theorem twoClients_netOk : NetOk twoClients where
  started := by decide
  tcp := by decide
  distinct := by decide
  listener := by decide
  active fd := by
    simp only [twoClients, clients, hostFd]
    simp [eq_comm (a := fd)]

/-- Only the client that hung up is found ready: the call drops it and does its whole job. -/
theorem tcpPoll_complete_one_ready :
    ∃ q, twoClients.tcpPoll (firstHungUp {5}) = .ok q ∧ Complete twoClients (firstHungUp {5}) {5} q := by
  refine (tcpPoll_complete_iff twoClients_netOk rfl ⟨by decide, by decide⟩).mpr ⟨by decide, ?_⟩
  intro i k hk hready hfails
  have hzero : k = 0 := by
    by_contra hne
    simp [firstHungUp, ReadHost.fails, hne, bytes] at hfails
  subst hzero
  have hi : i = 0 := by
    rcases i with - | - | i
    · rfl
    · exact absurd hk (by decide)
    · exact absurd hk (by simp [walked, Accepts, firstHungUp, twoClients, clients])
  subst hi
  exact ⟨1, by decide, by decide⟩

/-- Both are found ready. Dropping the first passes over the second, whose line is not read. -/
theorem tcpPoll_skips_after_drop :
    ¬ ∀ (s : Server) (h : PollHost) (ready : Finset Int), NetOk s → h.select = some ready →
      HostOk s ready h.accept → ∃ q, s.tcpPoll h = .ok q ∧ Complete s h ready q := by
  intro hall
  obtain ⟨q, hq, hc⟩ := hall twoClients (firstHungUp {5, 6}) {5, 6} twoClients_netOk rfl
    ⟨by decide, by decide⟩
  have hreads : (twoClients.tcpPoll (firstHungUp {5, 6})).map (·.reads) = .ok [0] := by decide
  rw [hq] at hreads
  have hq0 : q.reads = [0] := by simpa [Except.map] using hreads
  have hboth : q.reads = [0, 1] := hc.reads.trans (by decide)
  rw [hq0] at hboth
  exact absurd hboth (by decide)

end PollLoop
end DistributedPlatform
