import Mathlib.Data.List.Perm.Subperm
import Mathlib.Data.List.Nodup
import DistributedPlatform.Correctness.Rounds

/-!
# `Correctness.TtyDevices` — tty devices against tty connections

`tcpRead` registers a device `ttyN` for a connection and gives the connection type `TypeTTY`; nothing ever
removes a device. `Matched` says that the sockets of the registered tty devices are those of the connections
of type `TypeTTY`, each once. A step of the main loop keeps it unless it drops such a connection, or fails to
start the shell of one whose device is registered already, and these two break it for good
(`ttyMatch_iff_orderly`). What follows from it for descriptors, reads and writes and free names is
`TtyMatch`.
-/

namespace DistributedPlatform
namespace PollLoop

open Machine Server

/-- The registered `ttyN` devices. -/
def ttyDevices (s : Server) : List (DeviceEntry Nat) :=
  s.devices.entries.filter fun e => (bytes "tty").isPrefixOf e.name

/-- The sockets of the connections of type `TypeTTY`. -/
def ttyClients (conns : List Connection) : List Nat :=
  (conns.filter fun c => c.type == .typeTTY).map (·.sock)

/-- The socket object behind a registered device. -/
def deviceSock (s : Server) (e : DeviceEntry Nat) : Option Nat :=
  match s.devs[e.device]? with
  | some (.socket k) => k
  | _ => none

/-- The sockets of the tty devices are those of the tty connections. -/
def Matched (s : Server) : Prop :=
  ((ttyDevices s).map (deviceSock s)).Perm ((ttyClients s.connections).map some)

/-- Every read and write of the device that reaches the host is one on the descriptor `fd`. -/
def IoOn (s : Server) (e : DeviceEntry Nat) (fd : Int) : Prop :=
  ∃ d, s.devs[e.device]? = some d ∧
    (∀ max ans, ∃ r, d.read s.socks max ans = .ok r ∧ ∀ call ∈ r.2, call = .read fd max) ∧
    ∀ size ans, ∃ r, d.write s.socks size ans = .ok r ∧ ∀ call ∈ r.2, call = .write fd size

/-- **The correspondence.** The tty devices and the tty connections are paired off one to one by their
    sockets; different devices use different host descriptors; reads and writes of a device reach its own
    connection and no other; and there is a free name while fewer than 1024 tty connections are there. -/
structure TtyMatch (s : Server) : Prop where
  paired : Matched s
  once : (ttyClients s.connections).Nodup
  distinctFds : ((ttyDevices s).map fun e => (deviceSock s e).bind s.hostFd).Nodup
  own : ∀ e ∈ ttyDevices s, ∃ c ∈ s.connections, c.type = .typeTTY ∧ deviceSock s e = some c.sock ∧
    ∃ fd, s.hostFd c.sock = some fd ∧ IoOn s e fd ∧
      ∀ c' ∈ s.connections, s.hostFd c'.sock = some fd → c' = c
  free : (ttyClients s.connections).length < 1024 → s.devices.exists_ (s.findTty 1023 0) = false

/-! ## Names -/

theorem ttyName_injective : Function.Injective ttyName := by
  intro i j h
  exact decimal_injective (List.append_cancel_left h)

theorem ttyName_starts (i : Nat) : (bytes "tty").isPrefixOf (ttyName i) = true := by
  rw [List.isPrefixOf_iff_prefix]
  exact List.prefix_append _ _

/-- The search tries names of the form `ttyN`. -/
theorem findTty_starts (s : Server) (left i : Nat) :
    (bytes "tty").isPrefixOf (s.findTty left i) = true := by
  induction left generalizing i with
  | zero => exact ttyName_starts i
  | succ left ih =>
      unfold findTty
      split
      · exact ih (i + 1)
      · exact ttyName_starts i

/-- The search ends on a free name if one of those it tries is free. -/
theorem findTty_free {s : Server} {left i j : Nat} (hij : i ≤ j) (hj : j ≤ i + left)
    (hfree : s.devices.exists_ (ttyName j) = false) :
    s.devices.exists_ (s.findTty left i) = false := by
  induction left generalizing i with
  | zero =>
      have heq : i = j := by omega
      rw [heq]
      exact hfree
  | succ left ih =>
      unfold findTty
      by_cases hused : s.devices.exists_ (ttyName i) = true
      · rw [if_pos hused]
        have hne : i ≠ j := by
          rintro rfl
          rw [hfree] at hused
          cases hused
        exact ih (by omega) (by omega)
      · rw [if_neg hused]
        simpa using hused

/-- Fewer than `n` names leave one of the first `n` tty names out. -/
theorem exists_ttyName_not_mem {names : List CStr} {n : Nat} (h : names.length < n) :
    ∃ i, i < n ∧ ttyName i ∉ names := by
  by_contra hall
  push Not at hall
  have hsub : (List.range n).map ttyName ⊆ names := by
    intro x hx
    obtain ⟨i, hi, rfl⟩ := List.mem_map.mp hx
    exact hall i (List.mem_range.mp hi)
  have hnodup : ((List.range n).map ttyName).Nodup := List.nodup_range.map ttyName_injective
  have hlen := (hnodup.subperm hsub).length_le
  rw [List.length_map, List.length_range] at hlen
  omega

theorem free_of_few {s : Server} (h : (ttyDevices s).length < 1024) :
    s.devices.exists_ (s.findTty 1023 0) = false := by
  have hlen : ((ttyDevices s).map (·.name)).length < 1024 := by rwa [List.length_map]
  obtain ⟨i, hi, hnot⟩ := exists_ttyName_not_mem hlen
  apply findTty_free (Nat.zero_le i) (by omega)
  cases hex : s.devices.exists_ (ttyName i) with
  | false => rfl
  | true =>
      obtain ⟨e, he, hname⟩ := Devices.exists_iff.mp hex
      exfalso
      apply hnot
      refine List.mem_map.mpr ⟨e, List.mem_filter.mpr ⟨he, ?_⟩, hname⟩
      rw [hname]
      exact ttyName_starts i

/-! ## What keeps the pairing -/

theorem ttyDevices_congr {s t : Server} (h : t.devices = s.devices) : ttyDevices t = ttyDevices s := by
  unfold ttyDevices
  rw [h]

theorem length_ttyDevices_withTty {s t : Server} {c : Connection} (h : t.devices = (s.withTty c).devices) :
    (ttyDevices t).length = (ttyDevices s).length + 1 := by
  rw [ttyDevices_congr h]
  simp [ttyDevices, withTty, List.filter_append, findTty_starts]

theorem ttyClients_append (a b : List Connection) :
    ttyClients (a ++ b) = ttyClients a ++ ttyClients b := by
  simp [ttyClients]

theorem ttyClients_cons (c : Connection) (cs : List Connection) :
    ttyClients (c :: cs) = (if c.type = .typeTTY then [c.sock] else []) ++ ttyClients cs := by
  by_cases h : c.type = .typeTTY <;> simp [ttyClients, h]

theorem ttyClients_sublist (cs : List Connection) : (ttyClients cs).Sublist (cs.map (·.sock)) :=
  List.Sublist.map _ List.filter_sublist

/-- The device of a socket is found whatever is allocated after it. -/
theorem deviceSock_append {s t : Server} {more : List Device} {e : DeviceEntry Nat} {k : Nat}
    (ht : t.devs = s.devs ++ more) (h : deviceSock s e = some k) : deviceSock t e = some k := by
  unfold deviceSock at h ⊢
  cases hd : s.devs[e.device]? with
  | none => rw [hd] at h; cases h
  | some d =>
      have hlt := (List.getElem?_eq_some_iff.mp hd).1
      rw [ht, List.getElem?_append_left hlt, hd]
      rw [hd] at h
      exact h

theorem Matched.deviceSock_some {s : Server} (h : Matched s) {e : DeviceEntry Nat}
    (he : e ∈ ttyDevices s) : ∃ k, k ∈ ttyClients s.connections ∧ deviceSock s e = some k := by
  have hmem : deviceSock s e ∈ (ttyClients s.connections).map some :=
    h.mem_iff.mp (List.mem_map_of_mem he)
  obtain ⟨k, hk, heq⟩ := List.mem_map.mp hmem
  exact ⟨k, hk, heq.symm⟩

/-- What the old devices stand for, after more objects were allocated. -/
theorem Matched.map_deviceSock {s t : Server} (h : Matched s) {more : List Device}
    (ht : t.devs = s.devs ++ more) :
    (ttyDevices s).map (deviceSock t) = (ttyDevices s).map (deviceSock s) := by
  apply List.map_congr_left
  intro e he
  obtain ⟨k, -, hk⟩ := h.deviceSock_some he
  rw [deviceSock_append ht hk, hk]

/-- No device registered and no tty connection come or gone. -/
theorem Matched.same {s t : Server} (h : Matched s) {more : List Device} (hdev : t.devices = s.devices)
    (hdevs : t.devs = s.devs ++ more)
    (hclients : ttyClients t.connections = ttyClients s.connections) : Matched t := by
  unfold Matched
  rw [ttyDevices_congr hdev, h.map_deviceSock hdevs, hclients]
  exact h

/-- A device registered and a connection that becomes a tty, for the same socket. -/
theorem Matched.add {s t : Server} (h : Matched s) {name : CStr} {k : Nat}
    (hname : (bytes "tty").isPrefixOf name = true)
    (hdev : t.devices.entries =
      s.devices.entries ++ [{ name := name, device := s.devs.length, refCount := 0 }])
    (hdevs : t.devs = s.devs ++ [.socket (some k)])
    (hclients : (ttyClients t.connections).Perm (ttyClients s.connections ++ [k])) : Matched t := by
  have hnew : ttyDevices t =
      ttyDevices s ++ [{ name := name, device := s.devs.length, refCount := 0 }] := by
    simp [ttyDevices, hdev, List.filter_append, hname]
  have hsock : deviceSock t { name := name, device := s.devs.length, refCount := 0 } = some k := by
    simp [deviceSock, hdevs]
  unfold Matched
  rw [hnew, List.map_append, List.map_singleton, hsock, h.map_deviceSock hdevs]
  refine (h.append_right [some k]).trans ?_
  rw [← List.map_singleton, ← List.map_append]
  exact (hclients.map some).symm

theorem Matched.length_eq {s : Server} (h : Matched s) :
    (ttyDevices s).length = (ttyClients s.connections).length := by
  unfold Matched at h
  have hlen := h.length_eq
  rwa [List.length_map, List.length_map] at hlen

/-! ## What follows from the pairing -/

theorem ioOn_of_deviceSock {s : Server} {e : DeviceEntry Nat} {k : Nat} {sock : SocketTcp}
    (h : deviceSock s e = some k) (hk : s.socks[k]? = some sock) : IoOn s e sock.sockFd := by
  unfold deviceSock at h
  cases hd : s.devs[e.device]? with
  | none => rw [hd] at h; cases h
  | some d =>
      rw [hd] at h
      cases d with
      | full => cases h
      | null => cases h
      | zero => cases h
      | socket k' =>
          dsimp only at h
          subst h
          refine ⟨_, hd, ?_, ?_⟩
          · intro max ans
            refine ⟨sock.read max ans, by simp [Device.read, hk], ?_⟩
            unfold SocketTcp.read
            split <;> simp
          · intro size ans
            refine ⟨sock.write size ans, by simp [Device.write, hk], ?_⟩
            unfold SocketTcp.write
            split <;> simp

/-- The correspondence holds where the pairing does. -/
theorem Matched.ttyMatch {s : Server} (h : Matched s) (hnet : NetOk s) : TtyMatch s := by
  have hdistinct := hnet.distinct
  have honce : (ttyClients s.connections).Nodup :=
    (ttyClients_sublist s.connections).nodup (List.Nodup.of_map s.hostFd hdistinct)
  refine ⟨h, honce, ?_, ?_, ?_⟩
  · have hmap : ((ttyDevices s).map fun e => (deviceSock s e).bind s.hostFd).Perm
        ((ttyClients s.connections).map s.hostFd) := by
      have hp := h.map fun k => k.bind s.hostFd
      rw [List.map_map, List.map_map] at hp
      exact hp
    rw [hmap.nodup_iff]
    exact ((ttyClients_sublist s.connections).map s.hostFd).nodup hdistinct
  · intro e he
    obtain ⟨k, hk, hek⟩ := h.deviceSock_some he
    obtain ⟨c, hc, rfl⟩ := List.mem_map.mp hk
    obtain ⟨hc, htype⟩ := List.mem_filter.mp hc
    obtain ⟨sock, hsock, -⟩ := hnet.tcp c.sock (List.mem_map_of_mem hc)
    have hfd : s.hostFd c.sock = some sock.sockFd := by simp [hostFd, hsock]
    refine ⟨c, hc, by simpa using htype, hek, sock.sockFd, hfd, ioOn_of_deviceSock hek hsock, ?_⟩
    intro c' hc' hfd'
    exact hnet.eq_of_hostFd hc hc' (by rw [hfd', hfd])
  · intro hfew
    apply free_of_few
    rw [h.length_eq]
    exact hfew

/-! ## Runs -/

/-- A round drops no tty connection, and does not fail to start the shell of a connection whose device it
    has registered. -/
def Orderly (p : Poll) : LoopEvent → Prop
  | .begin _ _ => True
  | .round h => ∀ c rest, p.rest = c :: rest → p.srv.isReady p.ready c.sock = true →
      (c.type = .typeTTY → h.fails = false) ∧
      (c.type = .typeNone → h.fails = false → commandOf h.message = .typeTty →
        p.srv.devices.exists_ (p.srv.findTty 1023 0) = false → h.tty.add = true →
        h.tty.start.succeeds 1 = true)

variable {p q : Poll}

theorem Matched.begin {s : Server} (h : Matched s) {ready : Finset Int} {accept : Int}
    (hp : s.pollBegin ready accept = .ok p) : Matched p.srv := by
  rcases pollBegin_ok hp with ⟨-, rfl⟩ | ⟨hbit, -, rfl⟩
  · exact h
  · -- the connection accepted has no type yet
    refine h.same rfl (List.append_nil _).symm ?_
    simp [Server.withClient, ttyClients]

/-- An orderly step keeps the pairing. -/
theorem matched_step {e : LoopEvent} (hw : Walking p) (hm : Matched p.srv) (hgood : Orderly p e)
    (hstep : LoopStep p e q) : Matched q.srv := by
  cases hstep with
  | begin _ _ _ hp => exact hm.begin hp
  | @round _ h hne hn =>
      obtain ⟨c, rest, hrest⟩ := List.exists_cons_of_ne_nil hne
      have hconns := hw.conns
      rw [hrest] at hconns
      rcases next_cases hw hrest hn with ⟨-, rfl⟩ | ⟨hr, hf, d, rest', fd, -, -, rfl⟩ |
        ⟨hr, hf, r, hserved, rfl⟩
      · exact hm
      · -- the connection dropped is no tty
        have hnone : c.type ≠ .typeTTY := by
          intro htty
          have hok := (hgood c rest hrest hr).1 htty
          rw [hf] at hok
          cases hok
        refine hm.same rfl (List.append_nil _).symm ?_
        rw [hconns]
        simp [ttyClients_append, ttyClients_cons, hnone]
      · cases hserved with
        | ignored _ =>
            refine hm.same rfl (List.append_nil _).symm ?_
            rw [hconns]
        | stopped _ =>
            refine hm.same rfl (List.append_nil _).symm ?_
            rw [hconns]
        | noDevice _ _ _ =>
            refine hm.same rfl rfl ?_
            rw [hconns]
        | noShell procs hmsg htype hfree hadd hstart =>
            have hok := (hgood c rest hrest hr).2 htype hf hmsg hfree hadd
            rw [hstart] at hok
            cases hok
        | tty procs procs' hmsg htype hfree hadd hstart =>
            -- the pair added: the new device, and the connection that becomes a tty
            refine hm.add (findTty_starts _ _ _) rfl rfl ?_
            rw [hconns]
            simp only [ttyClients_append, ttyClients_cons, htype, if_true, reduceCtorEq, if_false,
              List.nil_append]
            rw [List.append_assoc]
            exact List.Perm.append_left _ List.perm_append_comm

/-- A step that is not orderly breaks it: a device is left, or registered, without a tty connection. -/
theorem unmatched_step {e : LoopEvent} (hw : Walking p) (hm : Matched p.srv) (hbad : ¬ Orderly p e)
    (hstep : LoopStep p e q) : ¬ Matched q.srv := by
  intro hq
  apply hbad
  cases hstep with
  | begin _ _ _ _ => trivial
  | @round _ h hne hn =>
      intro c rest hrest hr
      have hconns := hw.conns
      rw [hrest] at hconns
      have hlen := hm.length_eq
      rw [hconns] at hlen
      have hqlen := hq.length_eq
      rcases next_cases hw hrest hn with ⟨hr', -⟩ | ⟨-, hf, d, rest', fd, -, -, rfl⟩ |
        ⟨-, hf, r, hserved, rfl⟩
      · rw [hr] at hr'; cases hr'
      · -- were the dropped connection a tty, one device would be left over: the lengths differ
        refine ⟨fun htty => ?_, fun _ hf' => by rw [hf] at hf'; cases hf'⟩
        exfalso
        change (ttyDevices p.srv).length = (ttyClients (p.done ++ rest)).length at hqlen
        simp only [ttyClients_append, ttyClients_cons, htty, if_true, List.length_append,
          List.length_singleton] at hlen hqlen
        omega
      · refine ⟨fun _ => hf, fun htype _ hmsg hfree hadd => ?_⟩
        by_contra hstart
        cases hserved with
        | ignored hno =>
            rcases hno with hno | ⟨-, hno⟩
            · rw [hmsg] at hno; cases hno
            · exact hno htype
        | stopped hstop => rw [hmsg] at hstop; cases hstop
        | noDevice _ _ hwhy =>
            rcases hwhy with hwhy | hwhy
            · rw [hfree] at hwhy; cases hwhy
            · rw [hadd] at hwhy; cases hwhy
        | noShell procs _ _ _ _ _ =>
            -- one device more, and the same connections
            have hnew := hqlen.symm.trans (length_ttyDevices_withTty (s := p.srv) (c := c) rfl)
            change (ttyClients (p.done ++ c :: rest)).length = _ at hnew
            omega
        | tty _ _ _ _ _ _ hok => exact hstart hok

/-- Nothing to pair off at the start. -/
theorem Unconnected.matched (h : Unconnected p) (hdev : ttyDevices p.srv = []) : Matched p.srv := by
  unfold Matched
  rw [hdev, h.connections]
  exact List.Perm.refl _

/-- **When devices and connections correspond.** Along a run of the main loop from a server without
    connections and tty devices, the tty devices correspond to the tty connections after each step if and
    only if every step is orderly. -/
theorem ttyMatch_iff_orderly {tr : List (Poll × LoopEvent × Poll)} (hp : Unconnected p)
    (hdev : ttyDevices p.srv = []) (h : Run LoopStep p tr q) :
    (∀ x ∈ tr, TtyMatch x.2.2.srv) ↔ ∀ x ∈ tr, Orderly x.1 x.2.1 := by
  refine Run.always_iff_good (I := fun p => Walking p ∧ Matched p.srv)
    (Q := fun _ _ q => TtyMatch q.srv) ?_ ?_ h ⟨hp.walking, hp.matched hdev⟩
  · rintro p e q ⟨hw, hm⟩ hgood hstep
    have hw' := hw.step hstep
    have hm' := matched_step hw hm hgood hstep
    exact ⟨⟨hw', hm'⟩, hm'.ttyMatch hw'.net⟩
  · rintro p e q ⟨hw, hm⟩ hbad hstep hq
    exact unmatched_step hw hm hbad hstep hq.paired

/-- A client connects on 5 and asks for a tty. -/
theorem ttyMatch_iff_orderly_session :
    ∃ tr q, Run LoopStep listening tr q ∧ tr.length = 4 ∧
      ((∀ x ∈ tr, TtyMatch x.2.2.srv) ↔ ∀ x ∈ tr, Orderly x.1 x.2.1) := by
  have h1 : Run LoopStep listening _ _ := Run.single (i := .begin {3} 5)
    (.begin rfl (by decide) ⟨by decide, by decide⟩ rfl)
  have h2 := Run.tail h1 (i := .round ⟨none, ttyStarts⟩) (.round (by decide) rfl)
  have h3 := Run.tail h2 (i := .begin {5} (-1)) (.begin rfl (by decide) ⟨by decide, by decide⟩ rfl)
  have h4 := Run.tail h3 (i := .round ⟨some (bytes "type tty\n"), ttyStarts⟩) (.round (by decide) rfl)
  exact ⟨_, _, h4, rfl, ttyMatch_iff_orderly listening_unconnected rfl h4⟩

/-- The client of the session hangs up, with another client connected after it: its device stays. -/
theorem ttyDevice_left_behind :
    ¬ ∀ tr q, Run LoopStep listening tr q → TtyMatch q.srv := by
  intro hall
  have h1 : Run LoopStep listening _ _ := Run.single (i := .begin {3} 5)
    (.begin rfl (by decide) ⟨by decide, by decide⟩ rfl)
  have h2 := Run.tail h1 (i := .round ⟨none, ttyStarts⟩) (.round (by decide) rfl)
  have h3 := Run.tail h2 (i := .begin {5} (-1)) (.begin rfl (by decide) ⟨by decide, by decide⟩ rfl)
  have h4 := Run.tail h3 (i := .round ⟨some (bytes "type tty\n"), ttyStarts⟩) (.round (by decide) rfl)
  have h5 := Run.tail h4 (i := .begin {3} 6) (.begin rfl (by decide) ⟨by decide, by decide⟩ rfl)
  have h6 := Run.tail h5 (i := .round ⟨none, ttyStarts⟩) (.round (by decide) rfl)
  have h7 := Run.tail h6 (i := .round ⟨none, ttyStarts⟩) (.round (by decide) rfl)
  have h8 := Run.tail h7 (i := .begin {5} (-1)) (.begin rfl (by decide) ⟨by decide, by decide⟩ rfl)
  have h9 := Run.tail h8 (i := .round ⟨some [], ttyStarts⟩) (.round (by decide) rfl)
  have hlen := (hall _ _ h9).paired.length_eq
  exact absurd hlen (by decide)

end PollLoop
end DistributedPlatform
