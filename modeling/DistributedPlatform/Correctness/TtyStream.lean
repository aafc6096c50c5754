import Mathlib.Logic.Function.Basic
import DistributedPlatform.Correctness.Rounds

/-!
# `Correctness.TtyStream` — who reads what is typed into a tty session

The socket of a tty session has two readers: the shell, through the device made for the connection, and
`tcpRead`, which the poll loop calls on every ready connection whatever its type. `Step` interleaves the main
loop, the clients and the shells' reads freely; a host socket is a queue from which each reader takes what it
reads. It is named by its socket object: each accepted socket gets a new one.

What is typed after the connection became a tty reaches the shell whole and in order, and does nothing to the
server, exactly as long as no call of `tcpRead` on such a connection finds anything to read
(`delivered_iff_unread`).
-/

namespace DistributedPlatform
namespace TtyStream

open Machine Server PollLoop

/-- A shell started for a connection: its image and its device, with what was waiting in the socket then,
    what the client has sent since, and what was read through the device. -/
structure Shell where
  image : Server
  device : Nat
  early : List Byte
  typed : List Byte := []
  got : List Byte := []

/-- The main loop, the bytes waiting in each socket, and the shell of each connection that has one. -/
structure Sessions where
  poll : Poll
  pending : Nat → List Byte
  shell : Nat → Option Shell

inductive Event
  | send (k : Nat) (bs : List Byte)
  | loop (e : LoopEvent)
  | shellRead (k : Nat) (max : Nat) (bs : List Byte)

namespace Sessions

/-- A reader takes `bs` off the front of a socket. -/
def take (t : Sessions) (k : Nat) (bs : List Byte) : Sessions :=
  { t with pending := Function.update t.pending k ((t.pending k).drop bs.length) }

/-- A client sends. -/
def send (t : Sessions) (k : Nat) (bs : List Byte) : Sessions :=
  { t with
    pending := Function.update t.pending k (t.pending k ++ bs)
    shell := Function.update t.shell k ((t.shell k).map fun sh => { sh with typed := sh.typed ++ bs }) }

/-- The shell of `k` gets `bs`. -/
def give (t : Sessions) (k : Nat) (sh : Shell) (bs : List Byte) : Sessions :=
  { t with shell := Function.update t.shell k (some { sh with got := sh.got ++ bs }) }

/-- A round leaves the loop at `q`; if it started a shell, that is the shell of the connection. -/
def moved (t : Sessions) (c : Connection) (q : Poll) : Sessions :=
  match q.shells.drop t.poll.shells.length with
  | [] => { t with poll := q }
  | image :: _ =>
      { t with
        poll := q
        shell := Function.update t.shell c.sock
          (some { image := image, device := t.poll.srv.devs.length, early := t.pending c.sock }) }

/-- What `tcpRead` takes off the socket in a round: nothing if the connection is not ready. -/
def readBy (t : Sessions) (c : Connection) (h : ReadHost) : List Byte :=
  if t.poll.srv.isReady t.poll.ready c.sock then h.read.getD [] else []

/-- One step of the system. -/
inductive Step : Sessions → Event → Sessions → Prop
  | send {t : Sessions} {k : Nat} {bs : List Byte} :
      k ∈ t.poll.srv.clients → Step t (.send k bs) (t.send k bs)
  | begin {t : Sessions} {ready : Finset Int} {accept : Int} {q : Poll} :
      LoopStep t.poll (.begin ready accept) q → Step t (.loop (.begin ready accept)) { t with poll := q }
  | round {t : Sessions} {h : ReadHost} {c : Connection} {rest : List Connection} {q : Poll} :
      t.poll.rest = c :: rest → LoopStep t.poll (.round h) q → t.readBy c h <+: t.pending c.sock →
      (t.readBy c h).length ≤ 1024 →
      Step t (.loop (.round h)) ((t.take c.sock (t.readBy c h)).moved c q)
  | shellRead {t : Sessions} {k j max : Nat} {sh : Shell} {d : Device} {calls : List HostCall}
      {bs : List Byte} :
      -- the shell reads its device; the host socket is that of the object the device holds
      t.shell k = some sh → sh.image.devs[sh.device]? = some d → d = .socket (some j) →
      d.read sh.image.socks max (some bs) = .ok (some bs, calls) → bs <+: t.pending j →
      bs.length ≤ max → Step t (.shellRead k max bs) ((t.take j bs).give k sh bs)

end Sessions

open Sessions

/-- What was typed into each tty session is what its shell has read and what still waits for it, in order;
    before it stands what was waiting when the connection became a tty. -/
def Delivered (t : Sessions) : Prop :=
  ∀ c ∈ t.poll.srv.connections, c.type = .typeTTY →
    ∃ sh, t.shell c.sock = some sh ∧ sh.got ++ t.pending c.sock = sh.early ++ sh.typed

/-- A round on a tty connection takes nothing off its socket and leaves the stop flag and the tables of the
    server as they are, but for the connection itself, which it drops when the client is gone. -/
def Uninterpreted (t : Sessions) (e : Event) (u : Sessions) : Prop :=
  ∀ h c rest, e = .loop (.round h) → t.poll.rest = c :: rest → c.type = .typeTTY →
    u.pending c.sock = t.pending c.sock ∧
      u.poll.srv = { t.poll.srv with
        connections := u.poll.srv.connections, fdSetActive := u.poll.srv.fdSetActive }

/-- When a round comes to a tty connection that was found ready, there is nothing to read from it. -/
def Unread (t : Sessions) : Event → Prop
  | .loop (.round h) => ∀ c rest, t.poll.rest = c :: rest → c.type = .typeTTY →
      t.poll.srv.isReady t.poll.ready c.sock = true → h.fails = true
  | _ => True

/-- The device of each shell is on the socket of its connection. -/
def Devoted (t : Sessions) : Prop :=
  ∀ k sh, t.shell k = some sh → sh.image.devs[sh.device]? = some (.socket (some k))

structure Inv (t : Sessions) : Prop where
  walking : Walking t.poll
  delivered : Delivered t
  devoted : Devoted t

/-! ## Connections and sockets -/

theorem mem_connections {t : Sessions} {c : Connection} {rest : List Connection}
    (hw : Walking t.poll) (hrest : t.poll.rest = c :: rest) : c ∈ t.poll.srv.connections := by
  rw [hw.conns, hrest]
  simp

/-! ## What the steps do to a socket and its shell -/

theorem readBy_of_not_ready {t : Sessions} {c : Connection} {h : ReadHost}
    (hr : t.poll.srv.isReady t.poll.ready c.sock = false) : t.readBy c h = [] := by
  simp [readBy, hr]

theorem readBy_of_fails {t : Sessions} {c : Connection} {h : ReadHost} (hf : h.fails = true) :
    t.readBy c h = [] := by
  unfold ReadHost.fails at hf
  unfold readBy
  rcases of_decide_eq_true hf with hread | hread <;> simp [hread]

theorem readBy_ne_nil {t : Sessions} {c : Connection} {h : ReadHost}
    (hr : t.poll.srv.isReady t.poll.ready c.sock = true) (hf : h.fails = false) :
    t.readBy c h ≠ [] := by
  have hread := of_decide_eq_false hf
  unfold readBy
  rw [if_pos hr]
  cases hb : h.read with
  | none => exact absurd (Or.inl hb) hread
  | some bs =>
      rintro rfl
      exact hread (Or.inr hb)

@[simp] theorem take_nil (t : Sessions) (k : Nat) : t.take k [] = t := by
  simp [take]

@[simp] theorem take_poll (t : Sessions) (k : Nat) (bs : List Byte) : (t.take k bs).poll = t.poll := rfl

@[simp] theorem take_shell (t : Sessions) (k : Nat) (bs : List Byte) :
    (t.take k bs).shell = t.shell := rfl

theorem take_pending_ne {t : Sessions} {k j : Nat} {bs : List Byte} (h : j ≠ k) :
    (t.take k bs).pending j = t.pending j := by
  simp [take, h]

theorem moved_of_same {t : Sessions} {c : Connection} {q : Poll} (h : q.shells = t.poll.shells) :
    t.moved c q = { t with poll := q } := by
  simp [moved, h]

theorem moved_of_new {t : Sessions} {c : Connection} {q : Poll} {image : Server}
    (h : q.shells = t.poll.shells ++ [image]) :
    t.moved c q =
      { t with
        poll := q
        shell := Function.update t.shell c.sock
          (some { image := image, device := t.poll.srv.devs.length, early := t.pending c.sock }) } := by
  simp [moved, h]

@[simp] theorem moved_pending (t : Sessions) (c : Connection) (q : Poll) :
    (t.moved c q).pending = t.pending := by
  unfold moved
  split <;> rfl

@[simp] theorem moved_poll (t : Sessions) (c : Connection) (q : Poll) : (t.moved c q).poll = q := by
  unfold moved
  split <;> rfl

/-! ## The steps keep the invariant -/

theorem delivered_send {t : Sessions} (hd : Delivered t) (k : Nat) (bs : List Byte) :
    Delivered (t.send k bs) := by
  intro c hc htty
  obtain ⟨sh, hsh, heq⟩ := hd c hc htty
  by_cases hk : c.sock = k
  · subst hk
    refine ⟨{ sh with typed := sh.typed ++ bs }, by simp [send, hsh], ?_⟩
    simp only [send, Function.update_self]
    rw [← List.append_assoc, heq, List.append_assoc]
  · exact ⟨sh, by simp [send, hk, hsh], by simpa [send, hk] using heq⟩

theorem devoted_send {t : Sessions} (hd : Devoted t) (k : Nat) (bs : List Byte) :
    Devoted (t.send k bs) := by
  intro j sh hsh
  by_cases hj : j = k
  · subst hj
    simp only [send, Function.update_self, Option.map_eq_some_iff] at hsh
    obtain ⟨sh', hsh', rfl⟩ := hsh
    exact hd j sh' hsh'
  · simp only [send, Function.update_of_ne hj] at hsh
    exact hd j sh hsh

/-- What a shell reads is taken from its own socket and from its front. -/
theorem delivered_shellRead {t : Sessions} (hd : Delivered t) {k : Nat} {sh : Shell} {bs : List Byte}
    (hsh : t.shell k = some sh) (hbs : bs <+: t.pending k) :
    Delivered ((t.take k bs).give k sh bs) := by
  intro c hc htty
  obtain ⟨sh', hsh', heq⟩ := hd c hc htty
  by_cases hk : c.sock = k
  · subst hk
    rw [hsh] at hsh'
    cases hsh'
    obtain ⟨more, hmore⟩ := hbs
    refine ⟨{ sh with got := sh.got ++ bs }, by simp [give], ?_⟩
    simp only [give, take, Function.update_self]
    rw [← heq, ← hmore, List.drop_left, List.append_assoc]
  · exact ⟨sh', by simp [give, hk, hsh'], by simpa [give, take, hk] using heq⟩

theorem devoted_shellRead {t : Sessions} (hd : Devoted t) {k : Nat} {sh : Shell} {bs : List Byte}
    (hsh : t.shell k = some sh) : Devoted ((t.take k bs).give k sh bs) := by
  intro j sh' hj
  by_cases hjk : j = k
  · subst hjk
    simp only [give, Function.update_self, Option.some.injEq] at hj
    subst hj
    exact hd j sh hsh
  · simp only [give, Function.update_of_ne hjk, take_shell] at hj
    exact hd j sh' hj

/-- The connections `pollBegin` adds have no type. -/
theorem tty_of_pollBegin {s : Server} {ready : Finset Int} {accept : Int} {p : Poll}
    (hp : s.pollBegin ready accept = .ok p) {c : Connection} (hc : c ∈ p.srv.connections)
    (htty : c.type = .typeTTY) : c ∈ s.connections := by
  rcases pollBegin_ok hp with ⟨-, rfl⟩ | ⟨hbit, -, rfl⟩
  · exact hc
  · rcases List.mem_append.mp hc with hc | hc
    · exact hc
    · rw [List.mem_singleton] at hc
      rw [hc] at htty
      cases htty

/-- The tty connections after a round that kept every type were there before. -/
theorem delivered_mono {t u : Sessions} (hd : Delivered t) (hpending : u.pending = t.pending)
    (hshell : u.shell = t.shell)
    (hconns : ∀ c ∈ u.poll.srv.connections, c.type = .typeTTY → c ∈ t.poll.srv.connections) :
    Delivered u := by
  intro c hc htty
  rw [hpending, hshell]
  exact hd c (hconns c hc htty) htty

/-- The tty connections other than the one served keep their sockets and shells. -/
theorem delivered_others {t : Sessions} (hi : Inv t) {c c' : Connection}
    (hc : c ∈ t.poll.srv.connections) (hc' : c' ∈ t.poll.srv.connections) (htype : c.type ≠ .typeTTY)
    (htty : c'.type = .typeTTY) (bs : List Byte) :
    c'.sock ≠ c.sock ∧ ∃ sh, t.shell c'.sock = some sh ∧
      sh.got ++ (t.take c.sock bs).pending c'.sock = sh.early ++ sh.typed := by
  have hne : c'.sock ≠ c.sock := by
    intro heq
    have hsame := hi.walking.net.eq_of_hostFd hc hc' (by rw [heq])
    rw [hsame] at htty
    exact htype htty
  obtain ⟨sh, hsh, heq⟩ := hi.delivered c' hc' htty
  exact ⟨hne, sh, hsh, by rw [take_pending_ne hne]; exact heq⟩

/-- A connection that is no tty is served and stays none. -/
theorem inv_served {t : Sessions} (hi : Inv t) {c : Connection} {q : Poll} (hwq : Walking q)
    (hc : c ∈ t.poll.srv.connections) (htype : c.type ≠ .typeTTY) (bs : List Byte)
    (hconns : q.srv.connections = t.poll.srv.connections) (hshells : q.shells = t.poll.shells) :
    Inv ((t.take c.sock bs).moved c q) := by
  rw [moved_of_same (t := t.take c.sock bs) hshells]
  refine ⟨hwq, ?_, hi.devoted⟩
  intro c' hc' htty
  exact (delivered_others hi hc (hconns ▸ hc') htype htty bs).2

/-- A connection becomes a tty, and its shell starts: what waits in the socket now is for the shell. -/
theorem inv_started {t : Sessions} (hi : Inv t) {c : Connection} {rest : List Connection} {q : Poll}
    {image : Server} (hwq : Walking q) (hrest : t.poll.rest = c :: rest) (htype : c.type ≠ .typeTTY)
    (bs : List Byte) (hconns : q.srv.connections = t.poll.done ++ { c with type := .typeTTY } :: rest)
    (hshells : q.shells = t.poll.shells ++ [image])
    (hdev : image.devs[t.poll.srv.devs.length]? = some (.socket (some c.sock))) :
    Inv ((t.take c.sock bs).moved c q) := by
  have hold := hi.walking.conns
  rw [hrest] at hold
  rw [moved_of_new (t := t.take c.sock bs) hshells]
  refine ⟨hwq, ?_, ?_⟩
  · intro c' hc' htty
    by_cases hk : c'.sock = c.sock
    · rw [hk]
      exact ⟨_, Function.update_self _ _ _, by simp⟩
    · have hc'old : c' ∈ t.poll.srv.connections := by
        rw [hold]
        change c' ∈ q.srv.connections at hc'
        rw [hconns] at hc'
        rcases List.mem_append.mp hc' with hc' | hc'
        · exact List.mem_append_left _ hc'
        · rcases List.mem_cons.mp hc' with rfl | hc'
          · exact absurd rfl hk
          · exact List.mem_append_right _ (List.mem_cons_of_mem _ hc')
      obtain ⟨-, sh, hsh, heq⟩ :=
        delivered_others hi (mem_connections hi.walking hrest) hc'old htype htty bs
      refine ⟨sh, ?_, heq⟩
      rw [← hsh]
      exact Function.update_of_ne hk _ _
  · intro k sh hsh
    by_cases hk : k = c.sock
    · subst hk
      simp only [Function.update_self, Option.some.injEq] at hsh
      subst hsh
      exact hdev
    · simp only [Function.update_of_ne hk, take_shell] at hsh
      exact hi.devoted k sh hsh

/-- A round that finds nothing to read, or comes to a connection that is no tty. -/
theorem inv_round {t : Sessions} {h : ReadHost} {c : Connection} {rest : List Connection} {q : Poll}
    (hi : Inv t) (hrest : t.poll.rest = c :: rest) (hstep : LoopStep t.poll (.round h) q)
    (hgood : c.type = .typeTTY → t.poll.srv.isReady t.poll.ready c.sock = true → h.fails = true) :
    Inv ((t.take c.sock (t.readBy c h)).moved c q) ∧
      (c.type = .typeTTY → t.readBy c h = [] ∧ q.srv = { t.poll.srv with
        connections := q.srv.connections, fdSetActive := q.srv.fdSetActive }) := by
  have hwq : Walking q := hi.walking.step hstep
  have hcmem := mem_connections hi.walking hrest
  have hconns := hi.walking.conns
  rw [hrest] at hconns
  cases hstep with
  | round _ hn =>
      rcases next_cases hi.walking hrest hn with ⟨hr, hq⟩ | ⟨-, hf, d, rest', fd, -, -, hq⟩ |
        ⟨hr, hf, r, hserved, hq⟩
      · have hshells : q.shells = t.poll.shells := by rw [hq]
        rw [readBy_of_not_ready hr, take_nil, moved_of_same hshells]
        subst hq
        exact ⟨⟨hwq, delivered_mono hi.delivered rfl rfl fun _ hc _ => hc, hi.devoted⟩,
          fun _ => ⟨rfl, rfl⟩⟩
      · -- the client is gone, and its connection with it
        have hshells : q.shells = t.poll.shells := by rw [hq]
        rw [readBy_of_fails hf, take_nil, moved_of_same hshells]
        subst hq
        refine ⟨⟨hwq, delivered_mono hi.delivered rfl rfl fun c' hc' _ => ?_, hi.devoted⟩,
          fun _ => ⟨rfl, rfl⟩⟩
        rw [hconns]
        exact ((List.sublist_cons_self c rest).append_left t.poll.done).subset hc'
      · have htype : c.type ≠ .typeTTY := by
          intro htty
          have hfails := hgood htty hr
          rw [hf] at hfails
          cases hfails
        refine ⟨?_, fun htty => absurd htty htype⟩
        -- only the last of the five ways to serve a message starts a shell
        have hplain : r.con = c → r.shell = none →
            Inv ((t.take c.sock (t.readBy c h)).moved c q) := by
          intro hcon hshell
          apply inv_served hi hwq hcmem htype
          · rw [hq, hconns, hcon]
          · rw [hq, hshell]
            exact List.append_nil _
        cases hserved with
        | ignored _ => exact hplain rfl rfl
        | stopped _ => exact hplain rfl rfl
        | noDevice _ _ _ => exact hplain rfl rfl
        | noShell procs _ _ _ _ _ => exact hplain rfl rfl
        | tty procs procs' _ _ _ _ _ =>
            have hshells : q.shells = t.poll.shells ++ [{ t.poll.srv.withTty c with procs := procs' }] := by
              rw [hq]
              rfl
            apply inv_started hi hwq hrest htype (t.readBy c h) (by rw [hq]) hshells
            simp [withTty]

/-- **Step lemma.** A step in which no tty input is read by the server keeps the invariant and leaves the
    input alone. -/
theorem inv_step {t u : Sessions} {e : Event} (hi : Inv t) (hgood : Unread t e) (h : Step t e u) :
    Inv u ∧ Uninterpreted t e u := by
  cases h with
  | send hk =>
      exact ⟨⟨hi.walking, delivered_send hi.delivered _ _, devoted_send hi.devoted _ _⟩,
        fun _ _ _ he => nomatch he⟩
  | begin hstep =>
      refine ⟨⟨hi.walking.step hstep, ?_, hi.devoted⟩, fun _ _ _ he => nomatch he⟩
      cases hstep with
      | begin _ _ _ hp =>
          exact delivered_mono hi.delivered rfl rfl fun c hc htty => tty_of_pollBegin hp hc htty
  | shellRead hsh hdev hsock _ hbs _ =>
      have hown := hi.devoted _ _ hsh
      rw [hdev, hsock] at hown
      cases hown
      exact ⟨⟨hi.walking, delivered_shellRead hi.delivered hsh hbs, devoted_shellRead hi.devoted hsh⟩,
        fun _ _ _ he => nomatch he⟩
  | round hrest hstep _ _ =>
      obtain ⟨hinv, hleft⟩ := inv_round hi hrest hstep (hgood _ _ hrest)
      refine ⟨hinv, ?_⟩
      intro h' c' rest' he hrest' htty
      cases he
      rw [hrest] at hrest'
      cases hrest'
      obtain ⟨hnil, hsrv⟩ := hleft htty
      rw [hnil, take_nil]
      refine ⟨by rw [moved_pending], ?_⟩
      rw [moved_poll]
      exact hsrv

/-- A round that reads from a tty connection takes its input. -/
theorem interpreted_step {t u : Sessions} {e : Event} (hbad : ¬ Unread t e) (h : Step t e u) :
    ¬ Uninterpreted t e u := by
  intro hun
  apply hbad
  cases h with
  | send _ => trivial
  | begin _ => trivial
  | shellRead _ _ _ _ _ _ => trivial
  | @round h c rest q hrest _ hpre _ =>
      intro c' rest' hrest' htty hr
      rw [hrest] at hrest'
      cases hrest'
      cases hf : h.fails with
      | true => rfl
      | false =>
          exfalso
          have hkept := (hun h c rest rfl hrest htty).1
          have hne := readBy_ne_nil hr hf
          rw [moved_pending] at hkept
          simp only [take, Function.update_self] at hkept
          have hlen := congrArg List.length hkept
          rw [List.length_drop] at hlen
          have hpos := List.length_pos_iff.mpr hne
          have hle := hpre.length_le
          omega

/-- Before the first connection there is nothing to deliver. -/
theorem inv_of_unconnected {t : Sessions} (h : Unconnected t.poll) (hs : ∀ k, t.shell k = none) :
    Inv t where
  walking := h.walking
  delivered c hc := by
    rw [h.connections] at hc
    cases hc
  devoted k sh hsh := by
    rw [hs k] at hsh
    cases hsh

/-- **Who gets the input of a tty session.** Along a run of the main loop, the clients and the shells, in any
    order, every byte typed into a tty session is delivered to its shell's reads, in order and once, and does
    nothing to the server, if and only if no round finds something to read on a tty connection. -/
theorem delivered_iff_unread {t u : Sessions} {tr : List (Sessions × Event × Sessions)}
    (ht : Unconnected t.poll) (hs : ∀ k, t.shell k = none) (h : Run Step t tr u) :
    (∀ x ∈ tr, Delivered x.2.2 ∧ Uninterpreted x.1 x.2.1 x.2.2) ↔ ∀ x ∈ tr, Unread x.1 x.2.1 := by
  refine Run.always_iff_good (I := Inv) (Q := fun t e u => Delivered u ∧ Uninterpreted t e u)
    ?_ ?_ h (inv_of_unconnected ht hs)
  · intro t e u hi hgood hstep
    have hu := inv_step hi hgood hstep
    exact ⟨hu.1, hu.1.delivered, hu.2⟩
  · intro t e u _ hbad hstep hq
    exact interpreted_step hbad hstep hq.2

/-- A listening server, and nothing sent yet. -/
def idle : Sessions where
  poll := listening
  pending := fun _ => []
  shell := fun _ => none

/-- A client connects on 5, asks for a tty, and types a line, which its shell reads. -/
theorem delivered_iff_unread_session :
    ∃ tr u, Run Step idle tr u ∧ tr.length = 7 ∧
      ((∀ x ∈ tr, Delivered x.2.2 ∧ Uninterpreted x.1 x.2.1 x.2.2) ↔ ∀ x ∈ tr, Unread x.1 x.2.1) := by
  have h1 : Run Step idle _ _ := Run.single (i := .loop (.begin {3} 5))
    (.begin (.begin rfl (by decide) ⟨by decide, by decide⟩ rfl))
  have h2 := Run.tail h1 (i := .loop (.round ⟨none, ttyStarts⟩))
    (.round rfl (.round (by decide) rfl) (by decide) (by decide))
  have h3 := Run.tail h2 (i := .send 0 (bytes "type tty\n")) (.send (by decide))
  have h4 := Run.tail h3 (i := .loop (.begin {5} (-1)))
    (.begin (.begin rfl (by decide) ⟨by decide, by decide⟩ rfl))
  have h5 := Run.tail h4 (i := .loop (.round ⟨some (bytes "type tty\n"), ttyStarts⟩))
    (.round rfl (.round (by decide) rfl) (by decide) (by decide))
  have h6 := Run.tail h5 (i := .send 0 (bytes "ls\n")) (.send (by decide))
  have h7 := Run.tail h6 (i := .shellRead 0 512 (bytes "ls\n"))
    (.shellRead rfl rfl rfl rfl (by decide) (by decide))
  exact ⟨_, _, h7, rfl, delivered_iff_unread listening_unconnected (fun _ => rfl) h7⟩

/-- The client of the session types "stop" before its shell reads: `tcpRead` takes the line, and the server
    stops. -/
theorem typed_stop_interpreted :
    ∃ tr u, Run Step idle tr u ∧ u.poll.srv.stopFlag = true ∧ ¬ Delivered u := by
  have h1 : Run Step idle _ _ := Run.single (i := .loop (.begin {3} 5))
    (.begin (.begin rfl (by decide) ⟨by decide, by decide⟩ rfl))
  have h2 := Run.tail h1 (i := .loop (.round ⟨none, ttyStarts⟩))
    (.round rfl (.round (by decide) rfl) (by decide) (by decide))
  have h3 := Run.tail h2 (i := .send 0 (bytes "type tty\n")) (.send (by decide))
  have h4 := Run.tail h3 (i := .loop (.begin {5} (-1)))
    (.begin (.begin rfl (by decide) ⟨by decide, by decide⟩ rfl))
  have h5 := Run.tail h4 (i := .loop (.round ⟨some (bytes "type tty\n"), ttyStarts⟩))
    (.round rfl (.round (by decide) rfl) (by decide) (by decide))
  have h6 := Run.tail h5 (i := .send 0 (bytes "stop\n")) (.send (by decide))
  have h7 := Run.tail h6 (i := .loop (.begin {5} (-1)))
    (.begin (.begin rfl (by decide) ⟨by decide, by decide⟩ rfl))
  have h8 := Run.tail h7 (i := .loop (.round ⟨some (bytes "stop\n"), ttyStarts⟩))
    (.round rfl (.round (by decide) rfl) (by decide) (by decide))
  refine ⟨_, _, h8, by decide, ?_⟩
  intro hd
  obtain ⟨sh, hsh, heq⟩ := hd ⟨0, .typeTTY⟩ (by decide) rfl
  cases hsh
  exact absurd heq (by decide)

end TtyStream
end DistributedPlatform
