import DistributedPlatform.Correctness.DeviceNames
import DistributedPlatform.Correctness.Exec
import DistributedPlatform.Correctness.ShellSession

/-!
# `Correctness.ShellFiles` — the shell on its arguments

`main` asks for a file to read from and to write to, and the server hands its flags on as the mode: the host opens the
file with the flags 0, for reading. So a script stays what it is, and is executed as it is read.

* `Frame` — what the shell does to the server while it runs leaves the descriptors alone;
* `fileLoop_eq` — on a file the loop is the loop on the pieces of the file, and each write is answered with -1;
* `runArg_exact` — one argument;
* `main_exact` — what comes of the arguments of the shell of any session of the platform.
-/

namespace DistributedPlatform
namespace ShellFiles

open Machine Server Shell ShellSession

/-! ## What the shell leaves alone -/

/-- The same process of the same server, as far as descriptors and devices go. -/
structure Frame (s s' : Session) : Prop where
  pid : s'.pid = s.pid
  entries : s'.srv.fdEntries = s.srv.fdEntries
  slots : s'.srv.fdsOf = s.srv.fdsOf
  devices : s'.srv.devices = s.srv.devices
  inv : FdInv s.srv → FdInv s'.srv

variable {s s' : Session} {d : CStr} {line : Block} {fd : Int}

theorem Frame.refl (s : Session) : Frame s s := ⟨rfl, rfl, rfl, rfl, id⟩

theorem Frame.trans {s'' : Session} (h : Frame s s') (h' : Frame s' s'') : Frame s s'' where
  pid := h'.pid.trans h.pid
  entries := h'.entries.trans h.entries
  slots := h'.slots.trans h.slots
  devices := h'.devices.trans h.devices
  inv hs := h'.inv (h.inv hs)

theorem Frame.env (s : Session) (e : LibEnv) : Frame s { s with env := e } := ⟨rfl, rfl, rfl, rfl, id⟩

theorem chdir_frame {path : CStr} {alloc : Bool} {ret : Int} {srv : Server}
    (hr : s.srv.syscallChDir s.pid path alloc = .ok (ret, srv)) (e : LibEnv) :
    Frame s { s with srv := srv, env := e } := by
  have hinv : FdInv s.srv → FdInv srv := fun h => syscallChDir_inv h hr
  obtain ⟨curr, hp, rfl⟩ := syscallChDir_only hr
  refine ⟨rfl, rfl, ?_, rfl, hinv⟩
  funext q
  show (s.srv.setProc s.pid _).fdsOf q = _
  rw [fdsOf_setProc hp]
  split
  · next hq =>
      obtain ⟨cwd, hset⟩ := curr.setCwd_eq path alloc
      rw [hq, fdsOf_eq hp, hset]
      rfl
  · rfl

theorem cd_frame {gpath : Option CStr} {h : LineHost} {r : Handled} (hr : s.cd gpath h = .ok r) :
    Frame s r.session := by
  obtain ⟨path, -, hr⟩ := Eff.bind_eq_ok.mp hr
  cases path with
  | none =>
      cases hr
      exact .refl s
  | some path =>
      obtain ⟨path, -, hr⟩ := Eff.bind_eq_ok.mp hr
      obtain ⟨⟨ret, srv⟩, hchdir, hr⟩ := Eff.bind_eq_ok.mp hr
      dsimp only at hr
      split at hr
      · cases hr
        exact chdir_frame hchdir s.env
      · obtain ⟨⟨got, line⟩, -, hr⟩ := Eff.bind_eq_ok.mp hr
        dsimp only at hr
        split at hr
        · obtain ⟨cwd, -, hr⟩ := Eff.bind_eq_ok.mp hr
          cases hr
          exact chdir_frame hchdir _
        · cases hr
          exact chdir_frame hchdir s.env

theorem shellCd_frame {save : Nat} {h : LineHost} {r : Handled × Block} (hr : s.shellCd line save h = .ok r) :
    Frame s r.1.session := by
  obtain ⟨t, -, hr⟩ := Eff.bind_eq_ok.mp hr
  split at hr
  · obtain ⟨q, hq, hr⟩ := Eff.bind_eq_ok.mp hr
    cases hr
    exact cd_frame hq
  · obtain ⟨gpath, -, hr⟩ := Eff.bind_eq_ok.mp hr
    obtain ⟨q, hq, hr⟩ := Eff.bind_eq_ok.mp hr
    cases hr
    exact cd_frame hq

theorem shellExport_frame {save : Nat} {h : LineHost} {r : Handled × Block}
    (hr : s.shellExport line save h = .ok r) : Frame s r.1.session := by
  obtain ⟨t, -, hr⟩ := Eff.bind_eq_ok.mp hr
  split at hr
  · cases hr
  · obtain ⟨equals, -, hr⟩ := Eff.bind_eq_ok.mp hr
    cases equals with
    | none =>
        cases hr
        exact .refl s
    | some equals =>
        obtain ⟨b, -, hr⟩ := Eff.bind_eq_ok.mp hr
        obtain ⟨name, -, hr⟩ := Eff.bind_eq_ok.mp hr
        obtain ⟨value, -, hr⟩ := Eff.bind_eq_ok.mp hr
        cases hr
        exact .env s _

theorem sayLine_frame {h : LineHost} {r : Handled} {said : List CStr} {line' : Block}
    (hr : s.sayLine fd line h = .ok (r, said, line')) : Frame s r.session := by
  obtain ⟨b, -, hr⟩ := Eff.bind_eq_ok.mp hr
  obtain ⟨b, -, hr⟩ := Eff.bind_eq_ok.mp hr
  obtain ⟨len, -, hr⟩ := Eff.bind_eq_ok.mp hr
  split at hr
  · cases hr
    exact .refl s
  · obtain ⟨t, -, hr⟩ := Eff.bind_eq_ok.mp hr
    split at hr
    · cases hr
      exact .refl s
    · obtain ⟨part, -, hr⟩ := Eff.bind_eq_ok.mp hr
      split at hr
      · obtain ⟨q, hq, hr⟩ := Eff.bind_eq_ok.mp hr
        cases hr
        exact shellCd_frame hq
      · split at hr
        · obtain ⟨q, hq, hr⟩ := Eff.bind_eq_ok.mp hr
          cases hr
          exact shellExport_frame hq
        · obtain ⟨str, -, hr⟩ := Eff.bind_eq_ok.mp hr
          cases hr
          exact .refl s

/-- **The loop leaves the descriptors alone.** -/
theorem inputLoop_frame {rounds : List Round} {shown : Shown} (hr : Session.inputLoop fd rounds s line = .ok shown) :
    Frame s shown.session := by
  induction rounds generalizing s line shown with
  | nil =>
      cases hr
      exact .refl s
  | cons round rounds ih =>
      obtain ⟨⟨out, b⟩, -, hr⟩ := Eff.bind_eq_ok.mp hr
      dsimp only at hr
      split at hr
      · cases hr
        exact .refl s
      · obtain ⟨b, -, hr⟩ := Eff.bind_eq_ok.mp hr
        obtain ⟨b, -, hr⟩ := Eff.bind_eq_ok.mp hr
        obtain ⟨⟨r, said, b⟩, hsay, hr⟩ := Eff.bind_eq_ok.mp hr
        obtain ⟨rest, hrest, hr⟩ := Eff.bind_eq_ok.mp hr
        have hframe : Frame r.session rest.session := ih hrest
        cases hr
        exact (sayLine_frame hsay).trans hframe

/-! ## A file opened for reading -/

/-- The number leads to an entry of the type. -/
def LeadsTo (s : Session) (fd : Int) (type : FdType) : Prop :=
  0 ≤ fd ∧ ∃ v e, (s.srv.fdsOf s.pid)[fd.toNat]? = some v ∧ s.srv.fdGet v = some e ∧ e.type = type

theorem LeadsTo.frame {type : FdType} (h : LeadsTo s fd type) (hf : Frame s s') : LeadsTo s' fd type := by
  obtain ⟨hnonneg, v, e, hslot, he, htype⟩ := h
  refine ⟨hnonneg, v, e, ?_, ?_, htype⟩
  · rw [hf.pid, hf.slots]
    exact hslot
  · rw [fdGet_congr hf.entries]
    exact he

theorem LeadsTo.proc {type : FdType} (h : LeadsTo s fd type) : ∃ curr v e, s.srv.proc s.pid = some curr ∧
    curr.fds[fd.toNat]? = some v ∧ serverFd curr fd = .ok v ∧ s.srv.fdGet v = some e ∧ e.type = type := by
  obtain ⟨hnonneg, v, e, hslot, he, htype⟩ := h
  unfold fdsOf at hslot
  cases hp : s.srv.proc s.pid with
  | none =>
      rw [hp] at hslot
      cases hslot
  | some curr =>
      rw [hp] at hslot
      have hget : curr.fds[fd.toNat]? = some v := hslot
      refine ⟨curr, v, e, rfl, hget, ?_, he, htype⟩
      unfold serverFd
      rw [if_neg (by omega), hget]

/-- The file with the flags 0, read up to an offset. -/
def readAt (hostFd : Int) (script : List Byte) (offset : Nat) : OpenFile := ⟨hostFd, 0, script, offset⟩

/-- The value of a write that fails. -/
def failed : Option RetVal := some (.int (-1))

section ReadOnly

variable {hostFd : Int}

/-- **Nothing can be written to it.** -/
theorem writeFile_fails (hl : LeadsTo s fd (.fdTypeFd hostFd)) (h : ArgHost) (str : CStr) (script : List Byte)
    (offset : Nat) :
    s.writeFile fd h (readAt hostFd script offset) str = .ok (failed, readAt hostFd script offset) := by
  obtain ⟨curr, v, e, hp, -, hfd, he, htype⟩ := hl.proc
  have hwrite : s.srv.syscallWrite s.pid fd (toU32 str.length) (-1) =
      .ok { ret := -1, on := some (.fdTypeFd hostFd), calls := [.write hostFd (toU32 str.length)] } := by
    simp only [syscallWrite, hp, hfd, bind, Except.bind, fdWrite, he, htype]
  have hcall : s.send (sysWrite fd (.str str) (toU32 str.length)) { h.sys with write := -1 } =
      (s.srv.syscallWrite s.pid fd (toU32 str.length) (-1)).bind fun r =>
        .ok { stored := some (.int (toI32 r.ret)), op := some (.int r.ret), srv := s.srv, on := r.on,
              calls := r.calls } := rfl
  have hint : toI32 (-1) = -1 := rfl
  rw [hwrite] at hcall
  unfold Session.writeFile readAt
  simp only [OpenFile.write, Int.zero_emod, if_true, hcall, bind, Except.bind, hint, ite_self]
  rfl

theorem writeFiles_fail (hl : LeadsTo s fd (.fdTypeFd hostFd)) (h : ArgHost) (strs : List CStr) (script : List Byte)
    (offset : Nat) :
    s.writeFiles fd h strs (readAt hostFd script offset) =
      .ok (strs.map fun str => (str, failed), readAt hostFd script offset) := by
  induction strs with
  | nil => rfl
  | cons str strs ih => simp only [Session.writeFiles, writeFile_fails hl, ih, bind, Except.bind, List.map_cons]

/-- A read delivers the next piece. -/
theorem readFile_piece (hl : LeadsTo s fd (.fdTypeFd hostFd)) (h : ArgHost) (script : List Byte) (offset : Nat) :
    let data := (script.drop offset).take (LINESIZE - 1)
    s.readFile fd h (readAt hostFd script offset) =
      .ok (some (.int data.length), data, readAt hostFd script (offset + data.length)) := by
  obtain ⟨curr, v, e, hp, -, hfd, he, htype⟩ := hl.proc
  have hcount : toU32 ((LINESIZE - 1 : Nat) : Int) = LINESIZE - 1 := rfl
  have hread : ∀ ans : ReadAns, s.srv.syscallRead s.pid fd (LINESIZE - 1) ans =
      .ok { ret := ans, on := some (.fdTypeFd hostFd), calls := [.read hostFd (LINESIZE - 1)] } := by
    intro ans
    simp only [syscallRead, hp, hfd, bind, Except.bind, fdRead, he, htype]
  have hcall : ∀ ans : ReadAns, s.send (sysRead fd (.mem h.addr) (LINESIZE - 1)) { h.sys with read := ans } =
      (s.srv.syscallRead s.pid fd (LINESIZE - 1) ans).bind fun r =>
        .ok { stored := some (.int (toI32 r.ret.nbytes)), op := some (.int r.ret.nbytes), srv := s.srv, on := r.on,
              calls := r.calls } := fun _ => rfl
  have hint : toI32 ((script.drop offset).take (LINESIZE - 1)).length =
      ((script.drop offset).take (LINESIZE - 1)).length := by
    have hle : ((script.drop offset).take (LINESIZE - 1)).length ≤ 65535 := by
      rw [List.length_take]
      exact Nat.min_le_left _ _
    rw [toI32_eq_self_iff]
    constructor <;> omega
  have hflags : ¬ (0 : Int) % 4 = 1 := by decide
  unfold Session.readFile readAt
  simp only [hcount, OpenFile.read, if_neg hflags, hcall, hread, bind, Except.bind, ReadAns.nbytes, hint,
    List.mem_singleton, if_true, Option.getD_some]

end ReadOnly

/-! ## The loop on it -/

/-- The rounds of a shell that reads a file: piece after piece, as the buffer holds them. -/
def fileRounds : List (PathHost × LineHost) → List Byte → List Round
  | [], _ => []
  | (path, host) :: hosts, rest =>
      { path := path
        data := rest.take (LINESIZE - 1)
        size := by
          rw [List.length_take]
          exact lt_of_le_of_lt (Nat.min_le_left _ _) (by decide)
        line := host } :: fileRounds hosts (rest.drop (LINESIZE - 1))

/-- What was read in some rounds. -/
def taken (rounds : List Round) : List Byte := rounds.flatMap (·.data)

theorem taken_cons (r : Round) (rounds : List Round) : taken (r :: rounds) = r.data ++ taken rounds := rfl

theorem take_eq_nil {rest : List Byte} : rest.take (LINESIZE - 1) = [] ↔ rest = [] := by
  have hpos : LINESIZE - 1 ≠ 0 := by decide
  rw [List.take_eq_nil_iff]
  exact or_iff_right hpos

theorem taken_nil (hosts : List (PathHost × LineHost)) : taken (fileRounds hosts []) = [] := by
  induction hosts with
  | nil => rfl
  | cons _ hosts ih => exact ih

/-- **The pieces are the file**, when there are rounds enough. -/
theorem taken_fileRounds {hosts : List (PathHost × LineHost)} {rest : List Byte} (hlen : rest.length < hosts.length) :
    taken (fileRounds hosts rest) = rest := by
  induction hosts generalizing rest with
  | nil => exact absurd hlen (Nat.not_lt_zero _)
  | cons _ hosts ih =>
      by_cases hnil : rest = []
      · rw [hnil]
        exact taken_nil _
      · have hpos := List.length_pos_iff.mpr hnil
        have hstep : 0 < LINESIZE - 1 := by decide
        have hmore : (rest.drop (LINESIZE - 1)).length < hosts.length := by
          rw [List.length_drop]
          rw [List.length_cons] at hlen
          omega
        show rest.take (LINESIZE - 1) ++ taken (fileRounds hosts (rest.drop (LINESIZE - 1))) = rest
        rw [ih hmore, List.take_append_drop]

/-- Where the next piece begins. -/
theorem drop_piece (script : List Byte) (offset n : Nat) :
    script.drop (offset + ((script.drop offset).take n).length) = (script.drop offset).drop n := by
  rw [← List.drop_drop, List.length_take]
  rcases Nat.le_total n (script.drop offset).length with hle | hle
  · rw [Nat.min_eq_left hle]
  · rw [Nat.min_eq_right hle, List.drop_length, List.drop_of_length_le hle]

/-- **The loop on a file** that was opened for reading is the loop on its pieces; nothing that is written arrives. -/
theorem fileLoop_eq {hostFd : Int} (hl : LeadsTo s fd (.fdTypeFd hostFd)) (h : ArgHost)
    (hosts : List (PathHost × LineHost)) (script : List Byte) (offset : Nat) :
    Session.fileLoop fd h hosts s line (readAt hostFd script offset) =
      (Session.inputLoop fd (fileRounds hosts (script.drop offset)) s line).map fun shown =>
        (shown.session, shown.out.map fun str => (str, failed),
          readAt hostFd script (offset + (taken (fileRounds hosts (script.drop offset))).length)) := by
  induction hosts generalizing s line offset with
  | nil => rfl
  | cons host hosts ih =>
      obtain ⟨path, host⟩ := host
      have hread := readFile_piece hl h script offset
      have hloop := fun (s' : Session) (line' : Block) (hf : Frame s s') =>
        @ih s' line' (hl.frame hf) (offset + ((script.drop offset).take (LINESIZE - 1)).length)
      rw [drop_piece script offset (LINESIZE - 1)] at hloop
      generalize script.drop offset = rest at hread hloop ⊢
      simp only [Session.fileLoop, fileRounds, Session.inputLoop, taken_cons, bind, Except.bind]
      cases hprompt : s.prompt fd line path with
      | error e => rfl
      | ok q =>
          obtain ⟨shown, line'⟩ := q
          simp only [writeFiles_fail hl, hread]
          by_cases hnil : rest.take (LINESIZE - 1) = []
          · have hdrop : rest.drop (LINESIZE - 1) = [] := by rw [take_eq_nil.mp hnil, List.drop_nil]
            have hzero : ((([] : List Byte).length : Nat) : Int) ≤ 0 := Int.le_refl 0
            rw [hnil, hdrop, taken_nil, if_pos hzero, if_pos rfl]
            rfl
          · have hpos : ¬ (((rest.take (LINESIZE - 1)).length : Nat) : Int) ≤ 0 := by
              have hlen := List.length_pos_iff.mpr hnil
              omega
            rw [if_neg hpos, if_neg hnil, Int.toNat_natCast]
            cases memcpy line' 0 (rest.take (LINESIZE - 1)) with
            | error e => rfl
            | ok b =>
                dsimp only
                cases store b (rest.take (LINESIZE - 1)).length 0 with
                | error e => rfl
                | ok b =>
                    dsimp only
                    cases hsay : s.sayLine fd b host with
                    | error e => rfl
                    | ok q =>
                        obtain ⟨r, said, b⟩ := q
                        have hframe := sayLine_frame hsay
                        simp only [writeFiles_fail (hl.frame hframe), hloop r.session b hframe]
                        cases Session.inputLoop fd (fileRounds hosts (rest.drop (LINESIZE - 1))) r.session b with
                        | error e => rfl
                        | ok shown' =>
                            simp only [Except.map, List.map_append, List.length_append, Nat.add_assoc]

/-- … and so is `shellRun`. -/
theorem shellRunFile_eq {hostFd : Int} (hl : LeadsTo s fd (.fdTypeFd hostFd)) (h : ArgHost) :
    s.shellRunFile fd h (readAt hostFd h.script 0) =
      (s.shellRun fd h.setenv (fileRounds h.hosts h.script) h.line).map fun shown =>
        (shown.session, shown.out.map fun str => (str, failed), readAt hostFd h.script h.script.length) := by
  have hloop := fun (e : LibEnv) (line : Block) =>
    @fileLoop_eq { s with env := e } line fd hostFd (hl.frame (.env s e)) h h.hosts h.script 0
  rw [List.drop_zero, taken_fileRounds h.enough, Nat.zero_add] at hloop
  simp only [Session.shellRunFile, Session.shellRun, bind, Except.bind]
  cases getcwd s.srv s.pid h.line LINESIZE with
  | error e => rfl
  | ok q =>
      obtain ⟨got, line⟩ := q
      cases got with
      | false => exact hloop s.env line
      | true =>
          cases hstr : strAt line 0 with
          | error e => simp only [if_true, hstr, Except.map]
          | ok cwd =>
              simp only [if_true, hstr]
              exact hloop _ line

theorem shellRun_frame {alloc : Bool} {rounds : List Round} {shown : Shown}
    (hr : s.shellRun fd alloc rounds line = .ok shown) : Frame s shown.session := by
  obtain ⟨⟨got, b⟩, -, hr⟩ := Eff.bind_eq_ok.mp hr
  dsimp only at hr
  split at hr
  · obtain ⟨cwd, -, hr⟩ := Eff.bind_eq_ok.mp hr
    exact (Frame.env s _).trans (inputLoop_frame hr)
  · exact inputLoop_frame hr

/-! ## Opening and closing -/

/-- A shell between two arguments: it has used at most `n` slots, and an open needs what it needed at first. -/
structure Ready (s₀ : Server) (s : Session) (d : CStr) (n : Nat) : Prop where
  plain : Plain s d
  inv : FdInv s.srv
  slots : (s.srv.fdsOf s.pid).length ≤ n
  opens : s.srv.opens = s₀.opens

/-- Counts do not matter to an open. -/
theorem opens_congr {s t : Server} (hview : DeviceNames.view t = DeviceNames.view s) : t.opens = s.opens := by
  have hmem : ∀ (s : Server) (name : CStr), s.devices.exists_ name = true ↔ name ∈ (DeviceNames.view s).map (·.1) := by
    intro s name
    rw [Devices.exists_iff, DeviceNames.view, List.map_map]
    simp
  have hexists : ∀ name, t.devices.exists_ name = s.devices.exists_ name := by
    intro name
    rw [Bool.eq_iff_iff, hmem, hmem, hview]
  funext path h
  unfold opens
  have hsome : (t.devices.get (path.drop 5)).isSome = (s.devices.get (path.drop 5)).isSome := hexists (path.drop 5)
  rw [hsome]

variable {s₀ : Server} {n : Nat}

/-- The descriptors of a shell that stays where it is. -/
theorem Plain.commit {curr : Process} {r : FdResult} (hs : Plain s d) (hp : s.srv.proc s.pid = some curr)
    (honly : FdOnly s.srv curr r) : Plain { s with srv := r.commit s.pid } d := by
  have hproc : (r.commit s.pid).proc s.pid = some r.proc :=
    proc_setProc_self (by rw [honly.1]; exact lt_of_proc hp) _
  refine ⟨?_, hs.bare, ?_, hs.ne_nil, hs.string⟩
  · show (r.commit s.pid).proc s.pid ≠ none
    rw [hproc]
    exact Option.some_ne_none _
  · have hdir := hs.dir
    unfold Session.dir at hdir ⊢
    rw [hp] at hdir
    show ((r.commit s.pid).proc s.pid).bind (·.cwd) = some d
    rw [hproc]
    show r.proc.cwd = some d
    rw [honly.field (·.cwd) fun _ _ => rfl]
    exact hdir

/-- An open takes one new slot at most. -/
theorem open_slots (hs : s₀.AllTyped) {proc : Process} {path : CStr} {flags : Int} {mode : Nat} {h : OpenHost}
    {r : FdResult} (hr : s₀.fdOpenFdFromPath proc path flags mode h = .ok r) :
    r.proc.fds.length ≤ proc.fds.length + 1 := by
  obtain ⟨devices, calls, -, hr' | ⟨type, -, i, entries, -, hr', -⟩⟩ := fdOpenFdFromPath_cases hs proc path flags mode h
  · rw [hr'] at hr
    cases hr
    exact Nat.le_succ _
  · rw [hr'] at hr
    cases hr
    dsimp only
    unfold Process.fdAdd
    split
    · rw [List.length_set]
      exact Nat.le_succ _
    · exact Nat.le_of_eq List.length_append

/-- **An open** gets the first free slot, or fails; the flags that reach the host are 0. -/
theorem open_ready (hs : Ready s₀ s d n) (hn : n < 2 ^ 31) (path : CStr) (h : SysHost) :
    ∃ r, s.send (sysOpen path (toU32 O_RDWR) 0) h = .ok r ∧ Ready s₀ { s with srv := r.srv } d (n + 1) ∧
      ((s₀.opens path h.open_ = false ∧ r.stored = failed) ∨
        (s₀.opens path h.open_ = true ∧ ∃ (k : Nat) (type : FdType), r.stored = some (.int k) ∧
          LeadsTo { s with srv := r.srv } k type ∧ s.srv.target path h.open_ = some type ∧
          r.calls = if (bytes "/dev/").isPrefixOf path then []
            else [.open (s.srv.filesystem ++ path) 0 2 h.open_.open_])) := by
  obtain ⟨curr, hp⟩ := Option.ne_none_iff_exists'.mp hs.plain.live
  obtain ⟨r, hr, hinv, hcase⟩ := hs.inv.open hp path 0 2 h.open_
  -- the flags travel in the place of the mode
  have hcall : s.send (sysOpen path (toU32 O_RDWR) 0) h =
      (s.srv.syscallOpen s.pid path (toI32 (0 : Nat)) (toU32 O_RDWR) h.open_).bind fun r =>
        .ok { stored := some (.int (toI32 r.ret)), op := some (.int (toI32 r.ret)), srv := r.commit s.pid,
              calls := r.calls } := rfl
  have hflags : toI32 (0 : Nat) = 0 := rfl
  have hmode : toU32 O_RDWR = 2 := rfl
  have hopen : s.srv.syscallOpen s.pid path 0 2 h.open_ = .ok r := by
    unfold syscallOpen
    rw [hp]
    exact hr
  have honly := fdOpen_only hr
  have hproc : (r.commit s.pid).proc s.pid = some r.proc :=
    proc_setProc_self (by rw [honly.1]; exact lt_of_proc hp) _
  have hlen : curr.fds.length ≤ n := by
    rw [← fdsOf_eq hp]
    exact hs.slots
  have hslots := open_slots hs.inv.allTyped hr
  obtain ⟨hfails, hcalls⟩ := fdOpenFdFromPath_exact hs.inv.allTyped hr
  rw [hs.opens] at hfails hcalls
  rw [hflags, hmode, hopen] at hcall
  rw [hmode]
  refine ⟨_, hcall, ⟨Plain.commit hs.plain hp honly, hinv, ?_, ?_⟩, ?_⟩
  · show ((r.commit s.pid).fdsOf s.pid).length ≤ n + 1
    rw [fdsOf_eq hproc]
    omega
  · have hview : DeviceNames.view (r.commit s.pid) = DeviceNames.view s.srv := (DeviceNames.open_same hs.inv hr).view
    exact (opens_congr hview).trans hs.opens
  · rcases hcase with ⟨hret, -⟩ | ⟨k, c, e, hret, -, hleast, -, htarget, htable⟩
    · exact Or.inl ⟨hfails.mp hret, by rw [hret]; rfl⟩
    · have hyes : s₀.opens path h.open_ = true := by
        rw [← Bool.not_eq_false, ← hfails, hret]
        omega
      have hle : k ≤ curr.fds.length := by
        by_contra hgt
        refine hleast curr.fds.length (by omega) ?_
        simp [Server.table, fdsOf_eq hp]
      have hint : toI32 k = k := by
        rw [toI32_eq_self_iff]
        constructor <;> omega
      have hslot : (r.commit s.pid).table.slot s.pid k = some c := by
        rw [htable]
        exact Indirect.Table.put_self _ _ _ _
      have hcell : (r.commit s.pid).table.cell c = some e := by
        rw [htable]
        exact Function.update_self _ _ _
      refine Or.inr ⟨hyes, k, e.type, by rw [hret, hint], ⟨Int.natCast_nonneg k, c, e, ?_, hcell, rfl⟩, htarget,
        hcalls hyes⟩
      rw [Int.toNat_natCast]
      exact (slot_eq_some_iff.mp hslot).1

/-- **A close** of a number that was opened returns. -/
theorem close_ready {type : FdType} (hs : Ready s₀ s d n) (hl : LeadsTo s fd type) (h : SysHost) :
    ∃ r, s.send (sysClose fd) h = .ok r ∧ Ready s₀ { s with srv := r.srv } d n := by
  obtain ⟨curr, v, e, hp, hget, hfd, he, -⟩ := hl.proc
  have hself : s.srv.setProc s.pid (some curr) = s.srv := setProc_self hp
  have hinv : FdInv (s.srv.setProc s.pid (some curr)) := by rw [hself]; exact hs.inv
  obtain ⟨r, hr, hcase⟩ := hinv.close (lt_of_proc hp) hget (ne_of_fdGet he) h.close
  have hclose : s.srv.syscallClose s.pid fd h.close = .ok r := by
    unfold syscallClose
    rw [hp]
    simp only [hfd, bind, Except.bind]
    exact hr
  have hcall : s.send (sysClose fd) h = (s.srv.syscallClose s.pid fd h.close).bind fun r =>
      .ok { stored := some (.int (if r.ret = 1 then 0 else -1)), op := some (.int (if r.ret = 1 then 0 else -1)),
            srv := r.commit s.pid, calls := r.calls } := rfl
  rw [hclose] at hcall
  refine ⟨_, hcall, ?_⟩
  rcases hcase with ⟨-, hsrv, hproc, -⟩ | ⟨-, -, hsrv, hproc, hinv', -⟩
  · have hsame : r.commit s.pid = s.srv := by rw [FdResult.commit, hsrv, hproc, hself]
    dsimp only
    rw [hsame]
    exact hs
  · have honly := fdClose_only hr
    have hproc' : (r.commit s.pid).proc s.pid = some r.proc :=
      proc_setProc_self (by rw [honly.1]; exact lt_of_proc hp) _
    refine ⟨Plain.commit hs.plain hp honly, hinv', ?_, ?_⟩
    · show ((r.commit s.pid).fdsOf s.pid).length ≤ n
      rw [fdsOf_eq hproc', hproc, List.length_set, ← fdsOf_eq hp]
      exact hs.slots
    · have hview : DeviceNames.view (r.commit s.pid) = DeviceNames.view s.srv := by
        rw [FdResult.commit, hsrv]
        rfl
      exact (opens_congr hview).trans hs.opens

/-! ## The arguments -/

/-- The rounds of the shell on an argument: those at the device, or the pieces of the file. -/
def roundsOf (path : CStr) (h : ArgHost) : List Round :=
  if (bytes "/dev/").isPrefixOf path then h.terminal else fileRounds h.hosts h.script

/-- What comes of an argument that is opened in `d`: what is said to a device is its transcript, and what is said to a
    file is refused, write for write, and the file read to its end. -/
def ranOn (d : CStr) (path : CStr) (h : ArgHost) : Ran :=
  let out := transcript 0 d (roundsOf path h)
  if (bytes "/dev/").isPrefixOf path then .device out
  else .file (out.map fun str => (str, failed)) (readAt h.sys.open_.open_ h.script h.script.length)

/-- What comes of the arguments, one after another from `d`: one that cannot be opened is left out. -/
def outcomes (s₀ : Server) : CStr → List (CStr × ArgHost) → List (Option Ran)
  | _, [] => []
  | d, (path, h) :: args =>
      if s₀.opens path h.sys.open_ then some (ranOn d path h) :: outcomes s₀ (leads d (roundsOf path h)) args
      else none :: outcomes s₀ d args

/-- The directory they lead to. -/
def leadsOn (s₀ : Server) : CStr → List (CStr × ArgHost) → CStr
  | d, [] => d
  | d, (path, h) :: args => leadsOn s₀ (if s₀.opens path h.sys.open_ then leads d (roundsOf path h) else d) args

/-- The lines of an argument can be executed, if it is opened. -/
def Runs (s₀ : Server) (path : CStr) (h : ArgHost) : Prop :=
  s₀.opens path h.sys.open_ = true → AllReadable (roundsOf path h)

/-- What is written depends on the number only when that is -1. -/
theorem transcript_number (hfd : fd ≠ -1) (d : CStr) (rounds : List Round) :
    transcript fd d rounds = transcript 0 d rounds := by
  have hwrites : ∀ strs, Session.writes fd strs = Session.writes 0 strs := by simp [Session.writes, hfd]
  induction rounds generalizing d with
  | nil => rfl
  | cons round rounds ih => simp only [transcript, hwrites, ih]

/-- **What was opened**, as `shellRun` leaves it. -/
theorem runOpened_exact (hs : Ready s₀ s d n) {k : Nat} {path : CStr} {h : ArgHost} {type : FdType}
    {calls : List HostCall} (hl : LeadsTo s k type) {t : Server} (htarget : t.target path h.sys.open_ = some type)
    (hcalls : calls = if (bytes "/dev/").isPrefixOf path then []
      else [.open (t.filesystem ++ path) 0 2 h.sys.open_.open_]) :
    (AllReadable (roundsOf path h) ∧ ∃ s', s.runOpened k h (OpenFile.ofCalls h.script calls) =
        .ok (s', ranOn d path h) ∧ Ready s₀ s' (leads d (roundsOf path h)) n ∧ LeadsTo s' k type) ∨
    (¬ AllReadable (roundsOf path h) ∧ ∃ e, s.runOpened k h (OpenFile.ofCalls h.script calls) = .error e) := by
  have hk : (k : Int) ≠ -1 := by omega
  -- what `shellRun` leaves is ready again
  have hready : ∀ {rounds : List Round} {shown : Shown}, s.shellRun k h.setenv rounds h.line = .ok shown →
      Plain shown.session (leads d rounds) → Ready s₀ shown.session (leads d rounds) n ∧
        LeadsTo shown.session k type := by
    intro rounds shown hrun hplain
    have hf := shellRun_frame hrun
    refine ⟨⟨hplain, hf.inv hs.inv, ?_, ?_⟩, hl.frame hf⟩
    · rw [hf.pid, hf.slots]
      exact hs.slots
    · rw [← hs.opens]
      exact opens_congr (by rw [DeviceNames.view, DeviceNames.view, hf.devices])
  unfold roundsOf ranOn
  by_cases hdev : (bytes "/dev/").isPrefixOf path = true
  · rw [if_pos hdev] at hcalls
    simp only [if_pos hdev, hcalls, OpenFile.ofCalls, Session.runOpened, bind, Except.bind, roundsOf]
    rcases shellRun_exact k h.setenv h.terminal hs.plain h.size with
      ⟨hall, shown, hrun, hout, hplain⟩ | ⟨hnot, e, hrun⟩
    · obtain ⟨hnext, hl'⟩ := hready hrun hplain
      refine Or.inl ⟨hall, shown.session, ?_, hnext, hl'⟩
      rw [hrun, ← transcript_number hk, ← hout]
    · exact Or.inr ⟨hnot, e, by rw [hrun]⟩
  · rw [if_neg hdev] at hcalls
    have hfile : LeadsTo s k (.fdTypeFd h.sys.open_.open_) := by
      unfold target at htarget
      rw [if_neg hdev] at htarget
      cases htarget
      exact hl
    have heq := shellRunFile_eq hfile h
    unfold readAt at heq ⊢
    simp only [if_neg hdev, hcalls, OpenFile.ofCalls, Session.runOpened, heq, bind, Except.bind, roundsOf]
    rcases shellRun_exact k h.setenv (fileRounds h.hosts h.script) hs.plain h.size with
      ⟨hall, shown, hrun, hout, hplain⟩ | ⟨hnot, e, hrun⟩
    · obtain ⟨hnext, hl'⟩ := hready hrun hplain
      refine Or.inl ⟨hall, shown.session, ?_, hnext, hl'⟩
      rw [hrun, ← transcript_number hk, ← hout]
      rfl
    · exact Or.inr ⟨hnot, e, by rw [hrun]; rfl⟩

/-- **One argument**: it cannot be opened, or its lines are executed, or one of them cannot be. -/
theorem runArg_exact (hs : Ready s₀ s d n) (hn : n < 2 ^ 31) (path : CStr) (h : ArgHost) :
    (s₀.opens path h.sys.open_ = false ∧ ∃ s', s.runArg path h = .ok (s', none) ∧ Ready s₀ s' d (n + 1)) ∨
    (s₀.opens path h.sys.open_ = true ∧ AllReadable (roundsOf path h) ∧
      ∃ s', s.runArg path h = .ok (s', some (ranOn d path h)) ∧ Ready s₀ s' (leads d (roundsOf path h)) (n + 1)) ∨
    (s₀.opens path h.sys.open_ = true ∧ ¬ AllReadable (roundsOf path h) ∧ ∃ e, s.runArg path h = .error e) := by
  obtain ⟨r, hr, hready, ⟨hno, hret⟩ | ⟨hyes, k, type, hret, hl, htarget, hcalls⟩⟩ := open_ready hs hn path h.sys
  · refine Or.inl ⟨hno, { s with srv := r.srv }, ?_, hready⟩
    simp only [Session.runArg, hr, hret, failed, bind, Except.bind, if_true]
  · have hk : ¬ (k : Int) = -1 := by omega
    refine Or.inr ?_
    rcases runOpened_exact hready hl htarget hcalls with ⟨hall, s', hrun, hready', hl'⟩ | ⟨hnot, e, hrun⟩
    · obtain ⟨r', hclose, hdone⟩ := close_ready hready' hl' h.sys
      refine Or.inl ⟨hyes, hall, { s' with srv := r'.srv }, ?_, hdone⟩
      simp only [Session.runArg, hr, hret, if_neg hk, hrun, hclose, bind, Except.bind]
    · refine Or.inr ⟨hyes, hnot, e, ?_⟩
      simp only [Session.runArg, hr, hret, if_neg hk, hrun, bind, Except.bind]

/-- **All of them.** -/
theorem runArgs_exact (args : List (CStr × ArgHost)) (hs : Ready s₀ s d n) (hn : n + args.length ≤ 2 ^ 31) :
    ((∀ a ∈ args, Runs s₀ a.1 a.2) ∧ ∃ s', Session.main args s = .ok (s', outcomes s₀ d args) ∧
      Plain s' (leadsOn s₀ d args)) ∨
    (¬ (∀ a ∈ args, Runs s₀ a.1 a.2) ∧ ∃ e, Session.main args s = .error e) := by
  induction args generalizing s d n with
  | nil => exact Or.inl ⟨List.forall_mem_nil _, s, rfl, hs.plain⟩
  | cons a args ih =>
      obtain ⟨path, h⟩ := a
      rw [List.length_cons] at hn
      rw [List.forall_mem_cons]
      rcases runArg_exact hs (by omega) path h with
        ⟨hno, s', hrun, hs'⟩ | ⟨hyes, hall, s', hrun, hs'⟩ | ⟨hyes, hnot, e, hrun⟩
      · have hruns : Runs s₀ path h := fun hyes => absurd (hno.symm.trans hyes) nofun
        rcases ih hs' (by omega) with ⟨hrest, s'', hmain, hplain⟩ | ⟨hnot, e, hmain⟩
        · refine Or.inl ⟨⟨hruns, hrest⟩, s'', ?_, ?_⟩
          · simp only [Session.main, hrun, hmain, bind, Except.bind, outcomes, hno]
            rfl
          · simp only [leadsOn, hno]
            exact hplain
        · exact Or.inr ⟨fun hboth => hnot hboth.2, e, by simp only [Session.main, hrun, hmain, bind, Except.bind]⟩
      · rcases ih hs' (by omega) with ⟨hrest, s'', hmain, hplain⟩ | ⟨hnot, e, hmain⟩
        · refine Or.inl ⟨⟨fun _ => hall, hrest⟩, s'', ?_, ?_⟩
          · simp only [Session.main, hrun, hmain, bind, Except.bind, outcomes, hyes, if_true]
          · simp only [leadsOn, hyes, if_true]
            exact hplain
        · exact Or.inr ⟨fun hboth => hnot hboth.2, e, by simp only [Session.main, hrun, hmain, bind, Except.bind]⟩
      · exact Or.inr ⟨fun hboth => hnot (hboth.1 hyes), e, by simp only [Session.main, hrun, bind, Except.bind]⟩

/-! ## In the sessions of the platform -/

/-- The descriptors of every image of a session are linked. -/
theorem inv_of_run {t u : Environ.Session} {tr : List (Environ.Session × Environ.Act × Environ.Session)}
    (ht : Environ.Booted t) (hun : FdTable.Unopened t.world.server) (h : Run Environ.Session.Step t tr u) {self : Int}
    {m : Member} (hm : u.world.live self = some m) : FdInv m.image := by
  have hinv : World.Invariant FdInv := ⟨fun hs hr => startProcess_inv hs hr, fun hs hr => perform_inv hs hr⟩
  have hstart : World.EveryImage FdInv t.world := by
    refine ⟨hun.fdInv, fun q m' hm' => ?_⟩
    rw [ht.world.live] at hm'
    cases hm'
  have hstep : ∀ (a : Environ.Session) (i : Environ.Act) (b : Environ.Session), World.EveryImage FdInv a.world →
      Environ.Session.Step a i b → World.EveryImage FdInv b.world := by
    intro a i b ha hst
    cases hst with
    | sys hw => exact ha.step hinv hw
    | «export» _ _ _ _ => exact ha
  exact (h.invariant hstep hstart).image self m hm

/-- **What comes of the arguments of a shell.** In every session of the platform that starts with nothing open, wherever
    a live process is a shell that runs in a directory and has numbers left, and whatever its arguments are and the host
    answers: the shell gets through them exactly when the lines of those that are opened can be executed. Each of these
    lines is a piece of its file, from the beginning to the end; what the shell writes to a file is refused, and the
    file is what it was. -/
theorem main_exact {t u : Environ.Session} {tr : List (Environ.Session × Environ.Act × Environ.Session)}
    (ht : Environ.Booted t) (hun : FdTable.Unopened t.world.server) (h : Run Environ.Session.Step t tr u) {self : Int}
    {m : Member} (hm : u.world.live self = some m) {pid : Nat} {p : Process} (hp : m.image.proc pid = some p) {d : CStr}
    (hcwd : p.cwd = some d) (hne : d ≠ []) (hnul : 0 ∉ d) (args : List (CStr × ArgHost))
    (hslots : p.fds.length + args.length ≤ 2 ^ 31) :
    let run := Session.main args ⟨m.image, pid, u.libs self⟩
    ((∃ r, run = .ok r) ↔ ∀ a ∈ args, Runs m.image a.1 a.2) ∧
      (∀ r, run = .ok r → r.2 = outcomes m.image d args ∧ r.1.dir = some (leadsOn m.image d args)) ∧
      ∀ a ∈ args, ¬ (bytes "/dev/").isPrefixOf a.1 = true → taken (roundsOf a.1 a.2) = a.2.script := by
  have hplain := plain_of_run ht h hm hp hcwd hne hnul
  have hready : Ready m.image ⟨m.image, pid, u.libs self⟩ d p.fds.length :=
    ⟨hplain, inv_of_run ht hun h hm, Nat.le_of_eq (congrArg List.length (fdsOf_eq hp)), rfl⟩
  have hpieces : ∀ a ∈ args, ¬ (bytes "/dev/").isPrefixOf a.1 = true → taken (roundsOf a.1 a.2) = a.2.script := by
    intro a _ hfile
    unfold roundsOf
    rw [if_neg hfile]
    exact taken_fileRounds a.2.enough
  dsimp only
  rcases runArgs_exact args hready hslots with ⟨hall, s', hrun, hend⟩ | ⟨hnot, e, hrun⟩
  · rw [hrun]
    refine ⟨iff_of_true ⟨_, rfl⟩ hall, ?_, hpieces⟩
    rintro r hr
    cases hr
    exact ⟨rfl, hend.dir⟩
  · rw [hrun]
    exact ⟨iff_of_false (by rintro ⟨_, hok⟩; cases hok) hnot, (by rintro _ ⟨⟩), hpieces⟩

/-- A file that the buffer holds is one line. -/
theorem allReadable_short {hosts : List (PathHost × LineHost)} {script : List Byte}
    (hlen : script.length ≤ LINESIZE - 1) (hread : Readable script) : AllReadable (fileRounds hosts script) := by
  intro r hr
  have hne : r.data ≠ [] := by simpa using List.mem_takeWhile_imp hr
  have hpiece : ∀ (hosts : List (PathHost × LineHost)) (rest : List Byte), r ∈ fileRounds hosts rest →
      ∃ k, r.data = (rest.drop k).take (LINESIZE - 1) ∧ (k = 0 ∨ LINESIZE - 1 ≤ k) := by
    intro hosts
    induction hosts with
    | nil => exact fun _ hr => absurd hr List.not_mem_nil
    | cons host hosts ih =>
        intro rest hr
        rcases List.mem_cons.mp hr with rfl | hr
        · exact ⟨0, rfl, Or.inl rfl⟩
        · obtain ⟨k, hk, -⟩ := ih _ hr
          exact ⟨LINESIZE - 1 + k, by rw [hk, List.drop_drop], Or.inr (Nat.le_add_right _ _)⟩
  obtain ⟨k, hk, rfl | hle⟩ := hpiece hosts script ((List.takeWhile_sublist _).subset hr)
  · rw [hk, List.drop_zero, List.take_of_length_le hlen]
    exact hread
  · rw [List.drop_of_length_le (hlen.trans hle), List.take_nil] at hk
    exact absurd hk hne

/-- A file that the host opens with the number 7, or does not open. -/
def scriptOf (found : Bool) (script : List Byte) (hlen : script.length < 16) : ArgHost where
  sys := { Messages.quietHost with open_ := ⟨true, if found then 7 else -1, true, 0⟩ }
  setenv := true
  script := script
  hosts := List.replicate 16 ({ malloc := some fun _ => 0, realloc := .moved }, ShellLine.host)
  enough := by rwa [List.length_replicate]
  terminal := []
  line := List.replicate LINESIZE 0
  size := length_blank
  addr := 0

/-- The shell 100 is given a file that is not there and two scripts. -/
theorem main_exact_shell :
    ∃ tr u m, Run Environ.Session.Step Environ.session tr u ∧ u.world.live 100 = some m ∧
      let run := Session.main [(bytes "/x", scriptOf false [] (by decide)),
        (bytes "/y", scriptOf true (bytes "cd //a\n") (by decide)),
        (bytes "/z", scriptOf true (bytes "ls -l\n") (by decide))] ⟨m.image, 1, u.libs 100⟩
      (∃ r, run = .ok r) ∧ ∀ r, run = .ok r →
        r.2 = [none,
          some (.file [(bytes "/bin", failed), (bytes " $ ", failed), (bytes "/a", failed), (bytes " $ ", failed)]
            ⟨7, 0, bytes "cd //a\n", 7⟩),
          some (.file [(bytes "/a", failed), (bytes " $ ", failed), (bytes "ls", failed),
            (bytes ": Command not found.\n", failed), (bytes "/a", failed), (bytes " $ ", failed)]
            ⟨7, 0, bytes "ls -l\n", 6⟩)] ∧
        r.1.dir = some (bytes "/a") := by
  obtain ⟨u, m, p, h, hm, hp, hcwd, hfds⟩ := shell_started
  refine ⟨_, u, m, Run.single h, hm, ?_⟩
  obtain ⟨hiff, hout, -⟩ := main_exact Environ.session_booted Exec.hosts_unopened (Run.single h) hm hp hcwd (by decide)
    (by decide) [(bytes "/x", scriptOf false [] (by decide)),
      (bytes "/y", scriptOf true (bytes "cd //a\n") (by decide)),
      (bytes "/z", scriptOf true (bytes "ls -l\n") (by decide))] (by rw [hfds]; decide)
  refine ⟨hiff.mpr fun a ha => ?_, hout⟩
  have hmem : a = (bytes "/x", scriptOf false [] (by decide)) ∨
      a = (bytes "/y", scriptOf true (bytes "cd //a\n") (by decide)) ∨
      a = (bytes "/z", scriptOf true (bytes "ls -l\n") (by decide)) := by
    simpa only [List.mem_cons, List.not_mem_nil, or_false] using ha
  rcases hmem with rfl | rfl | rfl
  · exact fun hopens => absurd (show false = true from hopens) nofun
  · exact fun _ => allReadable_short (by decide) (readable_of_command (by decide) rfl)
  · exact fun _ => allReadable_short (by decide) (readable_of_command (by decide) rfl)

end ShellFiles
end DistributedPlatform
