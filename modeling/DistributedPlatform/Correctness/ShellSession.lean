import DistributedPlatform.Correctness.Environ
import DistributedPlatform.Correctness.ShellLine
import DistributedPlatform.Programs.ShellSession

/-!
# `Correctness.ShellSession` — what a shell shows

No program of the platform has an environment, so the shell knows no home directory: its prompt is the reduced form of
the directory the server holds, and what moves it is a `cd` with a path that does not begin with a `~`.

* `prompt_eq`, `sayLine_eq`, `line_eq` — one prompt, and one line;
* `inputLoop_exact` — any rounds of the loop;
* `session_transcript` — the shell of any session of the platform writes its transcript, and until when.
-/

namespace DistributedPlatform
namespace ShellSession

open Machine Shell Script ShellLine PathDisplay PathReduce Spelling Lexical

/-! ## What is to be shown -/

/-- The directory as the shell gets it into its buffer. -/
def shownDir (d : CStr) : Option CStr :=
  if toU32 (d.length + 1) > LINESIZE then none else some (d.take (LINESIZE - 1))

/-- The prompt in the directory `d`. -/
def promptOf (d : CStr) (h : PathHost) : List CStr :=
  match shownDir d with
  | none => [bytes " $ "]
  | some q => if q.head? = some 126 ∨ h.malloc = none then [bytes " $ "] else [tidy 47 q, bytes " $ "]

/-- The blanks in front of the first word, and the word. -/
def upToWord (t : CStr) : CStr := t.takeWhile (· == 32) ++ (t.dropWhile (· == 32)).takeWhile (· != 32)

/-- The answer to a text. -/
def replyTo (t : CStr) : List CStr :=
  match Script.commandOf t with
  | .ok (some (.notFound _)) => [upToWord t, bytes ": Command not found.\n"]
  | _ => []

/-- The directory a command leads to from `d`. -/
def moveTo (d : CStr) (cmd : Option ShellCmd) (h : LineHost) : CStr :=
  match cmd with
  | some (.cd (some p)) => if p.head? ≠ some 126 ∧ h.malloc ≠ none ∧ h.setCwd = true then tidy 47 p else d
  | _ => d

/-- … and a text. -/
def follow (d t : CStr) (h : LineHost) : CStr :=
  match Script.commandOf t with
  | .ok cmd => moveTo d cmd h
  | .error _ => d

/-- The directory some rounds lead to. -/
def leads : CStr → List Round → CStr
  | d, [] => d
  | d, r :: rounds => if r.data = [] then d else leads (follow d (text r.data) r.line) rounds

/-- The transcript of some rounds. -/
def transcript (fdOut : Int) : CStr → List Round → List CStr
  | _, [] => []
  | d, r :: rounds =>
      Session.writes fdOut (promptOf d r.path) ++
        if r.data = [] then []
        else Session.writes fdOut (replyTo (text r.data)) ++ transcript fdOut (follow d (text r.data) r.line) rounds

/-- Something is in front of the first NUL and the first `#`, and it is not `export` alone. -/
def Readable (data : List Byte) : Prop := content data ≠ [] ∧ ¬ ExportsNothing (text data)

/-- Each line that is executed can be. -/
def AllReadable (rounds : List Round) : Prop := ∀ r ∈ rounds.takeWhile (·.data ≠ []), Readable r.data

/-- A shell without an environment, in the directory `d`. -/
structure Plain (s : Session) (d : CStr) : Prop where
  live : s.srv.proc s.pid ≠ none
  bare : s.env.Denviron = none
  dir : s.dir = some d
  ne_nil : d ≠ []
  string : 0 ∉ d

variable {s : Session} {d t : CStr} {fdOut : Int} {line : Block}

theorem Plain.runs (hs : Plain s d) : s.Runs where
  live := hs.live
  strings env henv := by
    rw [hs.bare] at henv
    cases henv

theorem Plain.home (hs : Plain s d) : s.home = none := by
  unfold Session.home LibEnv.getenv
  rw [hs.bare]

/-- The library's variables do not matter. -/
theorem Plain.env (hs : Plain s d) {e : LibEnv} (he : e.Denviron = s.env.Denviron) : Plain { s with env := e } d where
  live := hs.live
  bare := by rw [he, hs.bare]
  dir := hs.dir
  ne_nil := hs.ne_nil
  string := hs.string

/-! ## The prompt -/

/-- What two writes leave at the start of a block that they fill: the string, cut before the last byte. -/
theorem strAt_copied {n : Nat} {b₁ b₂ : Block} (hd : 0 ∉ d) (hline : line.length = n + 1)
    (h₁ : Buffer.write line 0 (d.take (n + 1) ++ List.replicate (n + 1 - d.length) 0) = some b₁)
    (h₂ : Buffer.write b₁ n [0] = some b₂) : strAt b₂ 0 = .ok (d.take n) := by
  obtain ⟨-, hb₁⟩ := Buffer.write_eq_some_iff.mp h₁
  obtain ⟨-, rfl⟩ := Buffer.write_eq_some_iff.mp h₂
  have hlen : (d.take (n + 1) ++ List.replicate (n + 1 - d.length) (0 : Byte)).length = n + 1 := by
    rw [List.length_append, List.length_take, List.length_replicate]
    omega
  rw [List.take_zero, List.nil_append, Nat.zero_add, hlen, List.drop_of_length_le (Nat.le_of_eq hline),
    List.append_nil] at hb₁
  have htake : b₁.take n = d.take n ++ List.replicate (n - d.length) 0 := by
    rw [hb₁, List.take_append, List.take_take, List.take_replicate, List.length_take]
    congr 2 <;> omega
  have hnul : 0 ∉ d.take n := fun h0 => hd (List.mem_of_mem_take h0)
  have hblock : b₁.take n ++ [0] ++ b₁.drop (n + 1) =
      [] ++ d.take n ++ 0 :: (List.replicate (n - d.length) 0 ++ b₁.drop (n + 1)) := by
    rw [htake, List.append_assoc (d.take n), ← List.replicate_succ', List.replicate_succ]
    simp
  have hstr := strAt_append hnul [] (List.replicate (n - d.length) 0 ++ b₁.drop (n + 1))
  rw [← hblock] at hstr
  exact hstr

/-- `getcwd` in the buffer of the shell. -/
theorem getcwd_shown (hs : Plain s d) (hline : line.length = LINESIZE) :
    ∃ line', getcwd s.srv s.pid line LINESIZE = .ok ((shownDir d).isSome, line') ∧ line'.length = LINESIZE ∧
      strAt line' 0 = .ok (d.take (LINESIZE - 1)) := by
  obtain ⟨curr, hcurr⟩ := Option.ne_none_iff_exists'.mp hs.live
  have hcwd : curr.cwd = some d := by
    have hdir := hs.dir
    unfold Session.dir at hdir
    rwa [hcurr] at hdir
  have hsize : LINESIZE ≠ 0 := by decide
  obtain ⟨b₁, b₂, hget, h₁, h₂⟩ := WorkingDir.getcwd_ok hcurr hcwd hsize (Nat.le_of_eq hline.symm)
  have hlen₁ := Buffer.length_of_write h₁
  have hlen₂ := Buffer.length_of_write h₂
  refine ⟨b₂, ?_, by rw [hlen₂, hlen₁, hline], ?_⟩
  · rw [hget]
    unfold shownDir
    split <;> simp_all
  · have hcut : toU32 LINESIZE = LINESIZE - 1 + 1 := by decide
    have hlast : toU32 ((toU32 LINESIZE : Int) - 1) = LINESIZE - 1 := by decide
    rw [hcut] at h₁
    rw [hlast] at h₂
    exact strAt_copied hs.string hline h₁ h₂

/-- **One prompt.** -/
theorem prompt_eq (hs : Plain s d) (hline : line.length = LINESIZE) (fdOut : Int) (h : PathHost) :
    ∃ line', s.prompt fdOut line h = .ok (Session.writes fdOut (promptOf d h), line') ∧
      line'.length = LINESIZE := by
  unfold Session.prompt
  by_cases hout : fdOut = -1
  · rw [if_pos hout]
    exact ⟨line, by rw [Session.writes, if_pos hout], hline⟩
  · rw [if_neg hout]
    obtain ⟨line', hget, hlen, hstr⟩ := getcwd_shown hs hline
    refine ⟨line', ?_, hlen⟩
    simp only [hget, hstr, hs.home, bind, Except.bind, promptOf]
    cases hshown : shownDir d with
    | none => rfl
    | some q =>
        have hq : q = d.take (LINESIZE - 1) := by
          unfold shownDir at hshown
          split at hshown
          · cases hshown
          · cases hshown
            rfl
        have hne : q ≠ [] := by
          rw [hq]
          exact List.ne_nil_of_length_pos (by
            have hpos := List.length_pos_iff.mpr hs.ne_nil
            rw [List.length_take]
            exact lt_min (by decide) hpos)
        have hnul : 0 ∉ q := fun h0 => hs.string (List.mem_of_mem_take (hq ▸ h0))
        rw [← hq]
        simp only [Option.isSome_some, if_true, Except.map]
        by_cases hno : q.head? = some 126 ∨ h.malloc = none
        · have habs : shellPathAbsolute none (some q) h.malloc = .ok none := by
            simp only [shellPathAbsolute]
            split_ifs with htilde
            · rfl
            · rw [hno.resolve_left htilde]
              rfl
          simp only [shellPathDisplay, habs, bind, Except.bind, if_pos hno]
        · obtain ⟨htilde, hmalloc⟩ := not_or.mp hno
          obtain ⟨fill, hfill⟩ := Option.ne_none_iff_exists'.mp hmalloc
          obtain ⟨w, -, habs⟩ := absolute_eq none q fill (fun hq => absurd hq htilde) hne List.not_mem_nil hnul
          have hexpand : expand (Option.getD none []) q = q := if_neg htilde
          rw [hexpand, ← hfill] at habs
          have hshow := strAt_append (notMem_tidy hnul 47) [] w
          rw [List.nil_append, List.length_nil] at hshow
          simp only [shellPathDisplay, habs, bind, Except.bind, hshow, if_neg hno]

/-! ## One line -/

/-- A text that begins with blanks and a word, cut off behind it. -/
theorem upToWord_eq {w rest : CStr} {k : Nat} (hw : Words.IsWord 32 w)
    (ht : (t = List.replicate k 32 ++ w ∧ rest = []) ∨ t = List.replicate k 32 ++ (w ++ 32 :: rest)) :
    upToWord t = List.replicate k 32 ++ w := by
  obtain ⟨a, v, rfl⟩ := List.exists_cons_of_ne_nil hw.ne_nil
  have ha : ¬ (a == 32) = true := fun heq => hw.notMem (eq_of_beq heq ▸ List.mem_cons_self)
  have hblank : ∀ y ∈ List.replicate k (32 : Byte), (y == 32) = true :=
    fun y hy => by simp [List.eq_of_mem_replicate hy]
  have hword := Words.bne_of_notMem hw.notMem
  unfold upToWord
  rcases ht with ⟨rfl, -⟩ | rfl
  · rw [List.takeWhile_append_of_pos hblank, List.dropWhile_append_of_pos hblank,
      List.takeWhile_cons_of_neg (p := fun b => b == 32) ha, List.dropWhile_cons_of_neg (p := fun b => b == 32) ha,
      List.append_nil, List.takeWhile_eq_self_iff.mpr hword]
  · rw [List.takeWhile_append_of_pos hblank, List.dropWhile_append_of_pos hblank, List.cons_append,
      List.takeWhile_cons_of_neg (p := fun b => b == 32) ha, List.dropWhile_cons_of_neg (p := fun b => b == 32) ha,
      List.append_nil, ← List.cons_append, List.takeWhile_append_of_pos hword, List.takeWhile_cons_of_neg (by decide),
      List.append_nil]

/-- The line in its buffer, with the first word cut off, is what the message shows. -/
theorem strtokR_upToWord {w rest : CStr} (htok : strtok 32 t = some (w, rest)) (ht : 0 ∉ t) (r : Block) :
    ∃ tok, strtokR (t ++ 0 :: r) 0 32 = .ok tok ∧ strAt tok.block 0 = .ok (upToWord t) := by
  have hsep : (32 : Byte) ≠ 0 := by decide
  obtain ⟨hword, k, htext⟩ := strtok_eq_some_iff.mp htok
  rw [upToWord_eq hword htext]
  have hnul : 0 ∉ List.replicate k (32 : Byte) ++ w := by
    intro h0
    rcases htext with ⟨rfl, -⟩ | rfl
    · exact ht h0
    · rw [← List.append_assoc] at ht
      exact ht (List.mem_append_left _ h0)
  have hw : 0 ∉ w := fun h0 => hnul (List.mem_append_right _ h0)
  rcases htext with ⟨rfl, -⟩ | rfl
  · exact ⟨_, strtokR_word hsep hword hw k (Or.inr rfl) [] r, strAt_append hnul [] r⟩
  · have hcut := strtokR_word hsep hword hw k (Or.inl rfl) [] (rest ++ 0 :: r)
    have hblock : List.replicate k 32 ++ (w ++ 32 :: rest) ++ 0 :: r =
        [] ++ List.replicate k 32 ++ w ++ 32 :: (rest ++ 0 :: r) := by simp
    rw [← hblock] at hcut
    exact ⟨_, hcut, strAt_append hnul [] (rest ++ 0 :: r)⟩

/-- The writes aside, the command is executed as without them. -/
theorem sayCommand_eq (ht : 0 ∉ t) (r : Block) (s : Session) (fdOut : Int) (h : LineHost) :
    s.sayCommand fdOut (t ++ 0 :: r) h =
      (s.runCommand (t ++ 0 :: r) h).map fun q => (q.1, Session.writes fdOut (replyTo t), q.2) := by
  have hnone : Session.writes fdOut [] = [] := by simp [Session.writes]
  cases htok : strtok 32 t with
  | none =>
      have htokR := strtokR_none htok [] r
      rw [List.nil_append, List.length_nil, Nat.zero_add] at htokR
      simp only [Session.sayCommand, Session.runCommand, htokR, bind, Except.bind, replyTo, Script.commandOf, htok,
        hnone]
      rfl
  | some p =>
      obtain ⟨part, save⟩ := p
      obtain ⟨m, q, l', htokR, hblock, -, hw, -⟩ := strtokR_some htok ht [] r
      obtain ⟨tok, htok', hshow⟩ := strtokR_upToWord htok ht r
      rw [List.nil_append, List.length_nil] at htokR
      rw [htokR] at htok'
      cases htok'
      have hpart : strAt (l' ++ save ++ 0 :: r) m.length = .ok part := by
        rw [hblock]
        exact strAt_append hw m q
      simp only [Session.sayCommand, Session.runCommand, htokR, hpart, bind, Except.bind, replyTo, commandOf_word htok]
      by_cases hcd : part = bytes "cd"
      · simp only [if_pos hcd, hnone]
        cases s.shellCd (l' ++ save ++ 0 :: r) l'.length h <;> rfl
      · by_cases hexport : part = bytes "export"
        · simp only [if_neg hcd, if_pos hexport]
          cases strtok 32 save <;>
            · simp only [hnone]
              cases s.shellExport (l' ++ save ++ 0 :: r) l'.length h <;> rfl
        · have hlen' : strlen (l' ++ save ++ 0 :: r) = .ok (cstr (l' ++ save ++ 0 :: r)).length := if_pos (by simp)
          simp only [if_neg hcd, if_neg hexport, hlen', hshow]
          rfl

/-- So is the line. -/
theorem sayLine_eq (line : LineBuffer) (s : Session) (fdOut : Int) (h : LineHost) :
    s.sayLine fdOut line.block h =
      (s.shellParseLine line.block h).map fun q => (q.1, Session.writes fdOut (replyTo (text line.data)), q.2) := by
  have hnone : Session.writes fdOut [] = [] := by simp [Session.writes]
  obtain ⟨r, hblock⟩ := eq_cstr_append (b := line.block) (List.mem_append_right _ List.mem_cons_self)
  have hstr : cstr line.block = cstr line.data := cstr_append_zero _ _
  have hnul : 0 ∉ cstr line.data := fun h0 => by simpa using List.mem_takeWhile_imp h0
  rw [hstr] at hblock
  obtain ⟨r', hcomment, -⟩ := stripComment_eq hnul r
  have hcontent : (cstr line.data).takeWhile (· != 35) = content line.data := rfl
  have hnul' : 0 ∉ content line.data := fun h0 => hnul ((List.takeWhile_sublist _).subset h0)
  rw [hcontent] at hcomment
  simp only [Session.sayLine, Session.shellParseLine, hblock, hcomment, bind, Except.bind]
  by_cases hnil : content line.data = []
  · rw [hnil, List.nil_append]
    simp only [trimNewline_nil]
    rfl
  · obtain ⟨r'', htrim, -, htext⟩ := trimNewline_eq hnul' hnil r'
    have htrimmed : trimmed (content line.data) = text line.data := rfl
    rw [htrimmed] at htrim htext
    simp only [htrim, strlen_append htext]
    by_cases hempty : (text line.data).length = 0
    · have hreply : replyTo (text line.data) = [] := by rw [List.eq_nil_of_length_eq_zero hempty]; rfl
      simp only [if_pos hempty, hreply, hnone]
      rfl
    · simp only [if_neg hempty]
      exact sayCommand_eq htext r'' s fdOut h

/-- Changing directory. -/
theorem cd_plain (hs : Plain s d) {p : CStr} (hne : p ≠ []) (hnul : 0 ∉ p) (h : LineHost) :
    ∃ r, s.cd (some p) h = .ok r ∧ Plain r.session (moveTo d (some (.cd (some p))) h) := by
  by_cases hno : h.malloc = none ∨ p.head? = some 126
  · have hmove : moveTo d (some (.cd (some p))) h = d := if_neg fun hc => hno.elim hc.2.1 hc.1
    rw [hmove]
    refine ⟨_, ShellCd.cd_refused fun q hq => ?_, hs⟩
    cases hq
    exact hno.imp_right fun htilde => ⟨htilde, hs.home⟩
  · obtain ⟨hmalloc, htilde⟩ := not_or.mp hno
    obtain ⟨e, he, hcd⟩ := ShellCd.cd_resolved (h := h) hs.runs hne hnul hmalloc fun hp => absurd hp htilde
    have hexpand : expand (s.home.getD []) p = p := if_neg htilde
    rw [hexpand] at hcd
    refine ⟨_, hcd, ?_⟩
    cases hset : h.setCwd with
    | false =>
        have hmove : moveTo d (some (.cd (some p))) h = d := if_neg fun hc => by simp [hset] at hc
        rw [hmove]
        exact hs.env he
    | true =>
        have hmove : moveTo d (some (.cd (some p))) h = tidy 47 p := if_pos ⟨htilde, hmalloc, hset⟩
        rw [hmove]
        exact {
          live := (hs.runs.moved he (tidy 47 p)).live
          bare := by rw [he, hs.bare]
          dir := Session.dir_movedTo hs.runs (tidy 47 p)
          ne_nil := tidy_ne_nil hne
          string := notMem_tidy hnul 47 }

/-- What a command leaves. -/
theorem perform_plain (hs : Plain s d) (h : LineHost) {cmd : Option ShellCmd}
    (harg : ∀ p, cmd = some (.cd (some p)) → p ≠ [] ∧ 0 ∉ p) :
    ∃ r, s.perform cmd h = .ok r ∧ Plain r.session (moveTo d cmd h) := by
  rcases cmd with - | ⟨- | p⟩ | string | part
  · exact ⟨_, rfl, hs⟩
  · exact ⟨_, ShellCd.cd_refused nofun, hs⟩
  · obtain ⟨hne, hnul⟩ := harg p rfl
    exact cd_plain hs hne hnul h
  · obtain ⟨e, he, hrun⟩ := perform_export (s := s) (h := h) string
    exact ⟨_, hrun, hs.env he⟩
  · exact ⟨_, rfl, hs⟩

/-- A text exports nothing, or it is a command whose path is a word. -/
theorem command_cases (ht : 0 ∉ t) :
    (ExportsNothing t ∧ Script.commandOf t = .error .nullDeref) ∨
    ¬ ExportsNothing t ∧ ∃ cmd, Script.commandOf t = .ok cmd ∧ ∀ p, cmd = some (.cd (some p)) → p ≠ [] ∧ 0 ∉ p := by
  rcases text_cases t with hnothing | hcmd | ⟨cmd, hcmd, hspells⟩
  · exact Or.inl ⟨hnothing, commandOf_of_exportsNothing hnothing⟩
  all_goals refine Or.inr ⟨fun hnothing => ?_, _, hcmd, ?_⟩
  · rw [commandOf_of_exportsNothing hnothing] at hcmd
    cases hcmd
  · exact nofun
  · rw [commandOf_of_exportsNothing hnothing] at hcmd
    cases hcmd
  · rintro p hp
    cases hp
    exact arg_of_spells ht hspells

theorem readable_of_command {data : List Byte} {cmd : Option ShellCmd} (hne : content data ≠ [])
    (h : Script.commandOf (text data) = .ok cmd) : Readable data := by
  refine ⟨hne, fun hnothing => ?_⟩
  rw [commandOf_of_exportsNothing hnothing] at h
  cases h

/-- **One line**: it is executed when it is readable, and answered. -/
theorem line_eq (hs : Plain s d) (line : LineBuffer) (fdOut : Int) (h : LineHost) :
    (Readable line.data ∧ ∃ r b, s.sayLine fdOut line.block h =
        .ok (r, Session.writes fdOut (replyTo (text line.data)), b) ∧
      b.length = LINESIZE ∧ Plain r.session (follow d (text line.data) h)) ∨
    (¬ Readable line.data ∧ ∃ e, s.sayLine fdOut line.block h = .error e) := by
  obtain ⟨r', hblock⟩ := eq_cstr_append (b := line.block) (List.mem_append_right _ List.mem_cons_self)
  have hstr : cstr line.block = cstr line.data := cstr_append_zero _ _
  have hnul : 0 ∉ cstr line.data := fun h0 => by simpa using List.mem_takeWhile_imp h0
  obtain ⟨b, hlen, hrun⟩ := shellParseLine_refines (s := s) (h := h) hnul r'
  rw [shellParseLine_eq, ← hstr, ← hblock] at hrun
  have hsize : b.length = LINESIZE := by
    rw [hlen, ← hstr, ← hblock, LineBuffer.block, List.length_append, List.length_cons, ← line.size]
    omega
  rw [sayLine_eq, hrun]
  unfold Readable
  by_cases hnil : content line.data = []
  · rw [if_pos hnil]
    exact Or.inr ⟨fun hread => hread.1 hnil, _, rfl⟩
  · rw [if_neg hnil]
    rcases command_cases (notMem_text line.data) with ⟨hnothing, hcmd⟩ | ⟨hsome, cmd, hcmd, harg⟩
    · rw [hcmd]
      exact Or.inr ⟨fun hread => hread.2 hnothing, _, rfl⟩
    · obtain ⟨r, hr, hplain⟩ := perform_plain hs h harg
      have hfollow : follow d (text line.data) h = moveTo d cmd h := by
        unfold follow
        rw [hcmd]
      rw [hfollow]
      refine Or.inl ⟨⟨hnil, hsome⟩, r, b, ?_, hsize, hplain⟩
      simp only [hcmd, hr, bind, Except.bind]
      rfl

/-! ## The loop -/

/-- A read into the buffer, with the NUL behind it. -/
theorem read_line (hline : line.length = LINESIZE) {data : List Byte} (hne : data ≠ [])
    (hsize : data.length < LINESIZE) :
    ∃ l : LineBuffer, l.data = data ∧
      (memcpy line 0 data >>= fun b => store b data.length 0) = .ok l.block := by
  obtain ⟨m, r, rfl, hm, hr⟩ := exists_parts (b := line) (n := data.length) (m := LINESIZE - data.length) (by omega)
  obtain ⟨x, rest, rfl⟩ := List.exists_cons_of_ne_nil (l := r) (List.ne_nil_of_length_pos (by omega))
  have hcopy := memcpy_append (l := []) (r := x :: rest) hm.symm
  refine ⟨⟨data, rest, hne, ?_⟩, rfl, ?_⟩
  · rw [List.length_cons] at hr
    omega
  · simp only [List.nil_append, List.length_nil] at hcopy
    simp only [hcopy, bind, Except.bind, store_append]
    rfl

/-- **Any rounds of the loop.** -/
theorem inputLoop_exact (fdOut : Int) (rounds : List Round) (hs : Plain s d) (hline : line.length = LINESIZE) :
    (AllReadable rounds ∧ ∃ shown, Session.inputLoop fdOut rounds s line = .ok shown ∧
      shown.out = transcript fdOut d rounds ∧ Plain shown.session (leads d rounds)) ∨
    (¬ AllReadable rounds ∧ ∃ e, Session.inputLoop fdOut rounds s line = .error e) := by
  induction rounds generalizing s d line with
  | nil => exact Or.inl ⟨nofun, _, rfl, rfl, hs⟩
  | cons round rounds ih =>
      obtain ⟨line', hprompt, hline'⟩ := prompt_eq hs hline fdOut round.path
      by_cases hnil : round.data = []
      · refine Or.inl ⟨?_, ⟨s, Session.writes fdOut (promptOf d round.path), line'⟩, ?_, ?_, ?_⟩
        · simp [AllReadable, hnil]
        · simp only [Session.inputLoop, hprompt, bind, Except.bind, if_pos hnil]
        · simp only [transcript, if_pos hnil, List.append_nil]
        · simp only [leads, if_pos hnil]
          exact hs
      · obtain ⟨l, hdata, hread⟩ := read_line hline' hnil round.size
        have hall : AllReadable (round :: rounds) ↔ Readable round.data ∧ AllReadable rounds := by
          simp [AllReadable, hnil]
        rw [hall]
        have hloop : Session.inputLoop fdOut (round :: rounds) s line =
            (s.sayLine fdOut l.block round.line >>= fun q =>
              Session.inputLoop fdOut rounds q.1.session q.2.2 >>= fun rest =>
                .ok { rest with out := Session.writes fdOut (promptOf d round.path) ++ q.2.1 ++ rest.out }) := by
          obtain ⟨b, hb, hstore⟩ := Eff.bind_eq_ok.mp hread
          simp only [Session.inputLoop, hprompt, bind, Except.bind, if_neg hnil, hb, hstore]
        rw [hloop]
        rcases line_eq hs l fdOut round.line with ⟨hok, r, b, hsay, hb, hplain⟩ | ⟨hno, e, hsay⟩
        · rw [hdata] at hok hsay hplain
          rcases ih hplain hb with ⟨hrest, shown, hrun, hout, hend⟩ | ⟨hrest, e, hrun⟩
          · refine Or.inl ⟨⟨hok, hrest⟩, ⟨_, by simp only [hsay, hrun, bind, Except.bind]; rfl, ?_, ?_⟩⟩
            · simp only [transcript, if_neg hnil, hout, List.append_assoc]
            · simp only [leads, if_neg hnil]
              exact hend
          · exact Or.inr ⟨fun h => hrest h.2, e, by simp only [hsay, hrun, bind, Except.bind]⟩
        · rw [hdata] at hno
          exact Or.inr ⟨fun h => hno h.1, e, by simp only [hsay, bind, Except.bind]⟩

/-- … and the whole of `shellRun`. -/
theorem shellRun_exact (fdOut : Int) (alloc : Bool) (rounds : List Round) (hs : Plain s d)
    (hline : line.length = LINESIZE) :
    (AllReadable rounds ∧ ∃ shown, s.shellRun fdOut alloc rounds line = .ok shown ∧
      shown.out = transcript fdOut d rounds ∧ Plain shown.session (leads d rounds)) ∨
    (¬ AllReadable rounds ∧ ∃ e, s.shellRun fdOut alloc rounds line = .error e) := by
  obtain ⟨line', hget, hline', hstr⟩ := getcwd_shown hs hline
  unfold Session.shellRun
  simp only [hget, hstr, bind, Except.bind]
  cases (shownDir d).isSome with
  | true => exact inputLoop_exact fdOut rounds (hs.env (LibEnv.setenv_Denviron _ _ _ alloc)) hline'
  | false => exact inputLoop_exact fdOut rounds hs hline'

/-! ## In the sessions of the platform -/

/-- A live process of a session is a shell without an environment. -/
theorem plain_of_run {t u : Environ.Session} {tr : List (Environ.Session × Environ.Act × Environ.Session)}
    (ht : Environ.Booted t) (h : Run Environ.Session.Step t tr u) {self : Int} {m : Member}
    (hm : u.world.live self = some m) {pid : Nat} {p : Process} (hp : m.image.proc pid = some p) (hcwd : p.cwd = some d)
    (hne : d ≠ []) (hnul : 0 ∉ d) : Plain ⟨m.image, pid, u.libs self⟩ d where
  live := by
    rw [hp]
    exact Option.some_ne_none p
  bare := (h.invariant (fun _ _ _ hI hst => Environ.bare_step hI hst) (Environ.Bare.of_booted ht)).lib self m hm
  dir := by
    unfold Session.dir
    rw [hp]
    exact hcwd
  ne_nil := hne
  string := hnul

/-- **What a shell shows, and until when.** In every session of the platform, wherever a live process is a shell that
    runs in a directory, and whatever it reads and the host answers: the shell gets through some rounds of its loop
    exactly when each line it executes has something in front of its first NUL and `#` and is not `export` alone; it
    has then written the transcript of the rounds and is in the directory they lead to. -/
theorem session_transcript {t u : Environ.Session} {tr : List (Environ.Session × Environ.Act × Environ.Session)}
    (ht : Environ.Booted t) (h : Run Environ.Session.Step t tr u) {self : Int} {m : Member}
    (hm : u.world.live self = some m) {pid : Nat} {p : Process} (hp : m.image.proc pid = some p) {d : CStr}
    (hcwd : p.cwd = some d) (hne : d ≠ []) (hnul : 0 ∉ d) (fdOut : Int) (alloc : Bool) (rounds : List Round)
    {line : Block} (hline : line.length = LINESIZE) :
    let run := Session.shellRun ⟨m.image, pid, u.libs self⟩ fdOut alloc rounds line
    ((∃ shown, run = .ok shown) ↔ AllReadable rounds) ∧
      ∀ shown, run = .ok shown →
        shown.out = transcript fdOut d rounds ∧ shown.session.dir = some (leads d rounds) := by
  have hs := plain_of_run ht h hm hp hcwd hne hnul
  dsimp only
  rcases shellRun_exact fdOut alloc rounds hs hline with ⟨hall, shown, hrun, hout, hend⟩ | ⟨hnot, e, hrun⟩
  · rw [hrun]
    refine ⟨iff_of_true ⟨shown, rfl⟩ hall, fun shown' hshown => ?_⟩
    cases hshown
    exact ⟨hout, hend.dir⟩
  · rw [hrun]
    exact ⟨iff_of_false (by rintro ⟨_, hok⟩; cases hok) hnot, by rintro _ ⟨⟩⟩

/-- A round in which no call fails. -/
def roundOf (data : List Byte) (hsize : data.length < LINESIZE) : Round where
  path := { malloc := some fun _ => 0, realloc := .moved }
  data := data
  size := hsize
  line := ShellLine.host

/-- The shell 100 starts in the directory of its program. -/
theorem shell_started : ∃ u m p, Environ.Session.Step Environ.session
    (.sys (.start (bytes "/bin/shell") [] (Pids.startsAs 100))) u ∧ u.world.live 100 = some m ∧
    m.image.proc 1 = some p ∧ p.cwd = some (bytes "/bin") ∧ p.fds = [] :=
  ⟨_, _, _, .sys (.start rfl fun _ => ⟨by decide, rfl⟩), rfl, rfl, rfl, rfl⟩

/-- The shell 100 changes directory, is given a word that is no command, and its terminal is closed. -/
theorem session_transcript_shell :
    ∃ tr u m, Run Environ.Session.Step Environ.session tr u ∧ u.world.live 100 = some m ∧
      let run := Session.shellRun ⟨m.image, 1, u.libs 100⟩ 0 true
        [roundOf (bytes "cd //a\n") (by decide), roundOf (bytes " ls -l\n") (by decide), roundOf [] (by decide)]
        (List.replicate LINESIZE 0)
      (∃ shown, run = .ok shown) ∧ ∀ shown, run = .ok shown →
        shown.out = [bytes "/bin", bytes " $ ", bytes "/a", bytes " $ ", bytes " ls", bytes ": Command not found.\n",
            bytes "/a", bytes " $ "] ∧ shown.session.dir = some (bytes "/a") := by
  obtain ⟨u, m, p, h, hm, hp, hcwd, -⟩ := shell_started
  refine ⟨_, u, m, Run.single h, hm, ?_⟩
  obtain ⟨hiff, hout⟩ := session_transcript Environ.session_booted (Run.single h) hm hp hcwd (by decide) (by decide) 0
    true [roundOf (bytes "cd //a\n") (by decide), roundOf (bytes " ls -l\n") (by decide), roundOf [] (by decide)]
    length_blank
  refine ⟨hiff.mpr fun r hr => ?_, hout⟩
  have hmem : r = roundOf (bytes "cd //a\n") (by decide) ∨ r = roundOf (bytes " ls -l\n") (by decide) := by
    simpa [roundOf, bytes] using hr
  rcases hmem with rfl | rfl
  · exact readable_of_command (by decide) rfl
  · exact readable_of_command (by decide) rfl

end ShellSession
end DistributedPlatform
