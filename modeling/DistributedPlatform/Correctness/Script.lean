import DistributedPlatform.Programs.Shell

/-!
# `Correctness.Script` — a script and what the shell makes of its reads

What a script means is fixed by its lines: each is cut at its first `#`, its first words are the command,
and the commands run in the order of the lines (`lines`, `lineCommand`, `script`). `shellRun` never looks
for lines. It takes whatever one read delivers as a line, so which commands it runs depends on where the
reads end (`shellRun_eq_ok_iff`).

Reads and lines go together when each read fits where it lies between the line ends (`Fits`): it does not
begin with a comment, no words come behind a newline in it, and its own words are those of a line that
begins with it. The commands of a script are run, each from a read that begins a line, exactly when all its
reads fit (`runs_script_iff`). The profile the platform ships is read in one piece and begins with a comment
(`profile_not_run`).
-/

namespace DistributedPlatform

namespace Script

open Shell

/-! ## What a script means -/

/-- The part of a line, or of a read, that the shell looks at: up to the first NUL and the first `#`. -/
def content (line : List Byte) : CStr := (cstr line).takeWhile (· != 35)

/-- The command of a line. One that exports without an argument exports nothing. -/
def lineCommand (line : List Byte) : Option ShellCmd :=
  match strtok 32 (content line) with
  | none => none
  | some (part, save) =>
      if part = bytes "cd" then some (.cd ((strtok 32 save).map (·.1)))
      else if part = bytes "export" then some (.export (((strtok 32 save).map (·.1)).getD []))
      else some (.notFound part)

/-- The lines of a script, without their newlines. -/
def lines (T : List Byte) : List (List Byte) := T.splitOn 10

/-- The commands of a script, those of its lines in order. -/
def script (T : List Byte) : List ShellCmd := (lines T).filterMap lineCommand

/-- The reads a script arrives in. (None is longer than the buffer of `shellRun` holds; nothing here depends on it.) -/
structure Reads (T : List Byte) where
  chunks : List (List Byte)
  joined : chunks.flatten = T
  nonempty : ∀ c ∈ chunks, c ≠ []

/-! ## What a read spells -/

/-- The text of a read: its content without a newline at the end. -/
def text (chunk : List Byte) : CStr :=
  if (content chunk).getLast? = some 10 then (content chunk).dropLast else content chunk

/-- Nothing but spaces. -/
def Blank (t : CStr) : Prop := ∀ b ∈ t, b = 32

instance (t : CStr) : Decidable (Blank t) := inferInstanceAs (Decidable (∀ b ∈ t, b = 32))

/-- The text starts with the words of the command, set off by spaces; `cd` without an argument is alone. -/
def Spells : ShellCmd → CStr → Prop
  | .cd none, t => ∃ rest, Words.StartsWith 32 (bytes "cd") rest t ∧ Blank rest
  | .cd (some gpath), t => ∃ rest rest',
      Words.StartsWith 32 (bytes "cd") rest t ∧ Words.StartsWith 32 gpath rest' rest
  | .export string, t => ∃ rest rest',
      Words.StartsWith 32 (bytes "export") rest t ∧ Words.StartsWith 32 string rest' rest
  | .notFound part, t => part ≠ bytes "cd" ∧ part ≠ bytes "export" ∧ ∃ rest, Words.StartsWith 32 part rest t

/-- The texts of the reads that are not blank. -/
def texts (chunks : List (List Byte)) : List CStr := (chunks.map text).filter fun t => ¬ Blank t

/-- The reads carry the commands: each shows the shell something, and those with a word on them spell the
    commands, one each. -/
structure Carries (cmds : List ShellCmd) (chunks : List (List Byte)) : Prop where
  begins : ∀ c ∈ chunks, content c ≠ []
  spelled : List.Forall₂ Spells cmds (texts chunks)

/-! ## One read -/

theorem strtok_eq_none_iff {s : CStr} : strtok 32 s = none ↔ Blank s := by
  rw [strtok_eq_next]
  exact Words.next_eq_none_iff

theorem strtok_eq_some_iff {s w rest : CStr} :
    strtok 32 s = some (w, rest) ↔ Words.StartsWith 32 w rest s := by
  rw [strtok_eq_next]
  exact Words.next_eq_some_iff

/-- What `shellParseLine` does with a text. -/
def commandOf (t : CStr) : Eff (Option ShellCmd) :=
  match strtok 32 t with
  | none => .ok none
  | some (part, save) =>
      if part = bytes "cd" then .ok (some (.cd ((strtok 32 save).map (·.1))))
      else if part = bytes "export" then
        match strtok 32 save with
        | none => .error .nullDeref
        | some (string, _) => .ok (some (.export string))
      else .ok (some (.notFound part))

/-- A read with nothing to look at is read before its beginning; any other one is parsed by its text. -/
theorem shellParseLine_eq (chunk : List Byte) :
    shellParseLine (cstr chunk)
      = if content chunk = [] then .error .outOfBounds else commandOf (text chunk) := by
  have hcontent : (cstr chunk).takeWhile (· != 35) = content chunk := rfl
  unfold shellParseLine
  simp only [hcontent]
  cases hlast : (content chunk).getLast? with
  | none => rw [if_pos (List.getLast?_eq_none_iff.mp hlast)]
  | some b =>
      have hne : content chunk ≠ [] := by
        intro hnil
        rw [hnil] at hlast
        cases hlast
      have htext : text chunk = if b = 10 then (content chunk).dropLast else content chunk := by
        unfold text
        rw [hlast]
        simp only [Option.some.injEq]
      rw [if_neg hne, htext]
      by_cases hnil : (if b = 10 then (content chunk).dropLast else content chunk) = []
      · rw [hnil]
        exact if_pos hnil
      · exact if_neg hnil

theorem commandOf_eq_none_iff {t : CStr} : commandOf t = .ok none ↔ Blank t := by
  rw [← strtok_eq_none_iff]
  unfold commandOf
  cases strtok 32 t with
  | none => exact iff_of_true rfl rfl
  | some p =>
      refine iff_of_false ?_ nofun
      show ¬ (if p.1 = bytes "cd" then _ else if p.1 = bytes "export" then _ else _) = _
      split_ifs
      · nofun
      · cases strtok 32 p.2 with
        | none => nofun
        | some q => nofun
      · nofun

theorem commandOf_word {t part save : CStr} (h : strtok 32 t = some (part, save)) :
    commandOf t
      = if part = bytes "cd" then .ok (some (.cd ((strtok 32 save).map (·.1))))
        else if part = bytes "export" then
          match strtok 32 save with
          | none => .error .nullDeref
          | some (string, _) => .ok (some (.export string))
        else .ok (some (.notFound part)) := by
  unfold commandOf
  rw [h]

/-- A text that is parsed as a command spells it. -/
theorem spells_of_commandOf {t : CStr} {cmd : ShellCmd} (h : commandOf t = .ok (some cmd)) : Spells cmd t := by
  cases ht : strtok 32 t with
  | none =>
      unfold commandOf at h
      rw [ht] at h
      cases h
  | some p =>
      obtain ⟨part, save⟩ := p
      have hword := strtok_eq_some_iff.mp ht
      rw [commandOf_word ht] at h
      split_ifs at h with hcd hexport
      · subst hcd
        cases hs : strtok 32 save with
        | none =>
            rw [hs] at h
            cases h
            exact ⟨save, hword, strtok_eq_none_iff.mp hs⟩
        | some q =>
            rw [hs] at h
            cases h
            exact ⟨save, q.2, hword, strtok_eq_some_iff.mp hs⟩
      · subst hexport
        cases hs : strtok 32 save with
        | none =>
            rw [hs] at h
            cases h
        | some q =>
            rw [hs] at h
            cases h
            exact ⟨save, q.2, hword, strtok_eq_some_iff.mp hs⟩
      · cases h
        exact ⟨hcd, hexport, save, hword⟩

theorem commandOf_of_spells {t : CStr} {cmd : ShellCmd} (h : Spells cmd t) : commandOf t = .ok (some cmd) := by
  match cmd, h with
  | .cd none, ⟨save, hword, hblank⟩ =>
      rw [commandOf_word (strtok_eq_some_iff.mpr hword), if_pos rfl, strtok_eq_none_iff.mpr hblank]
      rfl
  | .cd (some gpath), ⟨save, rest, hword, harg⟩ =>
      rw [commandOf_word (strtok_eq_some_iff.mpr hword), if_pos rfl, strtok_eq_some_iff.mpr harg]
      rfl
  | .export string, ⟨save, rest, hword, harg⟩ =>
      have hne : bytes "export" ≠ bytes "cd" := by decide
      rw [commandOf_word (strtok_eq_some_iff.mpr hword), if_neg hne, if_pos rfl,
        strtok_eq_some_iff.mpr harg]
  | .notFound part, ⟨hcd, hexport, rest, hword⟩ =>
      rw [commandOf_word (strtok_eq_some_iff.mpr hword), if_neg hcd, if_neg hexport]

/-- A text is parsed as a command exactly when it spells it. -/
theorem commandOf_eq_some_iff {t : CStr} {cmd : ShellCmd} : commandOf t = .ok (some cmd) ↔ Spells cmd t :=
  ⟨spells_of_commandOf, commandOf_of_spells⟩

/-! ## All reads -/

@[simp] theorem texts_cons_blank {c : List Byte} {chunks : List (List Byte)} (h : Blank (text c)) :
    texts (c :: chunks) = texts chunks := by
  unfold texts
  rw [List.map_cons, List.filter_cons_of_neg (by simpa using h)]

@[simp] theorem texts_cons {c : List Byte} {chunks : List (List Byte)} (h : ¬ Blank (text c)) :
    texts (c :: chunks) = text c :: texts chunks := by
  unfold texts
  rw [List.map_cons, List.filter_cons_of_pos (by simpa using h)]

theorem shellRun_cons {c : List Byte} (hne : c ≠ []) (chunks : List (List Byte)) :
    shellRun (c :: chunks)
      = (shellParseLine (cstr c) >>= fun cmd => shellRun chunks >>= fun cmds => .ok (cmd.toList ++ cmds)) := by
  obtain ⟨b, t, rfl⟩ := List.exists_cons_of_ne_nil hne
  rfl

/-- What one read contributes: nothing to look at is a fault, a blank text nothing, any other text the
    command it spells. -/
theorem shellRun_cons_iff {c : List Byte} {chunks : List (List Byte)} {cmds : List ShellCmd} (hne : c ≠ []) :
    shellRun (c :: chunks) = .ok cmds ↔ content c ≠ [] ∧
      ((Blank (text c) ∧ shellRun chunks = .ok cmds)
        ∨ ∃ cmd cmds', cmds = cmd :: cmds' ∧ Spells cmd (text c) ∧ shellRun chunks = .ok cmds') := by
  rw [shellRun_cons hne, shellParseLine_eq]
  by_cases hc : content c = []
  · rw [if_pos hc]
    exact iff_of_false nofun fun h => h.1 hc
  · rw [if_neg hc, Eff.bind_eq_ok]
    constructor
    · rintro ⟨cmd, hcmd, hrest⟩
      obtain ⟨cmds', hrun, heq⟩ := Eff.bind_eq_ok.mp hrest
      cases heq
      refine ⟨hc, ?_⟩
      cases cmd with
      | none => exact Or.inl ⟨commandOf_eq_none_iff.mp hcmd, hrun⟩
      | some cmd => exact Or.inr ⟨cmd, cmds', rfl, commandOf_eq_some_iff.mp hcmd, hrun⟩
    · rintro ⟨-, ⟨hblank, hrun⟩ | ⟨cmd, cmds', rfl, hspells, hrun⟩⟩
      · exact ⟨none, commandOf_eq_none_iff.mpr hblank, Eff.bind_eq_ok.mpr ⟨cmds, hrun, rfl⟩⟩
      · exact ⟨some cmd, commandOf_of_spells hspells, Eff.bind_eq_ok.mpr ⟨cmds', hrun, rfl⟩⟩

theorem Spells.not_blank {cmd : ShellCmd} {t : CStr} (h : Spells cmd t) : ¬ Blank t := by
  intro hblank
  have hnone := commandOf_eq_none_iff.mpr hblank
  rw [commandOf_of_spells h] at hnone
  cases hnone

/-- The commands run are those the reads carry. -/
theorem shellRun_eq_ok_iff {chunks : List (List Byte)} (hne : ∀ c ∈ chunks, c ≠ []) {cmds : List ShellCmd} :
    shellRun chunks = .ok cmds ↔ Carries cmds chunks := by
  induction chunks generalizing cmds with
  | nil =>
      constructor
      · intro h
        cases h
        exact ⟨nofun, List.Forall₂.nil⟩
      · intro h
        cases h.spelled
        rfl
  | cons c chunks ih =>
      have ih' : ∀ {cmds : List ShellCmd}, shellRun chunks = .ok cmds ↔ Carries cmds chunks :=
        ih fun d hd => hne d (List.mem_cons_of_mem c hd)
      rw [shellRun_cons_iff (hne c List.mem_cons_self)]
      constructor
      · rintro ⟨hc, ⟨hblank, hrun⟩ | ⟨cmd, cmds', rfl, hspells, hrun⟩⟩
        · have hrest := ih'.mp hrun
          refine ⟨List.forall_mem_cons.mpr ⟨hc, hrest.begins⟩, ?_⟩
          rw [texts_cons_blank hblank]
          exact hrest.spelled
        · have hrest := ih'.mp hrun
          refine ⟨List.forall_mem_cons.mpr ⟨hc, hrest.begins⟩, ?_⟩
          rw [texts_cons hspells.not_blank]
          exact List.Forall₂.cons hspells hrest.spelled
      · intro h
        obtain ⟨hc, hbegins⟩ := List.forall_mem_cons.mp h.begins
        have hspelled := h.spelled
        refine ⟨hc, ?_⟩
        -- the read is passed over, or it is the first that spells
        by_cases hblank : Blank (text c)
        · rw [texts_cons_blank hblank] at hspelled
          exact Or.inl ⟨hblank, ih'.mpr ⟨hbegins, hspelled⟩⟩
        · rw [texts_cons hblank] at hspelled
          cases hspelled with
          | cons hspells hrest => exact Or.inr ⟨_, _, rfl, hspells, ih'.mpr ⟨hbegins, hrest⟩⟩

/-! ## Lines -/

/-- The part of a text before its first newline. -/
def first (s : List Byte) : List Byte := s.takeWhile (· != 10)

theorem newline_notMem_first (s : List Byte) : 10 ∉ first s := by
  intro hmem
  simpa using List.mem_takeWhile_imp hmem

theorem first_append_of_notMem {a : List Byte} (h : 10 ∉ a) (s : List Byte) : first (a ++ s) = a ++ first s :=
  List.takeWhile_append_of_pos (Words.bne_of_notMem h)

theorem first_append_newline {a : List Byte} (h : 10 ∉ a) (s : List Byte) : first (a ++ 10 :: s) = a := by
  rw [first_append_of_notMem h]
  exact List.append_nil a

/-- A text is its first line, alone or with a newline and the others behind it. -/
theorem lines_first (s : List Byte) : lines s = first s :: (lines s).tail := by
  by_cases h : 10 ∈ s
  · obtain ⟨a, t, rfl, ha⟩ := List.eq_append_cons_of_mem h
    rw [first_append_newline ha]
    unfold lines
    rw [List.splitOn_append_cons_self_of_not_mem ha, List.tail_cons]
  · have hself : first s = s := List.takeWhile_eq_self_iff.mpr (Words.bne_of_notMem h)
    rw [hself]
    unfold lines
    rw [List.splitOn_eq_singleton h, List.tail_cons]

/-- What stands before the first line belongs to it. -/
theorem lines_append {a : List Byte} (h : 10 ∉ a) (s : List Byte) :
    lines (a ++ s) = (a ++ first s) :: (lines s).tail := by
  rw [lines_first, first_append_of_notMem h]
  congr 1
  by_cases hs : 10 ∈ s
  · obtain ⟨b, t, rfl, hb⟩ := List.eq_append_cons_of_mem hs
    have hab : 10 ∉ a ++ b := by simp [h, hb]
    unfold lines
    rw [← List.append_assoc, List.splitOn_append_cons_self_of_not_mem hab, List.splitOn_append_cons_self_of_not_mem hb]
    rfl
  · have hab : 10 ∉ a ++ s := by simp [h, hs]
    unfold lines
    rw [List.splitOn_eq_singleton hab, List.splitOn_eq_singleton hs]
    rfl

theorem lines_newline (a s : List Byte) : lines (a ++ 10 :: s) = lines a ++ lines s :=
  List.splitOn_append_cons_self a s

theorem newline_notMem_lines (s : List Byte) : ∀ l ∈ lines s, 10 ∉ l := by
  induction hn : s.length using Nat.strongRecOn generalizing s with
  | ind n ih =>
      by_cases h : 10 ∈ s
      · obtain ⟨a, t, rfl, ha⟩ := List.eq_append_cons_of_mem h
        have hshort : t.length < n := by
          rw [← hn, List.length_append, List.length_cons]
          omega
        unfold lines
        rw [List.splitOn_append_cons_self_of_not_mem ha]
        exact List.forall_mem_cons.mpr ⟨ha, ih t.length hshort t rfl⟩
      · unfold lines
        rw [List.splitOn_eq_singleton h]
        exact List.forall_mem_singleton.mpr h

/-- Text cut at its last newline. -/
theorem cut_last {s : List Byte} (h : 10 ∈ s) :
    ∃ a, s = a ++ 10 :: s.rtakeWhile (· != 10) ∧ 10 ∉ s.rtakeWhile (· != 10) := by
  obtain ⟨t, a, hrev, ht⟩ := List.eq_append_cons_of_mem (List.mem_reverse.mpr h)
  have hs : s = a.reverse ++ 10 :: t.reverse := by
    rw [← List.reverse_reverse s, hrev]
    simp
  have hlast : s.rtakeWhile (· != 10) = t.reverse := by
    have htake : (t ++ 10 :: a).takeWhile (· != 10) = t := first_append_newline ht a
    rw [List.rtakeWhile, hrev, htake]
  exact ⟨a.reverse, by rw [hlast]; exact hs, by rw [hlast]; simpa using ht⟩

/-! ## The first word -/

theorem content_eq_takeWhile (line : List Byte) : content line = line.takeWhile fun b => b != 35 && b != 0 := by
  unfold content cstr
  rw [List.takeWhile_takeWhile]
  simp only [Bool.decide_and, Bool.decide_eq_true]

theorem content_spaces (k : Nat) (s : List Byte) :
    content (List.replicate k 32 ++ s) = List.replicate k 32 ++ content s := by
  rw [content_eq_takeWhile, content_eq_takeWhile]
  refine List.takeWhile_append_of_pos fun b hb => ?_
  rw [List.eq_of_mem_replicate hb]
  rfl

theorem content_cons {b : Byte} (s : List Byte) :
    content (b :: s) = if b = 35 ∨ b = 0 then [] else b :: content s := by
  rw [content_eq_takeWhile, content_eq_takeWhile, List.takeWhile_cons]
  by_cases h : b = 35 ∨ b = 0
  · rw [if_pos h, if_neg (by rcases h with rfl | rfl <;> decide)]
  · rw [if_neg h, if_pos (by simpa [not_or] using h)]

theorem blank_replicate (k : Nat) : Blank (List.replicate k 32) := fun _ hb => List.eq_of_mem_replicate hb

theorem Blank.eq_replicate {a : List Byte} (h : Blank a) : a = List.replicate a.length 32 :=
  List.eq_replicate_iff.mpr ⟨rfl, h⟩

theorem lineCommand_eq_none_iff {line : List Byte} : lineCommand line = none ↔ Blank (content line) := by
  rw [← strtok_eq_none_iff]
  unfold lineCommand
  cases strtok 32 (content line) with
  | none => exact iff_of_true rfl rfl
  | some p =>
      refine iff_of_false ?_ nofun
      dsimp only
      split_ifs <;> nofun

theorem lineCommand_blank {line : List Byte} (h : Blank line) : lineCommand line = none := by
  have hcontent : content line = line := by
    have hspaces := content_spaces line.length []
    rwa [List.append_nil, ← h.eq_replicate, show content [] = [] from rfl, List.append_nil] at hspaces
  rw [lineCommand_eq_none_iff, hcontent]
  exact h

/-- A line has a command if what comes behind its spaces is no comment. -/
theorem lineCommand_first {b : Byte} (hb : b ≠ 32) (k : Nat) (s : List Byte) :
    lineCommand (List.replicate k 32 ++ b :: s) = none ↔ b = 35 ∨ b = 0 := by
  rw [lineCommand_eq_none_iff, content_spaces, content_cons]
  split
  · next h =>
      refine iff_of_true ?_ h
      rw [List.append_nil]
      exact blank_replicate k
  · next h => exact iff_of_false (fun hblank => hb (hblank b (by simp))) h

/-- Something that is no space, behind spaces. -/
theorem exists_first {s : List Byte} (h : ¬ Blank s) : ∃ k b t, s = List.replicate k 32 ++ b :: t ∧ b ≠ 32 := by
  obtain ⟨k, t, rfl, ht⟩ := Words.eq_replicate_append (32 : Byte) s
  cases t with
  | nil => exact absurd (by simpa using blank_replicate k) h
  | cons b t => exact ⟨k, b, t, rfl, fun hb => ht (congrArg some hb)⟩

/-- A line that has begun has its command, or none. -/
theorem lineCommand_begun {a : List Byte} (h : ¬ Blank a) (s : List Byte) :
    lineCommand (a ++ s) = none ↔ lineCommand a = none := by
  obtain ⟨k, b, t, rfl, hb⟩ := exists_first h
  rw [List.append_assoc, List.cons_append, lineCommand_first hb, lineCommand_first hb]

/-! ## Read ends and line ends -/

/-- What has been read of the line that a read ends in. -/
def unfinished (before c : List Byte) : List Byte := if 10 ∈ c then c.rtakeWhile (· != 10) else before ++ c

/-- How a read has to lie between the line ends; `before` has been read of the line it begins in, and `after` follows:
    it does not begin with `#` or a NUL; the lines that begin in it have no word in it; and if there is a word on it,
    nothing but spaces has been read of the line, and the read holds the words of the whole line's command, set off by
    spaces or its end. -/
structure Fits (before c after : List Byte) : Prop where
  begins : content c ≠ []
  alone : ∀ l ∈ (lines c).tail, lineCommand l = none
  whole : ¬ Blank (text c) → Blank before ∧
    ∃ cmd, lineCommand (before ++ first (c ++ after)) = some cmd ∧ Spells cmd (text c)

/-- Every read fits, the first with `before` read of its line. -/
def Aligned : (before : List Byte) → (chunks : List (List Byte)) → Prop
  | _, [] => True
  | before, c :: chunks => Fits before c chunks.flatten ∧ Aligned (unfinished before c) chunks

/-- Every read with a word on it begins a line, but for spaces. -/
def Placed : (before : List Byte) → (chunks : List (List Byte)) → Prop
  | _, [] => True
  | before, c :: chunks => (¬ Blank (text c) → Blank before) ∧ Placed (unfinished before c) chunks

/-- The commands that are due when `before` has been read of a line: those of the lines whose words are still to
    come. -/
def due (before after : List Byte) : List ShellCmd :=
  (if Blank before then (lineCommand (before ++ first after)).toList else []) ++
    (lines after).tail.filterMap lineCommand

theorem script_eq_due (T : List Byte) : script T = due [] T := by
  unfold script due
  rw [lines_first T, if_pos nofun, List.nil_append, List.tail_cons]
  cases hcmd : lineCommand (first T) with
  | none => exact List.filterMap_cons_none hcmd
  | some cmd => exact List.filterMap_cons_some hcmd

/-- The command of the line that a read begins in, when its words begin in the read. -/
def own (before c after : List Byte) : List ShellCmd :=
  if Blank before ∧ (10 ∈ c ∨ ¬ Blank c) then (lineCommand (before ++ first (c ++ after))).toList else []

/-- **What becomes due in a read**: the command of the line it begins in, and those of the lines that begin in it. -/
theorem due_cons (before c after : List Byte) :
    ∃ others, due before (c ++ after) = own before c after ++ (others ++ due (unfinished before c) after) ∧
      (others = [] ↔ ∀ l ∈ (lines c).tail, lineCommand l = none) := by
  unfold due own unfinished
  by_cases hc : 10 ∈ c
  · obtain ⟨x, hcut, hlast⟩ := cut_last hc
    generalize c.rtakeWhile (· != 10) = l at hcut hlast
    subst hcut
    have htail : (lines ((x ++ 10 :: l) ++ after)).tail =
        (lines x).tail ++ (l ++ first after) :: (lines after).tail := by
      rw [List.append_assoc, List.cons_append, lines_newline, lines_append hlast, lines_first x]
      rfl
    have hmine : (lines (x ++ 10 :: l)).tail = (lines x).tail ++ [l] := by
      rw [lines_newline, lines_first x, ← List.append_nil l, lines_append hlast]
      rfl
    refine ⟨(lines x).tail.filterMap lineCommand ++
      if Blank l then [] else (lineCommand (l ++ first after)).toList, ?_, ?_⟩
    · rw [htail, List.filterMap_append]
      simp only [hc, true_or, and_true, if_true, List.append_assoc]
      congr 2
      cases hcmd : lineCommand (l ++ first after) with
      | none => rw [List.filterMap_cons_none hcmd]; split <;> rfl
      | some cmd => rw [List.filterMap_cons_some hcmd]; split <;> rfl
    · rw [hmine, List.forall_mem_append, List.append_eq_nil_iff, List.filterMap_eq_nil_iff, List.forall_mem_singleton]
      refine and_congr_right fun _ => ?_
      split
      · next hl => exact iff_of_true rfl (lineCommand_blank hl)
      · next hl => rw [Option.toList_eq_nil_iff, lineCommand_begun hl]
  · refine ⟨[], ?_, ?_⟩
    · have hself : (lines (c ++ after)).tail = (lines after).tail := by rw [lines_append hc]; rfl
      rw [hself, first_append_of_notMem hc, if_neg hc, List.nil_append, ← List.append_assoc, ← List.append_assoc]
      congr 1
      by_cases hb : Blank before
      · by_cases hblank : Blank c
        · have hboth : Blank (before ++ c) := List.forall_mem_append.mpr ⟨hb, hblank⟩
          simp [hb, hc, hblank, hboth]
        · have hboth : ¬ Blank (before ++ c) := fun h => hblank (List.forall_mem_append.mp h).2
          simp [hb, hc, hblank, hboth]
      · have hboth : ¬ Blank (before ++ c) := fun h => hb (List.forall_mem_append.mp h).1
        simp [hb, hboth]
    · have hsingle : (lines c).tail = [] := by
        unfold lines
        rw [List.splitOn_eq_singleton hc, List.tail_cons]
      rw [hsingle]
      exact iff_of_true rfl nofun

/-! ## What a read takes -/

theorem content_initial (line : List Byte) : content line <+: line := by
  rw [content_eq_takeWhile]
  exact List.takeWhile_prefix _

/-- But for a newline at its end, the text of a read is what it shows. -/
theorem mem_text {b : Byte} (hb : b ≠ 10) {c : List Byte} : b ∈ text c ↔ b ∈ content c := by
  unfold text
  split
  · next hlast =>
      obtain ⟨t, ht⟩ := List.getLast?_eq_some_iff.mp hlast
      rw [ht, List.dropLast_concat, List.mem_append, List.mem_singleton]
      exact ⟨Or.inl, fun h => h.resolve_right hb⟩
  · rfl

theorem text_initial (c : List Byte) : text c <+: c := by
  unfold text
  split
  · exact (List.dropLast_prefix _).trans (content_initial c)
  · exact content_initial c

/-- A read without a word on it shows spaces only, up to its end, a newline or a comment. -/
theorem own_blank {before c after : List Byte} (hbegins : content c ≠ []) (htext : Blank (text c)) :
    own before c after = [] := by
  unfold own
  split
  · next h =>
      obtain ⟨hbefore, hc⟩ := h
      rw [Option.toList_eq_nil_iff]
      have hnotBlank : ¬ Blank c := by
        rcases hc with hmem | hno
        · exact fun hblank => absurd (hblank 10 hmem) (by decide)
        · exact hno
      obtain ⟨k, b, t, rfl, hb⟩ := exists_first hnotBlank
      have hline : ∀ s, before ++ (List.replicate k 32 ++ s) = List.replicate (before.length + k) 32 ++ s := by
        intro s
        rw [List.replicate_add, ← hbefore.eq_replicate, List.append_assoc]
      have hspaces : (10 : Byte) ∉ List.replicate k 32 := fun hmem => absurd (List.eq_of_mem_replicate hmem) (by decide)
      rw [List.append_assoc, first_append_of_notMem hspaces, hline]
      by_cases hnl : b = 10
      · -- the line ends before a word
        subst hnl
        rw [show first (10 :: t ++ after) = [] from rfl, List.append_nil]
        exact lineCommand_blank (blank_replicate _)
      · have hfirst : first (b :: t ++ after) = b :: first (t ++ after) :=
          List.takeWhile_cons_of_pos (by simpa using hnl)
        rw [hfirst, lineCommand_first hb]
        by_contra hno
        have hshown : b ∈ content (List.replicate k 32 ++ b :: t) := by
          rw [content_spaces, content_cons, if_neg hno]
          simp
        exact hb (htext b ((mem_text hnl).mpr hshown))
  · rfl

/-- The word a command begins with. -/
def word : ShellCmd → CStr
  | .cd _ => bytes "cd"
  | .export _ => bytes "export"
  | .notFound part => part

theorem Spells.word {cmd : ShellCmd} {t : CStr} (h : Spells cmd t) :
    ∃ rest, Words.StartsWith 32 (word cmd) rest t := by
  match cmd, h with
  | .cd none, ⟨rest, hword, _⟩ => exact ⟨rest, hword⟩
  | .cd (some _), ⟨rest, _, hword, _⟩ => exact ⟨rest, hword⟩
  | .export _, ⟨rest, _, hword, _⟩ => exact ⟨rest, hword⟩
  | .notFound _, ⟨_, _, rest, hword⟩ => exact ⟨rest, hword⟩

/-- The words of a line have no newline. -/
theorem newline_notMem_word {line : List Byte} (h : 10 ∉ line) {cmd : ShellCmd} (hcmd : lineCommand line = some cmd) :
    10 ∉ word cmd := by
  unfold lineCommand at hcmd
  cases hs : strtok 32 (content line) with
  | none => rw [hs] at hcmd; cases hcmd
  | some p =>
      rw [hs] at hcmd
      dsimp only at hcmd
      split_ifs at hcmd
      · cases hcmd
        exact (by decide : (10 : Byte) ∉ bytes "cd")
      · cases hcmd
        exact (by decide : (10 : Byte) ∉ bytes "export")
      · cases hcmd
        obtain ⟨-, k, hline⟩ := strtok_eq_some_iff.mp hs
        intro hmem
        refine h ((content_initial line).subset ?_)
        rcases hline with ⟨heq, -⟩ | heq
        · rw [heq]
          exact List.mem_append_right _ hmem
        · rw [heq]
          exact List.mem_append_right _ (List.mem_append_left _ hmem)

theorem newline_notMem_due {before after : List Byte} {cmd : ShellCmd} (h : cmd ∈ due before after) :
    10 ∉ word cmd := by
  unfold due at h
  rcases List.mem_append.mp h with h | h
  · split at h
    · next hblank =>
        have hline : 10 ∉ before ++ first after := by
          rw [List.mem_append, not_or]
          exact ⟨fun hmem => absurd (hblank 10 hmem) (by decide), newline_notMem_first after⟩
        exact newline_notMem_word hline (Option.mem_toList.mp h)
    · cases h
  · obtain ⟨l, hl, hcmd⟩ := List.mem_filterMap.mp h
    exact newline_notMem_word (newline_notMem_lines after l (List.mem_of_mem_tail hl)) hcmd

/-- The command that a read with a word on it takes is that of the line it begins in, when nothing but spaces has been
    read of the line. -/
theorem own_word {before c : List Byte} (hbefore : Blank before) {cmd : ShellCmd} (hspells : Spells cmd (text c))
    (hword : 10 ∉ word cmd) (after : List Byte) :
    ∃ mine, own before c after = [mine] ∧ lineCommand (before ++ first (c ++ after)) = some mine := by
  obtain ⟨rest, hisWord, k, hstarts⟩ := hspells.word
  obtain ⟨b, w, hw⟩ := List.exists_cons_of_ne_nil hisWord.ne_nil
  rw [hw] at hstarts hword
  have hb : b ≠ 32 := fun heq => hisWord.notMem (hw ▸ heq ▸ List.mem_cons_self)
  have hnl : b ≠ 10 := fun heq => hword (heq ▸ List.mem_cons_self)
  obtain ⟨u, hu⟩ : ∃ u, text c = List.replicate k 32 ++ b :: u := by
    rcases hstarts with ⟨heq, -⟩ | heq
    · exact ⟨w, heq⟩
    · exact ⟨w ++ 32 :: rest, by rw [heq, List.cons_append]⟩
  obtain ⟨v, hv⟩ := text_initial c
  rw [hu, List.append_assoc, List.cons_append] at hv
  have hshown : ¬ (b = 35 ∨ b = 0) := by
    have hmem : b ∈ content c := (mem_text hnl).mp (by rw [hu]; simp)
    rw [content_eq_takeWhile] at hmem
    simpa [not_or] using List.mem_takeWhile_imp hmem
  have hblank : ¬ Blank c := fun h => hb (h b (by rw [← hv]; simp))
  have hspaces : (10 : Byte) ∉ List.replicate k 32 := fun hmem => absurd (List.eq_of_mem_replicate hmem) (by decide)
  have hline : before ++ first (c ++ after) =
      List.replicate (before.length + k) 32 ++ b :: first (u ++ v ++ after) := by
    rw [← hv, List.append_assoc, first_append_of_notMem hspaces, List.cons_append,
      show first (b :: (u ++ v ++ after)) = b :: first (u ++ v ++ after) from
        List.takeWhile_cons_of_pos (by simpa using hnl),
      List.replicate_add, ← hbefore.eq_replicate, List.append_assoc before, List.append_assoc u]
  have hsome : lineCommand (before ++ first (c ++ after)) ≠ none := by
    rw [hline]
    exact fun hnone => hshown ((lineCommand_first hb _ _).mp hnone)
  obtain ⟨mine, hmine⟩ := Option.ne_none_iff_exists'.mp hsome
  refine ⟨mine, ?_, hmine⟩
  unfold own
  rw [if_pos ⟨hbefore, Or.inr hblank⟩, hmine]
  rfl

/-! ## When a script is executed -/

/-- Reads that fit carry what is due. -/
theorem carries_of_aligned (chunks : List (List Byte)) :
    ∀ before, Aligned before chunks → Carries (due before chunks.flatten) chunks := by
  induction chunks with
  | nil =>
      intro before _
      have hnil : due before [] = [] := by
        unfold due
        split
        · next hblank => simp [show first [] = [] from rfl, lineCommand_blank hblank, lines]
        · rfl
      rw [List.flatten_nil, hnil]
      exact ⟨nofun, .nil⟩
  | cons c chunks ih =>
      rintro before ⟨hfits, haligned⟩
      obtain ⟨hbegins, hspelled⟩ := ih _ haligned
      obtain ⟨others, hdue, hothers⟩ := due_cons before c chunks.flatten
      rw [List.flatten_cons, hdue, hothers.mpr hfits.alone, List.nil_append]
      refine ⟨List.forall_mem_cons.mpr ⟨hfits.begins, hbegins⟩, ?_⟩
      by_cases hblank : Blank (text c)
      · rw [own_blank hfits.begins hblank, texts_cons_blank hblank]
        exact hspelled
      · obtain ⟨hbefore, cmd, hcmd, hspells⟩ := hfits.whole hblank
        have hmine : own before c chunks.flatten = [cmd] := by
          unfold own
          have hc : ¬ Blank c := fun h => hblank fun b hb => h b ((text_initial c).subset hb)
          rw [if_pos ⟨hbefore, Or.inr hc⟩, hcmd]
          rfl
        rw [hmine, texts_cons hblank]
        exact .cons hspells hspelled

theorem placed_of_aligned (chunks : List (List Byte)) : ∀ before, Aligned before chunks → Placed before chunks := by
  induction chunks with
  | nil => exact fun _ _ => trivial
  | cons c chunks ih => exact fun _ h => ⟨fun hno => (h.1.whole hno).1, ih _ h.2⟩

/-- The texts that spell what is due begin with words of lines. -/
theorem words_of_spelled {cmds : List ShellCmd} {ts : List CStr} (h : List.Forall₂ Spells cmds ts)
    (hwords : ∀ cmd ∈ cmds, 10 ∉ word cmd) : ∀ t ∈ ts, ∃ cmd, Spells cmd t ∧ 10 ∉ word cmd := by
  induction h with
  | nil => exact nofun
  | cons hspells _ ih =>
      obtain ⟨hcmd, hcmds⟩ := List.forall_mem_cons.mp hwords
      exact List.forall_mem_cons.mpr ⟨⟨_, hspells, hcmd⟩, ih hcmds⟩

/-- Reads that begin lines take no more commands than are due in them. -/
theorem texts_le_due (chunks : List (List Byte)) :
    ∀ before, Placed before chunks → (∀ t ∈ texts chunks, ∃ cmd, Spells cmd t ∧ 10 ∉ word cmd) →
      (texts chunks).length ≤ (due before chunks.flatten).length := by
  induction chunks with
  | nil => exact fun _ _ _ => Nat.zero_le _
  | cons c chunks ih =>
      rintro before ⟨hplaced, hrest⟩ hwords
      obtain ⟨others, hdue, -⟩ := due_cons before c chunks.flatten
      rw [List.flatten_cons, hdue, List.length_append, List.length_append]
      by_cases hblank : Blank (text c)
      · rw [texts_cons_blank hblank] at hwords ⊢
        have := ih _ hrest hwords
        omega
      · rw [texts_cons hblank] at hwords ⊢
        obtain ⟨⟨cmd, hspells, hword⟩, hwords⟩ := List.forall_mem_cons.mp hwords
        obtain ⟨mine, hmine, -⟩ := own_word (hplaced hblank) hspells hword chunks.flatten
        have := ih _ hrest hwords
        rw [hmine, List.length_cons, List.length_singleton]
        omega

/-- Reads that begin lines and carry what is due fit: they take no more commands than are due in them, so they take as
    many, and each that of its line. -/
theorem aligned_of_carries (chunks : List (List Byte)) :
    ∀ before, Placed before chunks → Carries (due before chunks.flatten) chunks → Aligned before chunks := by
  induction chunks with
  | nil => exact fun _ _ _ => trivial
  | cons c chunks ih =>
      rintro before ⟨hplaced, hrest⟩ ⟨hbegins, hspelled⟩
      obtain ⟨hc, hbegins⟩ := List.forall_mem_cons.mp hbegins
      have hwords := words_of_spelled hspelled fun _ => newline_notMem_due
      have hlength := hspelled.length_eq
      obtain ⟨others, hdue, hothers⟩ := due_cons before c chunks.flatten
      rw [List.flatten_cons, hdue] at hspelled hlength
      simp only [List.length_append] at hlength
      by_cases hblank : Blank (text c)
      · rw [texts_cons_blank hblank] at hwords hspelled hlength
        rw [own_blank hc hblank] at hspelled hlength
        have hle := texts_le_due chunks _ hrest hwords
        have hnone : others = [] := List.length_eq_zero_iff.mp (by rw [List.length_nil] at hlength; omega)
        rw [hnone] at hspelled
        exact ⟨⟨hc, hothers.mp hnone, fun hno => absurd hblank hno⟩, ih _ hrest ⟨hbegins, hspelled⟩⟩
      · rw [texts_cons hblank] at hwords hspelled hlength
        obtain ⟨⟨cmd, hspells, hword⟩, hwords⟩ := List.forall_mem_cons.mp hwords
        obtain ⟨mine, hmine, hline⟩ := own_word (hplaced hblank) hspells hword chunks.flatten
        rw [hmine] at hspelled hlength
        have hle := texts_le_due chunks _ hrest hwords
        have hnone : others = [] := by
          rw [List.length_singleton, List.length_cons] at hlength
          exact List.length_eq_zero_iff.mp (by omega)
        rw [hnone] at hspelled
        cases hspelled with
        | cons hspells' hspelled' =>
            exact ⟨⟨hc, hothers.mp hnone, fun _ => ⟨hplaced hblank, mine, hline, hspells'⟩⟩,
              ih _ hrest ⟨hbegins, hspelled'⟩⟩

/-- **When a script is executed.** The reads a script arrives in fit its lines exactly when `shellRun` runs the commands
    of the lines, in order, and takes each from a read that begins a line. -/
theorem runs_script_iff (T : List Byte) (r : Reads T) :
    Aligned [] r.chunks ↔ shellRun r.chunks = .ok (script T) ∧ Placed [] r.chunks := by
  have hdue : script T = due [] r.chunks.flatten := by rw [r.joined, script_eq_due]
  rw [hdue, shellRun_eq_ok_iff r.nonempty]
  exact ⟨fun h => ⟨carries_of_aligned _ _ h, placed_of_aligned _ _ h⟩, fun h => aligned_of_carries _ _ h.2 h.1⟩

/-- An export, a change of directory and a word: the reads end behind lines, behind an empty one and a comment, before
    the words of a line and before its newline. -/
theorem runs_six_reads :
    ∃ r : Reads (bytes "export A=b\n\n# x\ncd /a \n\n  ls -l\n"),
      r.chunks = [bytes "export A=b\n", bytes "\n# x\n", bytes "cd /a \n\n", bytes "  ", bytes "ls -l", bytes "\n"] ∧
      shellRun r.chunks = .ok [.export (bytes "A=b"), .cd (some (bytes "/a")), .notFound (bytes "ls")] := by
  let r : Reads (bytes "export A=b\n\n# x\ncd /a \n\n  ls -l\n") :=
    ⟨[bytes "export A=b\n", bytes "\n# x\n", bytes "cd /a \n\n", bytes "  ", bytes "ls -l", bytes "\n"],
      by decide, by decide⟩
  have haligned : Aligned [] r.chunks :=
    ⟨⟨by decide, by decide +kernel, fun _ => ⟨nofun, .export (bytes "A=b"), by decide +kernel,
        commandOf_eq_some_iff.mp (by decide +kernel)⟩⟩,
      ⟨by decide, by decide +kernel, fun hno => absurd (by decide +kernel) hno⟩,
      ⟨by decide, by decide +kernel, fun _ => ⟨nofun, .cd (some (bytes "/a")), by decide +kernel,
        commandOf_eq_some_iff.mp (by decide +kernel)⟩⟩,
      ⟨by decide, by decide +kernel, fun hno => absurd (by decide +kernel) hno⟩,
      ⟨by decide, by decide +kernel, fun _ => ⟨by decide +kernel, .notFound (bytes "ls"), by decide +kernel,
        commandOf_eq_some_iff.mp (by decide +kernel)⟩⟩,
      ⟨by decide, by decide +kernel, fun hno => absurd (by decide +kernel) hno⟩, trivial⟩
  have hscript : script (bytes "export A=b\n\n# x\ncd /a \n\n  ls -l\n") =
      [.export (bytes "A=b"), .cd (some (bytes "/a")), .notFound (bytes "ls")] := by decide +kernel
  refine ⟨r, rfl, ?_⟩
  rw [← hscript]
  exact ((runs_script_iff _ r).mp haligned).1

-- A read that ends within a line can make up for one that ends behind the next: the words are right by coincidence.
example : shellRun [bytes "x \ny ", bytes "y"] = .ok (script (bytes "x \ny y")) ∧
    ¬ Placed [] [bytes "x \ny ", bytes "y"] :=
  ⟨by decide +kernel, fun h => absurd (h.2.1 (by decide +kernel)) (by decide +kernel)⟩

/-- A script that begins with a comment is never executed, however it is read. -/
theorem not_run_of_comment {T : List Byte} (h : T.head? = some 35) (r : Reads T) :
    shellRun r.chunks ≠ .ok (script T) := by
  intro hrun
  have hcarries := (shellRun_eq_ok_iff r.nonempty).mp hrun
  obtain ⟨chunks, hjoined, hne⟩ := r
  cases chunks with
  | nil =>
      rw [← hjoined] at h
      cases h
  | cons c chunks =>
      obtain ⟨b, t, rfl⟩ := List.exists_cons_of_ne_nil (hne c List.mem_cons_self)
      rw [← hjoined] at h
      cases h
      exact hcarries.begins _ List.mem_cons_self rfl

/-! ## The profile -/

/-- `misc/profile`. -/
def profile : List Byte :=
  bytes "# ~/.profile is passed to /bin/shell when a new tty is created.\n" ++
  bytes "\n" ++
  bytes "# Setup environment variables.\n" ++
  bytes "export HOME=/home\n" ++
  bytes "export PATH=/bin\n" ++
  bytes "export SHELL=/bin/shell\n" ++
  bytes "\n" ++
  bytes "# Move to our home directory.\n" ++
  bytes "cd ~\n"

/-- The profile exports three variables and changes directory; read in one piece, which the buffer holds, it does
    not. -/
theorem profile_not_run :
    script profile = [.export (bytes "HOME=/home"), .export (bytes "PATH=/bin"),
      .export (bytes "SHELL=/bin/shell"), .cd (some (bytes "~"))] ∧
    ∃ r : Reads profile, r.chunks = [profile] ∧ profile.length ≤ 65535 ∧
      shellRun r.chunks ≠ .ok (script profile) := by
  refine ⟨by decide +kernel, ⟨[profile], List.append_nil _, by decide⟩, rfl, by decide +kernel, ?_⟩
  exact not_run_of_comment rfl _

end Script

end DistributedPlatform
