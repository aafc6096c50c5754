import DistributedPlatform.Correctness.Script
import DistributedPlatform.Correctness.ShellCd

/-!
# `Correctness.ShellLine` — parsing a line stays in its buffer

The buffer is cut up in place. Every function gets a position in it behind which there is a string and the NUL
that ends it, and finds its token there or finds none; so what it does on the buffer is what it does on the
string (`shellExport_refines`, `shellCd_refines`, `shellParseLine_refines`), and nothing but the string decides
whether an access falls outside.

* `strtokR_none`, `strtokR_some` — one token, with what is left to scan;
* `line_safe_iff` — which lines are executed without an access outside and without a null pointer.
-/

namespace DistributedPlatform
namespace ShellLine

open Shell Script

variable {s : Session} {h : LineHost} {t w rest : CStr}

/-! ## Tokens in the buffer -/

theorem strtokR_none (hnone : strtok 32 t = none) (l r : Block) :
    strtokR (l ++ t ++ 0 :: r) l.length 32 = .ok ⟨none, l.length + t.length, l ++ t ++ 0 :: r⟩ := by
  have hblank : t = List.replicate t.length 32 := List.eq_replicate_of_mem (strtok_eq_none_iff.mp hnone)
  have hsep : (32 : Byte) ≠ 0 := by decide
  have htok := strtokR_blank hsep t.length l r
  rwa [← hblank] at htok

/-- A token is a string in the buffer, and `save` is where the rest of the text is one. -/
theorem strtokR_some (hsome : strtok 32 t = some (w, rest)) (ht : 0 ∉ t) (l r : Block) :
    ∃ m q l', strtokR (l ++ t ++ 0 :: r) l.length 32 = .ok ⟨some m.length, l'.length, l' ++ rest ++ 0 :: r⟩ ∧
      l' ++ rest ++ 0 :: r = m ++ w ++ 0 :: q ∧ l'.length + rest.length = l.length + t.length ∧
      0 ∉ w ∧ 0 ∉ rest := by
  have hsep : (32 : Byte) ≠ 0 := by decide
  obtain ⟨hword, k, ⟨rfl, rfl⟩ | rfl⟩ := strtok_eq_some_iff.mp hsome
  · have hw : 0 ∉ w := fun h0 => ht (List.mem_append_right _ h0)
    have htok := strtokR_word hsep hword hw k (Or.inr rfl) l r
    refine ⟨l ++ List.replicate k 32, r, l ++ List.replicate k 32 ++ w, ?_, ?_, ?_, hw, List.not_mem_nil⟩
    · simpa [Nat.add_assoc] using htok
    · simp
    · simp
  · have hw : 0 ∉ w := fun h0 => ht (List.mem_append_right _ (List.mem_append_left _ h0))
    have hrest : 0 ∉ rest :=
      fun h0 => ht (List.mem_append_right _ (List.mem_append_right _ (List.mem_cons_of_mem _ h0)))
    have htok := strtokR_word hsep hword hw k (Or.inl rfl) l (rest ++ 0 :: r)
    refine ⟨l ++ List.replicate k 32, rest ++ 0 :: r, l ++ List.replicate k 32 ++ w ++ [0], ?_, ?_, ?_, hw, hrest⟩
    · simpa [Nat.add_assoc] using htok
    · simp
    · simp
      omega

/-! ## The commands -/

/-- `x` on a buffer of `n` bytes does what `y` does without it, and leaves a buffer of that size. -/
def Refines {α : Type} (n : Nat) (x : Eff (α × Block)) (y : Eff α) : Prop :=
  ∃ b : Block, b.length = n ∧ x = y.map fun a => (a, b)

theorem Refines.ok {α : Type} {n : Nat} {a : α} {b : Block} (hb : b.length = n) :
    Refines n (.ok (a, b)) (.ok a) := ⟨b, hb, rfl⟩

theorem Refines.error {α : Type} (n : Nat) (e : Fault) : Refines (α := α) n (.error e) (.error e) :=
  ⟨List.replicate n 0, List.length_replicate, rfl⟩

theorem exportArgs_eq_none (hmem : 61 ∉ w) : exportArgs w = none := if_neg hmem

theorem exportArgs_append {name : CStr} (hname : 61 ∉ name) (value : CStr) :
    exportArgs (name ++ 61 :: value) = some (name, value) := by
  have hall : ∀ b ∈ name, (b != 61) = true := Words.bne_of_notMem hname
  unfold exportArgs
  rw [if_pos (by simp), List.takeWhile_append_of_pos hall, List.dropWhile_append_of_pos hall,
    List.takeWhile_cons_of_neg (by decide), List.dropWhile_cons_of_neg (by decide), List.append_nil]
  rfl

theorem shellExport_refines (ht : 0 ∉ t) (l r : Block) :
    Refines (l ++ t ++ 0 :: r).length (s.shellExport (l ++ t ++ 0 :: r) l.length h)
      (match strtok 32 t with
        | none => .error .nullDeref
        | some (string, _) => s.perform (some (.export string)) h) := by
  cases htok : strtok 32 t with
  | none =>
      simp only [Session.shellExport, strtokR_none htok, bind, Except.bind]
      exact Refines.error _ _
  | some p =>
      obtain ⟨string, rest⟩ := p
      obtain ⟨m, q, l', htokR, hblock, hlen, hw, -⟩ := strtokR_some htok ht l r
      have hsize : (m ++ string ++ 0 :: q).length = (l ++ t ++ 0 :: r).length := by
        rw [← hblock]
        simp
        omega
      simp only [Session.shellExport, htokR, hblock, bind, Except.bind, Session.perform]
      by_cases hmem : 61 ∈ string
      · obtain ⟨name, value, rfl, hname⟩ := List.eq_append_cons_of_mem hmem
        have hnul : 0 ∉ name := fun h0 => hw (List.mem_append_left _ h0)
        have hnul' : 0 ∉ value := fun h0 => hw (List.mem_append_right _ (List.mem_cons_of_mem _ h0))
        have hline : m ++ (name ++ 61 :: value) ++ 0 :: q = m ++ name ++ 61 :: (value ++ 0 :: q) := by simp
        have hchr := strchr_of_mem hnul hname m (value ++ 0 :: q)
        have hcut := store_append (m ++ name) (value ++ 0 :: q) 61 0
        have hfirst := strAt_append hnul m (value ++ 0 :: q)
        have hsecond := strAt_append hnul' (m ++ name ++ [0]) q
        have hcut' : m ++ name ++ [0] ++ value ++ 0 :: q = m ++ name ++ 0 :: (value ++ 0 :: q) := by simp
        rw [List.length_append] at hcut
        rw [hcut', List.length_append, List.length_append, List.length_singleton] at hsecond
        simp only [hline, hchr, hcut, hfirst, hsecond, exportArgs_append hname]
        refine Refines.ok ?_
        rw [← hsize, hline]
        simp
      · have hchr := strchr_of_notMem hw hmem (by decide) m q
        simp only [hchr, exportArgs_eq_none hmem]
        exact Refines.ok hsize

theorem shellCd_refines (ht : 0 ∉ t) (l r : Block) :
    Refines (l ++ t ++ 0 :: r).length (s.shellCd (l ++ t ++ 0 :: r) l.length h)
      (s.perform (some (.cd ((strtok 32 t).map (·.1)))) h) := by
  cases htok : strtok 32 t with
  | none =>
      refine ⟨l ++ t ++ 0 :: r, rfl, ?_⟩
      simp only [Session.shellCd, strtokR_none htok, bind, Except.bind, Session.perform, Option.map_none]
      cases s.cd none h <;> rfl
  | some p =>
      obtain ⟨gpath, rest⟩ := p
      obtain ⟨m, q, l', htokR, hblock, hlen, hw, -⟩ := strtokR_some htok ht l r
      have hpath := strAt_append hw m q
      refine ⟨m ++ gpath ++ 0 :: q, ?_, ?_⟩
      · rw [← hblock]
        simp
        omega
      · simp only [Session.shellCd, htokR, hblock, hpath, bind, Except.bind, Session.perform, Option.map_some]
        cases s.cd (some gpath) h <;> rfl

/-! ## The line -/

/-- A text behind the test for an empty line. -/
theorem runCommand_refines (ht : 0 ∉ t) (r : Block) :
    Refines (t ++ 0 :: r).length (s.runCommand (t ++ 0 :: r) h)
      (Script.commandOf t >>= fun cmd => s.perform cmd h) := by
  cases htok : strtok 32 t with
  | none =>
      have htokR := strtokR_none htok [] r
      rw [List.nil_append, List.length_nil, Nat.zero_add] at htokR
      simp only [Session.runCommand, htokR, bind, Except.bind, Script.commandOf, htok, Session.perform]
      exact Refines.ok rfl
  | some p =>
      obtain ⟨part, save⟩ := p
      obtain ⟨m, q, l', htokR, hblock, hlen, hw, hsave⟩ := strtokR_some htok ht [] r
      rw [List.nil_append, List.length_nil] at htokR
      have hpart : strAt (l' ++ save ++ 0 :: r) m.length = .ok part := by
        rw [hblock]
        exact strAt_append hw m q
      have hsize : (l' ++ save ++ 0 :: r).length = (t ++ 0 :: r).length := by
        simp at hlen ⊢
        omega
      simp only [Session.runCommand, htokR, hpart, bind, Except.bind, commandOf_word htok]
      by_cases hcd : part = bytes "cd"
      · simp only [if_pos hcd]
        rw [← hsize]
        exact shellCd_refines hsave l' r
      · by_cases hexport : part = bytes "export"
        · simp only [if_neg hcd, if_pos hexport]
          have hrefines := shellExport_refines (s := s) (h := h) hsave l' r
          rw [hsize] at hrefines
          cases htok' : strtok 32 save with
          | none =>
              rw [htok'] at hrefines
              exact hrefines
          | some q =>
              rw [htok'] at hrefines
              exact hrefines
        · have hlen' : strlen (l' ++ save ++ 0 :: r) = .ok (cstr (l' ++ save ++ 0 :: r)).length := if_pos (by simp)
          simp only [if_neg hcd, if_neg hexport, hlen']
          exact Refines.ok hsize

/-- The comment is cut off. -/
theorem stripComment_eq {p : CStr} (hp : 0 ∉ p) (r : Block) :
    ∃ r', stripComment (p ++ 0 :: r) = .ok (p.takeWhile (· != 35) ++ 0 :: r') ∧
      (p.takeWhile (· != 35) ++ 0 :: r').length = (p ++ 0 :: r).length := by
  by_cases hmem : 35 ∈ p
  · obtain ⟨a, b, rfl, ha⟩ := List.eq_append_cons_of_mem hmem
    have hnul : 0 ∉ a := fun h0 => hp (List.mem_append_left _ h0)
    have hline : a ++ 35 :: b ++ 0 :: r = [] ++ a ++ 35 :: (b ++ 0 :: r) := by simp
    have hchr := strchr_of_mem hnul ha [] (b ++ 0 :: r)
    have hcut := store_append ([] ++ a) (b ++ 0 :: r) 35 0
    have hline' : (a ++ 35 :: b).takeWhile (· != 35) = a := by
      rw [List.takeWhile_append_of_pos (Words.bne_of_notMem ha), List.takeWhile_cons_of_neg (by decide),
        List.append_nil]
    rw [List.length_append, List.length_nil] at hcut
    rw [List.length_nil] at hchr
    rw [hline']
    refine ⟨b ++ 0 :: r, ?_, by simp⟩
    simp only [stripComment, hline, hchr, hcut, bind, Except.bind]
    rfl
  · have hchr := strchr_of_notMem hp hmem (by decide) [] r
    have hall : p.takeWhile (· != 35) = p := List.takeWhile_eq_self_iff.mpr (Words.bne_of_notMem hmem)
    rw [List.nil_append, List.length_nil] at hchr
    rw [hall]
    refine ⟨r, ?_, rfl⟩
    simp only [stripComment, hchr, bind, Except.bind]

/-- A text of the shell's, without the newline at its end. -/
def trimmed (line : CStr) : CStr := if line.getLast? = some 10 then line.dropLast else line

theorem trimNewline_nil (r : Block) : trimNewline (0 :: r) = .error .outOfBounds := rfl

theorem trimNewline_eq {p : CStr} (hp : 0 ∉ p) (hne : p ≠ []) (r : Block) :
    ∃ r', trimNewline (p ++ 0 :: r) = .ok (trimmed p ++ 0 :: r') ∧
      (trimmed p ++ 0 :: r').length = (p ++ 0 :: r).length ∧ 0 ∉ trimmed p := by
  obtain ⟨q, b, rfl⟩ : ∃ q b, p = q ++ [b] := ⟨_, _, (List.dropLast_append_getLast hne).symm⟩
  have hload : load (q ++ [b] ++ 0 :: r) q.length = .ok b := by
    rw [List.append_assoc, List.singleton_append, load_append]
  have hlen : strlen (q ++ [b] ++ 0 :: r) = .ok (q.length + 1) := by
    rw [strlen_append hp, List.length_append, List.length_singleton]
  simp only [trimNewline, hlen, hload, bind, Except.bind, Nat.add_sub_cancel, if_neg (Nat.succ_ne_zero _),
    trimmed, List.getLast?_concat, List.dropLast_concat, Option.some.injEq]
  by_cases hnl : b = 10
  · have hq : 0 ∉ q := fun h0 => hp (List.mem_append_left _ h0)
    have hline : q ++ [b] ++ 0 :: r = q ++ b :: 0 :: r := by simp
    rw [if_pos hnl, if_pos hnl, hline, store_append]
    exact ⟨0 :: r, rfl, by simp, hq⟩
  · rw [if_neg hnl, if_neg hnl]
    exact ⟨r, rfl, rfl, hp⟩

/-- **The line in its buffer**: what is executed is what the string means to `shellParseLine`, and the buffer
    keeps its size. -/
theorem shellParseLine_refines {p : CStr} (hp : 0 ∉ p) (r : Block) :
    Refines (p ++ 0 :: r).length (s.shellParseLine (p ++ 0 :: r) h)
      (Shell.shellParseLine p >>= fun cmd => s.perform cmd h) := by
  obtain ⟨r', hcomment, hsize⟩ := stripComment_eq hp r
  have hnul : 0 ∉ p.takeWhile (· != 35) := fun h0 => hp ((List.takeWhile_sublist _).subset h0)
  have hparse := shellParseLine_eq p
  rw [cstr_of_notMem hp] at hparse
  rw [← hsize, hparse]
  simp only [Session.shellParseLine, hcomment, bind, Except.bind]
  have hcontent : p.takeWhile (· != 35) = content p := by
    unfold content
    rw [cstr_of_notMem hp]
  rw [hcontent] at hnul ⊢
  by_cases hnil : content p = []
  · rw [hnil, if_pos rfl, List.nil_append]
    simp only [trimNewline_nil]
    exact Refines.error _ _
  · obtain ⟨r'', htrim, hsize', htext⟩ := trimNewline_eq hnul hnil r'
    simp only [htrim, strlen_append htext, if_neg hnil]
    rw [← hsize']
    change Refines _ _ (Script.commandOf (trimmed (content p)) >>= fun cmd => s.perform cmd h)
    by_cases hempty : (trimmed (content p)).length = 0
    · rw [if_pos hempty, List.eq_nil_of_length_eq_zero hempty]
      exact Refines.ok rfl
    · rw [if_neg hempty]
      exact runCommand_refines htext r''

/-! ## Which lines are safe -/

/-- Executing the line returns: no access falls outside, and no string function gets a null pointer. `counted` is
    whether the `memcpy` of 0 bytes from a null pointer is to count as well. -/
def Safe (counted : Bool) (s : Session) (line : LineBuffer) (h : LineHost) : Prop :=
  ∃ r b, s.shellParseLine line.block h = .ok (r, b) ∧ (counted = true → r.nullCopy = false)

/-- The first word is `export`, and only blanks follow. -/
def ExportsNothing (t : CStr) : Prop := ∃ rest, Words.StartsWith 32 (bytes "export") rest t ∧ Blank rest

theorem commandOf_of_exportsNothing (ht : ExportsNothing t) : Script.commandOf t = .error .nullDeref := by
  obtain ⟨rest, hword, hblank⟩ := ht
  have hne : bytes "export" ≠ bytes "cd" := by decide
  rw [commandOf_word (strtok_eq_some_iff.mpr hword), if_neg hne, if_pos rfl, strtok_eq_none_iff.mpr hblank]

/-- A text exports nothing, is blank, or spells a command. -/
theorem text_cases (t : CStr) :
    ExportsNothing t ∨ Script.commandOf t = .ok none ∨ ∃ cmd, Script.commandOf t = .ok (some cmd) ∧ Spells cmd t := by
  cases hcmd : Script.commandOf t with
  | error e =>
      refine Or.inl ?_
      unfold Script.commandOf at hcmd
      split at hcmd
      · cases hcmd
      · next part save htok =>
          split_ifs at hcmd with _ hexport
          subst hexport
          split at hcmd
          · next hnone => exact ⟨save, strtok_eq_some_iff.mp htok, strtok_eq_none_iff.mp hnone⟩
          · cases hcmd
  | ok c =>
      cases c with
      | none => exact Or.inr (Or.inl rfl)
      | some cmd => exact Or.inr (Or.inr ⟨cmd, rfl, spells_of_commandOf hcmd⟩)

/-- The argument of a command is a word of the text. -/
theorem arg_of_spells {gpath : CStr} (ht : 0 ∉ t) (hcd : Spells (.cd (some gpath)) t) : gpath ≠ [] ∧ 0 ∉ gpath := by
  obtain ⟨rest, rest', hword, hword'⟩ := hcd
  obtain ⟨-, -, -, -, -, -, -, hrest⟩ := strtokR_some (strtok_eq_some_iff.mpr hword) ht [] []
  obtain ⟨-, -, -, -, -, -, hgpath, -⟩ := strtokR_some (strtok_eq_some_iff.mpr hword') hrest [] []
  exact ⟨hword'.1.ne_nil, hgpath⟩

/-- An export changes the library's variables only. -/
theorem perform_export (string : CStr) : ∃ e : LibEnv, e.Denviron = s.env.Denviron ∧
    s.perform (some (.export string)) h = .ok { session := { s with env := e } } := by
  cases hargs : exportArgs string with
  | none =>
      simp only [Session.perform, hargs]
      exact ⟨_, rfl, rfl⟩
  | some a =>
      simp only [Session.perform, hargs]
      exact ⟨_, LibEnv.setenv_Denviron _ _ _ _, rfl⟩

/-- A command returns. -/
theorem perform_returns (hs : s.Runs) (ht : 0 ∉ t) {cmd : ShellCmd} (hspells : Spells cmd t) :
    ∃ r, s.perform (some cmd) h = .ok r ∧
      (r.nullCopy = false ↔ ∀ p, Spells (.cd (some p)) t → p.head? = some 126 ∨ h.malloc = none) := by
  have hcmd := commandOf_of_spells hspells
  -- no other command is spelled
  have honly : ∀ p, Spells (.cd (some p)) t → cmd = .cd (some p) := fun p hp => by
    rw [commandOf_of_spells hp] at hcmd
    cases hcmd
    rfl
  have hother : (∀ gpath, cmd ≠ .cd gpath) →
      ∀ p, Spells (.cd (some p)) t → p.head? = some 126 ∨ h.malloc = none :=
    fun hne p hp => absurd (honly p hp) (hne _)
  cases cmd with
  | cd gpath =>
      have harg : ∀ p, gpath = some p → p ≠ [] ∧ 0 ∉ p := fun p hp => arg_of_spells ht (hp ▸ hspells)
      obtain ⟨r, hr, hnull⟩ := ShellCd.cd_returns (h := h) hs harg
      refine ⟨r, hr, hnull.trans ⟨fun hall p hp => ?_, fun hall p hp => hall p (hp ▸ hspells)⟩⟩
      exact hall p (ShellCmd.cd.inj (honly p hp))
  | «export» string =>
      obtain ⟨e, -, hr⟩ := perform_export (s := s) (h := h) string
      refine ⟨_, hr, ?_⟩
      exact iff_of_true rfl (hother nofun)
  | notFound part =>
      refine ⟨_, rfl, ?_⟩
      exact iff_of_true rfl (hother nofun)

/-- What is executed is the command of the text, unless there is nothing in front of a comment or a NUL. -/
theorem safe_eq {counted : Bool} (line : LineBuffer) : Safe counted s line h ↔ content line.data ≠ [] ∧
    ∃ r, (Script.commandOf (text line.data) >>= fun cmd => s.perform cmd h) = .ok r ∧
      (counted = true → r.nullCopy = false) := by
  have hmem : 0 ∈ line.block := List.mem_append_right _ List.mem_cons_self
  obtain ⟨r', hblock⟩ := eq_cstr_append hmem
  have hstr : cstr line.block = cstr line.data := cstr_append_zero _ _
  have hnul : 0 ∉ cstr line.data := fun h0 => by simpa using List.mem_takeWhile_imp h0
  obtain ⟨b, -, hrun⟩ := shellParseLine_refines (s := s) (h := h) hnul r'
  rw [shellParseLine_eq, ← hstr, ← hblock] at hrun
  unfold Safe
  rw [hrun]
  by_cases hnil : content line.data = []
  · rw [if_pos hnil]
    exact iff_of_false (fun ⟨_, _, hr, _⟩ => nomatch hr) (fun hc => hc.1 hnil)
  · rw [if_neg hnil, and_iff_right hnil]
    cases Script.commandOf (text line.data) >>= fun cmd => s.perform cmd h with
    | error e => exact iff_of_false (fun ⟨_, _, hr, _⟩ => nomatch hr) (fun ⟨_, hr, _⟩ => nomatch hr)
    | ok r =>
        constructor
        · rintro ⟨r₁, b₁, hr, hnull⟩
          cases hr
          exact ⟨r, rfl, hnull⟩
        · rintro ⟨r₁, hr, hnull⟩
          cases hr
          exact ⟨r, b, rfl, hnull⟩

theorem notMem_text (chunk : List Byte) : 0 ∉ text chunk := by
  have hcontent : 0 ∉ content chunk := by
    rw [content_eq_takeWhile]
    intro h0
    have hpos := List.mem_takeWhile_imp h0
    simp at hpos
  unfold text
  split
  · exact fun h0 => hcontent ((List.dropLast_sublist _).subset h0)
  · exact hcontent

/-- **Which lines are executed safely**: something stands in front of the first NUL and the first `#`, and it is not
    `export` without an argument; if the copy from a null pointer is to count, it is not `cd` with a path that does
    not begin with a `~` either, unless there is no memory for the path. -/
theorem line_safe_iff (hs : s.Runs) (line : LineBuffer) (h : LineHost) (counted : Bool) :
    Safe counted s line h ↔ content line.data ≠ [] ∧ ¬ ExportsNothing (text line.data) ∧
      (counted = true → ∀ p, Spells (.cd (some p)) (text line.data) → p.head? = some 126 ∨ h.malloc = none) := by
  rw [safe_eq, and_congr_right_iff]
  intro _
  rcases text_cases (text line.data) with hnothing | hblank | ⟨cmd, hcmd, hspells⟩
  · rw [commandOf_of_exportsNothing hnothing]
    exact iff_of_false (fun ⟨_, hr, _⟩ => nomatch hr) (fun hc => hc.1 hnothing)
  · rw [hblank]
    refine iff_of_true ⟨_, rfl, fun _ => rfl⟩ ⟨fun hnothing => ?_, fun _ p hp => ?_⟩
    · rw [commandOf_of_exportsNothing hnothing] at hblank
      cases hblank
    · exact absurd (commandOf_eq_none_iff.mp hblank) hp.not_blank
  · obtain ⟨r, hr, hnull⟩ := perform_returns (h := h) hs (notMem_text _) hspells
    have hsome : ¬ ExportsNothing (text line.data) := by
      intro hnothing
      rw [commandOf_of_exportsNothing hnothing] at hcmd
      cases hcmd
    rw [hcmd, and_iff_right hsome, ← hnull]
    constructor
    · rintro ⟨r', hr', hcounted⟩
      cases hr.symm.trans hr'
      exact hcounted
    · exact fun hcounted => ⟨r, hr, hcounted⟩

/-- A read in a buffer of zeros. -/
def lineOf (data : List Byte) (hne : data ≠ []) (hlen : data.length < LINESIZE) : LineBuffer where
  data := data
  rest := List.replicate (LINESIZE - 1 - data.length) 0
  nonempty := hne
  size := by
    rw [List.length_replicate]
    omega

/-- The first process of a fresh server as a shell, and calls that all succeed. -/
def shell : Session := ⟨FdTable.booted, 1, {}⟩

def host : LineHost := ⟨some fun _ => 0, true, true, List.replicate LINESIZE 0, length_blank⟩

theorem shell_runs : shell.Runs := ⟨by decide, nofun⟩

/-- A variable is exported. -/
theorem line_safe_iff_export :
    Safe true shell (lineOf (bytes "export PATH=/bin\n") (by decide) (by decide)) host := by
  have hcmd : Script.commandOf (text (bytes "export PATH=/bin\n")) = .ok (some (.export (bytes "PATH=/bin"))) := by
    decide
  refine (line_safe_iff shell_runs _ host true).mpr ⟨by decide, fun hnothing => ?_, fun _ p hp => ?_⟩
  · cases hcmd.symm.trans (commandOf_of_exportsNothing hnothing)
  · cases hcmd.symm.trans (commandOf_of_spells hp)

/-- A line that is a comment is read in front of its buffer. -/
theorem comment_not_safe :
    ¬ ∀ (s : Session) (line : LineBuffer) (h : LineHost), s.Runs → Safe false s line h := by
  intro hall
  have hcomment := hall shell (lineOf (bytes "# a comment\n") (by decide) (by decide)) host shell_runs
  exact (safe_eq _).mp hcomment |>.1 rfl

end ShellLine
end DistributedPlatform
