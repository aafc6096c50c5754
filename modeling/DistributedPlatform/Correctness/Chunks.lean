import DistributedPlatform.Correctness.Commands

/-!
# `Correctness.Chunks` — the message in a chunk of bytes

What `tcpRead` is to take from a read is the chunk without the line endings at its end, up to its first NUL;
the words of that message decide what happens. The loop stays inside its buffer for every chunk
(`trimBuffer_eq`). But it removes the last byte before it looks at it, so a chunk that does not end in a line
ending loses its last character.

* `tcpCommand_eq_request` — the server does what the words of the message ask for (`ofWords_eq_stop_iff`,
  `ofWords_eq_type_iff`);
* `interpreted_iff` — the message is the right one if and only if the chunk ends in a line ending, or its last
  byte and the line endings before it stand behind a NUL and no line ending stands directly before that.
-/

namespace DistributedPlatform

/-! ## What a message asks for -/

/-- A message by its words. -/
inductive Request
  | empty
  | type (x : Option CStr)
  | stop
  | bad (part : CStr)
  deriving DecidableEq, Repr

/-- The request of a list of words; only the first two count. -/
def Request.ofWords : List CStr → Request
  | [] => .empty
  | part :: words =>
      if part = bytes "type" then .type words.head?
      else if part = bytes "stop" then .stop
      else .bad part

/-- What the server does on a request. -/
def Server.tcpRequest (s : Server) (con : Connection) (q : Request) (h : TtyHost) : Eff TcpRead :=
  match q with
  | .stop => .ok { ret := true, srv := { s with stopFlag := true }, con := con }
  | .type (some x) =>
      if x = bytes "tty" ∧ con.type = .typeNone then s.ttyStart con h
      else .ok { ret := true, srv := s, con := con }
  | _ => .ok { ret := true, srv := s, con := con }

namespace Chunks

open Server Commands Lexical

/-- The words of a message. -/
def words (message : CStr) : List CStr := components 32 message

theorem words_of_none {message : CStr} (h : strtok 32 message = none) : words message = [] :=
  Words.components_of_none (by rwa [← strtok_eq_next])

theorem words_of_some {message part save : CStr} (h : strtok 32 message = some (part, save)) :
    words message = part :: words save :=
  Words.components_of_next (by rwa [← strtok_eq_next])

theorem head?_words (message : CStr) : (words message).head? = (strtok 32 message).map (·.1) := by
  cases h : strtok 32 message with
  | none => rw [words_of_none h]; rfl
  | some p => rw [words_of_some h]; rfl

/-- **The words of the message decide.** -/
theorem tcpCommand_eq_request (s : Server) (con : Connection) (message : CStr) (h : TtyHost) :
    s.tcpCommand con message h = s.tcpRequest con (Request.ofWords (words message)) h := by
  unfold tcpCommand
  cases htok : strtok 32 message with
  | none => rw [words_of_none htok]; rfl
  | some p =>
      obtain ⟨part, save⟩ := p
      rw [words_of_some htok]
      dsimp only [Request.ofWords]
      by_cases htype : part = bytes "type"
      · rw [if_pos htype, if_pos htype, head?_words]
        cases harg : strtok 32 save with
        | none => by_cases hcon : con.type = .typeNone <;> simp [tcpRequest, hcon]
        | some q =>
            by_cases hcon : con.type = .typeNone <;> by_cases htty : q.1 = bytes "tty" <;>
              simp [tcpRequest, hcon, htty]
      · rw [if_neg htype, if_neg htype]
        by_cases hstop : part = bytes "stop"
        · rw [if_pos hstop, if_pos hstop]
          rfl
        · rw [if_neg hstop, if_neg hstop]
          rfl

/-- The server is stopped by a message whose first word is "stop", … -/
theorem ofWords_eq_stop_iff (ws : List CStr) : Request.ofWords ws = .stop ↔ ws.head? = some (bytes "stop") := by
  cases ws with
  | nil => exact iff_of_false nofun nofun
  | cons w ws =>
      simp only [Request.ofWords, List.head?_cons, Option.some.injEq]
      by_cases htype : w = bytes "type"
      · rw [if_pos htype, htype]
        exact iff_of_false nofun (by decide)
      · rw [if_neg htype]
        by_cases hstop : w = bytes "stop"
        · exact iff_of_true (if_pos hstop) hstop
        · rw [if_neg hstop]
          exact iff_of_false nofun hstop

/-- … and a type is asked for by one whose first two words are "type" and the type. -/
theorem ofWords_eq_type_iff (ws : List CStr) (x : CStr) :
    Request.ofWords ws = .type (some x) ↔ ws.take 2 = [bytes "type", x] := by
  cases ws with
  | nil => exact iff_of_false nofun nofun
  | cons w ws =>
      simp only [Request.ofWords, List.take_succ_cons, List.cons.injEq]
      by_cases htype : w = bytes "type"
      · rw [if_pos htype, Request.type.injEq]
        cases ws with
        | nil => exact iff_of_false nofun (fun h => nomatch h.2)
        | cons v ws => simp [htype]
      · rw [if_neg htype]
        refine iff_of_false ?_ (fun h => htype h.1)
        split <;> nofun

/-! ## The loop in its buffer -/

/-- The loop stays inside a buffer that holds the bytes read. -/
theorem trimBuffer_eq {n : Nat} :
    ∀ {b : Block}, 0 < n → n ≤ b.length → trimBuffer n b = .ok (trimLineEnd n b) := by
  induction n with
  | zero => intro b h; omega
  | succ n ih =>
      intro b _ hle
      have hset : store b n 0 = .ok (b.set n 0) := by
        rw [store, inBounds_eq_ok, Buffer.write_of_le (by simpa using hle)]
        simp [List.set_eq_take_append_cons_drop, show n < b.length by omega]
      have hget : n - 1 < (b.set n 0).length := by
        rw [List.length_set]
        omega
      simp only [trimBuffer, trimLineEnd, hset, load, List.getElem?_eq_getElem hget, inBounds, bind, Except.bind,
        Option.any_some]
      by_cases hzero : n = 0
      · rw [if_pos hzero, if_neg (by omega)]
      · rw [if_neg hzero]
        by_cases hend : isLineEnd (b.set n 0)[n - 1] = true
        · rw [if_pos hend, if_pos ⟨by omega, hend⟩, ih (by omega) (by rw [List.length_set]; omega)]
        · rw [if_neg hend, if_neg (fun h => hend h.2)]

/-- What stands behind the bytes read stays. -/
theorem trimLineEnd_append (junk : List Byte) {n : Nat} :
    ∀ {b : List Byte}, n ≤ b.length → trimLineEnd n (b ++ junk) = trimLineEnd n b ++ junk := by
  induction n with
  | zero => intro b _; rfl
  | succ n ih =>
      intro b hle
      have hset : (b ++ junk).set n 0 = b.set n 0 ++ junk := List.set_append_left _ _ (by omega)
      have hget : (b.set n 0 ++ junk)[n - 1]? = (b.set n 0)[n - 1]? :=
        List.getElem?_append_left (by rw [List.length_set]; omega)
      simp only [trimLineEnd, hset, hget]
      split
      · exact ih (by rw [List.length_set]; omega)
      · rfl

theorem length_trimLineEnd {n : Nat} : ∀ b : List Byte, (trimLineEnd n b).length = b.length := by
  induction n with
  | zero => intro b; rfl
  | succ n ih =>
      intro b
      simp only [trimLineEnd]
      split
      · rw [ih, List.length_set]
      · rw [List.length_set]

/-! ## The message left in the buffer -/

/-- What `tcpRead` is to make of a chunk: the loop stays in the buffer and leaves a string there, the message is
    the chunk without the line endings at its end, up to the first NUL, and the server does what the words of
    that ask for. -/
structure Interpreted (chunk junk : Block) : Prop where
  message : ∃ b, trimBuffer chunk.length (chunk ++ junk) = .ok b ∧ b.length = (chunk ++ junk).length ∧
    strlen b = .ok (cstr b).length ∧ cstr b = cstr (text chunk)
  obeyed : ∀ s con t, tcpRead s con { read := some chunk, tty := t } =
    tcpRequest s con (Request.ofWords (words (cstr (text chunk)))) t

/-- The last byte of the chunk may go: it is a line ending; or the string in the chunk ends before it, and the
    line endings that go with it leave the end of that string alone. -/
def Expendable (chunk : Block) : Prop :=
  chunk.getLast?.any isLineEnd = true ∨
    0 ∈ chunk ∧ ((cstr chunk).getLast?.any isLineEnd = false ∨
      ∃ b ∈ (chunk.drop (cstr chunk).length).dropLast, isLineEnd b = false)

/-- What stands between the string in `u` and the last byte `e`. -/
theorem dropLast_drop_cstr {u r : List Byte} (hr : u = cstr u ++ 0 :: r) (v : List Byte) (e : Byte) :
    ((u ++ v ++ [e]).drop (cstr u).length).dropLast = 0 :: r ++ v := by
  have hchunk : u ++ v ++ [e] = cstr u ++ (0 :: r ++ v ++ [e]) := by
    conv_lhs => rw [hr]
    simp
  rw [hchunk, List.drop_left, List.dropLast_concat]

section Ends

variable {tx ends : List Byte} {e : Byte} (htx : tx.getLast?.any isLineEnd = false)

include htx

/-- The string ends in the text, whose last byte is none of those that go. -/
theorem expendable_of_text (htx0 : 0 ∈ tx) :
    cstr tx = cstr (tx ++ ends ++ [e]) ∧
      ∃ b ∈ ((tx ++ ends ++ [e]).drop (cstr (tx ++ ends ++ [e])).length).dropLast, isLineEnd b = false := by
  have hsame : cstr (tx ++ ends ++ [e]) = cstr tx := by
    rw [List.append_assoc, cstr_append_of_mem htx0]
  obtain ⟨r, hr⟩ := eq_cstr_append htx0
  have hlast : tx.getLast? = (0 :: r).getLast? := by
    conv_lhs => rw [hr]
    rw [List.getLast?_append_cons]
  rw [hlast, List.getLast?_eq_some_getLast (List.cons_ne_nil 0 r)] at htx
  rw [hsame, dropLast_drop_cstr hr]
  exact ⟨rfl, _, List.mem_append_left _ (List.getLast_mem (List.cons_ne_nil 0 r)), by simpa using htx⟩

/-- It ends among the line endings: those before the NUL belong to it. -/
theorem expendable_iff_of_ends (hends : ∀ b ∈ ends, isLineEnd b = true) (htx0 : 0 ∉ tx) (hends0 : 0 ∈ ends) :
    cstr tx = cstr (tx ++ ends ++ [e]) ↔ ((cstr (tx ++ ends ++ [e])).getLast?.any isLineEnd = false ∨
      ∃ b ∈ ((tx ++ ends ++ [e]).drop (cstr (tx ++ ends ++ [e])).length).dropLast, isLineEnd b = false) := by
  obtain ⟨r, hr⟩ := eq_cstr_append hends0
  have hcstr : cstr (tx ++ ends) = tx ++ cstr ends := cstr_append_of_notMem htx0 ends
  have hsame : cstr (tx ++ ends ++ [e]) = cstr (tx ++ ends) := cstr_append_of_mem (by simp [hends0]) [e]
  have hparts : tx ++ ends = cstr (tx ++ ends) ++ 0 :: r := by
    rw [hcstr, List.append_assoc, ← hr]
  have hdrop := dropLast_drop_cstr hparts [] e
  rw [List.append_nil, List.append_nil] at hdrop
  rw [hsame, hdrop, hcstr, cstr_of_notMem htx0]
  by_cases hd : cstr ends = []
  · rw [hd, List.append_nil]
    exact iff_of_true rfl (Or.inl htx)
  · refine iff_of_false (fun h => hd (List.self_eq_append_right.mp h)) ?_
    rintro (hlast | ⟨b, hb, hnot⟩)
    · rw [List.getLast?_append_of_ne_nil _ hd, List.getLast?_eq_some_getLast hd] at hlast
      have hend := hends _ (by rw [hr]; exact List.mem_append_left _ (List.getLast_mem hd))
      rw [Option.any_some, hend] at hlast
      cases hlast
    · have hend := hends b (by rw [hr]; exact List.mem_append_right _ hb)
      rw [hend] at hnot
      cases hnot

/-- A string that ends behind the text and before the last byte `e`. -/
theorem cstr_text_iff (hends : ∀ b ∈ ends, isLineEnd b = true) (he : isLineEnd e = false) :
    cstr tx = cstr (tx ++ ends ++ [e]) ↔ 0 ∈ tx ++ ends ++ [e] ∧
      ((cstr (tx ++ ends ++ [e])).getLast?.any isLineEnd = false ∨
        ∃ b ∈ ((tx ++ ends ++ [e]).drop (cstr (tx ++ ends ++ [e])).length).dropLast, isLineEnd b = false) := by
  have he0 : (0 : Byte) ≠ e := by
    rintro rfl
    cases he
  by_cases htx0 : 0 ∈ tx
  · obtain ⟨hsame, hb⟩ : cstr tx = cstr (tx ++ ends ++ [e]) ∧ _ := expendable_of_text htx htx0
    exact iff_of_true hsame ⟨by simp [htx0], Or.inr hb⟩
  · by_cases hends0 : 0 ∈ ends
    · rw [expendable_iff_of_ends htx hends htx0 hends0, and_iff_right (by simp [hends0])]
    · -- there is no NUL: the string is all of the chunk
      have hnone : 0 ∉ tx ++ ends ++ [e] := by
        simp [htx0, hends0, he0]
      rw [cstr_of_notMem htx0, cstr_of_notMem hnone]
      refine iff_of_false (fun h => ?_) (fun h => hnone h.1)
      have hlen := congrArg List.length h
      simp at hlen

end Ends

theorem cstr_text_concat_iff (bs : List Byte) (e : Byte) :
    cstr (text bs) = cstr (text (bs ++ [e])) ↔ Expendable (bs ++ [e]) := by
  unfold Expendable
  rw [List.getLast?_concat, Option.any_some]
  cases he : isLineEnd e with
  | true =>
      have htext : text (bs ++ [e]) = text bs := List.rdropWhile_concat_pos _ _ _ he
      exact iff_of_true (by rw [htext]) (Or.inl rfl)
  | false =>
      have htext : text (bs ++ [e]) = bs ++ [e] := List.rdropWhile_concat_neg _ _ _ (by simp [he])
      obtain ⟨ends, hbs, hends, htx⟩ := text_append_ends bs
      have hiff := cstr_text_iff htx hends he
      rw [← hbs] at hiff
      rw [htext, hiff]
      exact ⟨Or.inr, fun h => h.resolve_left nofun⟩

/-- What the loop leaves, for a chunk with at least one byte. -/
theorem trimBuffer_concat (bs : List Byte) (e : Byte) (junk : Block) :
    ∃ b, trimBuffer (bs ++ [e]).length (bs ++ [e] ++ junk) = .ok b ∧ b.length = (bs ++ [e] ++ junk).length ∧
      strlen b = .ok (cstr b).length ∧ cstr b = cstr (text bs) := by
  obtain ⟨zeros, htrim⟩ := trimLineEnd_concat bs e
  have hbuf : trimBuffer (bs ++ [e]).length (bs ++ [e] ++ junk) = .ok (text bs ++ 0 :: zeros ++ junk) := by
    rw [trimBuffer_eq (by simp) (by simp), trimLineEnd_append _ (le_refl _), htrim]
  refine ⟨_, hbuf, ?_, ?_, ?_⟩
  · rw [List.length_append, ← htrim, length_trimLineEnd, ← List.length_append]
  · rw [strlen, if_pos (by simp)]
  · rw [List.append_assoc, List.cons_append, cstr_append_zero]

/-- **When the message is the chunk without its line endings.** For every chunk that a read delivers into a
    buffer, of 1024 bytes or any other size, and whatever else the buffer holds: every access stays inside the
    buffer, the message is the chunk without the line endings at its end, up to its first NUL, and the server
    does what the words of that ask for; if and only if the last byte of the chunk may go. -/
theorem interpreted_iff {chunk : Block} (hne : chunk ≠ []) (junk : Block) :
    Interpreted chunk junk ↔ Expendable chunk := by
  cases chunk using List.reverseRecOn with
  | nil => exact absurd rfl hne
  | append_singleton bs e =>
      obtain ⟨b, hbuf, hlen, hstrlen, hmsg⟩ := trimBuffer_concat bs e junk
      rw [← cstr_text_concat_iff]
      constructor
      · rintro ⟨⟨b', hbuf', -, -, hmsg'⟩, -⟩
        rw [hbuf] at hbuf'
        cases hbuf'
        exact hmsg.symm.trans hmsg'
      · intro hsame
        refine ⟨⟨b, hbuf, hlen, hstrlen, hmsg.trans hsame⟩, fun s con t => ?_⟩
        rw [tcpRead_message hne, message_concat, tcpCommand_eq_request, hsame]

/-- "stop" with a newline. -/
theorem interpreted_iff_stop :
    Interpreted (bytes "stop\n") (List.replicate 1019 0) ↔ Expendable (bytes "stop\n") :=
  interpreted_iff (by decide) (List.replicate 1019 0)

/-- "stopx" stops the server. -/
theorem stopx_stops :
    ¬ ∀ chunk junk : Block, chunk ≠ [] → (chunk ++ junk).length = 1024 → Interpreted chunk junk := by
  intro hall
  have hint := hall (bytes "stopx") (List.replicate 1019 0) (by decide)
    (by rw [List.length_append, List.length_replicate]; decide)
  have hread := hint.obeyed {} { sock := 0 } (sessionStarts 0)
  have hflag := congrArg (fun r => r.map fun r : TcpRead => r.srv.stopFlag) hread
  exact absurd hflag (by decide)

end Chunks
end DistributedPlatform
