import DistributedPlatform.Server.Tcp
import Mathlib.Data.List.DropRight

/-!
# `Correctness.Commands` — commands against the reads they arrive in

`tcpRead` takes each read as one command; it keeps nothing of a read for the next one. So the commands a
client sends are carried out as if each had come in a read of its own when no read holds the text of two and
none is cut (`serve_unbroken`), whatever becomes of the line endings beyond the first after each text; a read
that holds two is a different command (`serve_joined`).

`serve` is the run of the main loop as one connection sees it: read after read, until the stop flag is set.
-/

namespace DistributedPlatform
namespace Commands

open Server

/-- Where the reads of a connection leave the server and the connection, and the tty sessions started. -/
structure Outcome where
  srv : Server
  con : Connection
  shells : List Server := []

/-- The message makes the server try to start a tty session. -/
def attempts (con : Connection) (message : CStr) : Nat :=
  if commandOf message = .typeTty ∧ con.type = .typeNone then 1 else 0

/-- The reads of one connection, one `tcpRead` after another; `tty n` are the host's answers to the attempt
    number `n` to start a session. The main loop ends when the stop flag is set. -/
def serve (tty : Nat → TtyHost) : (n : Nat) → Server → Connection → List (List Byte) → Eff Outcome
  | _, s, con, [] => .ok { srv := s, con := con }
  | n, s, con, buffer :: reads =>
      if s.stopFlag then .ok { srv := s, con := con }
      else do
        let h : ReadHost := { read := some buffer, tty := tty n }
        let r ← s.tcpRead con h
        let o ← serve tty (n + attempts con h.message) r.srv r.con reads
        .ok { o with shells := r.shell.toList ++ o.shells }

/-- The same for messages. -/
def obey (tty : Nat → TtyHost) : (n : Nat) → Server → Connection → List CStr → Eff Outcome
  | _, s, con, [] => .ok { srv := s, con := con }
  | n, s, con, message :: messages =>
      if s.stopFlag then .ok { srv := s, con := con }
      else do
        let r ← s.tcpCommand con message (tty n)
        let o ← obey tty (n + attempts con message) r.srv r.con messages
        .ok { o with shells := r.shell.toList ++ o.shells }

/-- A read or a command without the line endings at its end. -/
def text (bs : List Byte) : List Byte := bs.rdropWhile isLineEnd

/-- What a client sends: each command with a newline. -/
def sent (commands : List CStr) : List (List Byte) := commands.map (· ++ [10])

/-- The reads are a way to cut up the stream of the commands. -/
structure Segmented (commands : List CStr) (reads : List (List Byte)) : Prop where
  lines : ∀ c ∈ commands, 10 ∉ c
  stream : reads.flatten = (sent commands).flatten
  sizes : ∀ r ∈ reads, r ≠ [] ∧ r.length ≤ 1024

/-- … in which the text of each command arrives in a read of its own, with at least one line ending: every
    read ends in a line ending, and the texts that are not empty are those of the commands. -/
structure Unbroken (commands : List CStr) (reads : List (List Byte)) : Prop
    extends Segmented commands reads where
  ended : ∀ r ∈ reads, r.getLast?.any isLineEnd = true
  texts : (reads.map text).filter (· ≠ []) = (commands.map text).filter (· ≠ [])

/-! ## The message in a read -/

/-- Text and line endings. -/
theorem text_append_ends (bs : List Byte) :
    ∃ ends, bs = text bs ++ ends ∧ (∀ b ∈ ends, isLineEnd b = true) ∧
      (text bs).getLast?.any isLineEnd = false := by
  refine ⟨bs.rtakeWhile isLineEnd, ?_, ?_, ?_⟩
  · have h := congrArg List.reverse (List.takeWhile_append_dropWhile (p := isLineEnd) (l := bs.reverse))
    rw [List.reverse_append, List.reverse_reverse] at h
    exact h.symm
  · intro b hb
    exact List.mem_rtakeWhile_imp hb
  · cases hl : (text bs).getLast? with
    | none => rfl
    | some b =>
        have hne : text bs ≠ [] := by
          intro hnil
          rw [hnil] at hl
          cases hl
        have hlast := List.rdropWhile_last_not isLineEnd bs hne
        rw [List.getLast?_eq_some_getLast hne] at hl
        cases hl
        exact Bool.eq_false_iff.mpr hlast

/-- The loop that removes line endings: from behind, every one of them goes, and it stops at the text. -/
theorem trimLineEnd_ends {t : List Byte} (ht : t.getLast?.any isLineEnd = false) (ends : List Byte) :
    (∀ b ∈ ends, isLineEnd b = true) → ∀ e zeros,
      trimLineEnd (t.length + ends.length + 1) (t ++ ends ++ e :: zeros) =
        t ++ 0 :: (List.replicate ends.length 0 ++ zeros) := by
  induction ends using List.reverseRecOn with
  | nil =>
      intro _ e zeros
      have hset : (t ++ e :: zeros).set t.length 0 = t ++ 0 :: zeros := by
        simp
      simp only [List.length_nil, Nat.add_zero, List.append_nil, List.replicate_zero, List.nil_append,
        trimLineEnd, hset]
      -- what stands before is the end of the text, where the loop stops
      rw [if_neg]
      rintro ⟨hpos, hend⟩
      have hlast : (t ++ 0 :: zeros)[t.length - 1]? = t.getLast? := by
        rw [List.getElem?_append_left (by omega), List.getLast?_eq_getElem?]
      rw [hlast, ht] at hend
      cases hend
  | append_singleton ends e' ih =>
      intro hall e zeros
      have hset : (t ++ (ends ++ [e']) ++ e :: zeros).set (t.length + (ends ++ [e']).length) 0 =
          t ++ ends ++ e' :: 0 :: zeros := by
        rw [List.set_append_right _ _ (by simp)]
        simp
      have hprev : (t ++ ends ++ e' :: 0 :: zeros)[t.length + (ends ++ [e']).length - 1]? = some e' := by
        rw [List.getElem?_append_right (by simp)]
        simp
      have hpos : 1 ≤ t.length + (ends ++ [e']).length := by
        rw [List.length_append, List.length_singleton]; omega
      -- one turn of the loop: the line ending before is the one to go next
      rw [trimLineEnd, hset, hprev, if_pos ⟨hpos, hall e' (by simp)⟩]
      have hlen : t.length + (ends ++ [e']).length = t.length + ends.length + 1 := by
        simp [Nat.add_assoc]
      rw [hlen, ih (fun b hb => hall b (List.mem_append_left _ hb))]
      simp [List.replicate_succ']

/-- The last byte of a read goes whatever it is, and the line endings before it with it. -/
theorem trimLineEnd_concat (bs : List Byte) (e : Byte) :
    ∃ zeros, trimLineEnd (bs ++ [e]).length (bs ++ [e]) = text bs ++ 0 :: zeros := by
  obtain ⟨ends, hbs, hends, htext⟩ := text_append_ends bs
  refine ⟨List.replicate ends.length 0 ++ [], ?_⟩
  rw [← trimLineEnd_ends htext ends hends e [], ← hbs]
  congr 1
  have hlen := congrArg List.length hbs
  rw [List.length_append] at hlen
  rw [List.length_append, List.length_singleton]
  omega

theorem message_concat (bs : List Byte) (e : Byte) (t : TtyHost) :
    ReadHost.message { read := some (bs ++ [e]), tty := t } = cstr (text bs) := by
  obtain ⟨zeros, htrim⟩ := trimLineEnd_concat bs e
  unfold ReadHost.message
  dsimp only
  rw [htrim, cstr_append_zero]

/-- **The message in a read** that ends in a line ending is its text, up to the first NUL. -/
theorem message_of_ended {buffer : List Byte} (hend : buffer.getLast?.any isLineEnd = true) (t : TtyHost) :
    ReadHost.message { read := some buffer, tty := t } = cstr (text buffer) := by
  cases buffer using List.reverseRecOn with
  | nil => cases hend
  | append_singleton bs e =>
      have he : isLineEnd e = true := by simpa using hend
      have htext : text (bs ++ [e]) = text bs := List.rdropWhile_concat_pos _ _ _ he
      rw [message_concat, htext]

theorem tcpRead_message {s : Server} {con : Connection} {buffer : List Byte} (hne : buffer ≠ [])
    (t : TtyHost) :
    s.tcpRead con { read := some buffer, tty := t } =
      s.tcpCommand con (ReadHost.message { read := some buffer, tty := t }) t := by
  cases buffer with
  | nil => exact absurd rfl hne
  | cons b bs => rfl

/-! ## Reads as messages -/

/-- A message without text is ignored. -/
theorem tcpCommand_nil (s : Server) (con : Connection) (h : TtyHost) :
    s.tcpCommand con [] h = .ok { ret := true, srv := s, con := con } := rfl

theorem obey_of_stopped (tty : Nat → TtyHost) (n : Nat) {s : Server} (hs : s.stopFlag = true)
    (con : Connection) (messages : List CStr) :
    obey tty n s con messages = .ok { srv := s, con := con } := by
  cases messages with
  | nil => rfl
  | cons m ms => simp [obey, hs]

/-- **Only the texts count.** When every read ends in a line ending, serving the reads is obeying their texts,
    those that are empty left out. -/
theorem serve_eq_obey (tty : Nat → TtyHost) (reads : List (List Byte)) :
    (∀ r ∈ reads, r.getLast?.any isLineEnd = true) → ∀ n s con,
      serve tty n s con reads = obey tty n s con (((reads.map text).filter (· ≠ [])).map cstr) := by
  induction reads with
  | nil => intro _ n s con; rfl
  | cons buffer reads ih =>
      intro hend n s con
      have hbuf := hend buffer (List.mem_cons_self ..)
      have hrest := ih fun r hr => hend r (List.mem_cons_of_mem _ hr)
      have hne : buffer ≠ [] := by
        rintro rfl
        cases hbuf
      unfold serve
      by_cases hs : s.stopFlag = true
      · rw [if_pos hs, obey_of_stopped tty n hs]
      · rw [if_neg hs]
        simp only [tcpRead_message hne, message_of_ended hbuf]
        by_cases htext : text buffer = []
        · -- nothing but line endings: ignored, and not among the texts
          rw [List.map_cons, List.filter_cons_of_neg (by simpa using htext), htext]
          simp only [cstr, List.takeWhile_nil, tcpCommand_nil, hrest, bind, Except.bind]
          have hno : attempts con [] = 0 := rfl
          rw [hno, Nat.add_zero]
          cases obey tty n s con (((reads.map text).filter (· ≠ [])).map cstr) <;> rfl
        · rw [List.map_cons, List.filter_cons_of_pos (by simpa using htext), List.map_cons]
          simp only [obey, if_neg hs, hrest]

theorem text_append_newline (c : CStr) : text (c ++ [10]) = text c := by
  unfold text
  rw [List.rdropWhile_concat_pos _ _ _ (by decide)]

theorem ended_sent {commands : List CStr} : ∀ r ∈ sent commands, r.getLast?.any isLineEnd = true := by
  intro r hr
  obtain ⟨c, -, rfl⟩ := List.mem_map.mp hr
  rw [List.getLast?_concat]
  rfl

theorem texts_sent (commands : List CStr) : (sent commands).map text = commands.map text := by
  unfold sent
  rw [List.map_map]
  apply List.map_congr_left
  intro c _
  exact text_append_newline c

/-- **Commands however they arrive.** When the reads are a segmentation of the stream of the commands in which
    the text of each command arrives whole, alone and with at least one line ending, serving them does all
    that serving each command in a read of its own does: the same stop flag and tables, the same type of the
    connection, the same tty sessions. -/
theorem serve_unbroken {commands : List CStr} {reads : List (List Byte)} (h : Unbroken commands reads)
    (tty : Nat → TtyHost) (s : Server) (con : Connection) :
    serve tty 0 s con reads = serve tty 0 s con (sent commands) := by
  rw [serve_eq_obey tty reads h.ended, serve_eq_obey tty (sent commands) ended_sent, texts_sent, h.texts]

/-- Answers with which a tty session starts. -/
def sessionStarts (_ : Nat) : TtyHost where
  add := true
  start := { load := ⟨true, true, true, true, true, true⟩, run := ⟨true, fun _ => true, 100⟩ }

/-- "stop" with CR and LF in different reads. -/
theorem serve_unbroken_crlf :
    serve sessionStarts 0 {} { sock := 0 } [bytes "stop\r", bytes "\n"] =
      serve sessionStarts 0 {} { sock := 0 } (sent [bytes "stop\r"]) :=
  serve_unbroken
    { lines := by decide, stream := by decide, sizes := by decide, ended := by decide, texts := by decide }
    sessionStarts {} { sock := 0 }

/-- Two commands in one read: neither is carried out. -/
theorem serve_joined :
    ¬ ∀ (commands : List CStr) (reads : List (List Byte)) (tty : Nat → TtyHost) (s : Server)
        (con : Connection), Segmented commands reads →
      (serve tty 0 s con reads).map (·.srv.stopFlag) =
        (serve tty 0 s con (sent commands)).map (·.srv.stopFlag) := by
  intro hall
  have hsame := hall [bytes "help", bytes "stop"] [bytes "help\nstop\n"]
    sessionStarts {} { sock := 0 }
    { lines := by decide, stream := by decide, sizes := by decide }
  exact absurd hsame (by decide)

end Commands
end DistributedPlatform
