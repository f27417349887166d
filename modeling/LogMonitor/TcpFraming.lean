import Mathlib.Data.List.Forall2
import LogMonitor.LogEntry
import LogMonitor.HttpParser
import LogMonitor.Library.Lines

/-!
What a TCP client's bytes become: `TcpSocket::recv_line` takes them off the
socket a line at a time, and `handle_tcp_client` makes an entry of each line
and pushes it. The stop flag stays unset and every push finds room in the ring
buffer. `recv_line` answers an empty line and the end of the stream alike, so
the handler ends at the first empty line.
-/

namespace LogMonitor.TcpFraming
open Library.ByteString Library.Lines HttpParser

/-- `recv(fd, &ch, 1)` on what is still to arrive, in the chunks it arrives in; it waits for
a byte, and there is none once the client has closed. -/
def recvByte : List Bytes → Option (UInt8 × List Bytes)
  | [] => none
  | [] :: chunks => recvByte chunks
  | (ch :: chunk) :: chunks => some (ch, chunk :: chunks)

/-- The loop of `recv_line`, with room for so many bytes. -/
def recvBytes : Nat → List Bytes → Bytes × List Bytes
  | 0, chunks => ([], chunks)
  | room + 1, chunks =>
    match recvByte chunks with
    | none => ([], [])
    | some (ch, chunks) =>
      if ch = 10 then ([], chunks)
      else (ch :: (recvBytes room chunks).1, (recvBytes room chunks).2)

def maxLen : Nat := 8192

def recvLine (chunks : List Bytes) : Bytes × List Bytes :=
  (trimCr (recvBytes maxLen chunks).1, (recvBytes maxLen chunks).2)

structure ConnectionInfo where
  serviceName : Bytes
  remoteAddr : Bytes
  linesReceived : UInt64

def ConnectionInfo.record (info : ConnectionInfo) (entry : LogEntry) : ConnectionInfo :=
  { info with
    serviceName := if entry.serviceName = [] then info.serviceName else entry.serviceName
    linesReceived := info.linesReceived + 1 }

/-- What the handler of a connection changes: the entry of `connections_`, the ingester's
counter and the ring buffer, with what this handler has pushed. -/
structure Session where
  info : ConnectionInfo
  totalNetworkLines : UInt64
  enqueued : List LogEntry

def ConnectionInfo.accepted (connection : Bytes) : ConnectionInfo := ⟨[], connection, 0⟩

def Session.accepted (connection : Bytes) (totalNetworkLines : UInt64) : Session :=
  ⟨.accepted connection, totalNetworkLines, []⟩

def Session.push (session : Session) (entry : LogEntry) : Session where
  info := session.info.record entry
  totalNetworkLines := session.totalNetworkLines + 1
  enqueued := session.enqueued ++ [entry]

theorem recvByte_none {chunks : List Bytes} (closed : recvByte chunks = none) :
    chunks.flatten = [] := by
  induction chunks with
  | nil => rfl
  | cons chunk chunks ih =>
    cases chunk with
    | nil => exact ih closed
    | cons ch chunk => exact nomatch closed

theorem recvByte_some {ch : UInt8} {chunks rest : List Bytes}
    (arrived : recvByte chunks = some (ch, rest)) : chunks.flatten = ch :: rest.flatten := by
  induction chunks with
  | nil => exact nomatch arrived
  | cons chunk chunks ih =>
    cases chunk with
    | nil => exact ih arrived
    | cons first chunk =>
      obtain ⟨rfl, rfl⟩ := Prod.mk.inj (Option.some.inj arrived)
      rfl

theorem recvBytes_length (room : Nat) (chunks : List Bytes) :
    (recvBytes room chunks).2.flatten.length + (recvBytes room chunks).1.length ≤
      chunks.flatten.length := by
  induction room generalizing chunks with
  | zero => exact Nat.le_refl _
  | succ room ih =>
    rw [recvBytes]
    cases arrived : recvByte chunks with
    | none => exact Nat.zero_le _
    | some next =>
      obtain ⟨ch, rest⟩ := next
      rw [recvByte_some arrived, List.length_cons]
      by_cases newline : ch = 10
      · simp [newline]
      · have later := ih rest
        simp only [if_neg newline, List.length_cons]
        omega

theorem trimCr_length (line : Bytes) :
    (trimCr line).length ≤ line.length ∧ line.length ≤ (trimCr line).length + 1 := by
  unfold trimCr
  split
  · rw [List.length_dropLast]
    omega
  · exact ⟨Nat.le_refl _, Nat.le_succ _⟩

theorem recvLine_shorter {chunks : List Bytes} (heard : (recvLine chunks).1 ≠ []) :
    (recvLine chunks).2.flatten.length < chunks.flatten.length := by
  have taken := recvBytes_length maxLen chunks
  have trimmed := (trimCr_length (recvBytes maxLen chunks).1).1
  have some := List.length_pos_iff.mpr heard
  simp only [recvLine] at some ⊢
  omega

theorem tcpClientEntry_eq_none {connection line : Bytes} {now : Int} {linesReceived : UInt64} :
    tcpClientEntry connection line now linesReceived = none ↔ line = [] := by
  unfold tcpClientEntry
  split <;> simp [*]

/-- The loop of `handle_tcp_client`; `clock` is the steady clock at each entry's making. -/
def handleTcpClient (connection : Bytes) (clock : Nat → Int) (session : Session)
    (chunks : List Bytes) : Session :=
  match _made : tcpClientEntry connection (recvLine chunks).1 (clock session.enqueued.length)
      session.info.linesReceived with
  | none => session
  | some entry => handleTcpClient connection clock (session.push entry) (recvLine chunks).2
termination_by chunks.flatten.length
decreasing_by
  apply recvLine_shorter
  intro empty
  rw [tcpClientEntry_eq_none.mpr empty] at _made
  exact nomatch _made

def Session.hear (connection : Bytes) (clock : Nat → Int) (session : Session) (line : Bytes) :
    Session :=
  match tcpClientEntry connection line (clock session.enqueued.length)
      session.info.linesReceived with
  | none => session
  | some entry => session.push entry

section Handler

variable {connection : Bytes} {clock : Nat → Int} {session : Session} {chunks : List Bytes}

theorem handleTcpClient_empty (empty : (recvLine chunks).1 = []) :
    handleTcpClient connection clock session chunks = session := by
  rw [handleTcpClient]
  split
  · rfl
  · next made => rw [tcpClientEntry_eq_none.mpr empty] at made; exact nomatch made

theorem handleTcpClient_line (heard : (recvLine chunks).1 ≠ []) :
    handleTcpClient connection clock session chunks =
      handleTcpClient connection clock (session.hear connection clock (recvLine chunks).1)
        (recvLine chunks).2 := by
  rw [handleTcpClient]
  split
  · next made => exact absurd (tcpClientEntry_eq_none.mp made) heard
  · next made => rw [Session.hear, made]

end Handler

section Lines

variable {segment tail : Bytes} {chunks : List Bytes}

/-- The loop takes what comes before the next newline, and the newline if there is room left. -/
theorem recvBytes_eq (absent : 10 ∉ segment) (ends : Ends 10 tail)
    (stream : chunks.flatten = segment ++ tail) {room : Nat} (fits : segment.length ≤ room) :
    (recvBytes room chunks).1 = segment ∧ (recvBytes room chunks).2.flatten =
      if segment.length = room then tail else tail.drop 1 := by
  induction room generalizing segment chunks with
  | zero =>
    obtain rfl := List.length_eq_zero_iff.mp (Nat.le_zero.mp fits)
    exact ⟨rfl, stream⟩
  | succ room ih =>
    rw [recvBytes]
    cases segment with
    | nil =>
      rw [List.nil_append] at stream
      cases arrived : recvByte chunks with
      | none =>
        rw [recvByte_none arrived] at stream
        exact ⟨rfl, by simp [← stream]⟩
      | some next =>
        obtain ⟨ch, rest⟩ := next
        rw [recvByte_some arrived] at stream
        obtain rfl : ch = 10 := ends ch (by rw [← stream]; rfl)
        simp [← stream]
    | cons first segment =>
      cases arrived : recvByte chunks with
      | none =>
        rw [recvByte_none arrived] at stream
        exact absurd stream.symm (List.cons_ne_nil _ _)
      | some next =>
        obtain ⟨ch, rest⟩ := next
        rw [recvByte_some arrived, List.cons_append] at stream
        obtain ⟨rfl, following⟩ := List.cons.inj stream
        have other : ch ≠ 10 := fun newline => absent (newline ▸ List.mem_cons_self ..)
        have later := ih (List.not_mem_of_not_mem_cons absent) following
          (Nat.le_of_succ_le_succ fits)
        simp only [if_neg other, later.1, later.2, List.length_cons, Nat.add_right_cancel_iff,
          and_self]

theorem recvLine_eq (absent : 10 ∉ segment) (short : (trimCr segment).length < maxLen)
    (ends : Ends 10 tail) (stream : chunks.flatten = segment ++ tail) :
    (recvLine chunks).1 = trimCr segment ∧ (recvLine chunks).2.flatten =
      if segment.length = maxLen then tail else tail.drop 1 := by
  have fits : segment.length ≤ maxLen := by
    have := (trimCr_length segment).2
    omega
  obtain ⟨line, rest⟩ := recvBytes_eq absent ends stream fits
  exact ⟨congrArg trimCr line, rest⟩

theorem handleTcpClient_ends {connection : Bytes} {clock : Nat → Int} {session : Session}
    (ends : Ends 10 chunks.flatten) : handleTcpClient connection clock session chunks = session :=
  handleTcpClient_empty (recvLine_eq List.not_mem_nil (by decide) ends rfl).1

/-- The lines the handler makes entries of: those before the first empty one, and none after
one that fills the buffer before its newline. -/
def heard : List Bytes → List Bytes
  | [] => []
  | segment :: segments =>
    if trimCr segment = [] then []
    else if segment.length = maxLen then [trimCr segment]
    else trimCr segment :: heard segments

/-- The handler makes an entry of each line it hears. -/
theorem handleTcpClient_eq (connection : Bytes) (clock : Nat → Int) (session : Session)
    {segments : List Bytes} (some : segments ≠ []) (whole : ∀ segment ∈ segments, 10 ∉ segment)
    (short : ∀ segment ∈ segments, (trimCr segment).length < maxLen)
    (stream : chunks.flatten = [10].intercalate segments) :
    handleTcpClient connection clock session chunks =
      (heard segments).foldl (Session.hear connection clock) session := by
  induction segments generalizing session chunks with
  | nil => exact absurd rfl some
  | cons segment segments ih =>
    obtain ⟨tail, ends, cut, following⟩ : ∃ tail : Bytes, Ends 10 tail ∧
        chunks.flatten = segment ++ tail ∧ tail.drop 1 = [10].intercalate segments := by
      cases segments with
      | nil => exact ⟨[], nofun, by simpa using stream, rfl⟩
      | cons next segments =>
        refine ⟨10 :: [10].intercalate (next :: segments), ?_, ?_, rfl⟩
        · exact fun x head => (Option.some.inj head).symm
        · rw [stream, List.intercalate_cons_cons, List.append_assoc]
          rfl
    obtain ⟨line, rest⟩ := recvLine_eq (whole segment (List.mem_cons_self ..))
      (short segment (List.mem_cons_self ..)) ends cut
    rw [heard]
    by_cases empty : trimCr segment = []
    · rw [if_pos empty, handleTcpClient_empty (line.trans empty)]
      rfl
    rw [if_neg empty, handleTcpClient_line (fun none => empty (line.symm.trans none)), line]
    by_cases full : segment.length = maxLen
    · rw [if_pos full] at rest ⊢
      exact handleTcpClient_ends (rest ▸ ends)
    rw [if_neg full] at rest ⊢
    by_cases last : segments = []
    · subst last
      exact handleTcpClient_ends (by rw [rest, following]; exact nofun)
    · exact ih (session.hear connection clock (trimCr segment)) last
        (fun next listed => whole next (List.mem_cons_of_mem _ listed))
        (fun next listed => short next (List.mem_cons_of_mem _ listed)) (rest.trans following)

end Lines

inductive Reads : Bytes → Bytes → Bytes → Prop
  | plain {message : Bytes} (unpiped : 124 ∉ message) : Reads message [] message
  | named {service message : Bytes} (first : 124 ∉ service) (unpiped : 124 ∉ message) :
      Reads (service ++ 124 :: message) service message
  | graded {service severity : Bytes} (first : 124 ∉ service) (second : 124 ∉ severity)
      (message : Bytes) : Reads (service ++ 124 :: (severity ++ 124 :: message)) service message

def lines (stream : Bytes) : List Bytes := ((stream.splitOn 10).map trimCr).filter (· ≠ [])

/-- One entry for each line, numbered from one. -/
structure Framed (stream : Bytes) (entries : List LogEntry) : Prop where
  reads : List.Forall₂ (fun line (entry : LogEntry) => Reads line entry.serviceName entry.line)
    (lines stream) entries
  numbers : entries.map LogEntry.lineNumber = (List.range' 1 entries.length).map UInt64.ofNat

/-- After an empty line, and after one that fills the buffer before its newline, there are
no more lines but empty ones. -/
def Undisturbed (stream : Bytes) : Prop :=
  ∀ before segment after, stream.splitOn 10 = before ++ segment :: after →
    trimCr segment = [] ∨ segment.length = maxLen → ∀ later ∈ after, trimCr later = []

theorem splitTcpLine_reads (line : Bytes) :
    Reads line (splitTcpLine line).1 (splitTcpLine line).2 := by
  have pipe : text "|" = [124] := by decide
  by_cases piped : 124 ∈ line
  · obtain ⟨service, rest, rfl, first⟩ := List.eq_append_cons_of_mem piped
    have firstPipe : find [124] (service ++ 124 :: rest) 0 = some service.length := by
      have found := find_single first [] rest
      simpa using found
    have front : service ++ 124 :: rest = (service ++ [124]) ++ rest := by simp
    by_cases again : 124 ∈ rest
    · obtain ⟨severity, message, rfl, second⟩ := List.eq_append_cons_of_mem again
      have secondPipe := find_single second (service ++ [124]) message
      rw [← front, List.length_append, List.length_singleton] at secondPipe
      have split : splitTcpLine (service ++ 124 :: (severity ++ 124 :: message)) =
          (service, message) := by
        have behind : service ++ 124 :: (severity ++ 124 :: message) =
            (service ++ 124 :: severity ++ [124]) ++ message := by simp
        simp only [splitTcpLine, pipe, firstPipe, secondPipe, List.take_left]
        rw [behind, List.drop_left' (by simp; omega)]
      rw [split]
      exact .graded first second message
    · have secondPipe : find [124] (service ++ 124 :: rest) (service.length + 1) = none := by
        apply find_single_none
        simpa using again
      have split : splitTcpLine (service ++ 124 :: rest) = (service, rest) := by
        simp only [splitTcpLine, pipe, firstPipe, secondPipe, List.take_left]
        rw [front, List.drop_left' (by simp)]
      rw [split]
      exact .named first again
  · have absent : 124 ∉ line.drop 0 := piped
    have split : splitTcpLine line = ([], line) := by
      simp only [splitTcpLine, pipe, find_single_none absent]
    rw [split]
    exact .plain piped

theorem heard_prefix (segments : List Bytes) :
    heard segments <+: (segments.map trimCr).filter (· ≠ []) := by
  induction segments with
  | nil => exact List.prefix_rfl
  | cons segment segments ih =>
    rw [heard, List.map_cons]
    by_cases empty : trimCr segment = []
    · rw [if_pos empty]
      exact List.nil_prefix
    · rw [if_neg empty, List.filter_cons_of_pos (by simpa using empty)]
      by_cases full : segment.length = maxLen
      · rw [if_pos full]
        exact List.prefix_append [_] _
      · rw [if_neg full]
        exact List.cons_prefix_cons.mpr ⟨rfl, ih⟩

/-- The handler hears every line unless one follows where it stops. -/
theorem heard_eq_iff (segments : List Bytes) :
    heard segments = (segments.map trimCr).filter (· ≠ []) ↔
      ∀ before segment after, segments = before ++ segment :: after →
        trimCr segment = [] ∨ segment.length = maxLen → ∀ later ∈ after, trimCr later = [] := by
  have silent (after : List Bytes) : [] = (after.map trimCr).filter (· ≠ []) ↔
      ∀ later ∈ after, trimCr later = [] := by
    rw [eq_comm, List.filter_eq_nil_iff]
    simp
  induction segments with
  | nil => exact ⟨fun _ before segment after cut => by simp at cut, fun _ => rfl⟩
  | cons segment segments ih =>
    -- a stop here says all there is to say of the stops behind it
    have stopping (stop : trimCr segment = [] ∨ segment.length = maxLen) :
        [] = (segments.map trimCr).filter (· ≠ []) ↔
          ∀ before stopped after, segment :: segments = before ++ stopped :: after →
            trimCr stopped = [] ∨ stopped.length = maxLen →
              ∀ later ∈ after, trimCr later = [] := by
      rw [silent]
      constructor
      · intro empty before stopped after cut _ later listed
        cases before with
        | nil =>
          obtain ⟨rfl, rfl⟩ := List.cons.inj cut
          exact empty later listed
        | cons first before =>
          obtain ⟨rfl, rfl⟩ := List.cons.inj cut
          exact empty later (List.mem_append_right _ (List.mem_cons_of_mem _ listed))
      · intro quiet
        exact quiet [] segment segments rfl stop
    rw [heard, List.map_cons]
    by_cases empty : trimCr segment = []
    · rw [if_pos empty, List.filter_cons_of_neg (by simpa using empty)]
      exact stopping (.inl empty)
    rw [if_neg empty, List.filter_cons_of_pos (by simpa using empty)]
    by_cases full : segment.length = maxLen
    · rw [if_pos full, List.cons_inj_right]
      exact stopping (.inr full)
    rw [if_neg full, List.cons_inj_right]
    refine ih.trans ⟨?_, ?_⟩
    · intro quiet before stopped after cut stop
      cases before with
      | nil =>
        obtain ⟨rfl, rfl⟩ := List.cons.inj cut
        exact absurd stop (not_or.mpr ⟨empty, full⟩)
      | cons first before => exact quiet before stopped after (List.cons.inj cut).2 stop
    · intro quiet before stopped after cut
      exact quiet (segment :: before) stopped after (congrArg (segment :: ·) cut)

section Session

variable (connection : Bytes) (clock : Nat → Int)

theorem Session.hear_eq {session : Session} {line : Bytes} (full : line ≠ []) :
    ∃ entry : LogEntry, session.hear connection clock line = session.push entry ∧
      entry.lineNumber = session.info.linesReceived + 1 ∧
      Reads line entry.serviceName entry.line := by
  cases made : tcpClientEntry connection line (clock session.enqueued.length)
      session.info.linesReceived with
  | none => exact absurd (tcpClientEntry_eq_none.mp made) full
  | some entry =>
    refine ⟨entry, by rw [hear, made], ?_⟩
    rw [tcpClientEntry, if_neg full] at made
    obtain rfl := Option.some.inj made
    exact ⟨rfl, splitTcpLine_reads line⟩

theorem foldl_hear {heard : List Bytes} (full : ∀ line ∈ heard, line ≠ []) (session : Session)
    {count : Nat} (counted : session.info.linesReceived = UInt64.ofNat count) :
    ∃ entries, (heard.foldl (Session.hear connection clock) session).enqueued =
        session.enqueued ++ entries ∧
      List.Forall₂ (fun line (entry : LogEntry) => Reads line entry.serviceName entry.line)
        heard entries ∧
      entries.map LogEntry.lineNumber =
        (List.range' (count + 1) entries.length).map UInt64.ofNat := by
  induction heard generalizing session count with
  | nil => exact ⟨[], (List.append_nil _).symm, .nil, rfl⟩
  | cons line heard ih =>
    obtain ⟨entry, pushed, number, reads⟩ :=
      session.hear_eq connection clock (full line (List.mem_cons_self ..))
    have next : (session.push entry).info.linesReceived = UInt64.ofNat (count + 1) := by
      rw [UInt64.ofNat_add, ← counted]
      rfl
    obtain ⟨entries, rest, forall₂, numbers⟩ := ih
      (fun line listed => full line (List.mem_cons_of_mem _ listed)) (session.push entry) next
    refine ⟨entry :: entries, ?_, .cons reads forall₂, ?_⟩
    · rw [List.foldl_cons, pushed, rest]
      simp [Session.push]
    · rw [List.map_cons, numbers, number, counted, List.length_cons, List.range'_succ,
        List.map_cons, UInt64.ofNat_add]
      rfl

end Session

/-- The entries are those of the stream's lines unless a line follows an empty one, or one that
fills the buffer before its newline. -/
theorem framed_iff (connection : Bytes) (clock : Nat → Int) (totalNetworkLines : UInt64)
    (chunks : List Bytes) (short : ∀ line ∈ lines chunks.flatten, line.length < 8192) :
    Framed chunks.flatten (handleTcpClient connection clock
        (.accepted connection totalNetworkLines) chunks).enqueued ↔
      Undisturbed chunks.flatten := by
  have trimmed : ∀ segment ∈ chunks.flatten.splitOn 10, (trimCr segment).length < maxLen := by
    intro segment listed
    by_cases empty : trimCr segment = []
    · rw [empty]
      decide
    · exact short _ (List.mem_filter.mpr ⟨List.mem_map_of_mem listed, by simpa using empty⟩)
  rw [handleTcpClient_eq connection clock _ (List.splitOn_ne_nil 10 _)
    (fun _ => not_mem_of_mem_splitOn) trimmed (List.intercalate_splitOn 10).symm]
  have first := heard_prefix (chunks.flatten.splitOn 10)
  have full : ∀ line ∈ heard (chunks.flatten.splitOn 10), line ≠ [] := fun line listed =>
    of_decide_eq_true (List.mem_filter.mp (first.subset listed)).2
  have fresh : (Session.accepted connection totalNetworkLines).info.linesReceived =
      UInt64.ofNat 0 := rfl
  obtain ⟨entries, pushed, reads, numbers⟩ := foldl_hear connection clock full _ fresh
  rw [Undisturbed, ← heard_eq_iff, pushed]
  constructor
  · intro framed
    have lengths := framed.reads.length_eq.trans reads.length_eq.symm
    exact first.eq_of_length lengths.symm
  · intro same
    exact ⟨by rw [lines, ← same]; exact reads, numbers⟩

/-- A client that sends two lines, the second with a pipe in its message. -/
theorem framed_iff_two :
    Framed [97, 124, 98, 13, 10, 97, 124, 124, 99, 124, 10]
        (handleTcpClient (connId 7) (fun _ => 0) (.accepted (connId 7) 0)
          [[97, 124], [98, 13, 10, 97], [], [124, 124, 99, 124, 10]]).enqueued ↔
      Undisturbed [97, 124, 98, 13, 10, 97, 124, 124, 99, 124, 10] :=
  framed_iff (connId 7) (fun _ => 0) 0 [[97, 124], [98, 13, 10, 97], [], [124, 124, 99, 124, 10]]
    (by decide)

/-- A blank line between two lines: the second is not read. -/
theorem blankLine_ends :
    (handleTcpClient (connId 7) (fun _ => 0) (.accepted (connId 7) 0)
        [[97, 10, 10, 98, 10]]).enqueued.length = 1 ∧
      lines [97, 10, 10, 98, 10] = [[97], [98]] ∧
      ¬Framed [97, 10, 10, 98, 10] (handleTcpClient (connId 7) (fun _ => 0)
        (.accepted (connId 7) 0) [[97, 10, 10, 98, 10]]).enqueued := by
  have session : handleTcpClient (connId 7) (fun _ => 0) (.accepted (connId 7) 0)
      [[97, 10, 10, 98, 10]] = [[97]].foldl (Session.hear (connId 7) fun _ => 0)
        (.accepted (connId 7) 0) :=
    handleTcpClient_eq (connId 7) _ _ (List.cons_ne_nil [97] [[], [98], []]) (by decide)
      (by decide) (by decide)
  rw [session]
  refine ⟨rfl, by decide, fun framed => ?_⟩
  exact absurd framed.reads.length_eq (by decide)

end LogMonitor.TcpFraming
