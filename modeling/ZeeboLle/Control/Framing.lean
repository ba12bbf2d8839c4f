import Mathlib.Data.List.TakeWhile
import ZeeboLle.Control.Channel

/-! How a connection cuts what it receives into requests. What `recv` gives, how a request
is answered, whether a reply can be sent and whether the server still runs is up to the
surroundings. -/
namespace ZeeboLle.Control

open Unicorn Streams

/-- What one `recv` gives. -/
structure Received where
  bytes : List Byte
  filled : bytes ≠ []
  fits : bytes.length ≤ 1024

/-- What happens around a connection: the reply to the n-th request, whether the n-th
write goes through, and whether the server runs at the n-th round. -/
structure Surroundings where
  dispatch : Nat → List Byte → List Byte
  sends : Nat → Bool
  running : Nat → Bool

structure Connection where
  buf : List Byte := []
  dispatched : List (List Byte) := []
  written : List (List Byte) := []
  rounds : Nat := 0
deriving DecidableEq

namespace Connection

variable (around : Surroundings)

/-- `WriteAll`. -/
def writeAll (connection : Connection) (data : List Byte) : Connection × Bool :=
  if around.sends connection.written.length then
    ({ connection with written := connection.written ++ [data] }, true)
  else (connection, false)

/-- One request. -/
def dispatch (connection : Connection) (line : List Byte) : Connection × Bool :=
  let reply := around.dispatch connection.dispatched.length line
  writeAll around { connection with dispatched := connection.dispatched ++ [line] } (reply ++ [newline])

/-- Behind the first line of the buffer. -/
def eraseLine (connection : Connection) : Connection :=
  { connection with buf := (takeLine newline connection.buf).2 }

theorem length_eraseLine {connection : Connection} (found : newline ∈ connection.buf) :
    connection.eraseLine.buf.length < connection.buf.length := by
  have kept := List.dropWhile_suffix (l := connection.buf) (· != newline)
  have more : connection.buf.dropWhile (· != newline) ≠ [] := by
    intro none
    have all := List.dropWhile_eq_nil_iff.mp none newline found
    simp at all
  have positive := List.length_pos_iff.mpr more
  have shorter := kept.length_le
  rw [eraseLine, takeLine, List.length_tail]
  omega

theorem dispatch_buf (connection : Connection) (line : List Byte) :
    (dispatch around connection line).1.buf = connection.buf := by
  unfold dispatch writeAll
  split <;> rfl

/-- The whole lines of the buffer, one after the other; whether the connection stays. -/
def serveLines (connection : Connection) : Connection × Bool :=
  if newline ∈ connection.buf then
    let line := trimReturn (takeLine newline connection.buf).1
    if line = [] then serveLines connection.eraseLine
    else
      let served := dispatch around connection.eraseLine line
      if served.2 then serveLines served.1 else served
  else (connection, true)
termination_by connection.buf.length
decreasing_by
  · exact length_eraseLine ‹_›
  · rw [dispatch_buf]
    exact length_eraseLine ‹_›

/-- `HandleConnection`, with what each `recv` gives until one fails. -/
def handleConnection (connection : Connection) (chunks : List Received) : Connection :=
  if around.running connection.rounds then
    let served := serveLines around { connection with rounds := connection.rounds + 1 }
    if served.2 then
      match chunks with
      | [] => served.1
      | chunk :: chunks =>
        let connection := { served.1 with buf := served.1.buf ++ chunk.bytes }
        if connection.buf.length > 16384 then
          (writeAll around connection (requestTooLarge.bytes ++ [newline])).1
        else handleConnection connection chunks
    else served.1
  else connection

variable {around} {connection : Connection}

theorem serveLines_found (found : newline ∈ connection.buf) :
    serveLines around connection =
      if trimReturn (takeLine newline connection.buf).1 = [] then
        serveLines around connection.eraseLine
      else if (dispatch around connection.eraseLine (trimReturn (takeLine newline connection.buf).1)).2 then
        serveLines around
          (dispatch around connection.eraseLine (trimReturn (takeLine newline connection.buf).1)).1
      else dispatch around connection.eraseLine (trimReturn (takeLine newline connection.buf).1) := by
  rw [serveLines, if_pos found]

theorem serveLines_none (none : newline ∉ connection.buf) :
    serveLines around connection = (connection, true) := by
  rw [serveLines, if_neg none]

/-- What is held and what was dispatched stay below the limit. -/
structure Limited (connection : Connection) : Prop where
  buf : connection.buf.length ≤ 16384
  dispatched : ∀ line ∈ connection.dispatched, line.length ≤ 16384

theorem Limited.eraseLine (limited : connection.Limited) (found : newline ∈ connection.buf) :
    connection.eraseLine.Limited :=
  ⟨Nat.le_trans (Nat.le_of_lt (length_eraseLine found)) limited.buf, limited.dispatched⟩

theorem Limited.withRounds (limited : connection.Limited) (rounds : Nat) :
    Limited { connection with rounds } :=
  ⟨limited.buf, limited.dispatched⟩

theorem length_trimReturn_le (line : List Byte) : (trimReturn line).length ≤ line.length := by
  unfold trimReturn
  split
  · rw [List.length_dropLast]
    exact Nat.sub_le _ _
  · exact Nat.le_refl _

theorem dispatch_dispatched (connection : Connection) (line : List Byte) :
    (dispatch around connection line).1.dispatched = connection.dispatched ++ [line] := by
  unfold dispatch writeAll
  split <;> rfl

theorem Limited.dispatch (around : Surroundings) {line : List Byte} (limited : connection.Limited)
    (short : line.length ≤ 16384) : (dispatch around connection line).1.Limited := by
  constructor
  · rw [dispatch_buf]
    exact limited.buf
  · rw [dispatch_dispatched]
    intro found member
    rcases List.mem_append.mp member with old | new
    · exact limited.dispatched found old
    · rw [List.mem_singleton.mp new]
      exact short

theorem Limited.serveLines (around : Surroundings) {connection : Connection}
    (limited : connection.Limited) : (serveLines around connection).1.Limited := by
  by_cases found : newline ∈ connection.buf
  · have short : (trimReturn (takeLine newline connection.buf).1).length ≤ 16384 :=
      Nat.le_trans (length_trimReturn_le _)
        (Nat.le_trans (List.takeWhile_prefix _).length_le limited.buf)
    have served := (limited.eraseLine found).dispatch around short
    rw [serveLines_found found]
    split
    · exact (limited.eraseLine found).serveLines around
    · split
      · exact served.serveLines around
      · exact served
  · rw [serveLines_none found]
    exact limited
termination_by connection.buf.length
decreasing_by
  · rw [dispatch_buf]
    exact length_eraseLine found
  · exact length_eraseLine found

theorem writeAll_dispatched (connection : Connection) (data : List Byte) :
    (writeAll around connection data).1.dispatched = connection.dispatched := by
  unfold writeAll
  split <;> rfl

/-- No line beyond the limit is ever dispatched. -/
theorem Limited.handleConnection (limited : connection.Limited) (chunks : List Received) :
    ∀ line ∈ (handleConnection around connection chunks).dispatched, line.length ≤ 16384 := by
  induction chunks generalizing connection with
  | nil =>
    have served := (limited.withRounds (connection.rounds + 1)).serveLines around
    unfold Connection.handleConnection
    split
    · dsimp only
      split
      · exact served.dispatched
      · exact served.dispatched
    · exact limited.dispatched
  | cons chunk chunks ih =>
    have served := (limited.withRounds (connection.rounds + 1)).serveLines around
    unfold Connection.handleConnection
    split
    · dsimp only
      split
      · split
        · rw [writeAll_dispatched]
          exact served.dispatched
        · rename_i below
          exact ih ⟨Nat.le_of_not_lt below, served.dispatched⟩
      · exact served.dispatched
    · exact limited.dispatched

end Connection

/-- Nothing stops the server, and every write goes through. -/
structure Surroundings.Steady (around : Surroundings) : Prop where
  sends : ∀ count, around.sends count = true
  running : ∀ round, around.running round = true

/-- The requests in some lines. -/
def requests (lines : List (List Byte)) : List (List Byte) :=
  (lines.map trimReturn).filter (· ≠ [])

/-- One reply line for each request. -/
def Surroundings.answers (around : Surroundings) (dispatched : List (List Byte)) : List (List Byte) :=
  dispatched.mapIdx fun count line => around.dispatch count line ++ [newline]

theorem requests_append (before after : List (List Byte)) :
    requests (before ++ after) = requests before ++ requests after := by
  rw [requests, List.map_append, List.filter_append]
  rfl

theorem Surroundings.answers_snoc (around : Surroundings) (dispatched : List (List Byte))
    (line : List Byte) :
    around.answers (dispatched ++ [line]) =
      around.answers dispatched ++ [around.dispatch dispatched.length line ++ [newline]] :=
  List.mapIdx_concat

namespace Connection

/-- Some lines are done; what is held and still to come are the others and an unfinished one. -/
structure Reading (around : Surroundings) (before after : List (List Byte)) (left rest : List Byte)
    (connection : Connection) : Prop where
  dispatched : connection.dispatched = requests before
  written : connection.written = around.answers connection.dispatched
  stream : connection.buf ++ rest = frames newline after ++ left

variable {around : Surroundings} {connection : Connection} {before after : List (List Byte)}
  {left rest line : List Byte}

theorem dispatch_steady (steady : around.Steady) (connection : Connection) (line : List Byte) :
    dispatch around connection line =
      ({ connection with
        dispatched := connection.dispatched ++ [line]
        written := connection.written ++
          [around.dispatch connection.dispatched.length line ++ [newline]] }, true) := by
  unfold dispatch writeAll
  rw [if_pos (steady.sends _)]

/-- One line is done. -/
theorem serveLines_line (steady : around.Steady) (plain : newline ∉ line)
    (reading : connection.Reading around before (line :: after) left rest)
    (found : newline ∈ connection.buf) :
    ∃ next : Connection, serveLines around connection = serveLines around next ∧
      next.Reading around (before ++ [line]) after left rest := by
  have stream : connection.buf ++ rest = line ++ newline :: (frames newline after ++ left) := by
    rw [reading.stream, frames_cons, List.append_assoc, List.cons_append]
  obtain ⟨taken, behind⟩ := takeLine_frames plain stream found
  rw [serveLines_found found, taken]
  by_cases empty : trimReturn line = []
  · refine ⟨_, if_pos empty, ⟨?_, reading.written, behind⟩⟩
    have none : requests [line] = [] := by simp [requests, empty]
    rw [requests_append, none, List.append_nil]
    exact reading.dispatched
  · rw [if_neg empty, dispatch_steady steady]
    refine ⟨_, rfl, ⟨?_, ?_, behind⟩⟩
    · have one : requests [line] = [trimReturn line] := by simp [requests, empty]
      rw [requests_append, one, ← reading.dispatched]
      rfl
    · rw [Surroundings.answers_snoc]
      exact congrArg (· ++ _) reading.written

/-- The whole lines in the buffer are done, and no others. -/
theorem serveLines_reading (steady : around.Steady) (plain : ∀ line ∈ after, newline ∉ line)
    (open_left : newline ∉ left) (reading : connection.Reading around before after left rest) :
    ∃ done later next, after = done ++ later ∧ serveLines around connection = (next, true) ∧
      next.Reading around (before ++ done) later left rest ∧ newline ∉ next.buf := by
  induction after generalizing before connection with
  | nil =>
    have none : newline ∉ connection.buf := by
      intro found
      have stream := reading.stream
      rw [frames_nil, List.nil_append] at stream
      exact open_left (stream ▸ List.mem_append_left rest found)
    refine ⟨[], [], connection, rfl, serveLines_none none, ?_, none⟩
    rw [List.append_nil]
    exact reading
  | cons line after ih =>
    by_cases found : newline ∈ connection.buf
    · obtain ⟨next, same, reads⟩ := serveLines_line steady (plain line (by simp)) reading found
      obtain ⟨done, later, last, split, served, ends, none⟩ :=
        ih (fun other member => plain other (by simp [member])) reads
      refine ⟨line :: done, later, last, by rw [split, List.cons_append], same.trans served, ?_, none⟩
      rw [List.append_assoc] at ends
      exact ends
    · refine ⟨[], line :: after, connection, rfl, serveLines_none found, ?_, found⟩
      rw [List.append_nil]
      exact reading

theorem Reading.withRounds (reading : connection.Reading around before after left rest) (rounds : Nat) :
    Reading around before after left rest { connection with rounds } :=
  ⟨reading.dispatched, reading.written, reading.stream⟩

/-- A whole line that has begun to come leaves room for a chunk. -/
theorem Reading.length_buf (reading : connection.Reading around before (line :: after) left rest)
    (short : line.length ≤ 15360) (none : newline ∉ connection.buf) : connection.buf.length ≤ 15360 := by
  have stream := reading.stream
  rw [frames_cons, List.append_assoc, List.cons_append] at stream
  rcases List.append_eq_append_iff.mp stream with ⟨more, whole, _⟩ | ⟨more, whole, behind⟩
  · rw [whole, List.length_append] at short
    omega
  · cases more with
    | nil =>
      rw [whole, List.append_nil]
      exact short
    | cons head more =>
      obtain ⟨rfl, _⟩ := List.cons.inj behind
      exact absurd (by simp [whole]) none

/-- The refusal of what is left when it is too long. -/
def refusal (left : List Byte) : List (List Byte) :=
  if left.length > 16384 then [requestTooLarge.bytes ++ [newline]] else []

/-- Where no whole line is to come, everything is dispatched. -/
theorem Reading.done (reading : connection.Reading around before [] left rest) :
    connection.dispatched = requests before ∧
      connection.written = around.answers (requests before) ∧ connection.buf ++ rest = left :=
  ⟨reading.dispatched, reading.dispatched ▸ reading.written, reading.stream⟩

/-- A round begins with the whole lines in the buffer. -/
theorem round_reading (steady : around.Steady) (plain : ∀ line ∈ after, newline ∉ line)
    (open_left : newline ∉ left) (limited : connection.Limited)
    (reading : connection.Reading around before after left rest) :
    ∃ done later next, after = done ++ later ∧
      serveLines around { connection with rounds := connection.rounds + 1 } = (next, true) ∧
      next.Reading around (before ++ done) later left rest ∧ next.Limited ∧ newline ∉ next.buf := by
  obtain ⟨done, later, next, split, served, reads, none⟩ :=
    serveLines_reading steady plain open_left (reading.withRounds (connection.rounds + 1))
  have kept := (limited.withRounds (connection.rounds + 1)).serveLines around
  rw [served] at kept
  exact ⟨done, later, next, split, served, reads, kept, none⟩

/-- From anywhere on, all lines to come are dispatched, however they come. -/
theorem handleConnection_reading (steady : around.Steady) (chunks : List Received)
    (plain : ∀ line ∈ after, newline ∉ line) (short : ∀ line ∈ after, line.length ≤ 15360)
    (open_left : newline ∉ left) (limited : connection.Limited)
    (reading : connection.Reading around before after left (chunks.flatMap Received.bytes)) :
    (handleConnection around connection chunks).dispatched = requests (before ++ after) ∧
      (handleConnection around connection chunks).written =
        around.answers (requests (before ++ after)) ++ refusal left := by
  induction chunks generalizing before after connection with
  | nil =>
    obtain ⟨done, later, next, rfl, served, reads, room, none⟩ :=
      round_reading steady plain open_left limited reading
    have all : later = [] := by
      cases later with
      | nil => rfl
      | cons line later =>
        have stream := reads.stream
        rw [List.flatMap_nil, List.append_nil] at stream
        exact absurd (by simp [stream]) none
    subst all
    obtain ⟨dispatched, written, held⟩ := reads.done
    have fits : refusal left = [] := by
      rw [List.flatMap_nil, List.append_nil] at held
      exact if_neg (held ▸ Nat.not_lt_of_le room.buf)
    unfold handleConnection
    rw [if_pos (steady.running _), served, List.append_nil, fits, List.append_nil]
    exact ⟨dispatched, written⟩
  | cons chunk chunks ih =>
    obtain ⟨done, later, next, rfl, served, reads, room, none⟩ :=
      round_reading steady plain open_left limited reading
    have appended : Reading around (before ++ done) later left (chunks.flatMap Received.bytes)
        { next with buf := next.buf ++ chunk.bytes } := by
      refine ⟨reads.dispatched, reads.written, ?_⟩
      rw [List.append_assoc, ← List.flatMap_cons]
      exact reads.stream
    unfold handleConnection
    rw [if_pos (steady.running _), served, ← List.append_assoc]
    dsimp only
    rw [if_pos rfl]
    by_cases large : (next.buf ++ chunk.bytes).length > 16384
    · have all : later = [] := by
        cases later with
        | nil => rfl
        | cons line later =>
          have begun := reads.length_buf (short line (by simp)) none
          have fits := chunk.fits
          rw [List.length_append] at large
          omega
      subst all
      obtain ⟨dispatched, written, held⟩ := appended.done
      have refused : refusal left = [requestTooLarge.bytes ++ [newline]] := by
        apply if_pos
        rw [← held, List.length_append]
        exact Nat.lt_add_right _ large
      rw [if_pos large, writeAll, if_pos (steady.sends _), List.append_nil, refused]
      exact ⟨dispatched, congrArg (· ++ _) written⟩
    · rw [if_neg large]
      exact ih (fun line member => plain line (by simp [member]))
        (fun line member => short line (by simp [member])) ⟨Nat.le_of_not_lt large, room.dispatched⟩
        appended

end Connection

/-- The requests of a stream: its closed lines, without one carriage return at their end,
that are not empty then. -/
def requestsOf (stream : List Byte) : List (List Byte) := requests (cutLines newline stream).1

/-- However a stream is cut up, the requests of its lines are dispatched in order, each with
one reply line; behind them, what is left over is refused when it is too long. No line
beyond the limit is ever dispatched. -/
theorem handleConnection_framing (around : Surroundings) (chunks : List Received) :
    (around.Steady →
      (∀ line ∈ (cutLines newline (chunks.flatMap Received.bytes)).1, line.length ≤ 15360) →
      (Connection.handleConnection around {} chunks).dispatched =
          requestsOf (chunks.flatMap Received.bytes) ∧
        (Connection.handleConnection around {} chunks).written =
          around.answers (requestsOf (chunks.flatMap Received.bytes)) ++
            Connection.refusal (cutLines newline (chunks.flatMap Received.bytes)).2) ∧
      ∀ line ∈ (Connection.handleConnection around {} chunks).dispatched, line.length ≤ 16384 := by
  have start : Connection.Limited {} := ⟨by simp, by simp⟩
  refine ⟨fun steady short => ?_, start.handleConnection chunks⟩
  obtain ⟨whole, plain, open_left⟩ := cutLines_spec newline (chunks.flatMap Received.bytes)
  have reading : Connection.Reading around [] (cutLines newline (chunks.flatMap Received.bytes)).1
      (cutLines newline (chunks.flatMap Received.bytes)).2 (chunks.flatMap Received.bytes) {} :=
    ⟨rfl, rfl, whole⟩
  exact Connection.handleConnection_reading steady chunks plain short open_left start reading

/-- A client that is told what it said. -/
def echo : Surroundings := ⟨fun _ line => line, fun _ => true, fun _ => true⟩

theorem handleConnection_framing_echo :
    (Connection.handleConnection echo {} [⟨[0x61], by decide, by decide⟩,
      ⟨[carriageReturn, newline, 0x62], by decide, by decide⟩]).dispatched = [[0x61]] :=
  ((handleConnection_framing echo _).1 ⟨fun _ => rfl, fun _ => rfl⟩ (by decide)).1

/-- A line that is one carriage return is not empty, and yet nothing is dispatched for it. -/
theorem not_dispatched_lone_return :
    ¬∀ (around : Surroundings) (chunks : List Received), around.Steady →
      (∀ line ∈ (cutLines newline (chunks.flatMap Received.bytes)).1, line.length ≤ 15360) →
      (Connection.handleConnection around {} chunks).dispatched =
        ((cutLines newline (chunks.flatMap Received.bytes)).1.filter (· ≠ [])).map trimReturn := by
  intro all
  have steady : echo.Steady := ⟨fun _ => rfl, fun _ => rfl⟩
  let chunk : Received := ⟨[carriageReturn, newline], by decide, by decide⟩
  have claimed := all echo [chunk] steady (by decide)
  have reading : Connection.Reading echo [] [[carriageReturn]] [] ([chunk].flatMap Received.bytes) {} :=
    ⟨rfl, rfl, rfl⟩
  have done := Connection.handleConnection_reading steady [chunk] (by decide) (by decide) (by decide)
    ⟨by simp, by simp⟩ reading
  rw [done.1] at claimed
  exact absurd claimed (by decide)

end ZeeboLle.Control
