import ZeeboLle.Control.Channel

/-! Which reply a call gets. The server takes the calls' lines in order, one at a time, and
writes one reply for each, so its n-th reply is for the n-th call. The client counts on it
and reads one line a call; a call it gives up on leaves its reply to the next one. -/
namespace ZeeboLle.Control

open Unicorn Streams Scheduling

namespace Channel

/-- The requests in the order they were queued. -/
def pending (channel : Channel) : List Pending := channel.executed ++ channel.batch ++ channel.queue

/-- How many lines the server has taken. -/
def taken (channel : Channel) : Nat :=
  match channel.handler with
  | .waiting id => id + 1
  | .reading | .closed => channel.replies.length

end Channel

/-- The replies the server gives without executing a request. -/
def ownReplies : List Line := [parseError, timeoutError, requestTooLarge]

/-- What holds on the server's side whatever the client does: the lines not yet taken are in
the buffer and the stream, the requests are queued in the order of the calls, and a reply
is the server's own or what its request's execution promised. -/
structure Serves (channel : Channel) : Prop where
  current : ∀ id, channel.handler = .waiting id → id = channel.replies.length
  bounded : channel.taken ≤ channel.calls.length
  stream : channel.handler ≠ .closed →
    channel.buf ++ channel.toServer = frames newline ((channel.calls.drop channel.taken).map (·.bytes))
  ordered : (channel.pending.map (·.id)).Pairwise (· < ·)
  issued : ∀ pending ∈ channel.pending, pending.id < channel.taken ∧
    (channel.calls[pending.id]?).map (·.bytes) = some pending.line
  promised : ∀ id reply, channel.promises id = some reply → id ∈ channel.executed.map (·.id)
  answered : ∀ (id : Nat) reply, channel.replies[id]? = some reply →
    reply ∈ ownReplies ∨ channel.promises id = some reply

namespace Serves

variable {channel : Channel}

theorem start : Serves Channel.start where
  current _ waits := by cases waits
  bounded := Nat.zero_le _
  stream _ := rfl
  ordered := List.Pairwise.nil
  issued _ member := by cases member
  promised _ _ promise := by cases promise
  answered _ _ found := by cases found

/-- What the client reads and returns is nothing to the server. -/
theorem client (serves : Serves channel) (toClient : List Byte) (client : Client)
    (returned : List (Nat × Outcome)) (timedOut : List Nat) :
    Serves { channel with toClient, client, returned, timedOut } :=
  ⟨serves.current, serves.bounded, serves.stream, serves.ordered, serves.issued, serves.promised,
    serves.answered⟩

theorem call (serves : Serves channel) (request : Request) : Serves (channel.call request) := by
  unfold Channel.call
  split
  · refine ⟨serves.current, ?_, ?_, serves.ordered, ?_, serves.promised, serves.answered⟩
    · exact Nat.le_trans serves.bounded (by simp)
    · intro open_
      have stream := serves.stream open_
      change channel.buf ++ (channel.toServer ++ (request.bytes ++ [newline])) =
        frames newline (((channel.calls ++ [request]).drop channel.taken).map (·.bytes))
      rw [List.drop_append_of_le_length serves.bounded, List.map_append, frames_append,
        ← List.append_assoc, stream]
      simp
    · intro pending member
      obtain ⟨before, line⟩ := serves.issued pending member
      refine ⟨before, ?_⟩
      change ((channel.calls ++ [request])[pending.id]?).map (·.bytes) = some pending.line
      rw [List.getElem?_append_left (Nat.lt_of_lt_of_le before serves.bounded)]
      exact line
  · exact serves

/-- Bytes in the buffer or the stream belong to a call whose line is not yet taken. -/
theorem taken_lt (serves : Serves channel) (open_ : channel.handler ≠ .closed)
    (some_ : channel.buf ++ channel.toServer ≠ []) : channel.taken < channel.calls.length := by
  by_contra none
  rw [serves.stream open_, List.drop_eq_nil_of_le (Nat.le_of_not_lt none)] at some_
  exact some_ rfl

/-- A reply that ends the server's turn at a line. -/
theorem answered_write (serves : Serves channel) {reply : Line}
    (own : reply ∈ ownReplies ∨ channel.promises channel.replies.length = some reply) (id : Nat)
    (found : Line) (at_ : (channel.replies ++ [reply])[id]? = some found) :
    found ∈ ownReplies ∨ channel.promises id = some found := by
  rcases Nat.lt_trichotomy id channel.replies.length with earlier | last | beyond
  · rw [List.getElem?_append_left earlier] at at_
    exact serves.answered id found at_
  · subst last
    rw [List.getElem?_concat_length] at at_
    cases at_
    exact own
  · rw [List.getElem?_eq_none (by simpa using Nat.succ_le_of_lt beyond)] at at_
    cases at_

/-- The end of the server's turn at a line: one more reply, and the thread reads on or goes. -/
theorem reply (serves : Serves channel) {reply : Line} {handler : Handler} {buf toServer : List Byte}
    (own : reply ∈ ownReplies ∨ channel.promises channel.replies.length = some reply)
    (more : channel.replies.length < channel.calls.length)
    (turn : channel.taken ≤ channel.replies.length + 1) (free : ∀ id, handler ≠ .waiting id)
    (stream : handler ≠ .closed → buf ++ toServer =
      frames newline ((channel.calls.drop (channel.replies.length + 1)).map (·.bytes)))
    (toClient : List Byte) (timedOut : List Nat) :
    Serves { channel with
      replies := channel.replies ++ [reply], handler, buf, toServer, toClient, timedOut } := by
  have taken : ∀ after : Channel, after.replies = channel.replies ++ [reply] →
      after.handler = handler → after.taken = channel.replies.length + 1 := by
    intro after replies same
    have length : after.replies.length = channel.replies.length + 1 := by simp [replies]
    unfold Channel.taken
    rw [same]
    cases handler with
    | waiting id => exact absurd rfl (free id)
    | reading => exact length
    | closed => exact length
  refine ⟨fun id waits => absurd waits (free id), ?_, ?_, serves.ordered, ?_, serves.promised,
    serves.answered_write own⟩
  · rw [taken _ rfl rfl]
    exact more
  · intro open_
    rw [taken _ rfl rfl]
    exact stream open_
  · intro pending member
    obtain ⟨before, line⟩ := serves.issued pending member
    rw [taken _ rfl rfl]
    exact ⟨Nat.lt_of_lt_of_le before turn, line⟩

theorem taken_reading (reading : channel.handler = .reading) :
    channel.taken = channel.replies.length := by
  unfold Channel.taken
  rw [reading]

theorem serverRecv (serves : Serves channel) (count : Nat) : Serves (channel.serverRecv count) := by
  unfold Channel.serverRecv
  split
  · rename_i due
    have stream := serves.stream (by simp [due.1])
    have moved : channel.buf ++ channel.toServer.take (min count 1024) ++
        channel.toServer.drop (min count 1024) = channel.buf ++ channel.toServer := by
      rw [List.append_assoc, List.take_append_drop]
    dsimp only
    split
    · rename_i large
      have more := serves.taken_lt (by simp [due.1]) (by
        intro empty
        rw [← moved] at empty
        rw [(List.append_eq_nil_iff.mp empty).1] at large
        simp at large)
      rw [taken_reading due.1] at more
      apply serves.reply (.inl (by simp [ownReplies])) more
      · rw [taken_reading due.1]
        exact Nat.le_succ _
      · intro id
        exact Handler.noConfusion
      · intro open_
        exact absurd rfl open_
    · exact ⟨serves.current, serves.bounded, fun _ => moved.trans stream, serves.ordered,
        serves.issued, serves.promised, serves.answered⟩
  · exact serves

/-- A whole line in the buffer is that of the first call not yet taken. -/
theorem takeLine_eq (serves : Serves channel) (reading : channel.handler = .reading)
    (whole : newline ∈ channel.buf) :
    ∃ request, channel.calls[channel.replies.length]? = some request ∧
      (takeLine newline channel.buf).1 = request.bytes ∧
      (takeLine newline channel.buf).2 ++ channel.toServer =
        frames newline ((channel.calls.drop (channel.replies.length + 1)).map (·.bytes)) := by
  have more := serves.taken_lt (by simp [reading]) (by
    intro empty
    rw [(List.append_eq_nil_iff.mp empty).1] at whole
    cases whole)
  have stream := serves.stream (by simp [reading])
  rw [taken_reading reading] at more stream
  rw [List.drop_eq_getElem_cons more, List.map_cons, frames_cons] at stream
  obtain ⟨line, rest⟩ := takeLine_frames (channel.calls[channel.replies.length]).plain stream whole
  exact ⟨_, List.getElem?_eq_getElem more, line, rest⟩

theorem trimReturn_bytes (request : Request) : trimReturn request.bytes = request.bytes :=
  if_neg request.closed

/-- A request joins the queue behind all others. -/
theorem enqueue (serves : Serves channel) (reading : channel.handler = .reading) {request : Request}
    (call : channel.calls[channel.replies.length]? = some request) {buf : List Byte}
    (stream : buf ++ channel.toServer =
      frames newline ((channel.calls.drop (channel.replies.length + 1)).map (·.bytes))) :
    Serves { channel with
      buf
      queue := channel.queue ++ [⟨channel.replies.length, request.bytes⟩]
      handler := .waiting channel.replies.length } := by
  have taken := taken_reading reading
  have joined : channel.executed ++ channel.batch ++
      (channel.queue ++ [⟨channel.replies.length, request.bytes⟩]) =
        channel.pending ++ [⟨channel.replies.length, request.bytes⟩] := (List.append_assoc ..).symm
  refine ⟨?_, (List.getElem?_eq_some_iff.mp call).1, fun _ => stream, ?_, ?_, serves.promised,
    serves.answered⟩
  · rintro id ⟨⟩
    rfl
  · change List.Pairwise _ ((channel.executed ++ channel.batch ++ (channel.queue ++ _)).map _)
    rw [joined, List.map_append, List.pairwise_append]
    refine ⟨serves.ordered, List.pairwise_singleton .., ?_⟩
    intro earlier member id last
    obtain ⟨pending, present, rfl⟩ := List.mem_map.mp member
    rw [List.map_singleton, List.mem_singleton] at last
    rw [last, ← taken]
    exact (serves.issued pending present).1
  · intro pending member
    change pending ∈ channel.executed ++ channel.batch ++ (channel.queue ++ _) at member
    rw [joined, List.mem_append, List.mem_singleton] at member
    rcases member with earlier | rfl
    · obtain ⟨before, line⟩ := serves.issued pending earlier
      rw [taken] at before
      exact ⟨Nat.lt_succ_of_lt before, line⟩
    · exact ⟨Nat.lt_succ_self _, congrArg (Option.map (·.bytes)) call⟩

theorem dispatch (serves : Serves channel) : Serves channel.dispatch := by
  unfold Channel.dispatch
  split
  · rename_i due
    obtain ⟨reading, whole⟩ := due
    obtain ⟨request, call, line, stream⟩ := serves.takeLine_eq reading whole
    dsimp only
    rw [line, trimReturn_bytes, if_neg request.filled]
    split
    · apply serves.reply (.inl (by simp [ownReplies])) (List.getElem?_eq_some_iff.mp call).1
      · rw [taken_reading reading]
        exact Nat.le_succ _
      · intro id
        rw [reading]
        exact Handler.noConfusion
      · exact fun _ => stream
    · exact serves.enqueue reading call stream
  · exact serves

/-- The end of a wait, in time or not. -/
theorem endWait (serves : Serves channel) {id : Nat} (waits : channel.handler = .waiting id) {reply : Line}
    (own : reply ∈ ownReplies ∨ channel.promises id = some reply) (timedOut : List Nat) :
    Serves { channel.write reply with handler := .reading, timedOut } := by
  have current := serves.current id waits
  have taken : channel.taken = channel.replies.length + 1 := by
    unfold Channel.taken
    rw [waits, current]
  have stream := serves.stream (by simp [waits])
  have bounded := serves.bounded
  rw [taken] at stream bounded
  rw [current] at own
  exact serves.reply own bounded (Nat.le_of_eq taken) (fun _ => Handler.noConfusion) (fun _ => stream) _ _

theorem answer (serves : Serves channel) : Serves channel.answer := by
  unfold Channel.answer
  split
  · rename_i id waits
    split
    · rename_i reply kept
      exact serves.endWait waits (.inr kept) channel.timedOut
    · exact serves
  · exact serves

theorem serverTimeout (serves : Serves channel) : Serves channel.serverTimeout := by
  unfold Channel.serverTimeout
  split
  · rename_i id waits
    split
    · exact serves
    · exact serves.endWait waits (.inl (by simp [ownReplies])) _
  · exact serves

theorem drain (serves : Serves channel) : Serves channel.drain := by
  unfold Channel.drain
  split
  · rename_i done
    have same : channel.executed ++ channel.queue ++ [] = channel.pending := by
      rw [Channel.pending, done, List.append_nil, List.append_nil]
    refine ⟨serves.current, serves.bounded, serves.stream, ?_, ?_, serves.promised, serves.answered⟩
    · change List.Pairwise _ ((channel.executed ++ channel.queue ++ []).map _)
      rw [same]
      exact serves.ordered
    · change ∀ pending ∈ channel.executed ++ channel.queue ++ [], _
      rw [same]
      exact serves.issued
  · exact serves

/-- The next of the batch has not been executed before. -/
theorem not_executed (serves : Serves channel) {next : Pending} {rest : List Pending}
    (batch : channel.batch = next :: rest) : next.id ∉ channel.executed.map (·.id) := by
  intro executed
  have ordered := serves.ordered
  rw [Channel.pending, batch, List.append_assoc, List.map_append, List.pairwise_append] at ordered
  exact Nat.lt_irrefl _ (ordered.2.2 next.id executed next.id (by simp))

theorem execute (serves : Serves channel) (reply : Line) : Serves (channel.execute reply) := by
  unfold Channel.execute
  split
  · exact serves
  · rename_i next rest batch
    have same : channel.executed ++ [next] ++ rest ++ channel.queue = channel.pending := by
      rw [Channel.pending, batch]
      simp
    refine ⟨serves.current, serves.bounded, serves.stream, ?_, ?_, ?_, ?_⟩
    · change List.Pairwise _ ((channel.executed ++ [next] ++ rest ++ channel.queue).map _)
      rw [same]
      exact serves.ordered
    · change ∀ pending ∈ channel.executed ++ [next] ++ rest ++ channel.queue, _
      rw [same]
      exact serves.issued
    · intro id kept promise
      rw [List.map_append, List.mem_append]
      by_cases now : id = next.id
      · exact .inr (by simp [now])
      · left
        exact serves.promised id kept ((Function.update_of_ne now ..).symm.trans promise)
    · intro id found at_
      rcases serves.answered id found at_ with own | promise
      · exact .inl own
      · right
        have other : id ≠ next.id := by
          intro now
          rw [now] at promise
          exact serves.not_executed batch (serves.promised _ _ promise)
        exact (Function.update_of_ne other ..).trans promise

theorem clientRecv (serves : Serves channel) (count : Nat) : Serves (channel.clientRecv count) := by
  unfold Channel.clientRecv
  split
  · exact serves
  · dsimp only
    split
    · exact serves.client ..
    · exact serves.client ..

theorem clientTimeout (serves : Serves channel) : Serves channel.clientTimeout := by
  unfold Channel.clientTimeout
  split
  · exact serves
  · exact serves.client ..

theorem clientEof (serves : Serves channel) : Serves channel.clientEof := by
  unfold Channel.clientEof
  split
  · exact serves
  · split
    · exact serves.client ..
    · exact serves

theorem step (serves : Serves channel) (action : Action) : Serves (channel.step action) := by
  cases action with
  | call request => exact serves.call request
  | serverRecv count => exact serves.serverRecv count
  | dispatch => exact serves.dispatch
  | answer => exact serves.answer
  | serverTimeout => exact serves.serverTimeout
  | drain => exact serves.drain
  | execute reply => exact serves.execute reply
  | clientRecv count => exact serves.clientRecv count
  | clientTimeout => exact serves.clientTimeout
  | clientEof => exact serves.clientEof

theorem run (serves : Serves channel) (actions : List Action) : Serves (channel.run actions) := by
  induction actions generalizing channel with
  | nil => exact serves
  | cons action rest ih => exact ih (serves.step action)

end Serves

/-- What a call returned is the whole of its own reply, or nothing from a server that is gone. -/
def Belongs (channel : Channel) (id : Nat) : Outcome → Prop
  | .reply data => ∃ reply, channel.replies[id]? = some reply ∧ data = reply.bytes ++ [newline]
  | .eof data => data = []
  | .timeout => True

/-- Between calls nothing is on its way to the client; within one, only the call's reply. -/
structure Follows (channel : Channel) : Prop where
  idle : channel.client = .idle → channel.toClient = [] ∧
    (channel.replies.length = channel.calls.length ∨ channel.handler = .closed)
  waiting : ∀ data, channel.client = .waiting data → channel.calls ≠ [] ∧ newline ∉ data ∧
    data ++ channel.toClient = frames newline ((channel.replies.drop channel.current).map (·.bytes)) ∧
    (channel.current ≤ channel.replies.length ∨ channel.handler = .closed)
  returned : ∀ id outcome, (id, outcome) ∈ channel.returned → Belongs channel id outcome

theorem Serves.replies_le {channel : Channel} (serves : Serves channel) :
    channel.replies.length ≤ channel.calls.length := by
  have bounded := serves.bounded
  unfold Channel.taken at bounded
  split at bounded
  · rename_i id waits
    rw [← serves.current id waits]
    exact Nat.le_of_succ_le bounded
  · exact bounded
  · exact bounded

namespace Follows

variable {channel : Channel}

theorem start : Follows Channel.start where
  idle _ := ⟨rfl, .inl rfl⟩
  waiting _ waits := by cases waits
  returned _ _ member := by cases member

/-- What the server does without writing is nothing to the client. -/
theorem server (follows : Follows channel) {handler : Handler}
    (closing : channel.handler = .closed → handler = .closed) (buf toServer : List Byte)
    (queue batch executed : List Pending) (promises : Nat → Option Line) :
    Follows { channel with handler, buf, toServer, queue, batch, executed, promises } := by
  refine ⟨?_, ?_, follows.returned⟩
  · intro idle
    obtain ⟨empty, all⟩ := follows.idle idle
    exact ⟨empty, all.imp_right closing⟩
  · intro data waits
    obtain ⟨called, part, stream, all⟩ := follows.waiting data waits
    exact ⟨called, part, stream, all.imp_right closing⟩

/-- A reply goes to the call under way. -/
theorem write (follows : Follows channel) (more : channel.replies.length < channel.calls.length)
    (open_ : channel.handler ≠ .closed) (reply : Line) (handler : Handler) (buf toServer : List Byte)
    (timedOut : List Nat) :
    Follows { channel.write reply with handler, buf, toServer, timedOut } := by
  refine ⟨?_, ?_, ?_⟩
  · intro idle
    obtain ⟨_, all⟩ := follows.idle idle
    exact absurd (all.resolve_right open_) (Nat.ne_of_lt more)
  · intro data waits
    obtain ⟨called, part, stream, all⟩ := follows.waiting data waits
    have reached := all.resolve_right open_
    refine ⟨called, part, ?_, .inl ?_⟩
    · change data ++ (channel.toClient ++ (reply.bytes ++ [newline])) =
        frames newline (((channel.replies ++ [reply]).drop channel.current).map (·.bytes))
      rw [List.drop_append_of_le_length reached, List.map_append, frames_append,
        ← List.append_assoc, stream]
      simp
    · change channel.current ≤ (channel.replies ++ [reply]).length
      rw [List.length_append]
      exact Nat.le_add_right_of_le reached
  · intro id outcome member
    have before := follows.returned id outcome member
    cases outcome with
    | reply data =>
      obtain ⟨own, found, whole⟩ := before
      refine ⟨own, ?_, whole⟩
      change (channel.replies ++ [reply])[id]? = some own
      rw [List.getElem?_append_left (List.getElem?_eq_some_iff.mp found).1]
      exact found
    | eof data => exact before
    | timeout => trivial

theorem call (follows : Follows channel) (serves : Serves channel) (request : Request) :
    Follows (channel.call request) := by
  unfold Channel.call
  split
  · rename_i idle
    obtain ⟨empty, all⟩ := follows.idle idle
    refine ⟨by rintro ⟨⟩, ?_, follows.returned⟩
    rintro data ⟨⟩
    have current : ({ channel with calls := channel.calls ++ [request] } : Channel).current =
        channel.calls.length := by
      rw [Channel.current, List.length_append]
      exact Nat.add_sub_cancel ..
    refine ⟨by simp, List.not_mem_nil, ?_, ?_⟩
    · change [] ++ channel.toClient = frames newline ((channel.replies.drop
        ({ channel with calls := channel.calls ++ [request] } : Channel).current).map (·.bytes))
      rw [current, List.drop_eq_nil_of_le serves.replies_le, empty]
      rfl
    · change ({ channel with calls := channel.calls ++ [request] } : Channel).current ≤
        channel.replies.length ∨ channel.handler = .closed
      rw [current]
      exact all.imp_left (fun same => Nat.le_of_eq same.symm)
  · exact follows

theorem serverRecv (follows : Follows channel) (serves : Serves channel) (count : Nat) :
    Follows (channel.serverRecv count) := by
  unfold Channel.serverRecv
  split
  · rename_i due
    dsimp only
    split
    · rename_i large
      apply follows.write _ (by simp [due.1])
      rw [← Serves.taken_reading due.1]
      apply serves.taken_lt (by simp [due.1])
      intro empty
      obtain ⟨buf, toServer⟩ := List.append_eq_nil_iff.mp empty
      simp [buf, toServer] at large
    · exact follows.server (fun closed => closed) ..
  · exact follows

theorem dispatch (follows : Follows channel) (serves : Serves channel) : Follows channel.dispatch := by
  unfold Channel.dispatch
  split
  · rename_i due
    obtain ⟨request, call, _, _⟩ := serves.takeLine_eq due.1 due.2
    dsimp only
    split
    · exact follows.server (fun closed => closed) ..
    · split
      · exact follows.write (List.getElem?_eq_some_iff.mp call).1 (by simp [due.1]) ..
      · refine follows.server (fun closed => ?_) ..
        rw [due.1] at closed
        cases closed
  · exact follows

/-- A wait of the server is for a call not yet replied to. -/
theorem endWait (follows : Follows channel) (serves : Serves channel) {id : Nat}
    (waits : channel.handler = .waiting id) (reply : Line) (timedOut : List Nat) :
    Follows { channel.write reply with handler := .reading, timedOut } := by
  have more : channel.replies.length < channel.calls.length := by
    have bounded := serves.bounded
    rw [Channel.taken, waits] at bounded
    rw [← serves.current id waits]
    exact bounded
  exact follows.write more (by simp [waits]) reply .reading channel.buf channel.toServer timedOut

theorem answer (follows : Follows channel) (serves : Serves channel) : Follows channel.answer := by
  unfold Channel.answer
  split
  · rename_i id waits
    split
    · exact follows.endWait serves waits _ channel.timedOut
    · exact follows
  · exact follows

theorem serverTimeout (follows : Follows channel) (serves : Serves channel) :
    Follows channel.serverTimeout := by
  unfold Channel.serverTimeout
  split
  · rename_i id waits
    split
    · exact follows
    · exact follows.endWait serves waits ..
  · exact follows

theorem drain (follows : Follows channel) : Follows channel.drain := by
  unfold Channel.drain
  split
  · exact follows.server (fun closed => closed) ..
  · exact follows

theorem execute (follows : Follows channel) (reply : Line) : Follows (channel.execute reply) := by
  unfold Channel.execute
  split
  · exact follows
  · exact follows.server (fun closed => closed) ..

/-- A line end in what a call has received ends its own reply, and nothing follows. -/
theorem whole_reply (follows : Follows channel) (serves : Serves channel) {data received rest : List Byte}
    (waits : channel.client = .waiting data) (split : received ++ rest = data ++ channel.toClient)
    (found : newline ∈ received) :
    channel.replies.length = channel.calls.length ∧ rest = [] ∧
      Belongs channel channel.current (.reply received) := by
  obtain ⟨called, _, stream, _⟩ := follows.waiting data waits
  have last : channel.current + 1 = channel.calls.length :=
    Nat.sub_add_cancel (List.length_pos_of_ne_nil called)
  rw [stream] at split
  have reached : channel.current < channel.replies.length := by
    by_contra none
    rw [List.drop_eq_nil_of_le (Nat.le_of_not_lt none)] at split
    rw [(List.append_eq_nil_iff.mp split).1] at found
    cases found
  have all : channel.replies.length = channel.current + 1 := by
    have most := serves.replies_le
    omega
  have beyond : channel.replies.drop (channel.current + 1) = [] :=
    List.drop_eq_nil_of_le (Nat.le_of_eq all)
  rw [List.drop_eq_getElem_cons reached, beyond, List.map_singleton, frames_singleton] at split
  obtain ⟨whole, empty⟩ := whole_frame (channel.replies[channel.current]).plain split found
  exact ⟨all.trans last, empty, _, List.getElem?_eq_getElem reached, whole⟩

theorem returned_finish (follows : Follows channel) {outcome : Outcome}
    (belongs : Belongs channel channel.current outcome) (id : Nat) (ended : Outcome)
    (member : (id, ended) ∈ channel.returned ++ [(channel.current, outcome)]) :
    Belongs channel id ended := by
  rcases List.mem_append.mp member with earlier | last
  · exact follows.returned id ended earlier
  · obtain ⟨rfl, rfl⟩ := Prod.mk.inj (List.mem_singleton.mp last)
    exact belongs

theorem clientRecv (follows : Follows channel) (serves : Serves channel) (count : Nat) :
    Follows (channel.clientRecv count) := by
  unfold Channel.clientRecv
  split
  · exact follows
  · rename_i data waits
    obtain ⟨called, _, stream, all⟩ := follows.waiting data waits
    have moved : data ++ channel.toClient.take (min count 4096) ++
        channel.toClient.drop (min count 4096) = data ++ channel.toClient := by
      rw [List.append_assoc, List.take_append_drop]
    dsimp only
    split
    · rename_i found
      obtain ⟨replied, empty, belongs⟩ := follows.whole_reply serves waits moved found
      exact ⟨fun _ => ⟨empty, .inl replied⟩, by rintro _ ⟨⟩, follows.returned_finish belongs⟩
    · rename_i part
      refine ⟨by rintro ⟨⟩, ?_, follows.returned⟩
      rintro _ ⟨⟩
      exact ⟨called, part, moved.trans stream, all⟩

theorem clientEof (follows : Follows channel) : Follows channel.clientEof := by
  unfold Channel.clientEof
  split
  · exact follows
  · rename_i data waits
    split
    · rename_i gone
      obtain ⟨_, part, stream, _⟩ := follows.waiting data waits
      rw [gone.2, List.append_nil] at stream
      have empty : data = [] := by
        rw [stream] at part
        rw [stream, frames_eq_nil_of_not_mem part]
        rfl
      exact ⟨fun _ => ⟨gone.2, .inr gone.1⟩, by rintro _ ⟨⟩, follows.returned_finish empty⟩
    · exact follows

theorem step (follows : Follows channel) (serves : Serves channel) {action : Action}
    (patient : action ≠ .clientTimeout) : Follows (channel.step action) := by
  cases action with
  | call request => exact follows.call serves request
  | serverRecv count => exact follows.serverRecv serves count
  | dispatch => exact follows.dispatch serves
  | answer => exact follows.answer serves
  | serverTimeout => exact follows.serverTimeout serves
  | drain => exact follows.drain
  | execute reply => exact follows.execute reply
  | clientRecv count => exact follows.clientRecv serves count
  | clientTimeout => exact absurd rfl patient
  | clientEof => exact follows.clientEof

theorem run (follows : Follows channel) (serves : Serves channel) {actions : List Action}
    (patient : .clientTimeout ∉ actions) : Follows (channel.run actions) := by
  induction actions generalizing channel with
  | nil => exact follows
  | cons action rest ih =>
    obtain ⟨now, later⟩ := not_or.mp (mt List.mem_cons.mpr patient)
    exact ih (follows.step serves (Ne.symm now)) (serves.step action) later

end Follows

/-- A time-out is given only for a request that has been executed. -/
def TimesOutLate (channel : Channel) : Action → Prop
  | .serverTimeout => ∀ id, channel.handler = .waiting id → channel.promises id = none →
      id ∈ channel.executed.map (·.id)
  | .clientTimeout => ∀ data, channel.client = .waiting data →
      channel.current ∈ channel.executed.map (·.id)
  | _ => True

/-- What is executed next has not been answered with a time-out. -/
def SparesTimedOut (channel : Channel) : Action → Prop
  | .execute _ => ∀ next rest, channel.batch = next :: rest → next.id ∉ channel.timedOut
  | _ => True

/-- Every time-out so far was for an executed request. -/
def Spent (channel : Channel) : Prop := ∀ id ∈ channel.timedOut, id ∈ channel.executed.map (·.id)

theorem Spent.push {channel : Channel} (spent : Spent channel) {id : Nat}
    (executed : id ∈ channel.executed.map (·.id)) :
    ∀ late ∈ channel.timedOut ++ [id], late ∈ channel.executed.map (·.id) := by
  intro late member
  rcases List.mem_append.mp member with earlier | last
  · exact spent late earlier
  · rw [List.mem_singleton.mp last]
    exact executed

/-- The other actions record no time-out and execute nothing. -/
theorem step_quiet (channel : Channel) {action : Action} (server : action ≠ .serverTimeout)
    (client : action ≠ .clientTimeout) (loop : ∀ reply, action ≠ .execute reply) :
    (channel.step action).timedOut = channel.timedOut ∧
      (channel.step action).executed = channel.executed := by
  cases action with
  | call request =>
    simp only [Channel.step, Channel.call]
    split
    · exact ⟨rfl, rfl⟩
    · exact ⟨rfl, rfl⟩
  | serverRecv count =>
    simp only [Channel.step, Channel.serverRecv]
    split
    · split
      · exact ⟨rfl, rfl⟩
      · exact ⟨rfl, rfl⟩
    · exact ⟨rfl, rfl⟩
  | dispatch =>
    simp only [Channel.step, Channel.dispatch]
    split
    · split
      · exact ⟨rfl, rfl⟩
      · split
        · exact ⟨rfl, rfl⟩
        · exact ⟨rfl, rfl⟩
    · exact ⟨rfl, rfl⟩
  | answer =>
    simp only [Channel.step, Channel.answer]
    split
    · split
      · exact ⟨rfl, rfl⟩
      · exact ⟨rfl, rfl⟩
    · exact ⟨rfl, rfl⟩
  | serverTimeout => exact absurd rfl server
  | drain =>
    simp only [Channel.step, Channel.drain]
    split
    · exact ⟨rfl, rfl⟩
    · exact ⟨rfl, rfl⟩
  | execute reply => exact absurd rfl (loop reply)
  | clientRecv count =>
    simp only [Channel.step, Channel.clientRecv]
    split
    · exact ⟨rfl, rfl⟩
    · split
      · exact ⟨rfl, rfl⟩
      · exact ⟨rfl, rfl⟩
  | clientTimeout => exact absurd rfl client
  | clientEof =>
    simp only [Channel.step, Channel.clientEof]
    split
    · exact ⟨rfl, rfl⟩
    · split
      · exact ⟨rfl, rfl⟩
      · exact ⟨rfl, rfl⟩

theorem Spent.step {channel : Channel} (spent : Spent channel) {action : Action}
    (late : TimesOutLate channel action) : Spent (channel.step action) := by
  by_cases server : action = .serverTimeout
  · subst server
    simp only [Channel.step, Channel.serverTimeout]
    split
    · rename_i id waits
      split
      · exact spent
      · rename_i unkept
        exact spent.push (late id waits unkept)
    · exact spent
  · by_cases client : action = .clientTimeout
    · subst client
      simp only [Channel.step, Channel.clientTimeout]
      split
      · exact spent
      · rename_i data waits
        exact spent.push (late data waits)
    · by_cases loop : ∃ reply, action = .execute reply
      · obtain ⟨reply, rfl⟩ := loop
        simp only [Channel.step, Channel.execute]
        split
        · exact spent
        · intro id member
          change id ∈ (channel.executed ++ _).map _
          rw [List.map_append]
          exact List.mem_append_left _ (spent id member)
      · obtain ⟨timedOut, executed⟩ := step_quiet channel server client (not_exists.mp loop)
        intro id member
        rw [timedOut] at member
        rw [executed]
        exact spent id member

theorem Spent.run {channel : Channel} (spent : Spent channel) {actions : List Action}
    (late : Throughout (fun before action => TimesOutLate (channel.run before) action) actions) :
    Spent (channel.run actions) := by
  induction actions using List.reverseRecOn with
  | nil => exact spent
  | append_singleton actions action ih =>
    rw [throughout_snoc] at late
    rw [Channel.run, List.foldl_append]
    exact (ih late.1).step late.2

/-- A request whose time-outs come late is not executed again after them. -/
theorem Spent.sparesTimedOut {channel : Channel} (spent : Spent channel) (serves : Serves channel)
    (action : Action) : SparesTimedOut channel action := by
  cases action with
  | execute reply =>
    intro next rest batch member
    exact serves.not_executed batch (spent next.id member)
  | _ => trivial

/-- Requests are executed in the order of their calls, each at most once. -/
def InOrder (channel : Channel) : Prop :=
  (channel.executed.map (·.id)).Pairwise (· < ·) ∧
    ∀ pending ∈ channel.executed, (channel.calls[pending.id]?).map (·.bytes) = some pending.line

/-- A reply is the server's own, or what came of executing the request of that number. -/
def Answers (channel : Channel) : Prop :=
  ∀ (id : Nat) reply, channel.replies[id]? = some reply →
    reply ∈ ownReplies ∨ channel.promises id = some reply

theorem Serves.inOrder {channel : Channel} (serves : Serves channel) : InOrder channel := by
  have ordered := serves.ordered
  rw [Channel.pending, List.append_assoc, List.map_append, List.pairwise_append] at ordered
  refine ⟨ordered.1, ?_⟩
  intro pending member
  refine (serves.issued pending ?_).2
  rw [Channel.pending, List.append_assoc]
  exact List.mem_append_left _ member

/-- In every run requests are executed in order and at most once, and the server's n-th reply
is for the n-th call. Every call returns its own reply if the client never times out, and
what was answered with a time-out is not executed afterwards if time-outs only come once
the request has been executed. -/
theorem replies_belong (actions : List Action) :
    let state (before : List Action) := Channel.start.run before
    InOrder (state actions) ∧ Answers (state actions) ∧
      (.clientTimeout ∉ actions →
        ∀ id outcome, (id, outcome) ∈ (state actions).returned → Belongs (state actions) id outcome) ∧
      (Throughout (fun before action => TimesOutLate (state before) action) actions →
        Throughout (fun before action => SparesTimedOut (state before) action) actions) := by
  intro state
  have serves (before : List Action) : Serves (state before) := Serves.start.run before
  refine ⟨(serves actions).inOrder, (serves actions).answered, ?_, ?_⟩
  · intro patient
    exact (Follows.start.run Serves.start patient).returned
  · intro late before action after split
    have spent : Spent (state before) := by
      have none : Spent Channel.start := by
        intro id member
        cases member
      apply none.run
      intro earlier now later found
      exact late earlier now (later ++ action :: after) (by simp [split, found])
    exact spent.sparesTimedOut (serves before) action

/-- `json.dumps` of a command without parameters. -/
def ping : Request :=
  ⟨⟨ascii "\x7b\"cmd\": \"ping\"\x7d", by decide +kernel⟩, by decide +kernel, by decide +kernel⟩

def vramStat : Request :=
  ⟨⟨ascii "\x7b\"cmd\": \"vram_stat\"\x7d", by decide +kernel⟩, by decide +kernel, by decide +kernel⟩

def pong : Line := ⟨ascii "\x7b\"ok\":true,\"pong\":true\x7d", by decide +kernel⟩

/-- A call that is executed and answered in time. -/
def prompt : List Action :=
  [.call ping, .serverRecv 1024, .dispatch, .drain, .execute pong, .answer, .clientRecv 4096]

theorem replies_belong_prompt :
    Belongs (Channel.start.run prompt) 0 (.reply (pong.bytes ++ [newline])) ∧
      Throughout (fun before action => SparesTimedOut (Channel.start.run before) action) prompt := by
  obtain ⟨_, _, belong, spares⟩ := replies_belong prompt
  refine ⟨belong (by simp [prompt]) 0 _ (by decide +kernel), spares ?_⟩
  intro before action after split
  have member : action ∈ prompt := by simp [split]
  simp only [prompt, List.mem_cons, List.not_mem_nil, or_false] at member
  rcases member with rfl | rfl | rfl | rfl | rfl | rfl | rfl
  all_goals trivial

/-- A call the client gives up on before the main loop gets to it, and the next one. -/
def belated : List Action :=
  [.call ping, .serverRecv 1024, .dispatch, .clientTimeout, .drain, .execute pong, .answer,
    .call vramStat, .clientRecv 4096]

/-- The second call returns the first one's reply, and the first is executed after its
time-out. -/
theorem belated_reply :
    ¬ (∀ id outcome, (id, outcome) ∈ (Channel.start.run belated).returned →
        Belongs (Channel.start.run belated) id outcome) ∧
      ¬ Throughout (fun before action => SparesTimedOut (Channel.start.run before) action) belated := by
  constructor
  · intro belong
    obtain ⟨reply, found, _⟩ := belong 1 (.reply (pong.bytes ++ [newline])) (by decide +kernel)
    have reached := (List.getElem?_eq_some_iff.mp found).1
    exact absurd reached (by decide +kernel)
  · intro spares
    have spared := spares [.call ping, .serverRecv 1024, .dispatch, .clientTimeout, .drain]
      (.execute pong) [.answer, .call vramStat, .clientRecv 4096] rfl
    exact spared ⟨0, ping.bytes⟩ [] (by decide +kernel) (by decide +kernel)

end ZeeboLle.Control
