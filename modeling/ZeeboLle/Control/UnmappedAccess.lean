import ZeeboLle.Control.Channel
import ZeeboLle.Json.Flat
import ZeeboLle.Streams.RingBuffer

/-! `UnmappedAccessLog`: the last accesses to unmapped addresses in a ring, and the text they
are listed in. A vector of events never has 2^63 elements, so an index into it does not
overflow; the count of events is 64 bits wide. -/
namespace ZeeboLle.Control

open Unicorn Streams Json

/-- `unsigned long` has 64 bits. -/
structure UnmappedAccessEvent where
  core : BitVec 64 := 0
  pc : BitVec 64 := 0
  addr : BitVec 64 := 0
  width : Word := 0
  isWrite : Bool := false
  hasValue : Bool := false
  value : BitVec 64 := 0
deriving DecidableEq, Repr

namespace UnmappedAccessEvent

/-- What the format strings print. -/
def text (ev : UnmappedAccessEvent) : List Byte :=
  ascii "\x7b\"core\":" ++ decimal ev.core.toNat ++ ascii ",\"pc\":" ++ decimal ev.pc.toNat ++
    ascii ",\"addr\":" ++ decimal ev.addr.toNat ++ ascii ",\"width\":" ++ decimal ev.width.toNat ++
    ascii ",\"dir\":\"" ++ (if ev.isWrite then ascii "write" else ascii "read") ++ ascii "\"" ++
    (if ev.hasValue then ascii ",\"value\":" ++ decimal ev.value.toNat else []) ++ ascii "\x7d"

/-- At most 64 bytes of names and marks, and four numbers of 20 digits and one of 10. -/
theorem length_text_lt (ev : UnmappedAccessEvent) : ev.text.length < 256 := by
  have places : 0 < 20 ∧ 2 ^ 64 < 10 ^ 20 ∧ 0 < 10 ∧ 2 ^ 32 < 10 ^ 10 := by decide
  have long (n : BitVec 64) : (decimal n.toNat).length ≤ 20 :=
    length_decimal_le places.1 (n.isLt.trans places.2.1)
  have width : (decimal ev.width.toNat).length ≤ 10 :=
    length_decimal_le places.2.2.1 (ev.width.isLt.trans places.2.2.2)
  have direction : (if ev.isWrite then ascii "write" else ascii "read").length ≤ 5 := by
    split <;> decide
  have value : (if ev.hasValue then ascii ",\"value\":" ++ decimal ev.value.toNat else []).length ≤
      29 := by
    have digits := long ev.value
    have name : (ascii ",\"value\":").length = 9 := by decide
    split
    · rw [List.length_append, name]
      omega
    · exact Nat.zero_le _
  have core := long ev.core
  have pc := long ev.pc
  have addr := long ev.addr
  have names : (ascii "\x7b\"core\":").length + (ascii ",\"pc\":").length +
      (ascii ",\"addr\":").length + (ascii ",\"width\":").length +
      (ascii ",\"dir\":\"").length + (ascii "\"").length + (ascii "\x7d").length ≤ 64 := by decide
  simp only [text, List.length_append]
  omega

end UnmappedAccessEvent

structure UnmappedAccessLog where
  ring : RingBuffer UnmappedAccessEvent
  seen : BitVec 64

namespace UnmappedAccessLog

def create (capacity : Nat) : UnmappedAccessLog where
  ring := .empty (if capacity = 0 then 1 else capacity) (by split <;> omega)
  seen := 0

def record (log : UnmappedAccessLog) (ev : UnmappedAccessEvent) : UnmappedAccessLog where
  ring := log.ring.push ev
  seen := log.seen + 1

def countSeen (log : UnmappedAccessLog) : BitVec 64 := log.seen

/-- `snprintf` into a buffer of 256 bytes. -/
def eventJson (ev : UnmappedAccessEvent) : List Byte := ev.text.take 255

def latestJson (log : UnmappedAccessLog) : Option (List Byte) :=
  log.ring.held.map fun events =>
    ascii "\x7b\"ok\":true,\"events\":[" ++ [comma].intercalate (events.map eventJson) ++
      ascii "]\x7d"

def recordAll (log : UnmappedAccessLog) (events : List UnmappedAccessEvent) : UnmappedAccessLog :=
  events.foldl record log

variable {log : UnmappedAccessLog}

/-- The buffer is large enough. -/
theorem eventJson_eq (ev : UnmappedAccessEvent) : eventJson ev = ev.text :=
  List.take_of_length_le (Nat.lt_succ_iff.mp ev.length_text_lt)

theorem ring_recordAll (log : UnmappedAccessLog) (events : List UnmappedAccessEvent) :
    (log.recordAll events).ring = log.ring.pushAll events := by
  induction events generalizing log with
  | nil => rfl
  | cons ev rest ih => exact ih (log.record ev)

theorem countSeen_recordAll (log : UnmappedAccessLog) (events : List UnmappedAccessEvent) :
    (log.recordAll events).countSeen = log.countSeen + BitVec.ofNat 64 events.length := by
  induction events generalizing log with
  | nil => exact (BitVec.add_zero _).symm
  | cons ev rest ih =>
    have step : (log.record ev).countSeen = log.countSeen + 1 := rfl
    change ((log.record ev).recordAll rest).countSeen = _
    rw [ih, step, List.length_cons, BitVec.add_assoc, Nat.add_comm, BitVec.ofNat_add]
    rfl

/-- The list shows the last events, as many as fit, oldest first and each with its own fields;
the count is the number of events modulo 2^64. -/
theorem latestJson_recordAll (capacity : Nat) (events : List UnmappedAccessEvent) :
    ((create capacity).recordAll events).latestJson =
        some (ascii "\x7b\"ok\":true,\"events\":[" ++
          [comma].intercalate ((events.drop (events.length -
            min events.length (max capacity 1))).map UnmappedAccessEvent.text) ++ ascii "]\x7d") ∧
      ((create capacity).recordAll events).countSeen.toNat = events.length % 2 ^ 64 := by
  constructor
  · have size : (if capacity = 0 then 1 else capacity) = max capacity 1 := by
      split <;> omega
    have start : events.length - min events.length (max capacity 1) =
        events.length - if capacity = 0 then 1 else capacity := by omega
    rw [latestJson, ring_recordAll, create, RingBuffer.held_pushAll, Option.map_some, start,
      List.map_congr_left fun ev _ => eventJson_eq ev]
  · rw [countSeen_recordAll, create, countSeen, BitVec.toNat_add, BitVec.toNat_ofNat]
    simp

/-- The count of so many events that it has turned over. -/
theorem countSeen_turned :
    ((create 1).recordAll (List.replicate (2 ^ 64) {})).countSeen.toNat ≠
      (List.replicate (2 ^ 64) ({} : UnmappedAccessEvent)).length := by
  rw [List.length_replicate]
  exact (BitVec.isLt _).ne

end UnmappedAccessLog

end ZeeboLle.Control
