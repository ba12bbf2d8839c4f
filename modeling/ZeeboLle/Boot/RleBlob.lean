import ZeeboLle.Streams.BackReference
import ZeeboLle.Unicorn.Memory

/-! The packed blob of the dispatcher at 0xb0400000. A command of it gives bytes as they are and
then either repeats what was written or writes zeros; the decoder runs commands until it has the
length that was asked for. -/
namespace ZeeboLle.Boot.RleBlob

open Unicorn Streams

inductive EventName
  | eofInput
  | eofExtraR4
  | eofExtraR5
  | underflowR4 (ctrl : Byte)
  | eofLiteral
  | eofBackoff
deriving DecidableEq

/-- Why the decoder gave up, with what was read and written by then. -/
structure Event where
  name : EventName
  i : Nat
  written : Nat
deriving DecidableEq

/-- The place in the input and what has been written. -/
structure Cursor where
  i : Nat
  out : List Byte
deriving DecidableEq

abbrev Attempt := Except (Cursor × Event)

def giveUp {α : Type} (name : EventName) (cursor : Cursor) : Attempt α :=
  .error (cursor, ⟨name, cursor.i, cursor.out.length⟩)

/-- The byte at the place, which moves on. -/
def next (buf : List Byte) (name : EventName) (cursor : Cursor) : Attempt (Byte × Cursor) :=
  match buf[cursor.i]? with
  | none => giveUp name cursor
  | some byte => .ok (byte, { cursor with i := cursor.i + 1 })

/-- A count is in the control byte, or where that has 0 in the byte that comes next. -/
def count (buf : List Byte) (name : EventName) (field : Byte) (cursor : Cursor) :
    Attempt (Nat × Cursor) :=
  if field = 0 then (next buf name cursor).map fun read => (read.1.toNat, read.2)
  else .ok (field.toNat, cursor)

/-- The loop over the bytes that are taken as they are. -/
def literals (buf : List Byte) : Nat → Cursor → Attempt Cursor
  | 0, cursor => .ok cursor
  | more + 1, cursor => do
    let (byte, cursor) ← next buf .eofLiteral cursor
    literals buf more { cursor with out := cursor.out ++ [byte] }

/-- `out[idx] if 0 <= idx < len(out) else 0` -/
def element (out : List Byte) (idx : Int) : Byte :=
  if 0 ≤ idx ∧ idx < out.length then out.getD idx.toNat 0 else 0

/-- The loop over the bytes of a back reference. -/
def backCopy (out : List Byte) (backpos : Int) (cnt : Nat) : List Byte :=
  (List.range cnt).foldl (fun out (k : Nat) => out ++ [element out (backpos + k)]) out

def isBackref (ctrl : Byte) : Bool := ctrl &&& 0x8 ≠ 0

/-- One turn of the loop: a whole command. -/
def step (buf : List Byte) (cursor : Cursor) : Attempt Cursor := do
  let (ctrl, cursor) ← next buf .eofInput cursor
  let (r4, cursor) ← count buf .eofExtraR4 (ctrl &&& 0x7) cursor
  let (r5, cursor) ← count buf .eofExtraR5 (ctrl >>> 4) cursor
  if r4 = 0 then giveUp (.underflowR4 ctrl) cursor
  else
    let cursor ← literals buf (r4 - 1) cursor
    if isBackref ctrl then
      let (off, cursor) ← next buf .eofBackoff cursor
      .ok { cursor with
        out := backCopy cursor.out ((cursor.out.length : Int) - (off.toNat : Int)) (r5 + 2) }
    else .ok { cursor with out := cursor.out ++ List.replicate r5 0 }

/-- The loop, given up after so many turns. -/
def run (buf : List Byte) (lenOut : Nat) : Nat → Cursor → Option (List Byte × List Event × Nat)
  | 0, _ => none
  | turns + 1, cursor =>
    if cursor.out.length < lenOut then
      match step buf cursor with
      | .error (cursor, event) => some (cursor.out, [event], cursor.i)
      | .ok cursor => run buf lenOut turns cursor
    else some (cursor.out, [], cursor.i)

/-- What is decoded, the event if there was one, and how much of the input was read. Every turn
reads a byte, so the loop never needs more turns than it is given. -/
def decode (buf : List Byte) (lenOut : Nat) : Option (List Byte × List Event × Nat) :=
  run buf lenOut (buf.length + 1) ⟨0, []⟩

/-- What a command does after its literal bytes. -/
inductive Finish
  | copy (distance : Byte) (count : Nat)
  | zeros (count : Nat)
deriving DecidableEq

structure Command where
  literals : List Byte
  finish : Finish
deriving DecidableEq

namespace Finish

def isCopy : Finish → Bool
  | copy .. => true
  | zeros _ => false

/-- The byte of the distance, behind the literal bytes. -/
def bytes : Finish → List Byte
  | copy distance _ => [distance]
  | zeros _ => []

def count : Finish → Nat
  | copy _ count => count
  | zeros count => count

/-- A copy has two bytes more than are written in its count. -/
def written (out : List Byte) : Finish → List Byte
  | copy distance count => out ++ repeated 0 distance.toNat (count + 2) out
  | zeros count => out ++ List.replicate count 0

end Finish

/-- The output after a command. -/
def Command.apply (out : List Byte) (command : Command) : List Byte :=
  command.finish.written (out ++ command.literals)

def expandFrom (out : List Byte) (commands : List Command) : List Byte :=
  commands.foldl Command.apply out

/-- The output of a list of commands. -/
def expand (commands : List Command) : List Byte := expandFrom [] commands

/-- A count as it may be written: in its field, or behind a field of 0. -/
inductive Counted : Byte → List Byte → Nat → Prop
  | field {field : Byte} (set : field ≠ 0) : Counted field [] field.toNat
  | byte (extra : Byte) : Counted 0 [extra] extra.toNat

/-- A text that a command may be written as. -/
structure Written (command : Command) (text : List Byte) : Prop where
  exists_bytes : ∃ ctrl r4 r5, text = ctrl :: (r4 ++ (r5 ++ (command.literals ++ command.finish.bytes))) ∧
    Counted (ctrl &&& 0x7) r4 (command.literals.length + 1) ∧
    Counted (ctrl >>> 4) r5 command.finish.count ∧ isBackref ctrl = command.finish.isCopy

/-- Commands one behind the other. -/
inductive WrittenAll : List Command → List Byte → Prop
  | nil : WrittenAll [] []
  | cons {command : Command} {commands : List Command} {text rest : List Byte}
      (first : Written command text) (others : WrittenAll commands rest) :
      WrittenAll (command :: commands) (text ++ rest)

/-- Commands that reach a length, and none of them too many. -/
structure Reaches (lenOut : Nat) (out : List Byte) (commands : List Command) : Prop where
  reached : lenOut ≤ (expandFrom out commands).length
  needed : ∀ front, front <+: commands → front ≠ commands → (expandFrom out front).length < lenOut

variable {buf text rest : List Byte} {cursor after : Cursor} {i j k lenOut turns : Nat}
  {name : EventName} {byte : Byte} {command : Command} {commands : List Command}

/-- The text between two places of the input. -/
structure Passes (buf : List Byte) (i j : Nat) (text : List Byte) : Prop where
  split : buf.drop i = text ++ buf.drop j
  place : j = i + text.length

theorem Passes.refl (buf : List Byte) (i : Nat) : Passes buf i i [] := ⟨rfl, rfl⟩

theorem Passes.trans (first : Passes buf i j text) (second : Passes buf j k rest) :
    Passes buf i k (text ++ rest) := by
  refine ⟨?_, ?_⟩
  · rw [first.split, second.split, List.append_assoc]
  · rw [second.place, first.place, List.length_append, Nat.add_assoc]

/-- A text may be cut anywhere. -/
theorem Passes.cut (passes : Passes buf i k (text ++ rest)) :
    Passes buf i (i + text.length) text ∧ Passes buf (i + text.length) k rest := by
  have behind : buf.drop (i + text.length) = rest ++ buf.drop k := by
    rw [← List.drop_drop, passes.split, List.append_assoc, List.drop_left]
  refine ⟨⟨?_, rfl⟩, ⟨behind, ?_⟩⟩
  · rw [behind, passes.split, List.append_assoc]
  · rw [passes.place, List.length_append, Nat.add_assoc]

theorem Passes.le_length (passes : Passes buf i j text) (start : i ≤ buf.length) :
    j ≤ buf.length := by
  have size := congrArg List.length passes.split
  rw [List.length_append, List.length_drop, List.length_drop] at size
  have place := passes.place
  omega

theorem Passes.eq_take (passes : Passes buf 0 j text) : text = buf.take j := by
  have place : j = text.length := by rw [passes.place, Nat.zero_add]
  have front := congrArg (List.take text.length) passes.split
  rw [List.drop_zero, List.take_left] at front
  rw [place, front]

theorem bind_eq_ok {α β : Type} {attempt : Attempt α} {action : α → Attempt β} {result : β} :
    attempt >>= action = .ok result ↔ ∃ value, attempt = .ok value ∧ action value = .ok result := by
  cases attempt with
  | error given => simp [bind, Except.bind]
  | ok value => simp [bind, Except.bind]

theorem next_eq_ok : next buf name cursor = .ok (byte, after) ↔
    Passes buf cursor.i after.i [byte] ∧ after.out = cursor.out := by
  obtain ⟨place, out⟩ := after
  unfold next
  constructor
  · intro read
    split at read
    · cases read
    · next found =>
      cases read
      obtain ⟨inside, rfl⟩ := List.getElem?_eq_some_iff.mp found
      exact ⟨⟨List.drop_eq_getElem_cons inside, rfl⟩, rfl⟩
  · rintro ⟨⟨split, rfl⟩, rfl⟩
    have found : buf[cursor.i]? = some byte := by
      have first := congrArg (·[0]?) split
      simpa [List.getElem?_drop] using first
    rw [found]
    rfl

theorem count_eq_ok {field : Byte} {n : Nat} : count buf name field cursor = .ok (n, after) ↔
    ∃ extra, Counted field extra n ∧ Passes buf cursor.i after.i extra ∧ after.out = cursor.out := by
  unfold count
  constructor
  · intro read
    split at read
    · next zero =>
      cases got : next buf name cursor with
      | error given => rw [got] at read; cases read
      | ok both =>
        rw [got] at read
        cases read
        obtain ⟨passes, same⟩ := next_eq_ok.mp got
        exact ⟨[both.1], zero ▸ .byte both.1, passes, same⟩
    · next set =>
      cases read
      exact ⟨[], .field set, Passes.refl _ _, rfl⟩
  · rintro ⟨extra, counted, passes, same⟩
    cases counted with
    | field set =>
      rw [if_neg set]
      obtain ⟨place, out⟩ := after
      obtain rfl : place = cursor.i := passes.place
      obtain rfl : out = cursor.out := same
      rfl
    | byte extra =>
      rw [if_pos rfl, next_eq_ok.mpr ⟨passes, same⟩]
      rfl

theorem literals_eq_ok {n : Nat} : literals buf n cursor = .ok after ↔
    ∃ text, text.length = n ∧ Passes buf cursor.i after.i text ∧ after.out = cursor.out ++ text := by
  induction n generalizing cursor with
  | zero =>
    constructor
    · intro done
      cases done
      exact ⟨[], rfl, Passes.refl _ _, (List.append_nil _).symm⟩
    · rintro ⟨text, empty, passes, same⟩
      obtain rfl := List.eq_nil_of_length_eq_zero empty
      rw [List.append_nil] at same
      obtain ⟨place, out⟩ := after
      obtain rfl : place = cursor.i := passes.place
      obtain rfl : out = cursor.out := same
      rfl
  | succ n ih =>
    rw [literals, bind_eq_ok]
    constructor
    · rintro ⟨⟨byte, moved⟩, read, others⟩
      obtain ⟨first, same⟩ := next_eq_ok.mp read
      obtain ⟨text, size, passes, written⟩ := ih.mp others
      refine ⟨byte :: text, congrArg Nat.succ size, first.trans passes, ?_⟩
      rw [written, same, List.append_assoc]
      rfl
    · rintro ⟨text, size, passes, written⟩
      obtain ⟨byte, text, rfl⟩ := List.exists_cons_of_length_eq_add_one size
      obtain ⟨first, others⟩ := (show Passes _ _ _ ([byte] ++ text) from passes).cut
      refine ⟨(byte, ⟨cursor.i + 1, cursor.out⟩), next_eq_ok.mpr ⟨first, rfl⟩, ih.mpr ?_⟩
      refine ⟨text, Nat.succ.inj size, others, ?_⟩
      rw [written, List.append_assoc]
      rfl

theorem element_eq_back (out : List Byte) (distance : Nat) :
    element out ((out.length : Int) - (distance : Int)) = back 0 distance out := by
  unfold element back
  by_cases before : distance = 0 ∨ out.length < distance
  · rw [if_neg (by omega), if_pos before]
  · have place : ((out.length : Int) - (distance : Int)).toNat = out.length - distance := by omega
    rw [if_pos (by omega), if_neg before, place]

/-- The loop over a back reference copies every byte from the same distance. -/
theorem backCopy_eq (out : List Byte) (distance cnt : Nat) :
    backCopy out ((out.length : Int) - (distance : Int)) cnt =
      out ++ repeated 0 distance cnt out := by
  induction cnt with
  | zero => exact (List.append_nil out).symm
  | succ cnt ih =>
    have place : ((out.length : Int) - (distance : Int)) + (cnt : Int) =
        ((out ++ repeated 0 distance cnt out).length : Int) - (distance : Int) := by
      rw [List.length_append, length_repeated]
      omega
    unfold backCopy at ih ⊢
    rw [List.range_succ, List.foldl_append, ih, List.foldl_cons, List.foldl_nil, place,
      element_eq_back, back_repeated, List.append_assoc, ← repeated_succ]

/-- What a turn does: it reads a command as it may be written, and applies it. -/
theorem step_eq_ok : step buf cursor = .ok after ↔ ∃ command text, Written command text ∧
    Passes buf cursor.i after.i text ∧ after.out = command.apply cursor.out := by
  simp only [step, bind_eq_ok, Prod.exists, next_eq_ok, count_eq_ok]
  constructor
  · rintro ⟨ctrl, c1, ⟨first, same1⟩, r4, c2, ⟨e4, counted4, pass4, same2⟩, r5, c3,
      ⟨e5, counted5, pass5, same3⟩, done⟩
    have kept : c3.out = cursor.out := same3.trans (same2.trans same1)
    have head := first.trans (pass4.trans pass5)
    split at done
    · cases done
    · next filled =>
      obtain ⟨c4, read, done⟩ := bind_eq_ok.mp done
      obtain ⟨text, size, passes, written⟩ := literals_eq_ok.mp read
      have whole : text.length + 1 = r4 := by omega
      rw [kept] at written
      split at done
      · next copies =>
        obtain ⟨⟨off, c5⟩, read, done⟩ := bind_eq_ok.mp done
        obtain ⟨last, same⟩ := next_eq_ok.mp read
        cases done
        refine ⟨⟨text, .copy off r5⟩, _, ⟨ctrl, e4, e5, rfl, whole ▸ counted4, counted5, copies⟩,
          ?_, ?_⟩
        · have all := head.trans (passes.trans last)
          simpa only [List.append_assoc, List.cons_append, List.nil_append, Finish.bytes]
            using all
        · dsimp only at same ⊢
          rw [same, backCopy_eq, written]
          rfl
      · next zeros =>
        cases done
        refine ⟨⟨text, .zeros r5⟩, _, ⟨ctrl, e4, e5, rfl, whole ▸ counted4, counted5,
          Bool.eq_false_iff.mpr zeros⟩, ?_, ?_⟩
        · have all := head.trans passes
          simpa only [List.append_assoc, List.cons_append, List.nil_append, Finish.bytes,
            List.append_nil] using all
        · dsimp only
          rw [written]
          rfl
  · rintro ⟨command, text, ⟨ctrl, e4, e5, rfl, counted4, counted5, kind⟩, passes, written⟩
    obtain ⟨first, passes⟩ := (show Passes _ _ _ ([ctrl] ++ _) from passes).cut
    obtain ⟨pass4, passes⟩ := passes.cut
    obtain ⟨pass5, passes⟩ := passes.cut
    obtain ⟨middle, last⟩ := passes.cut
    refine ⟨ctrl, ⟨_, cursor.out⟩, ⟨first, rfl⟩, _, ⟨_, cursor.out⟩, ⟨e4, counted4, pass4, rfl⟩, _,
      ⟨_, cursor.out⟩, ⟨e5, counted5, pass5, rfl⟩, ?_⟩
    rw [if_neg (Nat.succ_ne_zero _), Nat.add_sub_cancel, bind_eq_ok]
    refine ⟨⟨_, cursor.out ++ command.literals⟩, literals_eq_ok.mpr ⟨_, rfl, middle, rfl⟩, ?_⟩
    obtain ⟨texts, finish⟩ := command
    cases finish with
    | copy off r5 =>
      have copies : isBackref ctrl = true := kind
      rw [if_pos copies, bind_eq_ok]
      refine ⟨(off, ⟨after.i, cursor.out ++ texts⟩), next_eq_ok.mpr ⟨last, rfl⟩, ?_⟩
      rw [backCopy_eq]
      exact congrArg Except.ok (congrArg (Cursor.mk after.i) written.symm)
    | zeros r5 =>
      have zeros : ¬ isBackref ctrl = true := Bool.eq_false_iff.mp kind
      have place := last.place
      rw [Finish.bytes, List.length_nil, Nat.add_zero] at place
      rw [if_neg zeros, ← place]
      exact congrArg Except.ok (congrArg (Cursor.mk after.i) written.symm)

theorem Written.length_pos (written : Written command text) : 0 < text.length := by
  obtain ⟨ctrl, r4, r5, rfl, -⟩ := written
  exact Nat.succ_pos _

theorem Passes.inside (passes : Passes buf i j text) (filled : 0 < text.length) :
    i < j ∧ j ≤ buf.length := by
  have size := congrArg List.length passes.split
  rw [List.length_append, List.length_drop, List.length_drop] at size
  have place := passes.place
  omega

theorem bind_eq_error {α β : Type} {attempt : Attempt α} {action : α → Attempt β}
    {given : Cursor × Event} : attempt >>= action = .error given ↔
    attempt = .error given ∨ ∃ value, attempt = .ok value ∧ action value = .error given := by
  cases attempt with
  | error given => simp [bind, Except.bind]
  | ok value => simp [bind, Except.bind]

/-- An attempt that gives up still stands inside the input. -/
def StopsInside {α : Type} (buf : List Byte) (attempt : Attempt α) : Prop :=
  ∀ given, attempt = .error given → given.1.i ≤ buf.length

theorem StopsInside.bind {α β : Type} {attempt : Attempt α} {action : α → Attempt β}
    (first : StopsInside buf attempt)
    (others : ∀ value, attempt = .ok value → StopsInside buf (action value)) :
    StopsInside buf (attempt >>= action) := by
  intro given stops
  rcases bind_eq_error.mp stops with stops | ⟨value, read, stops⟩
  · exact first given stops
  · exact others value read given stops

theorem StopsInside.ok {α : Type} (value : α) : StopsInside buf (.ok value) :=
  fun _ stops => nomatch stops

theorem giveUp_stops {α : Type} (start : cursor.i ≤ buf.length) :
    StopsInside buf (giveUp name cursor : Attempt α) := by
  intro given stops
  cases stops
  exact start

theorem next_stops (start : cursor.i ≤ buf.length) : StopsInside buf (next buf name cursor) := by
  unfold next
  split
  · exact giveUp_stops start
  · exact .ok _

theorem count_stops {field : Byte} (start : cursor.i ≤ buf.length) :
    StopsInside buf (count buf name field cursor) := by
  unfold count
  split
  · intro given stops
    have stop : StopsInside buf (next buf name cursor) := next_stops start
    refine stop given ?_
    cases read : next buf name cursor with
    | error other => rw [read] at stops; cases stops; rfl
    | ok both => rw [read] at stops; cases stops
  · exact .ok _

theorem next_inside {read : Byte × Cursor} (moved : next buf name cursor = .ok read) :
    read.2.i ≤ buf.length :=
  ((next_eq_ok.mp moved).1.inside (Nat.succ_pos 0)).2

theorem count_inside {field : Byte} {read : Nat × Cursor} (start : cursor.i ≤ buf.length)
    (moved : count buf name field cursor = .ok read) : read.2.i ≤ buf.length := by
  obtain ⟨extra, -, passes, -⟩ := count_eq_ok.mp moved
  exact passes.le_length start

theorem literals_stops {n : Nat} (start : cursor.i ≤ buf.length) :
    StopsInside buf (literals buf n cursor) := by
  induction n generalizing cursor with
  | zero => exact .ok _
  | succ n ih => exact (next_stops start).bind fun read moved => ih (next_inside moved)

theorem step_stops (start : cursor.i ≤ buf.length) : StopsInside buf (step buf cursor) := by
  refine (next_stops start).bind fun first moved => ?_
  have start := next_inside moved
  refine (count_stops start).bind fun r4 moved => ?_
  have start := count_inside start moved
  refine (count_stops start).bind fun r5 moved => ?_
  have start := count_inside start moved
  dsimp only
  split
  · exact giveUp_stops start
  · refine (literals_stops start).bind fun cursor moved => ?_
    obtain ⟨text, -, passes, -⟩ := literals_eq_ok.mp moved
    split
    · exact (next_stops (passes.le_length start)).bind fun read _ => .ok _
    · exact .ok _

theorem step_inside (moved : step buf cursor = .ok after) :
    cursor.i < after.i ∧ after.i ≤ buf.length := by
  obtain ⟨command, text, written, passes, -⟩ := step_eq_ok.mp moved
  exact passes.inside written.length_pos

theorem run_total (start : cursor.i ≤ buf.length) (enough : buf.length < cursor.i + turns) :
    ∃ out events consumed, run buf lenOut turns cursor = some (out, events, consumed) ∧
      consumed ≤ buf.length ∧ events.length ≤ 1 := by
  induction turns generalizing cursor with
  | zero => omega
  | succ turns ih =>
    rw [run]
    split
    · cases moved : step buf cursor with
      | error given =>
        exact ⟨_, _, _, rfl, step_stops start given moved, le_rfl⟩
      | ok after =>
        obtain ⟨forward, inside⟩ := step_inside moved
        exact ih inside (by omega)
    · exact ⟨_, _, _, rfl, start, Nat.zero_le _⟩

theorem Reaches.nil {out : List Byte} (long : lenOut ≤ out.length) : Reaches lenOut out [] :=
  ⟨long, fun _ prior other => absurd (List.prefix_nil.mp prior) other⟩

theorem Reaches.cons {out : List Byte} (short : out.length < lenOut)
    (others : Reaches lenOut (command.apply out) commands) :
    Reaches lenOut out (command :: commands) := by
  refine ⟨others.reached, fun front prior other => ?_⟩
  cases front with
  | nil => exact short
  | cons first front =>
    obtain ⟨rfl, shorter⟩ := List.cons_prefix_cons.mp prior
    exact others.needed front shorter fun same => other (congrArg (first :: ·) same)

theorem Reaches.uncons {out : List Byte} (reaches : Reaches lenOut out (command :: commands)) :
    out.length < lenOut ∧ Reaches lenOut (command.apply out) commands := by
  refine ⟨reaches.needed [] (List.nil_prefix) (List.cons_ne_nil _ _).symm, reaches.reached, ?_⟩
  intro front prior other
  exact reaches.needed (command :: front) (List.cons_prefix_cons.mpr ⟨rfl, prior⟩)
    fun same => other (List.cons.inj same).2

/-- A run without an event has read commands, as many as it takes to reach the length. -/
theorem commands_of_run {out : List Byte} {consumed : Nat}
    (done : run buf lenOut turns cursor = some (out, [], consumed)) :
    ∃ commands text, WrittenAll commands text ∧ Passes buf cursor.i consumed text ∧
      Reaches lenOut cursor.out commands ∧ expandFrom cursor.out commands = out := by
  induction turns generalizing cursor with
  | zero => cases done
  | succ turns ih =>
    rw [run] at done
    split at done
    · next short =>
      cases moved : step buf cursor with
      | error given => rw [moved] at done; cases done
      | ok after =>
        rw [moved] at done
        obtain ⟨command, text, written, passes, applied⟩ := step_eq_ok.mp moved
        obtain ⟨commands, rest, others, behind, reaches, expanded⟩ := ih done
        rw [applied] at reaches expanded
        exact ⟨command :: commands, text ++ rest, .cons written others, passes.trans behind,
          reaches.cons short, expanded⟩
    · next long =>
      cases done
      exact ⟨[], [], .nil, Passes.refl _ _, .nil (Nat.le_of_not_lt long), rfl⟩

/-- Commands that reach the length are run, and nothing behind them is read. -/
theorem run_of_commands (written : WrittenAll commands text) (passes : Passes buf cursor.i j text)
    (reaches : Reaches lenOut cursor.out commands) (enough : text.length < turns) :
    run buf lenOut turns cursor = some (expandFrom cursor.out commands, [], j) := by
  induction written generalizing cursor turns with
  | nil =>
    obtain ⟨turns, rfl⟩ := Nat.exists_eq_add_one.mpr enough
    have long : ¬ cursor.out.length < lenOut := Nat.not_lt_of_le reaches.reached
    rw [run, if_neg long, passes.place]
    rfl
  | cons first others ih =>
    obtain ⟨turns, rfl⟩ := Nat.exists_eq_add_one.mpr (Nat.zero_lt_of_lt enough)
    obtain ⟨short, reaches⟩ := reaches.uncons
    obtain ⟨front, behind⟩ := passes.cut
    have moved := step_eq_ok.mpr ⟨_, _, first, front,
      show (Cursor.mk _ (Command.apply cursor.out _)).out = _ from rfl⟩
    rw [run, if_pos short, moved]
    have positive := first.length_pos
    rw [List.length_append] at enough
    exact ih behind reaches (by omega)

/-- The decoder always ends inside its input, with at most one event. It ends without one exactly
where the input starts with commands that reach the length asked for, none of them too many, and
then it gives their output and has read their text. -/
theorem decode_exact (buf : List Byte) (lenOut : Nat) :
    (∃ out events consumed, decode buf lenOut = some (out, events, consumed) ∧
      consumed ≤ buf.length ∧ events.length ≤ 1) ∧
    ∀ out consumed, decode buf lenOut = some (out, [], consumed) ↔ consumed ≤ buf.length ∧
      ∃ commands, WrittenAll commands (buf.take consumed) ∧ Reaches lenOut [] commands ∧
        expand commands = out := by
  have total : ∃ out events consumed,
      run buf lenOut (buf.length + 1) ⟨0, []⟩ = some (out, events, consumed) ∧
        consumed ≤ buf.length ∧ events.length ≤ 1 := run_total (Nat.zero_le _) (by simp)
  refine ⟨total, fun out consumed => ⟨fun done => ?_, ?_⟩⟩
  · obtain ⟨commands, text, written, passes, reaches, expanded⟩ := commands_of_run done
    refine ⟨passes.le_length (Nat.zero_le _), commands, ?_, reaches, expanded⟩
    rwa [← passes.eq_take]
  · rintro ⟨inside, commands, written, reaches, rfl⟩
    refine run_of_commands written ⟨(List.take_append_drop _ _).symm, ?_⟩ reaches ?_
    · rw [List.length_take, Nat.min_eq_left inside, Nat.zero_add]
    · rw [List.length_take]
      omega

/-- One byte as it is, and then the same byte three times over. -/
example : decode [0x1a, 65, 1] 4 = some ([65, 65, 65, 65], [], 3) := by decide

/-- A command that writes something. -/
def Command.Fills (command : Command) : Prop :=
  command.literals ≠ [] ∨ command.finish.isCopy = true ∨ 0 < command.finish.count

theorem Command.length_lt_apply (fills : command.Fills) (out : List Byte) :
    out.length < (command.apply out).length := by
  obtain ⟨texts, finish⟩ := command
  cases finish with
  | copy distance count =>
    simp only [apply, Finish.written, List.length_append, length_repeated]
    omega
  | zeros count =>
    simp only [apply, Finish.written, List.length_append, List.length_replicate]
    rcases fills with filled | copy | positive
    · have size := List.length_pos_of_ne_nil filled
      dsimp only at size
      omega
    · cases copy
    · simp only [Finish.count] at positive
      omega

theorem length_le_expandFrom (fills : ∀ command ∈ commands, command.Fills) (out : List Byte) :
    out.length ≤ (expandFrom out commands).length := by
  induction commands generalizing out with
  | nil => exact le_rfl
  | cons command commands ih =>
    obtain ⟨first, others⟩ := List.forall_mem_cons.mp fills
    exact (command.length_lt_apply first out).le.trans (ih others _)

theorem reaches_expandFrom (fills : ∀ command ∈ commands, command.Fills) (out : List Byte) :
    Reaches (expandFrom out commands).length out commands := by
  induction commands generalizing out with
  | nil => exact .nil le_rfl
  | cons command commands ih =>
    obtain ⟨first, others⟩ := List.forall_mem_cons.mp fills
    exact .cons ((command.length_lt_apply first out).trans_le (length_le_expandFrom others _))
      (ih others _)

/-- What commands are written as is decoded to their output, whatever comes behind. -/
theorem decode_written (written : WrittenAll commands text)
    (fills : ∀ command ∈ commands, command.Fills) (rest : List Byte) :
    decode (text ++ rest) (expand commands).length = some (expand commands, [], text.length) := by
  refine run_of_commands written ⟨?_, (Nat.zero_add _).symm⟩ (reaches_expandFrom fills []) ?_
  · rw [List.drop_zero, List.drop_left]
  · rw [List.length_append]
    omega

end ZeeboLle.Boot.RleBlob
