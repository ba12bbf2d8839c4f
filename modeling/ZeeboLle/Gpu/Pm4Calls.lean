import ZeeboLle.Gpu.Pm4

/-! The walk over a command stream word by word, with the callbacks it makes. A word that is not
in the buffer is a fault. -/
namespace ZeeboLle.Gpu

open Unicorn

/-- A callback with its arguments. -/
inductive Pm4Call where
  | writeReg (reg value : Word)
  | draw (indexed : Bool) (count : Word) (prim : Prim)
  | waitIdle
  | resolveIb (va size : Word)
deriving DecidableEq

/-- The callbacks, with a state of their own. Each may be absent; a null pointer is no buffer. -/
structure Pm4Callbacks (σ : Type) where
  writeReg : Option (σ → Word → Word → σ)
  draw : Option (σ → Bool → Word → Prim → σ)
  waitIdle : Option (σ → σ)
  resolveIb : Option (σ → Word → Word → Option (List Word) × σ)

/-- What a walk came to. -/
structure Walked (σ : Type) where
  state : σ
  calls : List Pm4Call
  packets : Word
deriving DecidableEq

namespace Walked

variable {σ : Type} (walked : Walked σ)

def start (state : σ) : Walked σ := ⟨state, [], 0⟩

def call (state : σ) (call : Pm4Call) : Walked σ :=
  { walked with state, calls := walked.calls ++ [call] }

def count : Walked σ := { walked with packets := walked.packets + 1 }

/-- A walk and another after it. -/
def andThen (later : Walked σ) : Walked σ :=
  ⟨later.state, walked.calls ++ later.calls, walked.packets + later.packets⟩

end Walked

/-- A walk reads outside its buffer, or buffers nest deeper than a bound. -/
inductive Pm4Fault where
  | outOfBounds
  | nesting
deriving DecidableEq

/-- `dcb[i]`. -/
def readDword (dcb : List Word) (i : Nat) : Except Pm4Fault Word :=
  match dcb[i]? with
  | some word => .ok word
  | none => .error .outOfBounds

namespace Pm4Callbacks

variable {σ : Type} (sink : Pm4Callbacks σ)

/-- The loop that writes consecutive registers, for so many words and to the end of the buffer. -/
def writeSequence (dcb : List Word) : Nat → Word → Nat → Walked σ → Except Pm4Fault (Walked σ)
  | 0, _, _, walked => .ok walked
  | left + 1, reg, i, walked =>
    if i < dcb.length then
      match sink.writeReg with
      | none => writeSequence dcb left (reg + 1) (i + 1) walked
      | some write => do
        let value ← readDword dcb i
        writeSequence dcb left (reg + 1) (i + 1)
          (walked.call (write walked.state reg value) (.writeReg reg value))
    else .ok walked

/-- A type 3 packet at an index. -/
def command (enter : List Word → σ → Except Pm4Fault (Walked σ)) (dcb : List Word) (i : Nat)
    (header : Word) (walked : Walked σ) : Except Pm4Fault (Walked σ) :=
  let cnt := Pm4Header.count header
  let op := Pm4Header.type3Op header
  if op = Cp2xx.waitForIdle then
    match sink.waitIdle with
    | some wait => .ok (walked.call (wait walked.state) .waitIdle)
    | none => .ok walked
  else if op = Cp2xx.drawIndx then
    match sink.draw with
    | some draw =>
      if cnt > 1 ∧ i + 2 < dcb.length then do
        let indices ← readDword dcb (i + 2)
        .ok (walked.call (draw walked.state true indices .triangles) (.draw true indices .triangles))
      else .ok walked
    | none => .ok walked
  else if op = Cp2xx.drawIndx2 then
    match sink.draw with
    | some draw =>
      if cnt > 0 ∧ i + 1 < dcb.length then do
        let vertices ← readDword dcb (i + 1)
        .ok (walked.call (draw walked.state false vertices .triangles) (.draw false vertices .triangles))
      else .ok walked
    | none => .ok walked
  else if op = Cp2xx.setConstant then
    if cnt ≥ 1 ∧ i + 1 < dcb.length then do
      let data1 ← readDword dcb (i + 1)
      sink.writeSequence dcb (cnt - 1) ((data1 &&& 0xffff) + 0x2000) (i + 2) walked
    else .ok walked
  else if op = Cp2xx.indirectBuf then
    match sink.resolveIb with
    | some resolve =>
      if cnt ≥ 2 ∧ i + 2 < dcb.length then do
        let va ← readDword dcb (i + 1)
        let size ← readDword dcb (i + 2)
        let (found, state) := resolve walked.state va size
        let resolved := walked.call state (.resolveIb va size)
        match found with
        | some ib =>
          if ib.isEmpty then .ok resolved
          else do
            let nested ← enter ib state
            .ok (resolved.andThen nested)
        | none => .ok resolved
      else .ok walked
    | none => .ok walked
  else .ok walked

/-- The loop from an index on. -/
def walkFrom (enter : List Word → σ → Except Pm4Fault (Walked σ)) (dcb : List Word) (i : Nat)
    (walked : Walked σ) : Except Pm4Fault (Walked σ) :=
  if _inside : i < dcb.length then do
    let header ← readDword dcb i
    let cnt := Pm4Header.count header
    if Pm4Header.type header = 2 then walkFrom enter dcb (i + 1) walked
    else if Pm4Header.type header = 0 then do
      let after ← sink.writeSequence dcb cnt (Pm4Header.type0Base header) (i + 1) walked
      walkFrom enter dcb (i + 1 + cnt) after.count
    else if Pm4Header.type header = 3 then do
      let after ← sink.command enter dcb i header walked
      walkFrom enter dcb (i + 1 + cnt) after.count
    else walkFrom enter dcb (i + 1) walked
  else .ok walked
termination_by dcb.length - i

/-- The walk, given up where buffers nest deeper than the bound. -/
def pm4Walk : Nat → List Word → σ → Except Pm4Fault (Walked σ)
  | 0, _, _ => .error .nesting
  | depth + 1, dcb, state => sink.walkFrom (pm4Walk depth) dcb 0 (.start state)

end Pm4Callbacks

/-- What a packet of type 0 or 3 asks for. -/
inductive Pm4Action where
  | skip
  | waitIdle
  | draw (indexed : Bool) (count : Word)
  | registers (base : Word) (values : List Word)
  | indirect (va size : Word)

/-- A packet by its header and as much of its body as is there. -/
def Pm4Action.of (header : Word) (body : List Word) : Pm4Action :=
  if Pm4Header.type header = 0 then .registers (Pm4Header.type0Base header) body
  else if Pm4Header.type3Op header = Cp2xx.waitForIdle then .waitIdle
  else if Pm4Header.type3Op header = Cp2xx.drawIndx then
    match body with
    | _ :: indices :: _ => .draw true indices
    | _ => .skip
  else if Pm4Header.type3Op header = Cp2xx.drawIndx2 then
    match body with
    | vertices :: _ => .draw false vertices
    | [] => .skip
  else if Pm4Header.type3Op header = Cp2xx.setConstant then
    match body with
    | data1 :: values => .registers ((data1 &&& 0xffff) + 0x2000) values
    | [] => .skip
  else if Pm4Header.type3Op header = Cp2xx.indirectBuf then
    match body with
    | va :: size :: _ => .indirect va size
    | _ => .skip
  else .skip

theorem Pm4Action.of_type0 {header : Word} (type0 : Pm4Header.type header = 0) (body : List Word) :
    Pm4Action.of header body = .registers (Pm4Header.type0Base header) body := by
  unfold Pm4Action.of
  exact if_pos type0

namespace Pm4Callbacks

variable {σ : Type} (sink : Pm4Callbacks σ)

/-- Values into consecutive registers. -/
def writeValues : Word → List Word → Walked σ → Walked σ
  | _, [], walked => walked
  | reg, value :: values, walked =>
    writeValues (reg + 1) values
      (match sink.writeReg with
      | some write => walked.call (write walked.state reg value) (.writeReg reg value)
      | none => walked)

/-- The calls an action makes. -/
def perform (enter : List Word → σ → Except Pm4Fault (Walked σ)) (walked : Walked σ) :
    Pm4Action → Except Pm4Fault (Walked σ)
  | .skip => .ok walked
  | .waitIdle =>
    match sink.waitIdle with
    | some wait => .ok (walked.call (wait walked.state) .waitIdle)
    | none => .ok walked
  | .draw indexed count =>
    match sink.draw with
    | some draw =>
      .ok (walked.call (draw walked.state indexed count .triangles) (.draw indexed count .triangles))
    | none => .ok walked
  | .registers base values => .ok (sink.writeValues base values walked)
  | .indirect va size =>
    match sink.resolveIb with
    | some resolve =>
      let (found, state) := resolve walked.state va size
      let resolved := walked.call state (.resolveIb va size)
      match found with
      | some ib =>
        if ib.isEmpty then .ok resolved
        else do
          let nested ← enter ib state
          .ok (resolved.andThen nested)
      | none => .ok resolved
    | none => .ok walked

/-- A walk packet by packet, over what is left of the buffer. -/
def walkWords (enter : List Word → σ → Except Pm4Fault (Walked σ)) :
    List Word → Walked σ → Except Pm4Fault (Walked σ)
  | [], walked => .ok walked
  | header :: rest, walked =>
    if Pm4Header.type header = 0 ∨ Pm4Header.type header = 3 then
      (sink.perform enter walked (.of header (rest.take (Pm4Header.count header)))).bind
        fun after => walkWords enter (rest.drop (Pm4Header.count header)) after.count
    else walkWords enter rest walked
termination_by rest => rest.length
decreasing_by
  all_goals simp only [List.length_cons, List.length_drop]
  all_goals omega

end Pm4Callbacks

theorem readDword_inside {dcb : List Word} {i : Nat} (inside : i < dcb.length) :
    readDword dcb i = .ok dcb[i] := by
  rw [readDword, List.getElem?_eq_getElem inside]

/-- An index is as good as the words from there on. -/
theorem readDword_drop (dcb : List Word) (i j : Nat) : readDword dcb (i + j) = readDword (dcb.drop i) j := by
  rw [readDword, readDword, List.getElem?_drop]

theorem lt_length_drop (dcb : List Word) (i j : Nat) : i + j < dcb.length ↔ j < (dcb.drop i).length := by
  rw [List.length_drop]
  omega

namespace Pm4Callbacks

variable {σ : Type} {sink : Pm4Callbacks σ} {enter : List Word → σ → Except Pm4Fault (Walked σ)}

theorem writeSequence_eq (dcb : List Word) (left : Nat) (reg : Word) (i : Nat) (walked : Walked σ) :
    sink.writeSequence dcb left reg i walked =
      .ok (sink.writeValues reg ((dcb.drop i).take left) walked) := by
  induction left generalizing reg i walked with
  | zero => rfl
  | succ left ih =>
    unfold writeSequence
    by_cases inside : i < dcb.length
    · rw [if_pos inside, List.drop_eq_getElem_cons inside, List.take_succ_cons, writeValues]
      cases sink.writeReg with
      | none => exact ih (reg + 1) (i + 1) walked
      | some write =>
        rw [readDword_inside inside]
        exact ih (reg + 1) (i + 1) _
    · rw [if_neg inside, List.drop_eq_nil_of_le (Nat.not_lt.1 inside)]
      rfl

/-- A type 3 packet does what its header and the body that is there ask for. -/
theorem command_eq (dcb : List Word) (i : Nat) {header : Word} (type3 : Pm4Header.type header ≠ 0)
    (walked : Walked σ) :
    sink.command enter dcb i header walked =
      sink.perform enter walked (.of header ((dcb.drop (i + 1)).take (Pm4Header.count header))) := by
  have read1 : readDword dcb (i + 1) = readDword (dcb.drop (i + 1)) 0 := readDword_drop dcb (i + 1) 0
  have read2 : readDword dcb (i + 2) = readDword (dcb.drop (i + 1)) 1 := readDword_drop dcb (i + 1) 1
  have there1 : i + 1 < dcb.length ↔ 0 < (dcb.drop (i + 1)).length := lt_length_drop dcb (i + 1) 0
  have there2 : i + 2 < dcb.length ↔ 1 < (dcb.drop (i + 1)).length := lt_length_drop dcb (i + 1) 1
  have values : dcb.drop (i + 2) = (dcb.drop (i + 1)).drop 1 := by
    rw [List.drop_drop]
  unfold command Pm4Action.of
  rw [if_neg type3]
  simp only [writeSequence_eq, read1, read2, there1, there2, values]
  generalize dcb.drop (i + 1) = body
  obtain ⟨more, announced⟩ : ∃ more, Pm4Header.count header = more + 1 := ⟨_, rfl⟩
  rw [announced]
  by_cases wait : Pm4Header.type3Op header = Cp2xx.waitForIdle
  · rw [if_pos wait, if_pos wait]
    rfl
  rw [if_neg wait, if_neg wait]
  by_cases indexed : Pm4Header.type3Op header = Cp2xx.drawIndx
  · rw [if_pos indexed, if_pos indexed]
    cases draws : sink.draw with
    | none => rcases body with _ | ⟨word, _ | ⟨indices, rest⟩⟩ <;> cases more <;> simp [perform, draws]
    | some draw =>
      rcases body with _ | ⟨word, _ | ⟨indices, rest⟩⟩ <;> cases more <;>
        simp [perform, draws, readDword, bind, Except.bind]
  rw [if_neg indexed, if_neg indexed]
  by_cases direct : Pm4Header.type3Op header = Cp2xx.drawIndx2
  · rw [if_pos direct, if_pos direct]
    cases draws : sink.draw with
    | none => rcases body with _ | ⟨vertices, rest⟩ <;> simp [perform, draws]
    | some draw =>
      rcases body with _ | ⟨vertices, rest⟩ <;> simp [perform, draws, readDword, bind, Except.bind]
  rw [if_neg direct, if_neg direct]
  by_cases constant : Pm4Header.type3Op header = Cp2xx.setConstant
  · rw [if_pos constant, if_pos constant]
    rcases body with _ | ⟨data1, values⟩ <;> simp [perform, readDword, bind, Except.bind]
  rw [if_neg constant, if_neg constant]
  by_cases indirect : Pm4Header.type3Op header = Cp2xx.indirectBuf
  · rw [if_pos indirect, if_pos indirect]
    cases resolves : sink.resolveIb with
    | none => rcases body with _ | ⟨va, _ | ⟨size, rest⟩⟩ <;> cases more <;> simp [perform, resolves]
    | some resolve =>
      rcases body with _ | ⟨va, _ | ⟨size, rest⟩⟩ <;> cases more <;>
        simp [perform, resolves, readDword, bind, Except.bind]
  · rw [if_neg indirect, if_neg indirect]
    rfl

theorem walkWords_nil (walked : Walked σ) : sink.walkWords enter [] walked = .ok walked := by
  rw [walkWords]

/-- The loop goes packet by packet over the words from its index on. -/
theorem walkFrom_eq (dcb : List Word) (i : Nat) (walked : Walked σ) :
    sink.walkFrom enter dcb i walked = sink.walkWords enter (dcb.drop i) walked := by
  induction left : dcb.length - i using Nat.strongRecOn generalizing i walked with
  | ind left ih =>
    by_cases inside : i < dcb.length
    · have next : ∀ k, i < k → ∀ walked : Walked σ,
          sink.walkFrom enter dcb k walked = sink.walkWords enter (dcb.drop k) walked :=
        fun k later walked => ih (dcb.length - k) (by omega) k walked rfl
      have past : ∀ count, (dcb.drop (i + 1)).drop count = dcb.drop (i + 1 + count) := by
        intro count
        rw [List.drop_drop]
      rw [walkFrom, dif_pos inside, readDword_inside inside, List.drop_eq_getElem_cons inside, walkWords]
      generalize dcb[i] = header
      simp only [bind, Except.bind, past]
      by_cases type0 : Pm4Header.type header = 0
      · rw [if_neg (by simp [type0]), if_pos type0, if_pos (.inl type0), writeSequence_eq,
          Pm4Action.of_type0 type0]
        exact next _ (by omega) _
      by_cases type3 : Pm4Header.type header = 3
      · rw [if_neg (by simp [type3]), if_neg type0, if_pos type3, if_pos (.inr type3),
          command_eq dcb i type0]
        cases sink.perform enter walked (.of header ((dcb.drop (i + 1)).take (Pm4Header.count header))) with
        | error fault => rfl
        | ok after => exact next _ (by omega) _
      · rw [if_neg type0, if_neg type3, ite_self, if_neg (not_or.2 ⟨type0, type3⟩)]
        exact next _ (by omega) _
    · rw [walkFrom, dif_neg inside, List.drop_eq_nil_of_le (Nat.not_lt.1 inside), walkWords]

theorem pm4Walk_succ (depth : Nat) (dcb : List Word) (state : σ) :
    sink.pm4Walk (depth + 1) dcb state = sink.walkWords (sink.pm4Walk depth) dcb (.start state) :=
  walkFrom_eq dcb 0 (.start state)

end Pm4Callbacks

namespace Walked

variable {σ : Type} (before walked later : Walked σ)

@[simp] theorem andThen_start : before.andThen (.start before.state) = before := by
  simp [andThen, start]

@[simp] theorem start_andThen (state : σ) : (start state).andThen walked = walked := by
  simp [andThen, start]

@[simp] theorem andThen_state : (before.andThen walked).state = walked.state := rfl

theorem andThen_assoc :
    (before.andThen walked).andThen later = before.andThen (walked.andThen later) := by
  simp [andThen, BitVec.add_assoc]

theorem call_andThen (state : σ) (made : Pm4Call) :
    (before.andThen walked).call state made = before.andThen (walked.call state made) := by
  simp [andThen, call]

theorem count_andThen : (before.andThen walked).count = before.andThen walked.count := by
  simp [andThen, count, BitVec.add_assoc]

end Walked

namespace Pm4Callbacks

variable {σ : Type} {sink : Pm4Callbacks σ} {enter : List Word → σ → Except Pm4Fault (Walked σ)}

theorem writeValues_andThen (reg : Word) (values : List Word) (before walked : Walked σ) :
    sink.writeValues reg values (before.andThen walked) =
      before.andThen (sink.writeValues reg values walked) := by
  induction values generalizing reg walked with
  | nil => rfl
  | cons value values ih =>
    unfold writeValues
    cases sink.writeReg with
    | none => exact ih (reg + 1) walked
    | some write =>
      simp only [Walked.call_andThen, Walked.andThen_state]
      exact ih (reg + 1) _

theorem perform_andThen (action : Pm4Action) (before walked : Walked σ) :
    sink.perform enter (before.andThen walked) action =
      (sink.perform enter walked action).map before.andThen := by
  cases action with
  | skip => rfl
  | waitIdle =>
    simp only [perform, Walked.call_andThen, Walked.andThen_state]
    cases sink.waitIdle with
    | none => rfl
    | some wait => rfl
  | draw indexed count =>
    simp only [perform, Walked.call_andThen, Walked.andThen_state]
    cases sink.draw with
    | none => rfl
    | some draw => rfl
  | registers base values => exact congrArg Except.ok (writeValues_andThen base values before walked)
  | indirect va size =>
    simp only [perform, Walked.call_andThen, Walked.andThen_state]
    cases sink.resolveIb with
    | none => rfl
    | some resolve =>
      simp only
      rcases resolve walked.state va size with ⟨_ | ib, state⟩
      · rfl
      · by_cases empty : ib.isEmpty
        · simp only [if_pos empty]
          rfl
        · simp only [if_neg empty]
          cases enter ib state with
          | error fault => rfl
          | ok nested => exact congrArg Except.ok (Walked.andThen_assoc before _ nested)

/-- A walk makes the same calls whatever was walked before. -/
theorem walkWords_andThen (words : List Word) (before walked : Walked σ) :
    sink.walkWords enter words (before.andThen walked) =
      (sink.walkWords enter words walked).map before.andThen := by
  induction left : words.length using Nat.strongRecOn generalizing words walked with
  | ind size ih =>
    rcases words with _ | ⟨header, rest⟩
    · rw [walkWords, walkWords]
      rfl
    · have shorter : (rest.drop (Pm4Header.count header)).length < size := by
        simp only [List.length_drop, ← left, List.length_cons]
        omega
      rw [walkWords, walkWords, perform_andThen]
      split
      · cases sink.perform enter walked (.of header (rest.take (Pm4Header.count header))) with
        | error fault => rfl
        | ok after =>
          simp only [Except.map, Except.bind, Walked.count_andThen]
          exact ih _ shorter _ _ rfl
      · exact ih _ (by simp [← left]) _ _ rfl

end Pm4Callbacks

namespace Pm4Sink

variable {σ : Type} (sink : Pm4Sink σ)

/-- Every callback is there, and resolving leaves the state alone. -/
def callbacks : Pm4Callbacks σ where
  writeReg := some sink.writeReg
  draw := some sink.draw
  waitIdle := some sink.waitIdle
  resolveIb := some fun state va size => (sink.resolveIb va size, state)

/-- The packets and the state a walk came to. -/
def outcome (result : Except Pm4Fault (Walked σ)) : Option (Word × σ) :=
  match result with
  | .ok walked => some (walked.packets, walked.state)
  | .error _ => none

@[simp] theorem outcome_ok (walked : Walked σ) : outcome (.ok walked) = some (walked.packets, walked.state) := rfl

theorem writeValues_callbacks (reg : Word) (values : List Word) (walked : Walked σ) :
    (sink.callbacks.writeValues reg values walked).packets = walked.packets ∧
    (sink.callbacks.writeValues reg values walked).state = sink.writeRegs walked.state reg values := by
  induction values generalizing reg walked with
  | nil => exact ⟨rfl, rfl⟩
  | cons value values ih => exact ih (reg + 1) _

variable {enter : List Word → σ → Option (Word × σ)}
  {enter' : List Word → σ → Except Pm4Fault (Walked σ)}

theorem command_callbacks (agree : ∀ ib state, enter ib state = outcome (enter' ib state))
    {header : Word} (type3 : Pm4Header.type header ≠ 0) (body : List Word) (walked : Walked σ) :
    outcome (sink.callbacks.perform enter' walked (.of header (body.take (Pm4Header.count header)))) =
      (sink.command enter header body walked.state).map fun after => (walked.packets + after.1, after.2) := by
  obtain ⟨more, announced⟩ : ∃ more, Pm4Header.count header = more + 1 := ⟨_, rfl⟩
  unfold command Pm4Action.of
  rw [if_neg type3, announced]
  by_cases wait : Pm4Header.type3Op header = Cp2xx.waitForIdle
  · rw [if_pos wait, if_pos wait]
    simp [Pm4Callbacks.perform, callbacks, Walked.call]
  rw [if_neg wait, if_neg wait]
  by_cases indexed : Pm4Header.type3Op header = Cp2xx.drawIndx
  · rw [if_pos indexed, if_pos indexed]
    rcases body with _ | ⟨word, _ | ⟨indices, rest⟩⟩ <;> cases more <;>
      simp [Pm4Callbacks.perform, callbacks, Walked.call]
  rw [if_neg indexed, if_neg indexed]
  by_cases direct : Pm4Header.type3Op header = Cp2xx.drawIndx2
  · rw [if_pos direct, if_pos direct]
    rcases body with _ | ⟨vertices, rest⟩ <;>
      simp [Pm4Callbacks.perform, callbacks, Walked.call]
  rw [if_neg direct, if_neg direct]
  by_cases constant : Pm4Header.type3Op header = Cp2xx.setConstant
  · rw [if_pos constant, if_pos constant]
    rcases body with _ | ⟨data1, values⟩
    · simp [Pm4Callbacks.perform]
    · simp [Pm4Callbacks.perform, writeValues_callbacks]
  rw [if_neg constant, if_neg constant]
  by_cases indirect : Pm4Header.type3Op header = Cp2xx.indirectBuf
  · rw [if_pos indirect, if_pos indirect]
    rcases body with _ | ⟨va, _ | ⟨size, rest⟩⟩
    · simp [Pm4Callbacks.perform]
    · cases more <;> simp [Pm4Callbacks.perform]
    · cases more with
      | zero => simp [Pm4Callbacks.perform]
      | succ more =>
        rcases found : sink.resolveIb va size with _ | _ | ⟨word, words⟩
        · have dropped : sink.resolved va size = none := by
            rw [resolved, found]
            rfl
          simp [Pm4Callbacks.perform, callbacks, found, dropped, Walked.call]
        · have dropped : sink.resolved va size = none := by
            rw [resolved, found]
            rfl
          simp [Pm4Callbacks.perform, callbacks, found, dropped, Walked.call]
        · have kept : sink.resolved va size = some (word :: words) := by
            rw [resolved, found]
            rfl
          cases entered : enter' (word :: words) walked.state with
          | error fault =>
            simp [Pm4Callbacks.perform, callbacks, found, kept, agree, entered, bind, Except.bind, outcome]
          | ok nested =>
            simp [Pm4Callbacks.perform, callbacks, found, kept, agree, entered, bind, Except.bind,
              Walked.call, Walked.andThen]
  · rw [if_neg indirect, if_neg indirect]
    simp [Pm4Callbacks.perform]

theorem walkFrom_callbacks (agree : ∀ ib state, enter ib state = outcome (enter' ib state))
    (words : List Word) (walked : Walked σ) :
    sink.walkFrom enter words walked.packets walked.state =
      outcome (sink.callbacks.walkWords enter' words walked) := by
  induction left : words.length using Nat.strongRecOn generalizing words walked with
  | ind size ih =>
    rcases words with _ | ⟨header, rest⟩
    · rw [walkFrom, Pm4Callbacks.walkWords_nil, outcome_ok]
    have shorter : (rest.drop (Pm4Header.count header)).length < size := by
      simp only [List.length_drop, ← left, List.length_cons]
      omega
    rw [walkFrom, Pm4Callbacks.walkWords]
    by_cases type0 : Pm4Header.type header = 0
    · rw [if_pos type0, if_pos (.inl type0), Pm4Action.of_type0 type0]
      have written := sink.writeValues_callbacks (Pm4Header.type0Base header)
        (rest.take (Pm4Header.count header)) walked
      rw [← written.1, ← written.2]
      exact ih _ shorter _ (sink.callbacks.writeValues (Pm4Header.type0Base header)
        (rest.take (Pm4Header.count header)) walked).count rfl
    by_cases type3 : Pm4Header.type header = 3
    · rw [if_neg type0, if_pos type3, if_pos (.inr type3)]
      have done := sink.command_callbacks agree type0 rest walked
      cases performed : sink.callbacks.perform enter' walked
          (.of header (rest.take (Pm4Header.count header))) with
      | error fault =>
        rw [performed] at done
        rw [Option.map_eq_none_iff.1 done.symm]
        rfl
      | ok after =>
        rw [performed, outcome_ok] at done
        obtain ⟨result, commanded, eq⟩ := Option.map_eq_some_iff.1 done.symm
        obtain ⟨packets, state⟩ := Prod.mk.inj eq
        rw [commanded, Option.bind_some, packets, state]
        exact ih _ shorter _ after.count rfl
    · rw [if_neg type0, if_neg type3, if_neg (not_or.2 ⟨type0, type3⟩)]
      exact ih _ (by simp [← left]) _ _ rfl

/-- The walk with all callbacks there is the walk that keeps no record of them. -/
theorem pm4Walk_callbacks (depth : Nat) (dcb : List Word) (state : σ) :
    sink.pm4Walk depth dcb state = outcome (sink.callbacks.pm4Walk depth dcb state) := by
  induction depth generalizing dcb state with
  | zero => rfl
  | succ depth ih =>
    rw [Pm4Callbacks.pm4Walk_succ]
    exact sink.walkFrom_callbacks ih dcb (.start state)

end Pm4Sink

/-- A packet with its whole body. Types 1 and 2 have none. -/
structure Pm4Packet where
  header : Word
  body : List Word
  complete : body.length =
    if Pm4Header.type header = 0 ∨ Pm4Header.type header = 3 then Pm4Header.count header else 0

namespace Pm4Packet

def words (packet : Pm4Packet) : List Word := packet.header :: packet.body

/-- Packets one after another. -/
def stream (packets : List Pm4Packet) : List Word := packets.flatMap words

theorem stream_cons (packet : Pm4Packet) (packets : List Pm4Packet) :
    stream (packet :: packets) = packet.words ++ stream packets := List.flatMap_cons

end Pm4Packet

namespace Pm4Callbacks

variable {σ : Type} {sink : Pm4Callbacks σ} {enter : List Word → σ → Except Pm4Fault (Walked σ)}

/-- What follows a complete packet has no part in it. -/
theorem walkWords_packet (packet : Pm4Packet) (rest : List Word) (walked : Walked σ) :
    sink.walkWords enter (packet.words ++ rest) walked =
      (sink.walkWords enter packet.words walked).bind (sink.walkWords enter rest) := by
  obtain ⟨header, body, complete⟩ := packet
  show sink.walkWords enter (header :: (body ++ rest)) walked = _
  rw [Pm4Packet.words, walkWords, walkWords]
  by_cases sized : Pm4Header.type header = 0 ∨ Pm4Header.type header = 3
  · rw [if_pos sized] at complete
    rw [if_pos sized, if_pos sized, ← complete, List.take_left, List.drop_left, List.take_length,
      List.drop_length]
    cases sink.perform enter walked (.of header body) with
    | error fault => rfl
    | ok after =>
      simp only [Except.bind, walkWords_nil]
  · rw [if_neg sized] at complete
    rw [if_neg sized, if_neg sized]
    simp only [List.eq_nil_of_length_eq_zero complete, walkWords_nil]
    rfl

theorem walkWords_stream (packets : List Pm4Packet) (rest : List Word) (walked : Walked σ) :
    sink.walkWords enter (Pm4Packet.stream packets ++ rest) walked =
      (sink.walkWords enter (Pm4Packet.stream packets) walked).bind (sink.walkWords enter rest) := by
  induction packets generalizing walked with
  | nil =>
    rw [show Pm4Packet.stream [] = [] from rfl, walkWords_nil]
    rfl
  | cons packet packets ih =>
    rw [Pm4Packet.stream_cons, List.append_assoc, walkWords_packet, walkWords_packet]
    cases sink.walkWords enter packet.words walked with
    | error fault => rfl
    | ok after => exact ih after

/-- An action is over at once, or is the walk of a buffer that the resolver gave. -/
theorem perform_cases (sink : Pm4Callbacks σ) (walked : Walked σ) (action : Pm4Action) :
    (∃ after, ∀ enter, sink.perform enter walked action = .ok after) ∨
      ∃ va size resolve ib state, action = .indirect va size ∧ sink.resolveIb = some resolve ∧
        resolve walked.state va size = (some ib, state) ∧
        ∀ enter, sink.perform enter walked action =
          (enter ib state).map (walked.call state (.resolveIb va size)).andThen := by
  cases action with
  | skip => exact .inl ⟨walked, fun _ => rfl⟩
  | waitIdle =>
    simp only [perform]
    cases sink.waitIdle with
    | none => exact .inl ⟨walked, fun _ => rfl⟩
    | some wait => exact .inl ⟨_, fun _ => rfl⟩
  | draw indexed count =>
    simp only [perform]
    cases sink.draw with
    | none => exact .inl ⟨walked, fun _ => rfl⟩
    | some draw => exact .inl ⟨_, fun _ => rfl⟩
  | registers base values => exact .inl ⟨_, fun _ => rfl⟩
  | indirect va size =>
    simp only [perform]
    cases sink.resolveIb with
    | none => exact .inl ⟨walked, fun _ => rfl⟩
    | some resolve =>
      rcases found : resolve walked.state va size with ⟨_ | ib, state⟩
      · exact .inl ⟨walked.call state (.resolveIb va size), fun _ => by simp only [found]⟩
      · by_cases empty : ib.isEmpty
        · exact .inl ⟨walked.call state (.resolveIb va size), fun _ => by simp only [found, if_pos empty]⟩
        · refine .inr ⟨va, size, resolve, ib, state, rfl, rfl, found, fun enter => ?_⟩
          simp only [found, if_neg empty]
          rfl

/-- A fault is one of a nested walk. -/
theorem perform_fault {action : Pm4Action} {walked : Walked σ} {fault : Pm4Fault}
    (failed : sink.perform enter walked action = .error fault) :
    ∃ ib state, enter ib state = .error fault := by
  rcases sink.perform_cases walked action with ⟨after, done⟩ | ⟨va, size, _, ib, state, _, _, _, nested⟩
  · rw [done enter] at failed
    cases failed
  · rw [nested enter] at failed
    refine ⟨ib, state, ?_⟩
    cases entered : enter ib state with
    | error other =>
      rw [entered] at failed
      exact failed
    | ok after =>
      rw [entered] at failed
      cases failed

theorem walkWords_fault {words : List Word} {walked : Walked σ} {fault : Pm4Fault}
    (failed : sink.walkWords enter words walked = .error fault) :
    ∃ ib state, enter ib state = .error fault := by
  induction left : words.length using Nat.strongRecOn generalizing words walked with
  | ind size ih =>
    rcases words with _ | ⟨header, rest⟩
    · rw [walkWords_nil] at failed
      cases failed
    · have shorter : (rest.drop (Pm4Header.count header)).length < size := by
        simp only [List.length_drop, ← left, List.length_cons]
        omega
      rw [walkWords] at failed
      split at failed
      · cases done : sink.perform enter walked (.of header (rest.take (Pm4Header.count header))) with
        | error other =>
          rw [done] at failed
          cases failed
          exact perform_fault done
        | ok after =>
          rw [done] at failed
          exact ih _ shorter failed rfl
      · exact ih _ (by simp [← left]) failed rfl

/-- No walk reads outside the buffer it is in. -/
theorem pm4Walk_inBounds (depth : Nat) (dcb : List Word) (state : σ) :
    sink.pm4Walk depth dcb state ≠ .error .outOfBounds := by
  induction depth generalizing dcb state with
  | zero => exact fun failed => nomatch failed
  | succ depth ih =>
    intro failed
    rw [pm4Walk_succ] at failed
    obtain ⟨ib, after, nested⟩ := walkWords_fault failed
    exact ih ib after nested

/-- No resolved buffer holds an INDIRECT_BUFFER packet. -/
def Flat (sink : Pm4Callbacks σ) : Prop :=
  ∀ resolve, sink.resolveIb = some resolve → ∀ state va size ib after,
    resolve state va size = (some ib, after) → ibLinks ib = []

/-- A packet that asks for another buffer is among the buffer's links. -/
theorem indirect_link {header va size : Word} {rest : List Word} (type0 : Pm4Header.type header ≠ 0)
    (asks : Pm4Action.of header (rest.take (Pm4Header.count header)) = .indirect va size) :
    ibLink header rest = [(va, size)] := by
  unfold Pm4Action.of at asks
  rw [if_neg type0] at asks
  obtain ⟨more, announced⟩ : ∃ more, Pm4Header.count header = more + 1 := ⟨_, rfl⟩
  rw [announced] at asks
  unfold ibLink
  rw [announced]
  by_cases indirect : Pm4Header.type3Op header = Cp2xx.indirectBuf
  · rw [indirect] at asks
    rcases rest with _ | ⟨word, _ | ⟨next, rest⟩⟩
    · cases asks
    · cases more <;> cases asks
    · cases more with
      | zero => cases asks
      | succ more =>
        cases asks
        rw [if_pos ⟨indirect, by omega⟩]
  · split_ifs at asks
    · split at asks
      · cases asks
      · cases asks
    · split at asks
      · cases asks
      · cases asks
    · split at asks
      · cases asks
      · cases asks

/-- A walk returns, the same way for every bound on the nesting, if the walks of the buffers it
enters do. -/
theorem walkWords_returns {E : Nat → List Word → σ → Except Pm4Fault (Walked σ)} (words : List Word)
    (walked : Walked σ)
    (nested : ∀ link ∈ ibLinks words, ∀ resolve, sink.resolveIb = some resolve → ∀ state ib after,
      resolve state link.1 link.2 = (some ib, after) → ∃ inner, ∀ n, E n ib after = .ok inner) :
    ∃ after, ∀ n, sink.walkWords (E n) words walked = .ok after := by
  induction left : words.length using Nat.strongRecOn generalizing words walked with
  | ind size ih =>
    rcases words with _ | ⟨header, rest⟩
    · exact ⟨walked, fun n => walkWords_nil walked⟩
    have shorter : (rest.drop (Pm4Header.count header)).length < size := by
      simp only [List.length_drop, ← left, List.length_cons]
      omega
    by_cases sized : Pm4Header.type header = 0 ∨ Pm4Header.type header = 3
    · have performed : ∃ after, ∀ n, sink.perform (E n) walked
          (.of header (rest.take (Pm4Header.count header))) = .ok after := by
        rcases sink.perform_cases walked (.of header (rest.take (Pm4Header.count header))) with
          ⟨after, done⟩ | ⟨va, length, resolve, ib, state, asks, resolves, found, entered⟩
        · exact ⟨after, fun n => done (E n)⟩
        · have type0 : Pm4Header.type header ≠ 0 := by
            intro type0
            rw [Pm4Action.of_type0 type0] at asks
            cases asks
          have linked : (va, length) ∈ ibLinks (header :: rest) := by
            rw [ibLinks, if_neg type0, if_pos (sized.resolve_left type0), indirect_link type0 asks]
            exact List.mem_cons_self
          obtain ⟨inner, returns⟩ := nested _ linked resolve resolves walked.state ib state found
          refine ⟨(walked.call state (.resolveIb va length)).andThen inner, fun n => ?_⟩
          rw [entered, returns]
          rfl
      obtain ⟨after, done⟩ := performed
      obtain ⟨last, returns⟩ := ih _ shorter (rest.drop (Pm4Header.count header)) after.count
        (fun link linked => nested link (by
          rw [ibLinks]
          split_ifs with type0 type3
          · exact linked
          · exact List.mem_append_right _ linked
          · exact absurd sized (not_or.2 ⟨type0, type3⟩))) rfl
      refine ⟨last, fun n => ?_⟩
      rw [walkWords, if_pos sized, done]
      exact returns n
    · obtain ⟨last, returns⟩ := ih rest.length (by simp [← left]) rest walked
        (fun link linked => nested link (by
          rw [ibLinks, if_neg (mt .inl sized), if_neg (mt .inr sized)]
          exact linked)) rfl
      refine ⟨last, fun n => ?_⟩
      rw [walkWords, if_neg sized]
      exact returns n

/-- A buffer that names no other is walked without nesting. -/
theorem pm4Walk_flat {dcb : List Word} (flat : ibLinks dcb = []) (state : σ) :
    ∃ after, ∀ depth, sink.pm4Walk (depth + 1) dcb state = .ok after := by
  obtain ⟨after, returns⟩ := @walkWords_returns σ sink sink.pm4Walk dcb (.start state)
    (fun link linked => by simp [flat] at linked)
  exact ⟨after, fun depth => (pm4Walk_succ depth dcb state).trans (returns depth)⟩

theorem pm4Walk_returns (flat : sink.Flat) (dcb : List Word) (state : σ) :
    ∃ after, ∀ depth, sink.pm4Walk (depth + 2) dcb state = .ok after := by
  obtain ⟨after, returns⟩ := @walkWords_returns σ sink (fun n => sink.pm4Walk (n + 1)) dcb
    (.start state) (fun link _ resolve resolves before ib after found =>
      pm4Walk_flat (flat resolve resolves before link.1 link.2 ib after found) after)
  exact ⟨after, fun depth => (pm4Walk_succ (depth + 1) dcb state).trans (returns depth)⟩

/-- What follows complete packets is walked after them, as it is walked alone. No walk reads
outside its buffer. -/
theorem pm4Walk_append (flat : sink.Flat) :
    (∀ (packets : List Pm4Packet) (rest : List Word) (state : σ), ∃ first second, ∀ depth,
      sink.pm4Walk (depth + 2) (Pm4Packet.stream packets) state = .ok first ∧
      sink.pm4Walk (depth + 2) rest first.state = .ok second ∧
      sink.pm4Walk (depth + 2) (Pm4Packet.stream packets ++ rest) state =
        .ok (first.andThen second)) ∧
    ∀ depth dcb state, sink.pm4Walk depth dcb state ≠ .error .outOfBounds := by
  refine ⟨fun packets rest state => ?_, pm4Walk_inBounds⟩
  obtain ⟨first, before⟩ := pm4Walk_returns flat (Pm4Packet.stream packets) state
  obtain ⟨second, after⟩ := pm4Walk_returns flat rest first.state
  refine ⟨first, second, fun depth => ⟨before depth, after depth, ?_⟩⟩
  have walked := before depth
  have walked' := after depth
  rw [pm4Walk_succ] at walked walked' ⊢
  rw [walkWords_stream, walked]
  have last := @walkWords_andThen σ sink (sink.pm4Walk (depth + 1)) rest first
    (.start first.state)
  rw [Walked.andThen_start, walked'] at last
  exact last

/-- Callbacks that count the calls; every address names a buffer with one draw. -/
def drawsThrough : Pm4Callbacks Nat where
  writeReg := some fun calls _ _ => calls + 1
  draw := some fun calls _ _ _ => calls + 1
  waitIdle := none
  resolveIb := some fun calls _ _ => (some [0xc0003600, 3], calls + 1)

def indirectPacket : Pm4Packet := ⟨0xc0013f00, [0x1000, 2], by decide⟩

/-- A draw through one indirect buffer, and a register write that is cut short. -/
theorem pm4Walk_append_indirect :
    ∃ first second : Walked Nat,
      drawsThrough.pm4Walk 2 (Pm4Packet.stream [indirectPacket]) 0 = .ok first ∧
      drawsThrough.pm4Walk 2 [0x00010100, 7] first.state = .ok second ∧
      drawsThrough.pm4Walk 2 (Pm4Packet.stream [indirectPacket] ++ [0x00010100, 7]) 0 =
        .ok (first.andThen second) := by
  have flat : drawsThrough.Flat := by
    intro resolve resolves state va size ib after found
    cases resolves
    cases found
    simp [ibLinks, ibLink, Pm4Header.type, Pm4Header.count, Pm4Header.type3Op, Cp2xx.indirectBuf]
  obtain ⟨first, second, walks⟩ := (pm4Walk_append flat).1 [indirectPacket] [0x00010100, 7] 0
  exact ⟨first, second, walks 0⟩

end Pm4Callbacks

end ZeeboLle.Gpu
