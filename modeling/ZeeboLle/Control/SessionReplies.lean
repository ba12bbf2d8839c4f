import ZeeboLle.Control.Session

/-! The replies of a session as JSON. Every one is an object that begins with `ok`, and a request
that is refused leaves the machine as it was, unless it is one that executes instructions. -/
namespace ZeeboLle.Control

open Unicorn Streams Json Paging

def IsJson (text : List Byte) : Prop := (parse text).isSome

variable {text raw : List Byte}

theorem isDigit_decimal {n : Nat} {byte : Byte} (member : byte ∈ decimal n) : isDigit byte = true := by
  obtain ⟨digit, small, rfl⟩ := decimal_digit member
  interval_cases digit <;> decide

/-- No decimal text but zero begins with a zero. -/
theorem head_decimal (n : Nat) : decimal n = [48] ∨ (decimal n).head? ≠ some 48 := by
  unfold decimal
  split
  · exact .inl rfl
  · rename_i positive
    right
    have last := Nat.getLast_digit_ne_zero 10 positive
    have small : (Nat.digits 10 n).getLast (Nat.digits_ne_nil_iff_ne_zero.mpr positive) < 10 :=
      Nat.digits_lt_base (by decide) (List.getLast_mem _)
    rw [List.head?_map, List.head?_reverse, List.getLast?_eq_getLast_of_ne_nil
      (Nat.digits_ne_nil_iff_ne_zero.mpr positive), Option.map_some]
    intro same
    generalize (Nat.digits 10 n).getLast _ = digit at last small same
    interval_cases digit
    · exact last rfl
    all_goals exact absurd (Option.some.inj same) (by decide)

theorem isNumber_decimal (n : Nat) : isNumber (decimal n) = true := by
  have digits : ∀ byte ∈ decimal n, isDigit byte = true := fun byte => isDigit_decimal
  have unsigned : (decimal n).head? ≠ some 45 := by
    intro same
    exact absurd (digits 45 (List.mem_of_head? same)) (by decide)
  have whole : (decimal n).takeWhile isDigit = decimal n := List.takeWhile_eq_self_iff.mpr digits
  have rest : (decimal n).dropWhile isDigit = [] := List.dropWhile_eq_nil_iff.mpr digits
  have zero : (decimal n = [48] || decide ((decimal n).head? ≠ some 48)) = true := by
    simpa using head_decimal n
  unfold isNumber
  simp only [if_neg unsigned, whole, rest]
  rw [Bool.and_eq_true, Bool.and_eq_true]
  exact ⟨⟨by simpa using decimal_ne_nil n, zero⟩, rfl⟩

/-- A text that is a number as a whole. -/
theorem parse_number (number : isNumber text = true) (marks : ∀ byte ∈ text, inNumber byte = true) :
    parse text = some (.number text) := by
  cases text with
  | nil => cases number
  | cons byte rest =>
    have first := marks byte List.mem_cons_self
    have blank : isBlank byte = false := by
      by_contra spaced
      simp only [isBlank, Bool.not_eq_false, Bool.or_eq_true, decide_eq_true_eq] at spaced
      rcases spaced with ((rfl | rfl) | rfl) | rfl <;> exact absurd first (by decide)
    have other (mark : Byte) (outside : inNumber mark = false) : byte ≠ mark := by
      rintro rfl
      rw [first] at outside
      cases outside
    have whole : (byte :: rest).takeWhile inNumber = byte :: rest := List.takeWhile_eq_self_iff.mpr marks
    have none : (byte :: rest).dropWhile inNumber = [] := List.dropWhile_eq_nil_iff.mpr marks
    apply parse_of_read
    rw [readTree, skip_unblank blank]
    dsimp only
    rw [if_neg (other quote (by decide)), if_neg (other 91 (by decide)), if_neg (other opening (by decide)),
      readScalar_number first, readNumber, whole, none, if_pos number]

theorem parse_decimal (n : Nat) : parse (decimal n) = some (.number (decimal n)) :=
  parse_number (isNumber_decimal n) fun byte member => by
    simp [inNumber, isDigit_decimal member]

@[simp] theorem IsJson.decimal (n : Nat) : IsJson (decimal n) := by
  rw [IsJson, parse_decimal]
  rfl

@[simp] theorem IsJson.word (n : Word) : IsJson (DebugMachine.word n) := .decimal _

@[simp] theorem IsJson.signedText (n : BitVec 64) : IsJson (signedText n) := by
  unfold Control.signedText
  split
  · have number : isNumber (minus :: Json.decimal n.toInt.natAbs) = true := by
      have unsigned := isNumber_decimal n.toInt.natAbs
      have first : (Json.decimal n.toInt.natAbs).head? ≠ some 45 := by
        intro same
        exact absurd (isDigit_decimal (List.mem_of_head? same)) (by decide)
      simpa only [isNumber, if_neg first, List.head?_cons, List.tail_cons, minus, if_pos] using unsigned
    rw [IsJson, parse_number number]
    · rfl
    · intro byte member
      rcases List.mem_cons.mp member with rfl | member
      · decide
      · simp [inNumber, isDigit_decimal member]
  · exact .decimal _

theorem parse_boolText (value : Bool) : parse (boolText value) = some (.bool value) := by
  cases value <;> rfl

@[simp] theorem IsJson.boolText (value : Bool) : IsJson (boolText value) := by
  rw [IsJson, parse_boolText]
  rfl

theorem parse_quoted (plain : raw.all isPlain = true) : parse (quoted raw) = some (.string raw) :=
  parse_string (.self plain)

theorem IsJson.quoted (plain : raw.all isPlain = true) : IsJson (quoted raw) := by
  rw [IsJson, parse_quoted plain]
  rfl

theorem isPlain_hexChar {digit : Nat} (small : digit < 16) : isPlain (hexChar digit) = true := by
  interval_cases digit <;> decide

theorem isPlain_hexadecimal (n : Nat) : (hexadecimal n).all isPlain = true := by
  unfold hexadecimal
  split
  · decide
  · rw [List.all_map, List.all_eq_true]
    intro digit member
    exact isPlain_hexChar (Nat.digits_lt_base (by decide) (List.mem_reverse.mp member))

theorem isPlain_hexText (bytes : List Byte) : (hexText bytes).all isPlain = true := by
  rw [hexText, List.all_flatMap, List.all_eq_true]
  intro byte member
  have high : byte.toNat / 16 < 16 := by omega
  have low : byte.toNat % 16 < 16 := by omega
  simp [isPlain_hexChar high, isPlain_hexChar low]

theorem isPlain_ucStrerror (err : UcErr) : (ucStrerror err).all isPlain = true := by
  cases err <;> decide

/-- Fields with plain names and JSON for values. -/
structure FieldsRead (fields : List (String × List Byte)) : Prop where
  names : ∀ name ∈ fields.map Prod.fst, (ascii name).all isPlain = true
  texts : ∀ text ∈ fields.map Prod.snd, IsJson text

/-- What an object of fields is read as. -/
theorem parse_written {fields : List (String × List Byte)} (trees : List Tree)
    (names : ∀ name ∈ fields.map Prod.fst, (ascii name).all isPlain = true)
    (texts : fields.map (fun field => parse field.2) = trees.map some) :
    parse (written fields) =
      some (.object ((fields.map fun field => ascii field.1).zip trees)) := by
  let entries := (fields.zip trees).map fun both => Entry.plain (ascii both.1.1) both.1.2 both.2
  have long : fields.length = trees.length := by simpa using congrArg List.length texts
  have means : ∀ entry ∈ entries, entry.Means := by
    intro entry member
    obtain ⟨⟨field, tree⟩, both, rfl⟩ := List.mem_map.mp member
    refine .plain (names _ (List.mem_map_of_mem (List.of_mem_zip both).1)) ?_
    obtain ⟨index, below, found⟩ := List.mem_iff_getElem.mp both
    rw [List.getElem_zip, Prod.mk.injEq] at found
    rw [List.length_zip] at below
    have left : fields[index]? = some field := by
      rw [List.getElem?_eq_getElem (by omega), found.1]
    have right : trees[index]? = some tree := by
      rw [List.getElem?_eq_getElem (by omega), found.2]
    have read := congrArg (fun list => list[index]?) texts
    simpa [left, right] using read
  have keys : entries.map Entry.written =
      fields.map fun field => quote :: (ascii field.1 ++ quote :: colon :: field.2) := by
    have firsts : (fields.zip trees).map Prod.fst = fields := List.map_fst_zip (le_of_eq long)
    calc entries.map Entry.written = ((fields.zip trees).map Prod.fst).map
          fun field => quote :: (ascii field.1 ++ quote :: colon :: field.2) := by
            simp [entries, Entry.written, Entry.plain, Function.comp_def]
      _ = _ := by rw [firsts]
  have parsed := parse_object means
  rw [keys] at parsed
  rw [written, parsed]
  congr 2
  simp [entries, Entry.plain, List.zip_map_left, Function.comp_def]

/-- The `ok` that a reply begins with. -/
def replyOk (reply : List Byte) : Option Bool :=
  match parse reply with
  | some (.object ((key, .bool ok) :: _)) => if key = ascii "ok" then some ok else none
  | _ => none

theorem replyOk_of_parse {reply : List Byte} {ok : Bool} {members : List (List Byte × Tree)}
    (parsed : parse reply = some (.object ((ascii "ok", .bool ok) :: members))) :
    replyOk reply = some ok := by
  rw [replyOk, parsed]
  exact if_pos rfl

theorem FieldsRead.exists_trees {fields : List (String × List Byte)} (read : FieldsRead fields) :
    ∃ trees : List Tree, fields.map (fun field => parse field.2) = trees.map some := by
  refine ⟨fields.filterMap fun field => parse field.2, ?_⟩
  obtain ⟨names, texts⟩ := read
  clear names
  induction fields with
  | nil => rfl
  | cons field fields ih =>
    rw [List.map_cons, List.forall_mem_cons] at texts
    obtain ⟨tree, found⟩ := Option.isSome_iff_exists.mp texts.1
    rw [List.map_cons, List.filterMap_cons, found, List.map_cons, ih texts.2]

theorem replyOk_written {fields : List (String × List Byte)} (ok : Bool) (read : FieldsRead fields) :
    replyOk (written (("ok", boolText ok) :: fields)) = some ok := by
  obtain ⟨trees, texts⟩ := read.exists_trees
  refine replyOk_of_parse (parse_written (.bool ok :: trees) ?_ ?_)
  · rw [List.map_cons, List.forall_mem_cons]
    exact ⟨show (ascii "ok").all isPlain = true by decide, read.names⟩
  · rw [List.map_cons, List.map_cons, texts, parse_boolText]

theorem IsJson.written {fields : List (String × List Byte)} (read : FieldsRead fields) :
    IsJson (written fields) := by
  obtain ⟨trees, texts⟩ := read.exists_trees
  rw [IsJson, parse_written trees read.names texts]
  rfl

theorem replyOk_success {fields : List (String × List Byte)} (read : FieldsRead fields) :
    replyOk (success fields) = some true := replyOk_written true read

theorem replyOk_failure {error : List Byte} (plain : error.all isPlain = true) :
    replyOk (failure error) = some false := by
  refine replyOk_written false ⟨fun name member => ?_, fun text member => ?_⟩
  · obtain rfl := List.mem_singleton.mp member
    exact show (ascii "error").all isPlain = true by decide
  · obtain rfl := List.mem_singleton.mp member
    exact .quoted plain

theorem IsJson.array {texts : List (List Byte)} (each : ∀ text ∈ texts, IsJson text) :
    IsJson (91 :: ([comma].intercalate texts ++ [93])) := by
  let parts := texts.map fun text => (text, (parse text).getD .null)
  have firsts : parts.map Prod.fst = texts := by simp [parts, Function.comp_def]
  have parsed := parse_array fun part (member : part ∈ parts) => by
    obtain ⟨text, inside, rfl⟩ := List.mem_map.mp member
    obtain ⟨tree, found⟩ := Option.isSome_iff_exists.mp (each text inside)
    simp [found]
  rw [firsts] at parsed
  rw [IsJson, parsed]
  rfl

theorem isPlain_append {front back : List Byte} (first : front.all isPlain = true)
    (second : back.all isPlain = true) : (front ++ back).all isPlain = true := by
  rw [List.all_append, first, second]
  rfl

theorem replyOk_failed {front : List Byte} (plain : front.all isPlain = true) (err : UcErr) :
    replyOk (failure (front ++ ucStrerror err)) = some false :=
  replyOk_failure (isPlain_append plain (isPlain_ucStrerror err))

theorem parse_null : parse (ascii "null") = some .null := by rfl

theorem StrictUnmappedTrap.isJson (trap : StrictUnmappedTrap) : IsJson trap.json := by
  have kind (access : StrictUnmappedRecord) : access.kind.text.all isPlain = true := by
    cases access.kind <;> decide
  have event : IsJson ((trap.record.map StrictUnmappedRecord.json).getD (ascii "null")) := by
    cases trap.record with
    | none => exact Option.isSome_iff_exists.mpr ⟨_, parse_null⟩
    | some access =>
      rw [Option.map_some, Option.getD_some, StrictUnmappedRecord.json]
      split
      · refine .written ⟨?_, ?_⟩
        · simp only [List.map_append, List.map_cons, List.map_nil]
          decide
        · simp [IsJson.quoted (kind access)]
      · refine .written ⟨?_, ?_⟩
        · simp only [List.append_nil, List.map_cons, List.map_nil]
          decide
        · simp [IsJson.quoted (kind access)]
  refine .written ⟨?_, ?_⟩
  · simp only [List.map_cons, List.map_nil]
    decide
  · simp [event]

namespace DebugMachine

/-- An answer as JSON, and what a refusal leaves. -/
structure AnswersJson (machine : DebugMachine) (answer : List Byte × DebugMachine) : Prop where
  isOk : (replyOk answer.1).isSome
  refused : replyOk answer.1 = some false → answer.2 = machine

variable {machine later : DebugMachine} {reply error : List Byte} {fields : List (String × List Byte)}

theorem AnswersJson.same (read : (replyOk reply).isSome) : AnswersJson machine (reply, machine) :=
  ⟨read, fun _ => rfl⟩

theorem isOk_failure (plain : error.all isPlain = true) : (replyOk (failure error)).isSome := by
  rw [replyOk_failure plain]
  rfl

theorem isOk_success (read : FieldsRead fields) : (replyOk (success fields)).isSome := by
  rw [replyOk_success read]
  rfl

theorem AnswersJson.failure (plain : error.all isPlain = true) :
    AnswersJson machine (Control.failure error, machine) := .same (isOk_failure plain)

theorem AnswersJson.success (read : FieldsRead fields) :
    AnswersJson machine (Control.success fields, later) := by
  have ok := replyOk_success read
  refine ⟨by rw [ok]; rfl, fun refused => ?_⟩
  rw [ok] at refused
  cases refused

theorem isJson_frames (mem : Memory) (left curSp frameIdx : Nat) :
    ∀ text ∈ frames mem left curSp frameIdx, IsJson text := by
  induction left generalizing curSp frameIdx with
  | zero => simp [frames]
  | succ left ih =>
    unfold frames
    split
    · simp
    split
    · split
      · refine List.forall_mem_cons.mpr ⟨.written ⟨?_, ?_⟩, ih _ _⟩
        · simp only [List.map_cons, List.map_nil]
          decide
        · simp
      · exact ih _ _
    · exact ih _ _

theorem isOk_backtrace (machine : DebugMachine) (req : ControlRequest) :
    (replyOk (backtrace machine req)).isSome := by
  unfold backtrace
  split
  · exact isOk_failure (by decide)
  refine isOk_success ⟨?_, ?_⟩
  · simp only [List.map_cons, List.map_nil]
    decide
  · have first : IsJson (written [("frame", decimal 0),
        ("pc", word (machine.cpus (coreOf req)).regs.readPc),
        ("lr", word (machine.cpus (coreOf req)).regs.readLr),
        ("sp", word (machine.cpus (coreOf req)).regs.readSp),
        ("fp", word ((machine.cpus (coreOf req)).regs.r 11))]) := by
      refine .written ⟨?_, ?_⟩
      · simp only [List.map_cons, List.map_nil]
        decide
      · simp
    have items := IsJson.array (List.forall_mem_cons.mpr ⟨first, isJson_frames
      (machine.cpus (coreOf req)).mem 64 (machine.cpus (coreOf req)).regs.readSp.toNat 1⟩)
    simpa using items

theorem isOk_dstat (machine : DebugMachine) (req : ControlRequest) :
    (replyOk (dstat machine req)).isSome := by
  unfold dstat
  split
  · exact isOk_failure (by decide)
  refine isOk_success ⟨?_, ?_⟩
  · simp only [List.map_cons, List.map_nil]
    decide
  · simp

theorem isOk_peek (machine : DebugMachine) (req : ControlRequest) :
    (replyOk (peek machine req)).isSome := by
  unfold peek
  split
  · exact isOk_failure (by decide)
  split
  · exact isOk_failure (by decide)
  split
  · exact isOk_failure (isPlain_append (by decide) (isPlain_ucStrerror _))
  · rename_i bytes _
    refine isOk_success ⟨?_, ?_⟩
    · simp only [List.map_cons, List.map_nil]
      decide
    · have hex : (ascii "0x" ++ hexadecimal (leValue bytes)).all isPlain = true :=
        isPlain_append (by decide) (isPlain_hexadecimal _)
      simp [IsJson.quoted hex]

theorem answersJson_poke (machine : DebugMachine) (req : ControlRequest) :
    AnswersJson machine (poke machine req) := by
  unfold poke
  split
  · exact .failure (by decide)
  split
  · exact .failure (by decide)
  dsimp only
  split
  · exact .failure (isPlain_append (by decide) (isPlain_ucStrerror _))
  · refine .success ⟨?_, ?_⟩
    · simp only [List.map_cons, List.map_nil]
      decide
    · simp [show IsJson (ascii "true") from .boolText true]

theorem isOk_vramStat (machine : DebugMachine) : (replyOk (vramStat machine)).isSome := by
  refine isOk_success ⟨?_, ?_⟩
  · simp only [List.map_cons, List.map_nil]
    decide
  · have format : IsJson (quoted (ascii "RGB565")) := .quoted (by decide)
    simp [format]

theorem isOk_state (machine : DebugMachine) (cycle : Nat) : (replyOk (state machine cycle)).isSome := by
  refine isOk_success ⟨?_, ?_⟩
  · simp only [List.map_cons, List.map_nil]
    decide
  · simp

/-- The replies of the commands that say one thing. -/
theorem isOk_flag {name : String} (plain : (ascii name).all isPlain = true) :
    (replyOk (success [(name, ascii "true")])).isSome := by
  refine isOk_success ⟨?_, ?_⟩
  · simpa using plain
  · simp [show IsJson (ascii "true") from .boolText true]

theorem isOk_cont (env : Debuggee) (machine : DebugMachine) :
    (replyOk (cont env machine).reply).isSome := by
  unfold cont
  dsimp only
  split
  · exact isOk_failure (by decide)
  split
  · exact isOk_failure (by decide)
  · exact isOk_flag (by decide)

theorem isOk_step (env : Debuggee) (machine : DebugMachine) (cycle : Nat) (req : ControlRequest) :
    (replyOk (step env machine cycle req).reply).isSome := by
  unfold step
  split
  · exact isOk_failure (by decide)
  dsimp only
  split
  · rename_i err _
    rw [show ascii "false" = boolText false from rfl, replyOk_written]
    · rfl
    refine ⟨?_, ?_⟩
    · simp only [List.map_cons, List.map_nil]
      decide
    · have named : IsJson (quoted (ascii "emu_step")) := .quoted (by decide)
      simp [named, IsJson.quoted err.plain]
  · refine isOk_success ⟨?_, ?_⟩
    · simp only [List.map_cons, List.map_nil]
      decide
    · simp

theorem answersJson_hook (machine : DebugMachine) (req : ControlRequest) :
    AnswersJson machine (hook machine req) := by
  refine .success ⟨?_, ?_⟩
  · simp only [List.map_cons, List.map_nil]
    decide
  · have text : (if req.strAction = [] ∨ req.strAction = ascii "clear" then ascii "cleared"
        else ascii "set").all isPlain = true := by
      split <;> decide
    simp [IsJson.quoted text]

theorem isOk_reg (machine : DebugMachine) (req : ControlRequest) :
    (replyOk (reg machine req)).isSome := by
  unfold reg
  split
  · exact isOk_failure (by decide)
  refine isOk_success ⟨?_, ?_⟩
  · simp only [List.map_cons, List.map_nil]
    decide
  · simp

theorem answersJson_setreg (machine : DebugMachine) (req : ControlRequest) :
    AnswersJson machine (setreg machine req) := by
  unfold setreg
  split
  · exact .failure (by decide)
  refine .success ⟨?_, ?_⟩
  · simp only [List.map_cons, List.map_nil]
    decide
  · simp

theorem isOk_read (machine : DebugMachine) (req : ControlRequest) :
    (replyOk (read machine req)).isSome := by
  unfold read
  split
  · exact isOk_failure (by decide)
  dsimp only
  generalize (if req.hasI1 then req.i1.toInt else 4) = requestedLen
  split
  · exact isOk_failure (by decide)
  split
  · exact isOk_failure (isPlain_append (by decide) (isPlain_ucStrerror _))
  · rename_i bytes _
    refine isOk_success ⟨?_, ?_⟩
    · simp only [List.map_cons, List.map_nil]
      decide
    · simp [IsJson.quoted (isPlain_hexText bytes)]

theorem answersJson_write (machine : DebugMachine) (req : ControlRequest) :
    AnswersJson machine (write machine req) := by
  unfold write
  split
  · exact .failure (by decide)
  split
  · exact .failure (by decide)
  dsimp only
  split
  · exact .failure (isPlain_append (by decide) (isPlain_ucStrerror _))
  · refine .success ⟨?_, ?_⟩
    · simp only [List.map_cons, List.map_nil]
      decide
    · simp

/-- Two fields: an address and the core of a request. -/
theorem answersJson_breakpoint {name : String} (plain : (ascii name).all isPlain = true)
    (req : ControlRequest) : AnswersJson machine
      (success [(name, word (address req)), ("core", signedText req.core)], later) := by
  refine .success ⟨?_, ?_⟩
  · rw [List.map_cons, List.forall_mem_cons, List.map_cons, List.forall_mem_cons]
    exact ⟨plain, show (ascii "core").all isPlain = true by decide, by simp⟩
  · simp

theorem answersJson_strictUnmapped (machine : DebugMachine) (req : ControlRequest) :
    AnswersJson machine (strictUnmappedRequest machine req) := by
  refine .success ⟨?_, ?_⟩
  · simp only [List.map_cons, List.map_nil]
    decide
  · simp [StrictUnmappedTrap.isJson]

/-- Registered probes whose names can be written, and whose values are JSON. -/
def Registered (probes : ProbeRegistry DebugMachine) (machine : DebugMachine) : Prop :=
  ∀ probe ∈ probes, (Clean probe.name ∧ Clean probe.desc) ∧ IsJson (probe.payload machine)

theorem isOk_listJson {probes : ProbeRegistry DebugMachine} (registered : Registered probes machine) :
    (replyOk probes.listJson).isSome := by
  rw [replyOk_of_parse (ProbeRegistry.parse_listJson fun probe member => (registered probe member).1)]
  rfl

theorem isOk_getJson {probes : ProbeRegistry DebugMachine} (registered : Registered probes machine)
    (name : List Byte) : (replyOk (probes.getJson machine name)).isSome := by
  unfold ProbeRegistry.getJson
  split
  · rename_i probe found
    have own : probe.name = name := by simpa using List.find?_some found
    obtain ⟨clean, value⟩ := registered probe (List.mem_of_find?_eq_some found)
    obtain ⟨tree, parsed⟩ := Option.isSome_iff_exists.mp value
    subst own
    rw [replyOk_of_parse (parse_getText clean.1 parsed)]
    rfl
  · have text : ascii "\x7b\"ok\":false,\"error\":\"unknown_probe\"\x7d" =
        failure (ascii "unknown_probe") := by decide
    rw [text]
    exact isOk_failure (by decide)

/-- An answer whose reply is JSON with `ok`; a refusal without a run of the engine leaves the
machine as it was. -/
structure Replied (machine : DebugMachine) (command : Option Command) (answer : Answer) : Prop where
  isOk : (replyOk answer.reply).isSome
  refused : replyOk answer.reply = some false → command ≠ some .cont → command ≠ some .step →
    answer.machine = machine ∧ answer.executed = []

theorem Replied.of {command : Option Command} {answer : List Byte × DebugMachine}
    (json : AnswersJson machine answer) : Replied machine command (.of answer) :=
  ⟨json.isOk, fun refused _ _ => ⟨json.refused refused, rfl⟩⟩

theorem Replied.same {command : Option Command} (read : (replyOk reply).isSome) :
    Replied machine command ⟨reply, machine, []⟩ := ⟨read, fun _ _ _ => ⟨rfl, rfl⟩⟩

/-- Every reply is a JSON object that begins with a Boolean `ok`, and a refused request leaves the
machine as it was and executes nothing, unless it is one of those that execute instructions. -/
theorem request_replies (env : Debuggee) (machine : DebugMachine)
    (registered : Registered env.probes machine) (cycle : Nat) (req : ControlRequest) :
    Replied machine (commandOf req) (processControlRequest env machine cycle req) := by
  unfold processControlRequest
  cases commandOf req with
  | none => exact .same (isOk_failure (by decide))
  | some command =>
    cases command with
    | ping => exact .same (isOk_flag (by decide))
    | probeList => exact .same (isOk_listJson registered)
    | probeGet =>
      refine .same ?_
      split
      · exact isOk_failure (by decide)
      · exact isOk_getJson registered _
    | backtrace => exact .same (isOk_backtrace machine req)
    | dstat => exact .same (isOk_dstat machine req)
    | peek => exact .same (isOk_peek machine req)
    | poke => exact .of (answersJson_poke machine req)
    | vramStat => exact .same (isOk_vramStat machine)
    | state => exact .same (isOk_state machine cycle)
    | pause =>
      have json : AnswersJson machine (Control.success [("paused", ascii "true")],
          { machine with paused := true }) :=
        .success ⟨by decide, by simp [show IsJson (ascii "true") from .boolText true]⟩
      exact .of json
    | cont => exact ⟨isOk_cont env machine, fun _ other => absurd rfl other⟩
    | step => exact ⟨isOk_step env machine cycle req, fun _ _ other => absurd rfl other⟩
    | bp => exact .of (answersJson_breakpoint (by decide) req)
    | bpclear => exact .of (answersJson_breakpoint (by decide) req)
    | hook => exact .of (answersJson_hook machine req)
    | reg => exact .same (isOk_reg machine req)
    | setreg => exact .of (answersJson_setreg machine req)
    | read => exact .same (isOk_read machine req)
    | write => exact .of (answersJson_write machine req)
    | strictUnmapped => exact .of (answersJson_strictUnmapped machine req)
    | quit =>
      have json : AnswersJson machine (Control.success [],
          { machine with paused := true, quitRequested := true }) := .success ⟨by simp, by simp⟩
      exact .of json

/-- A registry whose one probe gives the current thread. -/
def tidDebuggee : Debuggee :=
  { stillDebuggee with
    probes := [⟨ascii "tid", ascii "current thread", some fun machine => word machine.currentTid⟩] }

/-- `{"cmd":"probe.get","probe":"tid"}` -/
def probeRequest : ControlRequest :=
  { bpRequest with cmd := ascii "probe.get", strProbe := ascii "tid" }

theorem request_replies_probe :
    Replied stillMachine (commandOf probeRequest)
      (processControlRequest tidDebuggee stillMachine 3 probeRequest) := by
  refine request_replies tidDebuggee stillMachine (fun probe member => ?_) 3 probeRequest
  obtain rfl := List.mem_singleton.mp member
  have name : Clean (ascii "tid") := by
    unfold Clean
    decide
  have desc : Clean (ascii "current thread") := by
    unfold Clean
    decide
  exact ⟨⟨name, desc⟩, .word _⟩

end DebugMachine

end ZeeboLle.Control
