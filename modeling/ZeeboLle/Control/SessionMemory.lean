import ZeeboLle.Control.JsonRequests
import ZeeboLle.Control.SessionReplies

/-! Guest memory through the debugger: the client writes bytes as hexadecimal text in a JSON
request and reads them back from a JSON reply. -/
namespace ZeeboLle.Control

open Unicorn Streams Json Paging

/-- The blank behind a comma and behind a colon in `json.dumps`. -/
def spaced : Blanks := ⟨[32], by decide⟩

/-- The members that `json.dumps` writes. -/
def dumped : List (Literal × Value) → List Member
  | [] => []
  | first :: rest =>
    ⟨.none, first.1, .none, spaced, first.2, .none⟩ ::
      rest.map fun field => ⟨spaced, field.1, .none, spaced, field.2, .none⟩

/-- A word that is its own spelling. -/
def PlainWord (name : String) : Prop :=
  ∀ byte ∈ ascii name, 32 ≤ byte.toNat ∧ byte ≠ quote ∧ byte ≠ backslash

instance (name : String) : Decidable (PlainWord name) :=
  inferInstanceAs (Decidable (∀ byte ∈ ascii name, _))

def wordLiteral (name : String) (plain : PlainWord name) : Literal := .plain (ascii name) plain

def cmdKey : Literal := wordLiteral "cmd" (by decide)
def coreKey : Literal := wordLiteral "core" (by decide)
def addrKey : Literal := wordLiteral "addr" (by decide)
def lenKey : Literal := wordLiteral "len" (by decide)
def hexKey : Literal := wordLiteral "hex" (by decide)
def readName : Literal := wordLiteral "read" (by decide)
def writeName : Literal := wordLiteral "write" (by decide)

/-- `data_bytes.hex()` -/
def hexLiteral (data : List Byte) : Literal :=
  .plain (hexText data) fun byte member => by
    have plain := List.all_eq_true.mp (isPlain_hexText data) byte member
    simpa [isPlain, and_assoc] using plain

/-- The fields of a request for memory. -/
def memoryFields (name : Literal) (core : Fin 2) (addr : Word) (last : Literal × Value) :
    List (Literal × Value) :=
  [(cmdKey, .string name), (coreKey, .number core), (addrKey, .number addr.toNat), last]

/-- What `read_mem` asks for. -/
def readMemRequest (core : Fin 2) (addr : Word) (length : Nat) : Object where
  lead := .none
  inner := .none
  members := dumped (memoryFields readName core addr (lenKey, .number length))
  trail := .none
  distinct := show [ascii "cmd", ascii "core", ascii "addr", ascii "len"].Nodup by decide

/-- What `write_mem` asks for. -/
def writeMemRequest (core : Fin 2) (addr : Word) (data : List Byte) : Object where
  lead := .none
  inner := .none
  members := dumped (memoryFields writeName core addr (hexKey, .string (hexLiteral data)))
  trail := .none
  distinct := show [ascii "cmd", ascii "core", ascii "addr", ascii "hex"].Nodup by decide

/-- `bytes.fromhex`, which passes over blanks between the pairs. -/
def fromHex : List Byte → Option (List Byte)
  | [] => some []
  | first :: rest =>
    if isspace first then fromHex rest
    else
      match rest with
      | [] => none
      | second :: rest =>
        (hexDigit first).bind fun high => (hexDigit second).bind fun low =>
          (fromHex rest).map fun bytes => BitVec.ofNat 8 (high * 16 + low) :: bytes

/-- The value of a key in a Python dictionary; a later member replaces an earlier one. -/
def get? (key : List Byte) : Tree → Option Tree
  | .object members => (members.reverse.find? fun member => member.1 = key).map Prod.snd
  | _ => none

/-- What `read_mem` returns for a reply, if it does not raise. -/
def readMemResult (reply : List Byte) : Option (List Byte) :=
  (parse reply).bind fun res =>
    match get? (ascii "ok") res, get? (ascii "hex") res with
    | some (.bool true), some (.string hex) => fromHex hex
    | some (.bool true), some _ => none
    | _, _ => some []

/-- A line that the server takes up, with the reply that it sends. -/
def serveLine (env : Debuggee) (machine : DebugMachine) (cycle : Nat) (line : List Byte) :
    List Byte × DebugMachine :=
  match parseLine line with
  | none => (parseError.bytes, machine)
  | some req =>
    let answer := machine.processControlRequest env cycle req
    (answer.reply, answer.machine)

theorem hexDigit_hexChar {digit : Nat} (small : digit < 16) : hexDigit (hexChar digit) = some digit := by
  interval_cases digit <;> decide

theorem isspace_hexChar {digit : Nat} (small : digit < 16) : isspace (hexChar digit) = false := by
  interval_cases digit <;> decide

theorem ofNat_halves (byte : Byte) : BitVec.ofNat 8 (byte.toNat / 16 * 16 + byte.toNat % 16) = byte := by
  rw [Nat.div_add_mod', BitVec.ofNat_toNat, BitVec.setWidth_eq]

theorem halves_lt (byte : Byte) : byte.toNat / 16 < 16 ∧ byte.toNat % 16 < 16 := by
  have := byte.isLt
  omega

theorem hexText_cons (byte : Byte) (bytes : List Byte) : hexText (byte :: bytes) =
    hexChar (byte.toNat / 16) :: hexChar (byte.toNat % 16) :: hexText bytes := by
  simp [hexText]

theorem length_hexText (bytes : List Byte) : (hexText bytes).length = 2 * bytes.length := by
  induction bytes with
  | nil => rfl
  | cons byte bytes ih =>
    rw [hexText_cons, List.length_cons, List.length_cons, List.length_cons, ih]
    omega

theorem hexBytes_hexText (bytes : List Byte) : DebugMachine.hexBytes (hexText bytes) = bytes := by
  induction bytes with
  | nil => rfl
  | cons byte bytes ih =>
    rw [hexText_cons, DebugMachine.hexBytes, hexDigit_hexChar (halves_lt byte).1,
      hexDigit_hexChar (halves_lt byte).2, Option.getD_some, Option.getD_some, ofNat_halves, ih]

theorem fromHex_hexText (bytes : List Byte) : fromHex (hexText bytes) = some bytes := by
  induction bytes with
  | nil => rfl
  | cons byte bytes ih =>
    have visible : ¬isspace (hexChar (byte.toNat / 16)) = true := by
      simp [isspace_hexChar (halves_lt byte).1]
    rw [hexText_cons, fromHex, if_neg visible, hexDigit_hexChar (halves_lt byte).1,
      hexDigit_hexChar (halves_lt byte).2, Option.bind_some, Option.bind_some, ih, Option.map_some,
      ofNat_halves]

theorem hexDigit_hexText {bytes : List Byte} {c : Byte} (member : c ∈ hexText bytes) :
    (hexDigit c).isSome = true := by
  obtain ⟨byte, -, inside⟩ := List.mem_flatMap.mp member
  simp only [List.mem_cons, List.not_mem_nil, or_false] at inside
  rcases inside with rfl | rfl
  · rw [hexDigit_hexChar (halves_lt byte).1]
    rfl
  · rw [hexDigit_hexChar (halves_lt byte).2]
    rfl

theorem validHex_hexText (bytes : List Byte) :
    DebugMachine.validHex (hexText bytes) = true ↔ 0 < bytes.length ∧ bytes.length ≤ 4096 := by
  have digits : ∀ c ∈ hexText bytes, (hexDigit c).isSome = true := fun c => hexDigit_hexText
  have filled : hexText bytes ≠ [] ↔ 0 < bytes.length := by
    rw [← List.length_pos_iff, length_hexText]
    omega
  simp only [DebugMachine.validHex, Bool.and_eq_true, decide_eq_true_eq, filled, length_hexText,
    List.all_eq_true]
  constructor
  · rintro ⟨⟨⟨pos, short⟩, -⟩, -⟩
    omega
  · rintro ⟨pos, short⟩
    exact ⟨⟨⟨pos, by omega⟩, by omega⟩, digits⟩

variable {key raw : List Byte}

/-- A quoted text without quotation marks inside is only found as the whole of another. -/
theorem eq_of_quoted_inside (key_plain : quote ∉ key) (raw_plain : quote ∉ raw)
    (inside : quoted key <:+: quoted raw) : raw = key := by
  obtain ⟨front, back, split⟩ := inside
  have marks : (quoted raw).count quote = 2 := by
    simp [quoted, List.count_eq_zero.mpr raw_plain]
  have own : (quoted key).count quote = 2 := by
    simp [quoted, List.count_eq_zero.mpr key_plain]
  have others : front.count quote = 0 ∧ back.count quote = 0 := by
    have total := congrArg (List.count quote) split
    rw [List.count_append, List.count_append, marks, own] at total
    omega
  have before : front = [] := by
    cases front with
    | nil => rfl
    | cons first front =>
      have head : first = quote := by
        have := congrArg List.head? split
        simpa [quoted] using this
      rw [head] at others
      simp at others
  have after : back = [] := by
    rcases List.eq_nil_or_concat back with rfl | ⟨back, last, rfl⟩
    · rfl
    · have tail : last = quote := by
        have ends : (front ++ quoted key ++ back) ++ [last] = (quote :: raw) ++ [quote] := by
          simpa [quoted] using split
        exact List.singleton_inj.mp (List.append_inj' ends rfl).2
      rw [tail] at others
      simp at others
  subst before after
  simpa [quoted] using split.symm

/-- What may be searched for a key: plain keys, and plain strings that are not the key. -/
structure PlainFor (key : List Byte) (member : Member) : Prop where
  same : member.key.raw = member.key.value
  key_plain : quote ∉ member.key.raw
  strings : ∀ literal ∈ member.value.literals, quote ∉ literal.raw ∧ literal.raw ≠ key

theorem clear_of_plain (unquoted : quote ∉ key) {members : List Member}
    (plain : ∀ member ∈ members, PlainFor key member) : Clear key members := by
  induction members with
  | nil => trivial
  | cons member members ih =>
    obtain ⟨own, rest⟩ := List.forall_mem_cons.mp plain
    by_cases same : member.key.raw = key
    · exact .inl same
    · refine .inr ⟨own.same ▸ same, .inl ⟨?_, ih rest⟩⟩
      rintro ⟨literal, inside, mentioned⟩
      rcases List.mem_cons.mp inside with rfl | inside
      · exact same (eq_of_quoted_inside unquoted own.key_plain mentioned)
      · exact (own.strings literal inside).2
          (eq_of_quoted_inside unquoted (own.strings literal inside).1 mentioned)

/-- A member with a plain key and a number, or a plain string that is not the key. -/
theorem plainFor_dumped {fields : List (Literal × Value)}
    (keys : ∀ field ∈ fields, field.1.raw = field.1.value ∧ quote ∉ field.1.raw)
    (strings : ∀ field ∈ fields, ∀ literal ∈ field.2.literals,
      quote ∉ literal.raw ∧ literal.raw ≠ key) :
    ∀ member ∈ dumped fields, PlainFor key member := by
  cases fields with
  | nil => simp [dumped]
  | cons first rest =>
    rw [List.forall_mem_cons] at keys strings
    refine List.forall_mem_cons.mpr ⟨⟨keys.1.1, keys.1.2, strings.1⟩, fun member inside => ?_⟩
    obtain ⟨field, listed, rfl⟩ := List.mem_map.mp inside
    exact ⟨(keys.2 field listed).1, (keys.2 field listed).2, strings.2 field listed⟩

variable {object : Object}

/-- Every key is searched without meeting another text. -/
def Searches (object : Object) (key : List Byte) : Prop :=
  LowerCase key ∧ ∀ member ∈ object.members, PlainFor key member

theorem Searches.clear (searches : Searches object key) : Clear key object.members := by
  refine clear_of_plain (fun inside => ?_) searches.2
  exact absurd (searches.1.letters quote inside).1 (by decide)

theorem string_field (searches : Searches object key) {member : Member} {after : List Member}
    {literal : Literal} (entry : lookup? key object.members = some (member, after))
    (value : member.value = .string literal) (unescaped : backslash ∉ literal.raw) :
    extractString object.line key = literal.value := by
  have legible : LegibleAt object key := by
    intro found same
    rw [entry] at same
    obtain rfl := Option.mem_some_iff.mp same
    rw [value]
    exact unescaped
  rw [(extractString_iff searches.1 searches.clear).mpr legible, Object.text, Object.member?, entry,
    Option.map_some, Option.map_some, value]
  rfl

theorem number_field (searches : Searches object key) {member : Member} {after : List Member} {n : Nat}
    (entry : lookup? key object.members = some (member, after)) (value : member.value = .number n) :
    extractInt object.line key = some (saturated n) := by
  have wordy : WordyAt object key := by
    intro found same
    rw [entry] at same
    obtain rfl := Option.mem_some_iff.mp same
    rw [value]
    trivial
  rw [extractInt_eq searches.1 searches.clear wordy, Object.number?, Object.member?, entry,
    Option.map_some, Option.bind_some, value]
  rfl

theorem no_field (searches : Searches object key) (entry : lookup? key object.members = none) :
    extractInt object.line key = none := by
  have wordy : WordyAt object key := by
    intro found same
    rw [entry] at same
    cases same
  rw [extractInt_eq searches.1 searches.clear wordy, Object.number?, Object.member?, entry]
  rfl

/-- The keys under which the fields of the memory requests are searched. -/
def searchedKeys : List (List Byte) :=
  ["cmd", "core", "ticks", "n", "addr", "len", "hex"].map ascii

theorem searchedKeys_words : ∀ key ∈ searchedKeys, LowerCase key := by decide

theorem saturated_small {n : Nat} (small : n < 2 ^ 64) : saturated n = BitVec.ofNat 64 n :=
  if_neg (not_le.mpr small)

/-- What the server takes from the fields that both requests have. -/
structure Common (req : ControlRequest) (name : Literal) (core : Fin 2) (addr : Word) : Prop where
  cmd : req.cmd = name.value
  core : req.core = BitVec.ofNat 64 core
  addr : req.i0 = BitVec.ofNat 64 addr.toNat

theorem parse_common (object : Object) {name : Literal} {core : Fin 2} {addr : Word} {last : Literal × Value}
    (members : object.members = dumped (memoryFields name core addr last))
    (searches : ∀ key ∈ searchedKeys, Searches object key) (filled : name.value ≠ [])
    (unescaped : backslash ∉ name.raw) (ticks : last.1.value ≠ ascii "ticks")
    (index : last.1.value ≠ ascii "n") :
    ∃ req, parseLine object.line = some req ∧ Common req name core addr ∧
      req.strHex = extractString object.line (ascii "hex") ∧
      req.hasI1 = (extractInt object.line (ascii "len")).isSome ∧
      req.i1 = (extractInt object.line (ascii "len")).getD 0 := by
  have search (key : String) (member : key ∈ ["cmd", "core", "ticks", "n", "addr", "len", "hex"]) :
      Searches object (ascii key) := searches _ (List.mem_map_of_mem member)
  have cmd : extractString object.line (ascii "cmd") = name.value := by
    obtain ⟨after, entry⟩ : ∃ after, lookup? (ascii "cmd") object.members =
        some (⟨.none, cmdKey, .none, spaced, .string name, .none⟩, after) := by
      rw [members]
      exact ⟨_, rfl⟩
    exact string_field (search "cmd" (by decide)) entry rfl unescaped
  have own : extractInt object.line (ascii "core") = some (saturated core) := by
    obtain ⟨after, entry⟩ : ∃ after, lookup? (ascii "core") object.members =
        some (⟨spaced, coreKey, .none, spaced, .number core, .none⟩, after) := by
      rw [members]
      exact ⟨_, rfl⟩
    exact number_field (search "core" (by decide)) entry rfl
  have noTicks : extractInt object.line (ascii "ticks") = none := by
    refine no_field (search "ticks" (by decide)) ?_
    rw [members]
    refine lookup?_none fun member inside => ?_
    simp only [memoryFields, dumped, List.map_cons, List.map_nil, List.mem_cons, List.not_mem_nil,
      or_false] at inside
    rcases inside with rfl | rfl | rfl | rfl
    · exact show ascii "cmd" ≠ ascii "ticks" by decide
    · exact show ascii "core" ≠ ascii "ticks" by decide
    · exact show ascii "addr" ≠ ascii "ticks" by decide
    · exact ticks
  have noIndex : extractInt object.line (ascii "n") = none := by
    refine no_field (search "n" (by decide)) ?_
    rw [members]
    refine lookup?_none fun member inside => ?_
    simp only [memoryFields, dumped, List.map_cons, List.map_nil, List.mem_cons, List.not_mem_nil,
      or_false] at inside
    rcases inside with rfl | rfl | rfl | rfl
    · exact show ascii "cmd" ≠ ascii "n" by decide
    · exact show ascii "core" ≠ ascii "n" by decide
    · exact show ascii "addr" ≠ ascii "n" by decide
    · exact index
  have found : extractInt object.line (ascii "addr") = some (saturated addr.toNat) := by
    obtain ⟨after, entry⟩ : ∃ after, lookup? (ascii "addr") object.members =
        some (⟨spaced, addrKey, .none, spaced, .number addr.toNat, .none⟩, after) := by
      rw [members]
      exact ⟨_, rfl⟩
    exact number_field (search "addr" (by decide)) entry rfl
  have filled : extractString object.line (ascii "cmd") ≠ [] := by rwa [cmd]
  have numbers : (["ticks", "n", "addr", "port"].findSome? fun key => extractInt object.line (ascii key)) =
      some (saturated addr.toNat) := by
    rw [List.findSome?_cons, noTicks, List.findSome?_cons, noIndex, List.findSome?_cons, found]
  refine ⟨_, if_neg filled, ⟨cmd, ?_, ?_⟩, rfl, rfl, rfl⟩
  · dsimp only
    rw [own, Option.getD_some, saturated_small (by omega)]
  · dsimp only
    rw [numbers, Option.getD_some, saturated_small (by omega)]

theorem quote_not_mem_hexText (data : List Byte) : quote ∉ hexText data := fun inside =>
  absurd (hexDigit_hexText inside) (by decide)

/-- No key that is searched is hexadecimal text. -/
theorem hexText_ne (data : List Byte) : ∀ key ∈ searchedKeys, hexText data ≠ key := by
  have letters : ∀ key ∈ searchedKeys, ∃ c ∈ key, hexDigit c = none := by decide
  rintro key member rfl
  obtain ⟨c, inside, letter⟩ := letters _ member
  have digit := hexDigit_hexText inside
  rw [letter] at digit
  cases digit

/-- A request for memory is searched without meeting another text. -/
theorem searches_of_fields (object : Object) {name : Literal} {core : Fin 2} {addr : Word}
    {last : Literal × Value}
    (members : object.members = dumped (memoryFields name core addr last))
    (key : last.1.raw = last.1.value ∧ quote ∉ last.1.raw)
    (named : quote ∉ name.raw ∧ ∀ key ∈ searchedKeys, name.raw ≠ key)
    (string : ∀ literal ∈ last.2.literals,
      quote ∉ literal.raw ∧ ∀ key ∈ searchedKeys, literal.raw ≠ key) :
    ∀ key ∈ searchedKeys, Searches object key := by
  intro searched member
  refine ⟨searchedKeys_words searched member, ?_⟩
  rw [members]
  refine plainFor_dumped ?_ ?_
  · intro field inside
    simp only [memoryFields, List.mem_cons, List.not_mem_nil, or_false] at inside
    rcases inside with rfl | rfl | rfl | rfl
    · exact ⟨rfl, show quote ∉ cmdKey.raw by decide⟩
    · exact ⟨rfl, show quote ∉ coreKey.raw by decide⟩
    · exact ⟨rfl, show quote ∉ addrKey.raw by decide⟩
    · exact key
  · intro field inside literal written
    simp only [memoryFields, List.mem_cons, List.not_mem_nil, or_false] at inside
    rcases inside with rfl | rfl | rfl | rfl
    · obtain rfl := List.mem_singleton.mp written
      exact ⟨named.1, named.2 searched member⟩
    · cases written
    · cases written
    · exact ⟨(string literal written).1, (string literal written).2 searched member⟩

theorem parse_readMem (core : Fin 2) (addr : Word) (length : Nat) :
    ∃ req, parseLine (readMemRequest core addr length).line = some req ∧
      Common req readName core addr ∧ req.hasI1 = true ∧ req.i1 = saturated length := by
  have searches := searches_of_fields (readMemRequest core addr length) rfl
    ⟨rfl, show quote ∉ lenKey.raw by decide⟩ ⟨by decide, by decide⟩
      (by simp [Value.literals])
  obtain ⟨req, parsed, common, -, given, value⟩ := parse_common (readMemRequest core addr length)
    rfl searches (by decide) (by decide)
      (show lenKey.value ≠ ascii "ticks" by decide)
      (show lenKey.value ≠ ascii "n" by decide)
  have found : extractInt (readMemRequest core addr length).line (ascii "len") = some (saturated length) := by
    obtain ⟨after, entry⟩ : ∃ after, lookup? (ascii "len") (readMemRequest core addr length).members =
        some (⟨spaced, lenKey, .none, spaced, .number length, .none⟩, after) := ⟨_, rfl⟩
    exact number_field (searches _ (by decide)) entry rfl
  refine ⟨req, parsed, common, ?_, ?_⟩
  · rw [given, found]
    rfl
  · rw [value, found, Option.getD_some]

theorem parse_writeMem (core : Fin 2) (addr : Word) (data : List Byte) :
    ∃ req, parseLine (writeMemRequest core addr data).line = some req ∧
      Common req writeName core addr ∧ req.strHex = hexText data := by
  have string : quote ∉ (hexLiteral data).raw ∧ ∀ key ∈ searchedKeys, (hexLiteral data).raw ≠ key :=
    ⟨quote_not_mem_hexText data, hexText_ne data⟩
  have searches := searches_of_fields (writeMemRequest core addr data) rfl
    ⟨rfl, show quote ∉ hexKey.raw by decide⟩ ⟨by decide, by decide⟩
      (by simpa [Value.literals] using string)
  obtain ⟨req, parsed, common, hex, -, -⟩ := parse_common (writeMemRequest core addr data)
    rfl searches (by decide) (by decide)
      (show hexKey.value ≠ ascii "ticks" by decide)
      (show hexKey.value ≠ ascii "n" by decide)
  refine ⟨req, parsed, common, ?_⟩
  obtain ⟨after, entry⟩ : ∃ after, lookup? (ascii "hex") (writeMemRequest core addr data).members =
      some (⟨spaced, hexKey, .none, spaced, .string (hexLiteral data), .none⟩, after) := ⟨_, rfl⟩
  rw [hex]
  refine string_field (searches _ (by decide)) entry rfl fun inside => ?_
  exact absurd (hexDigit_hexText inside) (by decide)

section

/-- Values written to cells one after the other are read back as they were exactly where those for
one cell agree. -/
theorem map_writeAll_iff {κ β : Type} [DecidableEq κ] {store : κ → β} {cells : List κ} {values : List β}
    (long : cells.length = values.length) :
    cells.map (writeAll store (cells.zip values)) = values ↔
      ∀ i j : Nat, i < values.length → cells[i]? = cells[j]? → values[i]? = values[j]? := by
  constructor
  · intro same i j below shared
    rw [← same, List.getElem?_map, List.getElem?_map, shared]
  · intro agree
    apply List.ext_getElem?
    intro i
    by_cases below : i < values.length
    · obtain ⟨cell, here⟩ : ∃ cell, cells[i]? = some cell :=
        ⟨_, List.getElem?_eq_getElem (by omega)⟩
      obtain ⟨value, given⟩ : ∃ value, values[i]? = some value := ⟨_, List.getElem?_eq_getElem below⟩
      rw [List.getElem?_map, here, Option.map_some]
      have hit : ∃ write ∈ cells.zip values, write.1 = cell :=
        ⟨(cell, value), List.mem_of_getElem? (List.getElem?_zip_eq_some.mpr ⟨here, given⟩), rfl⟩
      obtain ⟨write, member, own, holds⟩ := exists_last_write hit
      obtain ⟨j, inside, found⟩ := List.mem_iff_getElem.mp member
      rw [List.getElem_zip] at found
      rw [List.length_zip] at inside
      have cell : cells[j]? = some write.1 := by
        rw [List.getElem?_eq_getElem (by omega), ← found]
      have value : values[j]? = some write.2 := by
        rw [List.getElem?_eq_getElem (by omega), ← found]
      rw [holds, agree i j below (by rw [here, cell, own]), value]
    · rw [List.getElem?_eq_none (by rw [List.length_map]; omega), List.getElem?_eq_none (by omega)]

/-- Places that share a cell are given the same byte. -/
def Agree (mem : Memory) (address : Nat) (data : List Byte) : Prop :=
  ∀ i j, i < data.length → j < data.length → mem.cell (address + i) = mem.cell (address + j) →
    data[i]? = data[j]?

variable {mem : Memory} {address : Nat} {data : List Byte}

theorem getElem?_cells (backed : mem.backed address data.length = true) {i : Nat} (below : i < data.length) :
    (mem.cells address data.length)[i]? = mem.cell (address + i) := by
  have long : (mem.cells address data.length).length = data.length := of_decide_eq_true backed
  have below : i < (mem.cells address data.length).length := by omega
  rw [Memory.cells] at below ⊢
  rw [getElem?_reach below]

theorem read_written_iff (backed : mem.backed address data.length = true) :
    (mem.ucMemWrite address data).2.ucMemRead address data.length = some data ↔ Agree mem address data := by
  have long : (mem.cells address data.length).length = data.length := of_decide_eq_true backed
  rw [Memory.ucMemWrite, if_pos backed, Memory.ucMemRead, Memory.backed_withContents, if_pos backed,
    Memory.cells_withContents, Memory.contents_withContents, Option.some_inj, map_writeAll_iff long]
  constructor
  · intro agree i j first second same
    exact agree i j first (by rw [getElem?_cells backed first, getElem?_cells backed second, same])
  · intro agree i j first same
    by_cases second : j < data.length
    · rw [getElem?_cells backed first, getElem?_cells backed second] at same
      exact agree i j first second same
    · rw [List.getElem?_eq_none (show (mem.cells address data.length).length ≤ j by omega)] at same
      have missing := List.getElem?_eq_none_iff.mp same
      omega

end

namespace DebugMachine

variable {machine : DebugMachine} {req : ControlRequest} {core : Fin 2} {addr : Word}

theorem commandOf_name {req : ControlRequest} {command : Command} (named : req.cmd = ascii command.name) :
    commandOf req = some command := by
  simp only [commandOf, named]
  cases command <;> decide

theorem coreOf_common {name : Literal} (common : Common req name core addr) : coreOf req = core := by
  rw [coreOf, common.core]
  clear common
  revert core
  decide

theorem validCore_common {name : Literal} (common : Common req name core addr) : validCore req = true := by
  rw [validCore, common.core]
  clear common
  revert core
  decide

theorem address_common {name : Literal} (common : Common req name core addr) : address req = addr := by
  rw [address, common.addr, BitVec.ofNat_toNat, BitVec.setWidth_setWidth_of_le _ (by omega),
    BitVec.setWidth_eq]

/-- The memory that a core sees. -/
def memOf (machine : DebugMachine) (core : Fin 2) : Memory := (machine.cpus core).mem

@[simp] theorem memOf_withMem (machine : DebugMachine) (core : Fin 2) (mem : Memory) :
    (machine.withMem core mem).memOf core = mem := by
  simp [memOf, withMem]

theorem write_invalid (common : Common req writeName core addr)
    (refused : validHex req.strHex = false) :
    write machine req = (failure (ascii "invalid_hex"), machine) := by
  rw [write, if_neg (by simp [validCore_common common]), if_pos (by simp [refused])]

/-- A write whose hexadecimal text is accepted. -/
theorem write_valid (common : Common req writeName core addr) {data : List Byte}
    (text : req.strHex = hexText data) (valid : validHex (hexText data) = true) : write machine req =
      if (machine.memOf core).backed addr.toNat data.length = true then
        (success [("core", signedText req.core), ("addr", word addr), ("len", decimal data.length)],
          machine.withMem core ((machine.memOf core).ucMemWrite addr.toNat data).2)
      else (failure (ascii "write failed: " ++ ucStrerror .writeUnmapped), machine) := by
  rw [write, if_neg (by simp [validCore_common common]), text, if_neg (by simp [valid])]
  simp only [hexBytes_hexText, coreOf_common common, address_common common]
  rw [← memOf]
  by_cases backed : (machine.memOf core).backed addr.toNat data.length = true
  · rw [if_pos backed, if_neg (by simp [Memory.ucMemWrite, backed])]
  · rw [if_neg backed, Memory.ucMemWrite, if_neg backed, if_pos (by simp)]

theorem read_valid (common : Common req readName core addr) (given : req.hasI1 = true) {length : Nat}
    (value : req.i1 = saturated length) (filled : 0 < length) (short : length ≤ 4096) :
    read machine req =
      match (machine.memOf core).ucMemRead addr.toNat length with
      | none => failure (ascii "read failed: " ++ ucStrerror .readUnmapped)
      | some bytes => success [("core", decimal req.core.toNat), ("addr", word addr),
          ("len", decimal length), ("hex", quoted (hexText bytes))] := by
  have asInt : (saturated length).toInt = length := by
    rw [saturated_small (by omega), BitVec.toInt_eq_toNat_of_lt (by rw [BitVec.toNat_ofNat]; omega),
      BitVec.toNat_ofNat]
    omega
  rw [read, if_neg (by simp [validCore_common common])]
  simp only [given, if_true, value, asInt, Int.toNat_natCast, coreOf_common common, address_common common]
  rw [if_neg (by omega)]
  rfl

/-- A length that is out of range is refused, also where the number is too large to be read. -/
theorem read_invalid (common : Common req readName core addr) (given : req.hasI1 = true) {length : Nat}
    (value : req.i1 = saturated length) (unsized : ¬(0 < length ∧ length ≤ 4096)) :
    read machine req = failure (ascii "invalid_length") := by
  have outside : (saturated length).toInt < 1 ∨ (saturated length).toInt > 4096 := by
    unfold saturated
    split
    · exact .inl (by decide)
    · rw [BitVec.toInt_eq_toNat_cond, BitVec.toNat_ofNat]
      split
      · omega
      · omega
  rw [read, if_neg (by simp [validCore_common common])]
  simp only [given, if_true, value]
  exact if_pos outside

end DebugMachine

/-- What the client makes of a reply to a successful read. -/
theorem readMemResult_success (number : Nat) (addr : Word) (length : Nat) (bytes : List Byte) :
    readMemResult (success [("core", decimal number), ("addr", DebugMachine.word addr),
      ("len", decimal length), ("hex", quoted (hexText bytes))]) = some bytes := by
  have parsed : parse (success [("core", decimal number), ("addr", DebugMachine.word addr),
      ("len", decimal length), ("hex", quoted (hexText bytes))]) = some (.object
        [(ascii "ok", .bool true), (ascii "core", .number (decimal number)),
          (ascii "addr", .number (decimal addr.toNat)), (ascii "len", .number (decimal length)),
          (ascii "hex", .string (hexText bytes))]) := by
    refine parse_written [.bool true, .number (decimal number), .number (decimal addr.toNat),
      .number (decimal length), .string (hexText bytes)] ?_ ?_
    · simp only [List.map_cons, List.map_nil]
      decide
    · simp only [List.map_cons, List.map_nil, DebugMachine.word, parse_decimal,
        parse_quoted (isPlain_hexText bytes)]
      rfl
  rw [readMemResult, parsed, Option.bind_some]
  exact fromHex_hexText bytes

/-- A read that fails leaves the client with no bytes. -/
theorem readMemResult_failure {error : List Byte} (plain : error.all isPlain = true) :
    readMemResult (failure error) = some [] := by
  have parsed : parse (failure error) =
      some (.object [(ascii "ok", .bool false), (ascii "error", .string error)]) := by
    refine parse_written [.bool false, .string error] ?_ ?_
    · simp only [List.map_cons, List.map_nil]
      decide
    · simp only [List.map_cons, List.map_nil, parse_quoted plain]
      rfl
  rw [readMemResult, parsed, Option.bind_some]
  rfl

section

variable (env : Debuggee) (machine : DebugMachine) (cycle : Nat) (core : Fin 2) (addr : Word)

/-- The server takes up what `write_mem` sends. -/
theorem serve_writeMem (data : List Byte) : ∃ req, Common req writeName core addr ∧
    req.strHex = hexText data ∧ serveLine env machine cycle (writeMemRequest core addr data).line =
      DebugMachine.write machine req := by
  obtain ⟨req, parsed, common, hex⟩ := parse_writeMem core addr data
  have command : commandOf req = some .write := DebugMachine.commandOf_name common.cmd
  refine ⟨req, common, hex, ?_⟩
  simp only [serveLine, parsed, DebugMachine.processControlRequest, command, DebugMachine.Answer.of]

/-- The server answers what `read_mem` sends, and keeps the machine. -/
theorem serve_readMem {length : Nat} (filled : 0 < length) (short : length ≤ 4096) :
    let served := serveLine env machine cycle (readMemRequest core addr length).line
    served.2 = machine ∧
      readMemResult served.1 = some (((machine.memOf core).ucMemRead addr.toNat length).getD []) := by
  obtain ⟨req, parsed, common, given, value⟩ := parse_readMem core addr length
  have command : commandOf req = some .read := DebugMachine.commandOf_name common.cmd
  simp only [serveLine, parsed, DebugMachine.processControlRequest, command, true_and,
    DebugMachine.read_valid common given value filled short]
  cases (machine.memOf core).ucMemRead addr.toNat length with
  | none => exact readMemResult_failure (isPlain_append (by decide) (isPlain_ucStrerror _))
  | some bytes => exact readMemResult_success _ _ _ _

/-- Other lengths are refused. -/
theorem refuse_readMem {length : Nat} (unsized : ¬(0 < length ∧ length ≤ 4096)) :
    let served := serveLine env machine cycle (readMemRequest core addr length).line
    replyOk served.1 = some false ∧ served.2 = machine := by
  obtain ⟨req, parsed, common, given, value⟩ := parse_readMem core addr length
  have command : commandOf req = some .read := DebugMachine.commandOf_name common.cmd
  simp only [serveLine, parsed, DebugMachine.processControlRequest, command, and_true,
    DebugMachine.read_invalid common given value unsized]
  exact replyOk_failure (by decide)

end

/-- What a write and a read of the same place through the debugger come to. -/
structure MemoryRoundTrip (machine : DebugMachine) (core : Fin 2) (addr : Word) (data : List Byte)
    (wrote back : List Byte × DebugMachine) : Prop where
  refused : ¬(0 < data.length ∧ data.length ≤ 4096) →
    (replyOk wrote.1 = some false ∧ wrote.2 = machine) ∧ replyOk back.1 = some false ∧ back.2 = machine
  unmapped : 0 < data.length ∧ data.length ≤ 4096 →
    (machine.memOf core).backed addr.toNat data.length = false →
      replyOk wrote.1 = some false ∧ wrote.2 = machine ∧ readMemResult back.1 = some []
  mapped : 0 < data.length ∧ data.length ≤ 4096 →
    (machine.memOf core).backed addr.toNat data.length = true →
      replyOk wrote.1 = some true ∧ back.2 = wrote.2 ∧
        wrote.2 = machine.withMem core (wrote.2.memOf core) ∧
          (∀ cell, cell ∉ (machine.memOf core).cells addr.toNat data.length →
            (wrote.2.memOf core).contents cell = (machine.memOf core).contents cell) ∧
            (readMemResult back.1 = some data ↔ Agree (machine.memOf core) addr.toNat data)

end ZeeboLle.Control
