import ZeeboLle.Control.Channel
import ZeeboLle.Json.Texts
import ZeeboLle.Paging.KeyedList

/-! `ProbeRegistry`: named diagnostics over the live machine, each of which gives a JSON value as
text, and the replies that list and read them. -/
namespace ZeeboLle.Control

open Unicorn Json Paging

structure Probe (σ : Type) where
  name : List Byte
  desc : List Byte
  fn : Option (σ → List Byte)

variable {σ : Type}

def jsonEscape (s : List Byte) : List Byte :=
  s.flatMap fun c =>
    if c = quote then [backslash, quote]
    else if c = backslash then [backslash, backslash]
    else if c = 10 then [backslash, 110]
    else if c = 13 then [backslash, 114]
    else if c = 9 then [backslash, 116]
    else [c]

namespace Probe

/-- Without a function, `null`. -/
def payload (probe : Probe σ) (machine : σ) : List Byte :=
  match probe.fn with
  | some fn => fn machine
  | none => ascii "null"

def listed (probe : Probe σ) : List Byte :=
  ascii "\x7b\"name\":\"" ++ jsonEscape probe.name ++ ascii "\",\"desc\":\"" ++
    jsonEscape probe.desc ++ ascii "\"\x7d"

def tree (probe : Probe σ) : Tree :=
  .object [(ascii "name", .string probe.name), (ascii "desc", .string probe.desc)]

end Probe

abbrev ProbeRegistry (σ : Type) := List (Probe σ)

namespace ProbeRegistry

/-- A probe of the same name is replaced where it stands. -/
def register (probes : ProbeRegistry σ) (probe : Probe σ) : ProbeRegistry σ :=
  upsert Probe.name probe probes

def registerAll (calls : List (Probe σ)) : ProbeRegistry σ := calls.foldl register []

def listJson (probes : ProbeRegistry σ) : List Byte :=
  ascii "\x7b\"ok\":true,\"probes\":[" ++ [comma].intercalate (probes.map Probe.listed) ++ ascii "]\x7d"

def getJson (probes : ProbeRegistry σ) (machine : σ) (name : List Byte) : List Byte :=
  match probes.find? fun probe => probe.name = name with
  | some probe =>
    ascii "\x7b\"ok\":true,\"name\":\"" ++ jsonEscape name ++ ascii "\",\"value\":" ++
      probe.payload machine ++ ascii "\x7d"
  | none => ascii "\x7b\"ok\":false,\"error\":\"unknown_probe\"\x7d"

end ProbeRegistry

/-- The last probe of each name, in the order in which the names came first. -/
def listing (calls : List (Probe σ)) : List (Probe σ) :=
  (calls.map Probe.name).eraseDups.filterMap fun name => latest (fun call => call.name = name) calls

def listTree (calls : List (Probe σ)) : Tree :=
  .object [(ascii "ok", .bool true), (ascii "probes", .array ((listing calls).map Probe.tree))]

def getTree (name : List Byte) (value : Tree) : Tree :=
  .object [(ascii "ok", .bool true), (ascii "name", .string name), (ascii "value", value)]

/-- The replies parse to what they should say, with the value of a probe that gives JSON. -/
structure Replies (machine : σ) (calls : List (Probe σ)) : Prop where
  list : parse (ProbeRegistry.registerAll calls).listJson = some (listTree calls)
  get : ∀ name probe, latest (fun call => call.name = name) calls = some probe →
    ∀ value, parse (probe.payload machine) = some value →
      parse ((ProbeRegistry.registerAll calls).getJson machine name) = some (getTree name value)

/-- No control character but those that have an escape. -/
def Clean (text : List Byte) : Prop := ∀ c ∈ text, 32 ≤ c.toNat ∨ c = 9 ∨ c = 10 ∨ c = 13

variable {s : List Byte} {c : Byte}

theorem jsonEscape_spelled (clean : Clean s) : Spelled (jsonEscape s) s := by
  induction s with
  | nil => exact .nil
  | cons c s ih =>
    obtain ⟨first, others⟩ := List.forall_mem_cons.mp clean
    have rest := ih others
    rw [jsonEscape, List.flatMap_cons, ← jsonEscape]
    split
    · next same =>
      subst same
      exact .short (by decide) (by decide) rest
    · next unquoted =>
      split
      · next same =>
        subst same
        exact .short (by decide) (by decide) rest
      · next unescaped =>
        split
        · next same =>
          subst same
          exact .short (by decide) (by decide) rest
        · next feed =>
          split
          · next same =>
            subst same
            exact .short (by decide) (by decide) rest
          · next carriage =>
            split
            · next same =>
              subst same
              exact .short (by decide) (by decide) rest
            · next tab =>
              have printable := first.resolve_right (by rintro (equal | equal | equal) <;> contradiction)
              exact .plain printable unquoted unescaped rest

/-- A character without an escape is there as it is. -/
theorem mem_jsonEscape (member : c ∈ s) (low : ¬32 ≤ c.toNat) (plain : c ≠ 9 ∧ c ≠ 10 ∧ c ≠ 13) :
    c ∈ jsonEscape s := by
  refine List.mem_flatMap.mpr ⟨c, member, ?_⟩
  have unquoted : c ≠ quote := by
    rintro rfl
    exact low (by decide)
  have unescaped : c ≠ backslash := by
    rintro rfl
    exact low (by decide)
  rw [if_neg unquoted, if_neg unescaped, if_neg plain.2.1, if_neg plain.2.2, if_neg plain.1]
  exact List.mem_singleton_self c

theorem clean_of_allowed (each : ∀ c ∈ jsonEscape s, allowed c = true) : Clean s := by
  intro c member
  by_contra control
  push Not at control
  obtain ⟨low, tab, feed, carriage⟩ := control
  have fine := each c (mem_jsonEscape member (not_le.mpr low) ⟨tab, feed, carriage⟩)
  unfold allowed isBlank at fine
  simp only [Bool.or_eq_true, decide_eq_true_eq] at fine
  rcases fine with (((space | equal) | equal) | equal) | printable
  · subst space
    exact absurd low (by decide)
  · exact tab equal
  · exact feed equal
  · exact carriage equal
  · exact absurd low (not_lt.mpr printable)

theorem parse_true : parse (ascii "true") = some (.bool true) := by rfl

def quotedText (s : List Byte) : List Byte := quote :: (jsonEscape s ++ [quote])

theorem parse_quotedText (clean : Clean s) : parse (quotedText s) = some (.string s) :=
  parse_string (jsonEscape_spelled clean)

theorem parse_listed {probe : Probe σ} (name : Clean probe.name) (desc : Clean probe.desc) :
    parse probe.listed = some probe.tree := by
  let entries := [Entry.plain (ascii "name") (quotedText probe.name) (.string probe.name),
    Entry.plain (ascii "desc") (quotedText probe.desc) (.string probe.desc)]
  have means : ∀ entry ∈ entries, entry.Means := by
    refine List.forall_mem_cons.mpr ⟨?_, List.forall_mem_singleton.mpr ?_⟩
    · exact .plain (by decide +kernel) (parse_quotedText name)
    · exact .plain (by decide +kernel) (parse_quotedText desc)
  have front : ascii "\x7b\"name\":\"" =
      opening :: quote :: (ascii "name" ++ [quote, colon, quote]) := by decide +kernel
  have middle : ascii "\",\"desc\":\"" =
      quote :: comma :: quote :: (ascii "desc" ++ [quote, colon, quote]) := by decide +kernel
  have last : ascii "\"\x7d" = [quote, closing] := by decide +kernel
  have text : probe.listed =
      opening :: ([comma].intercalate (entries.map Entry.written) ++ [closing]) := by
    rw [Probe.listed, front, middle, last]
    simp [entries, Entry.written, Entry.plain, quotedText, List.intercalate_cons_cons]
  rw [text, parse_object means]
  rfl

theorem parse_getText {name payload : List Byte} {value : Tree} (clean : Clean name)
    (parsed : parse payload = some value) :
    parse (ascii "\x7b\"ok\":true,\"name\":\"" ++ jsonEscape name ++ ascii "\",\"value\":" ++ payload ++
      ascii "\x7d") = some (getTree name value) := by
  let entries := [Entry.plain (ascii "ok") (ascii "true") (.bool true),
    Entry.plain (ascii "name") (quotedText name) (.string name),
    Entry.plain (ascii "value") payload value]
  have means : ∀ entry ∈ entries, entry.Means := by
    refine List.forall_mem_cons.mpr ⟨?_, List.forall_mem_cons.mpr ⟨?_, List.forall_mem_singleton.mpr ?_⟩⟩
    · exact .plain (by decide +kernel) parse_true
    · exact .plain (by decide +kernel) (parse_quotedText clean)
    · exact .plain (by decide +kernel) parsed
  have front : ascii "\x7b\"ok\":true,\"name\":\"" =
      opening :: quote :: (ascii "ok" ++ quote :: colon :: (ascii "true" ++
        comma :: quote :: (ascii "name" ++ [quote, colon, quote]))) := by decide +kernel
  have middle : ascii "\",\"value\":" =
      quote :: comma :: quote :: (ascii "value" ++ [quote, colon]) := by decide +kernel
  have last : ascii "\x7d" = [closing] := by decide +kernel
  have text : ascii "\x7b\"ok\":true,\"name\":\"" ++ jsonEscape name ++ ascii "\",\"value\":" ++
      payload ++ ascii "\x7d" =
      opening :: ([comma].intercalate (entries.map Entry.written) ++ [closing]) := by
    rw [front, middle, last]
    simp [entries, Entry.written, Entry.plain, quotedText, List.intercalate_cons_cons]
  rw [text, parse_object means]
  rfl

namespace ProbeRegistry

theorem registerAll_eq (calls : List (Probe σ)) : registerAll calls = listing calls :=
  upsertAll_nil Probe.name calls

theorem mem_listing {calls : List (Probe σ)} {probe : Probe σ} :
    probe ∈ listing calls ↔ latest (fun call => call.name = probe.name) calls = some probe := by
  rw [listing, List.mem_filterMap]
  constructor
  · rintro ⟨name, -, found⟩
    have own : probe.name = name := by simpa using (latest_passes found).2
    rw [own]
    exact found
  · intro found
    have member := List.mem_map_of_mem (f := Probe.name) (latest_passes found).1
    exact ⟨probe.name, List.mem_eraseDups.mpr member, found⟩

theorem parse_listJson {probes : List (Probe σ)}
    (clean : ∀ probe ∈ probes, Clean probe.name ∧ Clean probe.desc) :
    parse (listJson probes) = some (.object [(ascii "ok", .bool true),
      (ascii "probes", .array (probes.map Probe.tree))]) := by
  let parts := probes.map fun probe => (probe.listed, probe.tree)
  let entries := [Entry.plain (ascii "ok") (ascii "true") (.bool true),
    Entry.plain (ascii "probes") (91 :: ([comma].intercalate (parts.map Prod.fst) ++ [93]))
      (.array (parts.map Prod.snd))]
  have each : ∀ part ∈ parts, parse part.1 = some part.2 := by
    intro part member
    obtain ⟨probe, listed, rfl⟩ := List.mem_map.mp member
    exact parse_listed (clean probe listed).1 (clean probe listed).2
  have means : ∀ entry ∈ entries, entry.Means := by
    refine List.forall_mem_cons.mpr ⟨?_, List.forall_mem_singleton.mpr ?_⟩
    · exact .plain (by decide +kernel) parse_true
    · exact .plain (by decide +kernel) (parse_array each)
  have front : ascii "\x7b\"ok\":true,\"probes\":[" =
      opening :: quote :: (ascii "ok" ++ quote :: colon :: (ascii "true" ++
        comma :: quote :: (ascii "probes" ++ [quote, colon, 91]))) := by decide +kernel
  have last : ascii "]\x7d" = [93, closing] := by decide +kernel
  have text : listJson probes =
      opening :: ([comma].intercalate (entries.map Entry.written) ++ [closing]) := by
    rw [listJson, front, last]
    simp [entries, parts, Entry.written, Entry.plain, List.intercalate_cons_cons, Function.comp_def]
  rw [text, parse_object means]
  simp [entries, parts, Entry.plain, Function.comp_def]

theorem mem_listJson {probes : List (Probe σ)} {probe : Probe σ} (member : probe ∈ probes) {c : Byte}
    (inside : c ∈ probe.listed) : c ∈ listJson probes := by
  have listed := mem_intercalate (List.mem_map_of_mem member) inside [comma]
  rw [listJson, List.mem_append, List.mem_append]
  exact .inl (.inr listed)

/-- The replies are right exactly where the names, and the last description of each, have no
control character without an escape. -/
theorem replies_iff (machine : σ) (calls : List (Probe σ)) :
    Replies machine calls ↔
      ∀ probe, latest (fun call => call.name = probe.name) calls = some probe →
        Clean probe.name ∧ Clean probe.desc := by
  constructor
  · intro replies probe found
    have member : probe ∈ registerAll calls := registerAll_eq calls ▸ mem_listing.mpr found
    have fine := parse_allowed replies.list
    constructor
    · refine clean_of_allowed fun c inside => fine c (mem_listJson member ?_)
      simp [Probe.listed, inside]
    · refine clean_of_allowed fun c inside => fine c (mem_listJson member ?_)
      simp [Probe.listed, inside]
  · intro clean
    constructor
    · rw [registerAll_eq]
      exact parse_listJson fun probe member => clean probe (mem_listing.mp member)
    · intro name probe found value parsed
      have own : probe.name = name := by simpa using (latest_passes found).2
      subst own
      have held : (registerAll calls).find? (fun held => held.name = probe.name) = some probe := by
        rw [← found]
        have last := find?_upsertAll Probe.name [] calls probe.name
        rwa [List.find?_nil, Option.or_none] at last
      rw [getJson, held]
      exact parse_getText (clean probe found).1 parsed

/-- A name with the control character 1 goes into the replies as it is. -/
theorem not_replies_control :
    ¬Replies () [⟨[1], [], none⟩] := by
  intro replies
  have fine := parse_allowed replies.list 1 (by decide +kernel)
  exact absurd fine (by decide)

end ProbeRegistry

end ZeeboLle.Control
