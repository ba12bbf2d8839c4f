import Mathlib.Data.List.Infix
import ZeeboLle.Control.ParseLine

/-! Requests as the JSON they are: what `ParseLine` reads of a flat object, against the object's
own values. -/
namespace ZeeboLle.Control

open Unicorn Streams Json

variable {key tail : List Byte} {member : Member} {members before after : List Member}
  {object : Object}

/-- The text that `ExtractString` takes for a value: a number is passed over, and the key of
the next member taken in its place. -/
def seen : Value → List Member → List Byte
  | .string literal, _ => literal.raw.takeWhile (· != quote)
  | .number _, next :: _ => next.key.raw.takeWhile (· != quote)
  | .number _, [] => []

/-- The search for a key stops at its member when no member before mentions it. -/
theorem found_member (word : LowerCase key) (split : object.members = before ++ member :: after)
    (silent : ∀ earlier ∈ before, ¬ earlier.Mentions key) (own : member.key.raw = key) :
    ∃ k c, Found object.line key (member.beforeValue.bytes ++
      (member.value.written ++ (member.afterValue.bytes ++ object.behind after))) k c := by
  obtain ⟨front, line, quiet⟩ := object.line_at word split silent
  have whole : object.line = front ++ (quoted key ++ (member.afterKey.bytes ++ colon ::
      (member.beforeValue.bytes ++
        (member.value.written ++ (member.afterValue.bytes ++ object.behind after))))) := by
    rw [line, own, Member.rest]
    simp only [List.append_assoc, List.cons_append]
  exact found whole quiet (member.afterKey.not_mem (by decide))

theorem extractString_member (word : LowerCase key) (split : object.members = before ++ member :: after)
    (silent : ∀ earlier ∈ before, ¬ earlier.Mentions key) (own : member.key.raw = key) :
    extractString object.line key = seen member.value after := by
  obtain ⟨k, c, found⟩ := found_member word split silent own
  have blank (blanks : Blanks) : quote ∉ blanks.bytes := blanks.not_mem (by decide)
  cases kind : member.value with
  | string literal =>
    obtain ⟨rest, cut⟩ := takeWhile_split quote literal.raw
      (member.afterValue.bytes ++ object.behind after)
    rw [kind, Value.written, quoted, List.cons_append, List.append_assoc, List.singleton_append,
      cut] at found
    exact found.string (blank _) (not_mem_takeWhile _ _)
  | number n =>
    rw [kind, Value.written] at found
    cases after with
    | nil =>
      refine found.unclosed ?_
      simp only [Object.behind, Object.ending, List.mem_append, List.mem_cons, not_or]
      exact ⟨blank _, quote_not_mem_decimal n, blank _, by decide, blank _⟩
    | cons next more =>
      obtain ⟨rest, cut⟩ := takeWhile_split quote next.key.raw (next.rest ++ object.behind more)
      have shape : member.beforeValue.bytes ++ (decimal n ++ (member.afterValue.bytes ++
          object.behind (next :: more))) =
          (member.beforeValue.bytes ++ (decimal n ++ (member.afterValue.bytes ++
            comma :: next.beforeKey.bytes))) ++
              quote :: (next.key.raw.takeWhile (· != quote) ++ quote :: rest) := by
        rw [← cut, Object.behind, Object.body_cons, Member.text, quoted]
        simp only [List.append_assoc, List.cons_append, List.nil_append]
      rw [shape] at found
      refine found.string ?_ (not_mem_takeWhile _ _)
      simp only [List.mem_append, List.mem_cons, not_or]
      exact ⟨blank _, quote_not_mem_decimal n, blank _, by decide, blank _⟩

variable {first : Byte} {rest : List Byte}

/-- A string that is not taken for a number: no digit stands behind the blanks and quotation
marks that are skipped. A carriage return is not skipped. -/
def Wordy (spaces : Blanks) : Value → Prop
  | .number _ => True
  | .string literal =>
    carriageReturn ∈ spaces.bytes ∨
      ∀ digit ∈ (literal.raw.dropWhile skipped).head?, digitIn 10 digit = none

instance decidableWordy (spaces : Blanks) : ∀ value, Decidable (Wordy spaces value)
  | .number _ => isTrue trivial
  | .string literal => inferInstanceAs (Decidable (carriageReturn ∈ spaces.bytes ∨
      ∀ digit ∈ (literal.raw.dropWhile skipped).head?, digitIn 10 digit = none))

theorem isspace_of_blank (blanks : Blanks) :
    ∀ byte ∈ blanks.bytes.dropWhile skipped, isspace byte = true := by
  intro byte member
  rcases blanks.blank byte ((List.dropWhile_suffix _).subset member) with rfl | rfl | rfl <;> decide

theorem isspace_of_printable (printable : 32 ≤ first.toNat) (kept : skipped first = false) :
    isspace first = false := by
  have other : first ≠ 32 := by
    rintro rfl
    exact absurd kept (by decide)
  rw [isspace, decide_eq_false_iff_not]
  exact not_or.mpr ⟨other, fun range => by omega⟩

/-- What ends the text of a value. -/
theorem behind_eq (object : Object) (after : List Member) : ∃ mark tail, object.behind after = mark :: tail ∧
    (mark = comma ∨ mark = closing) := by
  cases after with
  | nil => exact ⟨closing, _, rfl, .inr rfl⟩
  | cons next rest => exact ⟨comma, _, rfl, .inl rfl⟩

theorem punctuation_byte (punctuation : first = comma ∨ first = closing) :
    skipped first = false ∧ isspace first = false ∧ (first ≠ minus ∧ first ≠ plus) ∧
      digitIn 10 first = none ∧ hexDigit first = none ∧ hexMark first = false := by
  rcases punctuation with rfl | rfl <;> decide

theorem ends_behind (blanks : Blanks) : Ends (blanks.bytes ++ object.behind after) := by
  obtain ⟨mark, tail, ends, punctuation⟩ := behind_eq object after
  intro byte head
  rw [ends] at head
  cases spaces : blanks.bytes with
  | nil =>
    rw [spaces] at head
    cases head
    exact (punctuation_byte punctuation).2.2.2.2
  | cons blank more =>
    rw [spaces] at head
    obtain rfl : blank = byte := Option.some.inj head
    rcases blanks.blank blank (by rw [spaces]; exact List.mem_cons_self) with rfl | rfl | rfl <;>
      decide

/-- Nothing is read of a string whose first character counts for no digit. -/
theorem readInt_string {literal : Literal} (spaces blanks : Blanks)
    (wordy : Wordy spaces (.string literal)) :
    readInt (spaces.bytes ++ (quoted literal.raw ++ (blanks.bytes ++ object.behind after))) =
      none := by
  obtain ⟨mark, tail, ends, punctuation⟩ := behind_eq object after
  rw [ends, quoted, List.cons_append, List.append_assoc, List.singleton_append]
  by_cases blank : spaces.bytes.dropWhile skipped = []
  · have spaceless : carriageReturn ∉ spaces.bytes := fun member => by
      have all := List.dropWhile_eq_nil_iff.mp blank carriageReturn member
      exact absurd all (by decide)
    have inside : (spaces.bytes ++ quote :: (literal.raw ++ quote :: (blanks.bytes ++ mark :: tail))
        ).dropWhile skipped =
        (literal.raw ++ quote :: (blanks.bytes ++ mark :: tail)).dropWhile skipped := by
      rw [List.dropWhile_append, blank]
      rfl
    cases start : literal.raw.dropWhile skipped with
    | nil =>
      obtain ⟨skips, stop, unsigned, other, -⟩ := punctuation_byte punctuation
      have rest : (literal.raw ++ quote :: (blanks.bytes ++ mark :: tail)).dropWhile skipped =
          blanks.bytes.dropWhile skipped ++ mark :: tail := by
        rw [List.dropWhile_append, start, ← dropWhile_append_stop skips]
        rfl
      exact readInt_none (isspace_of_blank blanks) stop unsigned other (inside.trans rest)
    | cons first more =>
      have rest : (literal.raw ++ quote :: (blanks.bytes ++ mark :: tail)).dropWhile skipped =
          first :: (more ++ quote :: (blanks.bytes ++ mark :: tail)) := by
        rw [List.dropWhile_append, start]
        rfl
      have digit : digitIn 10 first = none :=
        wordy.resolve_left spaceless first (by rw [start]; rfl)
      have kept : skipped first = false := by
        have kept := List.head?_dropWhile_not skipped literal.raw
        rwa [start] at kept
      have stop : isspace first = false := by
        have member : first ∈ literal.raw.dropWhile skipped := start ▸ List.mem_cons_self
        exact isspace_of_printable
          (literal.written.printable first ((List.dropWhile_suffix _).subset member)) kept
      by_cases sign : first = minus ∨ first = plus
      · exact readInt_sign (inside.trans rest) sign
      · have spaces : ∀ byte ∈ ([] : List Byte), isspace byte = true := by simp
        exact readInt_none spaces stop (not_or.mp sign) digit (inside.trans rest)
  · -- a carriage return stops the skipping, and `strtoull` stops at the quotation mark
    have trimmed : (spaces.bytes ++ quote :: (literal.raw ++ quote :: (blanks.bytes ++ mark :: tail))
        ).dropWhile skipped = spaces.bytes.dropWhile skipped ++
          quote :: (literal.raw ++ quote :: (blanks.bytes ++ mark :: tail)) := by
      rw [List.dropWhile_append, if_neg (by simpa using blank)]
    exact readInt_none (isspace_of_blank spaces) (by decide) (by decide) (by decide) trimmed

theorem extractInt_member (word : LowerCase key) (split : object.members = before ++ member :: after)
    (silent : ∀ earlier ∈ before, ¬ earlier.Mentions key) (own : member.key.raw = key)
    (wordy : Wordy member.beforeValue member.value) :
    extractInt object.line key = member.value.number?.map saturated := by
  obtain ⟨k, c, found⟩ := found_member word split silent own
  rw [found.number]
  cases kind : member.value with
  | number n =>
    obtain ⟨first, rest, starts⟩ := List.exists_cons_of_ne_nil (decimal_ne_nil n)
    have digit := (decimal_byte (n := n) (starts ▸ List.mem_cons_self)).1
    have trimmed : (member.beforeValue.bytes ++ (decimal n ++ (member.afterValue.bytes ++
        object.behind after))).dropWhile skipped = member.beforeValue.bytes.dropWhile skipped ++
          (decimal n ++ (member.afterValue.bytes ++ object.behind after)) := by
      rw [starts, List.cons_append, dropWhile_append_stop digit.2.1]
    exact readInt_decimal (isspace_of_blank _) (ends_behind _) trimmed
  | string literal => exact readInt_string _ _ (kind ▸ wordy)

/-- From a mention in the last value on, no colon comes any more. -/
theorem no_colon_behind (word : LowerCase key) (object : Object) (trails : member.Trails key)
    {rest : List Byte}
    (suffix : rest <:+ member.value.written ++ (member.afterValue.bytes ++ object.ending))
    (starts : quoted key <+: rest) : colon ∉ rest := by
  have blank (blanks : Blanks) {mark : Byte} (high : 32 < mark.toNat) : mark ∉ blanks.bytes :=
    blanks.not_mem high
  have ends {mark : Byte} (high : 32 < mark.toNat) (other : mark ≠ closing) :
      mark ∉ member.afterValue.bytes ++ object.ending := by
    simp only [Object.ending, List.mem_append, List.mem_cons, not_or]
    exact ⟨blank _ high, other, blank _ high⟩
  have marked : quote ∈ rest := starts.subset List.mem_cons_self
  rcases List.suffix_or_suffix_of_suffix suffix (List.suffix_append _ _) with late | ⟨inside, rfl⟩
  · exact absurd (late.subset marked) (ends (by decide) (by decide))
  · obtain ⟨before, split⟩ := suffix
    rw [← List.append_assoc] at split
    have split := (List.append_cancel_right split).symm
    by_cases empty : inside = []
    · rw [empty] at marked
      exact absurd marked (ends (by decide) (by decide))
    · cases kind : member.value with
      | number n =>
        obtain ⟨first, more, rfl⟩ := List.exists_cons_of_ne_nil empty
        obtain ⟨rfl, -⟩ := List.cons_prefix_cons.mp starts
        rw [kind, Value.written] at split
        have digit : quote ∈ decimal n := split ▸ List.mem_append_right _ List.mem_cons_self
        exact absurd digit (quote_not_mem_decimal n)
      | string literal =>
        rw [kind, Value.written] at split
        have within : quoted key <+: inside := prefix_of_wrapped word.quote_not_mem
          (word.apart member.afterValue (by decide)) split empty starts
        have mentioned : inside ∈ (quoted literal.raw).tails := (List.mem_tails _ _).mpr ⟨before, split.symm⟩
        have clean := trails.value literal (by simp [kind, Value.literals]) inside mentioned within
        rw [List.mem_append, not_or]
        exact ⟨clean, ends (by decide) (by decide)⟩

/-- A value whose text is taken as it is: a string without escapes, or a number that no key
follows but the empty one. -/
def Legible : Value → List Member → Prop
  | .string literal, _ => backslash ∉ literal.raw
  | .number _, next :: _ => next.key.raw = []
  | .number _, [] => True

instance decidableLegible : ∀ value after, Decidable (Legible value after)
  | .string literal, _ => inferInstanceAs (Decidable (backslash ∉ literal.raw))
  | .number _, next :: _ => inferInstanceAs (Decidable (next.key.raw = []))
  | .number _, [] => isTrue trivial

theorem takeWhile_eq_value_iff (literal : Literal) :
    literal.raw.takeWhile (· != quote) = literal.value ↔ backslash ∉ literal.raw := by
  constructor
  · intro same escaped
    by_cases marked : quote ∈ literal.raw
    · have inside := literal.written.quote_mem marked
      rw [← same] at inside
      exact not_mem_takeWhile _ _ inside
    · rw [takeWhile_eq_self_of_not_mem marked] at same
      exact (literal.written.length_lt escaped).ne (congrArg List.length same).symm
  · intro plain
    rw [takeWhile_eq_self_of_not_mem (literal.written.quote_not_mem plain)]
    exact literal.written.eq_of_not_mem plain

theorem takeWhile_eq_nil_iff (literal : Literal) :
    literal.raw.takeWhile (· != quote) = [] ↔ literal.raw = [] := by
  obtain ⟨raw, value, written⟩ := literal
  cases raw with
  | nil => exact iff_of_true rfl rfl
  | cons first raw =>
    have marked : (first != quote) = true := bne_iff_ne.mpr written.head_ne
    simp only [List.takeWhile_cons, marked, if_true, reduceCtorEq]

theorem seen_eq_iff (value : Value) (after : List Member) :
    seen value after = value.text ↔ Legible value after := by
  cases value with
  | string literal => exact takeWhile_eq_value_iff literal
  | number n =>
    cases after with
    | nil => exact iff_of_true rfl trivial
    | cons next rest => exact takeWhile_eq_nil_iff next.key

/-- The search for a key meets the key itself before any string that mentions it, if the object
has the key. If it has not, it meets no such string, but perhaps in the last value, where no
colon comes any more. -/
def Clear (key : List Byte) : List Member → Prop
  | [] => True
  | member :: rest =>
    member.key.raw = key ∨ member.key.value ≠ key ∧
      (¬ member.Mentions key ∧ Clear key rest ∨ rest = [] ∧ member.Trails key)

instance decidableClear (key : List Byte) : ∀ members, Decidable (Clear key members)
  | [] => isTrue trivial
  | member :: rest =>
    have := decidableClear key rest
    inferInstanceAs (Decidable (member.key.raw = key ∨ member.key.value ≠ key ∧
      (¬ member.Mentions key ∧ Clear key rest ∨ rest = [] ∧ member.Trails key)))

/-- No member has the key, and the strings do not mention it, but perhaps in the last value,
where no colon comes any more. -/
structure Lacks (key : List Byte) (members : List Member) : Prop where
  other : ∀ member ∈ members, member.key.value ≠ key
  silent : (∀ member ∈ members, ¬ member.Mentions key) ∨ ∃ before last, members = before ++ [last] ∧
    (∀ earlier ∈ before, ¬ earlier.Mentions key) ∧ last.Trails key

theorem Clear.split (clear : Clear key members) :
    (∃ before member after, members = before ++ member :: after ∧ member.key.raw = key ∧
      ∀ earlier ∈ before, earlier.key.value ≠ key ∧ ¬ earlier.Mentions key) ∨ Lacks key members := by
  induction members with
  | nil => exact .inr ⟨fun member none => absurd none List.not_mem_nil,
      .inl fun member none => absurd none List.not_mem_nil⟩
  | cons first members ih =>
    rcases clear with own | ⟨other, ⟨silent, clear⟩ | ⟨rfl, trails⟩⟩
    · exact .inl ⟨[], first, members, rfl, own, fun _ none => absurd none List.not_mem_nil⟩
    · rcases ih clear with ⟨before, member, after, rfl, own, earlier⟩ | lacks
      · exact .inl ⟨first :: before, member, after, rfl, own,
          List.forall_mem_cons.mpr ⟨⟨other, silent⟩, earlier⟩⟩
      · refine .inr ⟨List.forall_mem_cons.mpr ⟨other, lacks.other⟩, ?_⟩
        rcases lacks.silent with all | ⟨before, last, rfl, earlier, trails⟩
        · exact .inl (List.forall_mem_cons.mpr ⟨silent, all⟩)
        · exact .inr ⟨first :: before, last, rfl, List.forall_mem_cons.mpr ⟨silent, earlier⟩, trails⟩
    · exact .inr ⟨by simpa using other, .inr ⟨[], first, rfl, by simp, trails⟩⟩

/-- Nothing is read for a key that the object lacks. -/
theorem unread_lacks (word : LowerCase key) (lacks : Lacks key object.members) :
    extractString object.line key = [] ∧ extractInt object.line key = none := by
  rcases lacks.silent with silent | ⟨before, last, split, earlier, trails⟩
  · exact absent (object.quiet_line word silent)
  · obtain ⟨front, line, quiet⟩ := object.line_at_value word split earlier trails.name
    exact unread line (quiet _) fun rest suffix starts =>
      no_colon_behind word object trails suffix starts

/-- A clear key is written as it is, and what the object has for it is what the search finds. -/
theorem Clear.cases (word : LowerCase key) (clear : Clear key object.members) :
    (∃ before member after, object.members = before ++ member :: after ∧ member.key.raw = key ∧
      (∀ earlier ∈ before, ¬ earlier.Mentions key) ∧
      lookup? key object.members = some (member, after)) ∨
    (extractString object.line key = [] ∧ extractInt object.line key = none) ∧
      lookup? key object.members = none := by
  rcases clear.split with ⟨before, member, after, split, own, earlier⟩ | lacks
  · have plain : backslash ∉ member.key.raw := fun inside => by
      rw [own] at inside
      exact absurd (word.letters backslash inside).1 (by decide)
    have named : member.key.value = key := (member.key.written.eq_of_not_mem plain).symm.trans own
    refine .inl ⟨before, member, after, split, own, fun earlier' inside => (earlier _ inside).2, ?_⟩
    rw [split]
    exact lookup?_at (fun other inside => (earlier other inside).1) named
  · exact .inr ⟨unread_lacks word lacks, lookup?_none lacks.other⟩

/-- The conditions on the member of a key, if the object has one. -/
def LegibleAt (object : Object) (key : List Byte) : Prop :=
  ∀ entry ∈ lookup? key object.members, Legible entry.1.value entry.2

def WordyAt (object : Object) (key : List Byte) : Prop :=
  ∀ entry ∈ lookup? key object.members, Wordy entry.1.beforeValue entry.1.value

instance (object : Object) (key : List Byte) : Decidable (LegibleAt object key) :=
  inferInstanceAs (Decidable (∀ entry ∈ lookup? key object.members, Legible entry.1.value entry.2))

instance (object : Object) (key : List Byte) : Decidable (WordyAt object key) :=
  inferInstanceAs (Decidable (∀ entry ∈ lookup? key object.members,
    Wordy entry.1.beforeValue entry.1.value))

theorem extractString_iff (word : LowerCase key) (clear : Clear key object.members) :
    extractString object.line key = object.text key ↔ LegibleAt object key := by
  rcases clear.cases word with ⟨before, member, after, split, own, silent, entry⟩ | ⟨nothing, none⟩
  · have text : object.text key = member.value.text := by
      rw [Object.text, Object.member?, entry]
      rfl
    rw [extractString_member word split silent own, text, seen_eq_iff, LegibleAt, entry]
    exact ⟨fun legible _ same => Option.some.inj same ▸ legible, fun all => all _ rfl⟩
  · have text : object.text key = [] := by
      rw [Object.text, Object.member?, none]
      rfl
    rw [nothing.1, text, LegibleAt, none]
    exact iff_of_true rfl fun _ same => nomatch same

theorem extractInt_eq (word : LowerCase key) (clear : Clear key object.members)
    (wordy : WordyAt object key) :
    extractInt object.line key = (object.number? key).map saturated := by
  rcases clear.cases word with ⟨before, member, after, split, own, silent, entry⟩ | ⟨nothing, none⟩
  · rw [extractInt_member word split silent own (wordy _ entry), Object.number?, Object.member?,
      entry]
    rfl
  · rw [nothing.2, Object.number?, Object.member?, none]
    rfl

/-- The string fields of a request, by the keys they are read from. -/
def stringFields : List (String × (ControlRequest → List Byte)) :=
  [("cmd", (·.cmd)), ("button", (·.button)), ("path", (·.strPath)), ("hex", (·.strHex)),
    ("mode", (·.strMode)), ("action", (·.strAction)), ("probe", (·.strProbe))]

/-- The number fields, each with the keys it may be read from, in their order. -/
def numberFields : List (List String × (ControlRequest → Bool × BitVec 64)) :=
  [(["core"], fun req => (req.hasCore, req.core)),
    (["ticks", "n", "addr", "port"], fun req => (req.hasI0, req.i0)),
    (["len"], fun req => (req.hasI1, req.i1)),
    (["value", "val"], fun req => (req.hasVal, req.val)),
    (["hi"], fun req => (req.hasI2, req.i2))]

/-- The number of the first of the keys that has one. -/
def firstNumber (object : Object) (keys : List String) : Option Nat :=
  keys.findSome? fun key => object.number? (ascii key)

/-- A number field that is set exactly from a number. -/
def Same (number : Option Nat) (field : Bool × BitVec 64) : Prop :=
  field.1 = number.isSome ∧ field.2.toNat = number.getD 0

/-- A request is read as the object: refused without a command, and otherwise with every field
as the object has it. -/
def ReadsAs (object : Object) : Option ControlRequest → Prop
  | none => object.text (ascii "cmd") = []
  | some req => object.text (ascii "cmd") ≠ [] ∧
      (∀ field ∈ stringFields, field.2 req = object.text (ascii field.1)) ∧
      ∀ field ∈ numberFields, Same (firstNumber object field.1) (field.2 req)

theorem parseLine_none {line : List Byte} (empty : extractString line (ascii "cmd") = []) :
    parseLine line = none := if_pos empty

theorem parseLine_some {line : List Byte} (filled : extractString line (ascii "cmd") ≠ []) :
    ∃ req, parseLine line = some req ∧
      (∀ field ∈ stringFields, field.2 req = extractString line (ascii field.1)) ∧
      ∀ field ∈ numberFields,
        let number := field.1.findSome? fun key => extractInt line (ascii key)
        field.2 req = (number.isSome, number.getD 0) := by
  refine ⟨_, if_neg filled, ?_, ?_⟩
  · simp only [stringFields, List.forall_mem_cons, List.not_mem_nil, false_imp_iff, implies_true,
      and_self]
  · have one (key : String) : [key].findSome? (fun key => extractInt line (ascii key)) =
        extractInt line (ascii key) := by
      rw [List.findSome?_cons]
      cases extractInt line (ascii key) <;> rfl
    have two (key other : String) :
        [key, other].findSome? (fun key => extractInt line (ascii key)) =
          (extractInt line (ascii key)).or (extractInt line (ascii other)) := by
      rw [List.findSome?_cons, one]
      cases extractInt line (ascii key) <;> rfl
    simp only [numberFields, List.forall_mem_cons, one, two, List.not_mem_nil, false_imp_iff,
      implies_true, and_self]

/-- The keys that are searched for one number: those up to the first that has one. -/
def tried (object : Object) : List String → List String
  | [] => []
  | key :: keys =>
    key :: if (object.number? (ascii key)).isSome then [] else tried object keys

theorem findSome?_extractInt {keys : List String} (words : ∀ key ∈ keys, LowerCase (ascii key))
    (met : ∀ key ∈ tried object keys,
      Clear (ascii key) object.members ∧ WordyAt object (ascii key)) :
    keys.findSome? (fun key => extractInt object.line (ascii key)) =
      (firstNumber object keys).map saturated := by
  induction keys with
  | nil => rfl
  | cons key keys ih =>
    obtain ⟨word, words⟩ := List.forall_mem_cons.mp words
    obtain ⟨⟨clear, wordy⟩, rest⟩ := List.forall_mem_cons.mp met
    rw [firstNumber, List.findSome?_cons, List.findSome?_cons, extractInt_eq word clear wordy]
    cases number : object.number? (ascii key) with
    | some n => rfl
    | none =>
      rw [number, Option.isSome_none, if_neg Bool.false_ne_true] at rest
      exact ih words rest

theorem same_saturated_iff (number : Option Nat) :
    Same number ((number.map saturated).isSome, (number.map saturated).getD 0) ↔
      ∀ n ∈ number, n < 2 ^ 64 := by
  cases number with
  | none => exact iff_of_true ⟨rfl, rfl⟩ fun _ same => nomatch same
  | some n =>
    refine ⟨fun same m member => ?_, fun small => ⟨rfl, saturated_toNat.mpr (small n rfl)⟩⟩
    obtain rfl := Option.some.inj member
    exact saturated_toNat.mp same.2

theorem stringFields_words : ∀ field ∈ stringFields, LowerCase (ascii field.1) := by
  decide +kernel

theorem numberFields_words : ∀ field ∈ numberFields, ∀ key ∈ field.1, LowerCase (ascii key) := by
  decide +kernel

/-- Every search that the object's request takes ends at the key it is for, or nowhere, and no
string that is met begins like a number. -/
structure Searchable (object : Object) : Prop where
  command : Clear (ascii "cmd") object.members
  strings : object.text (ascii "cmd") ≠ [] →
    ∀ field ∈ stringFields, Clear (ascii field.1) object.members
  numbers : object.text (ascii "cmd") ≠ [] → ∀ field ∈ numberFields,
    ∀ key ∈ tried object field.1, Clear (ascii key) object.members ∧ WordyAt object (ascii key)

/-- The strings are written without escapes, no number stands for a string, and every number
fits in 64 bits. -/
structure Readable (object : Object) : Prop where
  command : LegibleAt object (ascii "cmd")
  strings : object.text (ascii "cmd") ≠ [] →
    ∀ field ∈ stringFields, LegibleAt object (ascii field.1)
  numbers : object.text (ascii "cmd") ≠ [] → ∀ field ∈ numberFields,
    ∀ n ∈ firstNumber object field.1, n < 2 ^ 64

/-- `ParseLine` reads a searchable object exactly when it is readable. -/
theorem parseLine_readsAs_iff (object : Object) (searchable : Searchable object) :
    ReadsAs object (parseLine object.line) ↔ Readable object := by
  have command := extractString_iff (stringFields_words _ List.mem_cons_self) searchable.command
  by_cases empty : extractString object.line (ascii "cmd") = []
  · rw [parseLine_none empty]
    rw [empty] at command
    constructor
    · intro refused
      exact ⟨command.mp refused.symm, fun filled => absurd refused filled,
        fun filled => absurd refused filled⟩
    · exact fun readable => (command.mpr readable.command).symm
  · obtain ⟨req, parsed, strings, numbers⟩ := parseLine_some empty
    have string (filled : object.text (ascii "cmd") ≠ []) (field) (member : field ∈ stringFields) :
        field.2 req = object.text (ascii field.1) ↔ LegibleAt object (ascii field.1) := by
      rw [strings field member]
      exact extractString_iff (stringFields_words field member)
        (searchable.strings filled field member)
    have number (filled : object.text (ascii "cmd") ≠ []) (field) (member : field ∈ numberFields) :
        Same (firstNumber object field.1) (field.2 req) ↔
          ∀ n ∈ firstNumber object field.1, n < 2 ^ 64 := by
      rw [numbers field member, findSome?_extractInt (numberFields_words field member)
        (searchable.numbers filled field member)]
      exact same_saturated_iff _
    rw [parsed]
    constructor
    · rintro ⟨filled, same, set⟩
      exact ⟨(string filled _ List.mem_cons_self).mp (same _ List.mem_cons_self),
        fun _ field member => (string filled field member).mp (same field member),
        fun _ field member => (number filled field member).mp (set field member)⟩
    · intro readable
      have filled : object.text (ascii "cmd") ≠ [] := command.mpr readable.command ▸ empty
      exact ⟨filled, fun field member => (string filled field member).mpr
          (readable.strings filled field member),
        fun field member => (number filled field member).mpr
          (readable.numbers filled field member)⟩

/-- `{"cmd":"reg","n":15,"probe":"core"}`: the last value is the name of a field. -/
def probeRequest : Object :=
  .tight [.tight (.plain (ascii "cmd") (by decide +kernel))
      (.string (.plain (ascii "reg") (by decide +kernel))),
    .tight (.plain (ascii "n") (by decide +kernel)) (.number 15),
    .tight (.plain (ascii "probe") (by decide +kernel))
      (.string (.plain (ascii "core") (by decide +kernel)))] (by decide +kernel)

theorem parseLine_readsAs_probe : ReadsAs probeRequest (parseLine probeRequest.line) := by
  have searchable : Searchable probeRequest :=
    ⟨by decide +kernel, fun _ => by decide +kernel, fun _ => by decide +kernel⟩
  have readable : Readable probeRequest :=
    ⟨by decide +kernel, fun _ => by decide +kernel, fun _ => by decide +kernel⟩
  exact (parseLine_readsAs_iff probeRequest searchable).mpr readable

/-- `{"cmd":"reg","first":"len","n":15}` -/
def firstRequest : Object :=
  .tight [.tight (.plain (ascii "cmd") (by decide +kernel))
      (.string (.plain (ascii "reg") (by decide +kernel))),
    .tight (.plain (ascii "first") (by decide +kernel))
      (.string (.plain (ascii "len") (by decide +kernel))),
    .tight (.plain (ascii "n") (by decide +kernel)) (.number 15)] (by decide +kernel)

/-- A value that is the name of a field is read as that field. -/
theorem not_readsAs_first :
    firstRequest.line = ascii "\x7b\"cmd\":\"reg\",\"first\":\"len\",\"n\":15\x7d" ∧
      ¬ ReadsAs firstRequest (parseLine firstRequest.line) := by
  have text : firstRequest.line =
      ascii "\x7b\"cmd\":\"reg\",\"first\":\"len\",\"n\":15\x7d" := by decide +kernel
  have given : (parseLine firstRequest.line).map (·.hasI1) = some true := by decide +kernel
  have lacks : firstNumber firstRequest ["len"] = none := by decide +kernel
  have wrong (result : Option ControlRequest) (given : result.map (·.hasI1) = some true) :
      ¬ ReadsAs firstRequest result := by
    intro reads
    cases result with
    | none => cases given
    | some req =>
      have set : req.hasI1 = true := Option.some.inj given
      have field := (reads.2.2 (["len"], fun req => (req.hasI1, req.i1)) (by simp [numberFields])).1
      rw [lacks] at field
      exact absurd (set.symm.trans field) (by decide)
  exact ⟨text, wrong _ given⟩

end ZeeboLle.Control
