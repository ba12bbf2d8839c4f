import Mathlib.Data.Nat.Digits.Lemmas
import ZeeboLle.Streams.Search

/-! Flat JSON objects written on one line: strings with their escapes, unsigned decimal
integers, and blanks wherever they may stand. The text of an object is taken apart at one of
its members, and a search for a quoted key is followed through it. -/
namespace ZeeboLle.Json

open Streams

def quote : BitVec 8 := 34
def comma : BitVec 8 := 44
def colon : BitVec 8 := 58
def backslash : BitVec 8 := 92
def opening : BitVec 8 := 123
def closing : BitVec 8 := 125

/-- What may follow a backslash on its own, and what it stands for. -/
def shortEscapes : List (BitVec 8 × BitVec 8) :=
  [(34, 34), (92, 92), (47, 47), (98, 8), (102, 12), (110, 10), (114, 13), (116, 9)]

def hexDigit (byte : BitVec 8) : Option Nat :=
  if 48 ≤ byte.toNat ∧ byte.toNat ≤ 57 then some (byte.toNat - 48)
  else if 65 ≤ byte.toNat ∧ byte.toNat ≤ 70 then some (byte.toNat - 55)
  else if 97 ≤ byte.toNat ∧ byte.toNat ≤ 102 then some (byte.toNat - 87)
  else none

/-- The number that four hexadecimal digits write. -/
def fourHex : List (BitVec 8) → Option Nat
  | [first, second, third, fourth] => do
    let first ← hexDigit first
    let second ← hexDigit second
    let third ← hexDigit third
    let fourth ← hexDigit fourth
    return ((first * 16 + second) * 16 + third) * 16 + fourth
  | _ => none

def utf8 (char : Char) : List (BitVec 8) := (String.utf8EncodeChar char).map UInt8.toBitVec

/-- How the inside of a string is written. A character beyond the sixteen bits of one escape
takes the two halves of a surrogate pair. -/
inductive Written : List (BitVec 8) → List (BitVec 8) → Prop
  | nil : Written [] []
  | plain (printable : 32 ≤ byte.toNat) (unquoted : byte ≠ quote) (unescaped : byte ≠ backslash)
      (rest : Written raw value) : Written (byte :: raw) (byte :: value)
  | short {escape : BitVec 8} (listed : (escape, byte) ∈ shortEscapes)
      (rest : Written raw value) : Written (backslash :: escape :: raw) (byte :: value)
  | unicode {char : Char} (means : fourHex digits = some char.toNat) (rest : Written raw value) :
      Written (backslash :: 117 :: (digits ++ raw)) (utf8 char ++ value)
  | pair {char : Char} {high low : List (BitVec 8)} {upper lower : Nat}
      (first : fourHex high = some (0xD800 + upper)) (second : fourHex low = some (0xDC00 + lower))
      (halves : upper < 0x400 ∧ lower < 0x400)
      (means : char.toNat = 0x10000 + 0x400 * upper + lower) (rest : Written raw value) :
      Written (backslash :: 117 :: (high ++ backslash :: 117 :: (low ++ raw))) (utf8 char ++ value)

/-- A string as it is written, with what it means. -/
structure Literal where
  raw : List (BitVec 8)
  value : List (BitVec 8)
  written : Written raw value

def quoted (text : List (BitVec 8)) : List (BitVec 8) := quote :: (text ++ [quote])

variable {key raw value bytes digits tail : List (BitVec 8)} {mark byte : BitVec 8}

theorem hexDigit_none (low : byte.toNat < 48) : hexDigit byte = none := by
  unfold hexDigit
  rw [if_neg (by omega), if_neg (by omega), if_neg (by omega)]

theorem fourHex_digits {n : Nat} (means : fourHex digits = some n) :
    digits.length = 4 ∧ ∀ byte ∈ digits, 48 ≤ byte.toNat := by
  match digits, means with
  | [first, second, third, fourth], means =>
    refine ⟨rfl, fun byte member => ?_⟩
    by_contra low
    have unread := hexDigit_none (not_le.mp low)
    simp only [List.mem_cons, List.not_mem_nil, or_false] at member
    rcases member with rfl | rfl | rfl | rfl <;> simp [fourHex, unread] at means

theorem quote_not_mem_fourHex {n : Nat} (means : fourHex digits = some n) : quote ∉ digits :=
  fun member => absurd ((fourHex_digits means).2 quote member) (by decide)

theorem length_utf8 (char : Char) : (utf8 char).length ≤ 4 := by
  rw [utf8, List.length_map, String.length_utf8EncodeChar]
  exact Char.utf8Size_le_four char

/-- A quotation mark inside a string is written with an escape. -/
theorem Written.quote_mem (written : Written raw value) (member : quote ∈ raw) : quote ∈ value := by
  have outside : quote ≠ backslash ∧ quote ≠ 117#8 := by decide
  induction written with
  | nil => exact member
  | plain printable unquoted unescaped rest ih =>
    rcases List.mem_cons.mp member with same | later
    · exact absurd same.symm unquoted
    · exact List.mem_cons_of_mem _ (ih later)
  | @short byte _ _ _ listed rest ih =>
    rcases List.mem_cons.mp member with same | member
    · exact absurd same (by decide)
    · rcases List.mem_cons.mp member with rfl | later
      · have same : byte = quote := by simpa [shortEscapes, quote] using listed
        exact same ▸ List.mem_cons_self
      · exact List.mem_cons_of_mem _ (ih later)
  | unicode means rest ih =>
    have plain := quote_not_mem_fourHex means
    have later := by simpa [outside.1, outside.2, plain] using member
    exact List.mem_append_right _ (ih later)
  | pair first second halves means rest ih =>
    have plain := quote_not_mem_fourHex first
    have also := quote_not_mem_fourHex second
    have later := by simpa [outside.1, outside.2, plain, also] using member
    exact List.mem_append_right _ (ih later)

theorem Written.length_le (written : Written raw value) : value.length ≤ raw.length := by
  induction written with
  | nil => exact le_rfl
  | plain _ _ _ _ ih => simpa using ih
  | short _ _ ih =>
    simp only [List.length_cons]
    omega
  | @unicode _ _ _ char means _ ih =>
    have four := (fourHex_digits means).1
    have short := length_utf8 char
    simp only [List.length_cons, List.length_append]
    omega
  | @pair _ _ char _ _ _ _ first second _ _ _ ih =>
    have four := (fourHex_digits first).1
    have short := length_utf8 char
    simp only [List.length_cons, List.length_append]
    omega

/-- An escape is longer than what it stands for. -/
theorem Written.length_lt (written : Written raw value) (member : backslash ∈ raw) :
    value.length < raw.length := by
  induction written with
  | nil => cases member
  | plain _ _ unescaped _ ih =>
    rcases List.mem_cons.mp member with same | later
    · exact absurd same.symm unescaped
    · simpa using ih later
  | short _ rest _ =>
    have short := rest.length_le
    simp only [List.length_cons]
    omega
  | @unicode _ _ _ char means rest _ =>
    have four := (fourHex_digits means).1
    have short := length_utf8 char
    have shorter := rest.length_le
    simp only [List.length_cons, List.length_append]
    omega
  | @pair _ _ char _ _ _ _ first second _ _ rest _ =>
    have four := (fourHex_digits first).1
    have short := length_utf8 char
    have shorter := rest.length_le
    simp only [List.length_cons, List.length_append]
    omega

/-- Without escapes a string means itself. -/
theorem Written.eq_of_not_mem (written : Written raw value) (absent : backslash ∉ raw) :
    raw = value := by
  induction written with
  | nil => rfl
  | plain printable unquoted unescaped rest ih =>
    rw [ih fun member => absent (List.mem_cons_of_mem _ member)]
  | _ => exact absurd List.mem_cons_self absent

/-- A string without escapes holds no quotation mark. -/
theorem Written.quote_not_mem (written : Written raw value) (absent : backslash ∉ raw) :
    quote ∉ raw := by
  induction written with
  | nil => exact List.not_mem_nil
  | plain _ unquoted _ _ ih =>
    obtain ⟨-, rest⟩ := not_or.mp (mt List.mem_cons.mpr absent)
    exact fun member => (List.mem_cons.mp member).elim (fun same => unquoted same.symm) (ih rest)
  | _ => exact absurd List.mem_cons_self absent

/-- A string is written without control characters. -/
theorem Written.printable (written : Written raw value) : ∀ byte ∈ raw, 32 ≤ byte.toNat := by
  have escape : 32 ≤ backslash.toNat := by decide
  induction written with
  | nil => simp
  | plain printable _ _ _ ih => exact List.forall_mem_cons.mpr ⟨printable, ih⟩
  | short listed _ ih =>
    have letters : ∀ pair ∈ shortEscapes, 32 ≤ pair.1.toNat := by simp [shortEscapes]
    exact List.forall_mem_cons.mpr
      ⟨escape, List.forall_mem_cons.mpr ⟨letters _ listed, ih⟩⟩
  | unicode means _ ih =>
    have hex := (fourHex_digits means).2
    simp only [List.forall_mem_cons, List.forall_mem_append]
    exact ⟨escape, by decide, fun byte member => le_trans (by decide) (hex byte member), ih⟩
  | pair first second _ _ _ ih =>
    have high := (fourHex_digits first).2
    have low := (fourHex_digits second).2
    simp only [List.forall_mem_cons, List.forall_mem_append]
    exact ⟨escape, by decide, fun byte member => le_trans (by decide) (high byte member), escape,
      by decide, fun byte member => le_trans (by decide) (low byte member), ih⟩

/-- No string begins with a quotation mark. -/
theorem Written.head_ne (written : Written (byte :: raw) value) : byte ≠ quote := by
  cases written with
  | plain _ unquoted _ _ => exact unquoted
  | _ => decide

/-- A text without marks or control characters is written as it is. -/
def Literal.plain (text : List (BitVec 8))
    (plain : ∀ byte ∈ text, 32 ≤ byte.toNat ∧ byte ≠ quote ∧ byte ≠ backslash) : Literal :=
  ⟨text, text, by
    induction text with
    | nil => exact .nil
    | cons byte text ih =>
      obtain ⟨⟨printable, unquoted, unescaped⟩, rest⟩ := List.forall_mem_cons.mp plain
      exact .plain printable unquoted unescaped (ih rest)⟩

def decimal (n : Nat) : List (BitVec 8) :=
  if n = 0 then [48] else (Nat.digits 10 n).reverse.map fun digit => BitVec.ofNat 8 (48 + digit)

theorem hexDigit_ofNat {digit : Nat} (small : digit < 10) :
    hexDigit (BitVec.ofNat 8 (48 + digit)) = some digit := by
  have value : (BitVec.ofNat 8 (48 + digit)).toNat = 48 + digit := by
    rw [BitVec.toNat_ofNat]
    omega
  rw [hexDigit, value, if_pos (by omega), Nat.add_sub_cancel_left]

theorem decimal_ne_nil (n : Nat) : decimal n ≠ [] := by
  unfold decimal
  split
  · exact List.cons_ne_nil _ _
  · next positive =>
    rw [Ne, List.map_eq_nil_iff, List.reverse_eq_nil_iff]
    exact Nat.digits_ne_nil_iff_ne_zero.mpr positive

theorem decimal_digit {n : Nat} (member : byte ∈ decimal n) :
    ∃ digit < 10, byte = BitVec.ofNat 8 (48 + digit) := by
  unfold decimal at member
  split at member
  · exact ⟨0, by decide, List.mem_singleton.mp member⟩
  · obtain ⟨digit, member, same⟩ := List.mem_map.mp member
    exact ⟨digit, Nat.digits_lt_base (by decide) (List.mem_reverse.mp member), same.symm⟩

theorem length_decimal_le {n places : Nat} (positive : 0 < places) (bounded : n < 10 ^ places) :
    (decimal n).length ≤ places := by
  unfold decimal
  split
  · exact positive
  · rw [List.length_map, List.length_reverse]
    exact (Nat.digits_length_le_iff (by decide) n).mpr bounded

/-- Read from left to right, a decimal text gives its number. -/
theorem decimal_value (n : Nat) :
    (decimal n).foldl (fun value byte => value * 10 + (hexDigit byte).getD 0) 0 = n := by
  unfold decimal
  split
  · next zero => rw [zero]; decide
  · rw [List.foldl_map, List.foldl_reverse]
    have each : ∀ digits : List Nat, (∀ digit ∈ digits, digit < 10) →
        digits.foldr (fun digit value => value * 10 +
          (hexDigit (BitVec.ofNat 8 (48 + digit))).getD 0) 0 = Nat.ofDigits 10 digits := by
      intro digits small
      induction digits with
      | nil => rfl
      | cons digit digits ih =>
        obtain ⟨small, rest⟩ := List.forall_mem_cons.mp small
        rw [List.foldr_cons, ih rest, hexDigit_ofNat small, Nat.ofDigits_cons]
        rw [Option.getD_some]
        omega
    rw [each _ fun digit => Nat.digits_lt_base (by decide), Nat.ofDigits_digits]

/-- The blanks of one line. -/
structure Blanks where
  bytes : List (BitVec 8)
  blank : ∀ byte ∈ bytes, byte = 32 ∨ byte = 9 ∨ byte = 13

inductive Value where
  | string (literal : Literal)
  | number (n : Nat)

def Value.written : Value → List (BitVec 8)
  | .string literal => quoted literal.raw
  | .number n => decimal n

/-- The characters of a string, and no text for a number. -/
def Value.text : Value → List (BitVec 8)
  | .string literal => literal.value
  | .number _ => []

def Value.number? : Value → Option Nat
  | .string _ => none
  | .number n => some n

structure Member where
  beforeKey : Blanks
  key : Literal
  afterKey : Blanks
  beforeValue : Blanks
  value : Value
  afterValue : Blanks

/-- What stands behind the key. -/
def Member.rest (member : Member) : List (BitVec 8) :=
  member.afterKey.bytes ++ colon ::
    (member.beforeValue.bytes ++ (member.value.written ++ member.afterValue.bytes))

def Member.text (member : Member) : List (BitVec 8) :=
  member.beforeKey.bytes ++ (quoted member.key.raw ++ member.rest)

def Blanks.none : Blanks := ⟨[], fun _ member => absurd member List.not_mem_nil⟩

/-- A member without blanks. -/
def Member.tight (key : Literal) (value : Value) : Member :=
  ⟨.none, key, .none, .none, value, .none⟩

/-- The member of a key, with the members behind it. -/
def lookup? (key : List (BitVec 8)) : List Member → Option (Member × List Member)
  | [] => none
  | member :: rest => if member.key.value = key then some (member, rest) else lookup? key rest

structure Object where
  lead : Blanks
  inner : Blanks
  members : List Member
  trail : Blanks
  distinct : (members.map (·.key.value)).Nodup

/-- An object without blanks. -/
def Object.tight (members : List Member) (distinct : (members.map (·.key.value)).Nodup) : Object :=
  ⟨.none, .none, members, .none, distinct⟩

namespace Object

variable (object : Object)

def ending : List (BitVec 8) := closing :: object.trail.bytes

def body : List Member → List (BitVec 8)
  | [] => object.ending
  | [member] => member.text ++ object.ending
  | member :: next :: rest => member.text ++ comma :: body (next :: rest)

/-- What stands behind the value of a member. -/
def behind : List Member → List (BitVec 8)
  | [] => object.ending
  | next :: rest => comma :: object.body (next :: rest)

def line : List (BitVec 8) :=
  object.lead.bytes ++ opening :: (object.inner.bytes ++ object.body object.members)

/-- The member of a key. -/
def member? (key : List (BitVec 8)) : Option Member := (lookup? key object.members).map (·.1)

/-- The string of a key, and no text for a key without. -/
def text (key : List (BitVec 8)) : List (BitVec 8) :=
  ((object.member? key).map (·.value.text)).getD []

/-- The number of a key. -/
def number? (key : List (BitVec 8)) : Option Nat := (object.member? key).bind (·.value.number?)

end Object

def Value.literals : Value → List Literal
  | .string literal => [literal]
  | .number _ => []

/-- One of the strings of a member ends in, or is, the quoted key. -/
def Member.Mentions (member : Member) (key : List (BitVec 8)) : Prop :=
  ∃ literal ∈ member.key :: member.value.literals, quoted key <:+: quoted literal.raw

instance (member : Member) (key : List (BitVec 8)) : Decidable (member.Mentions key) :=
  inferInstanceAs (Decidable (∃ literal ∈ member.key :: member.value.literals,
    quoted key <:+: quoted literal.raw))

/-- The key of a member does not mention a key, and behind a mention in its value there is no
colon. -/
structure Member.Trails (member : Member) (key : List (BitVec 8)) : Prop where
  name : ¬ quoted key <:+: quoted member.key.raw
  value : ∀ literal ∈ member.value.literals, ∀ tail ∈ (quoted literal.raw).tails,
    quoted key <+: tail → colon ∉ tail

instance (member : Member) (key : List (BitVec 8)) : Decidable (member.Trails key) :=
  decidable_of_iff (¬ quoted key <:+: quoted member.key.raw ∧
    ∀ literal ∈ member.value.literals, ∀ tail ∈ (quoted literal.raw).tails,
      quoted key <+: tail → colon ∉ tail)
    ⟨fun both => ⟨both.1, both.2⟩, fun trails => ⟨trails.name, trails.value⟩⟩

/-- A key of lower-case letters. -/
structure LowerCase (key : List (BitVec 8)) : Prop where
  filled : key ≠ []
  letters : ∀ byte ∈ key, 97 ≤ byte.toNat ∧ byte.toNat ≤ 122

instance (key : List (BitVec 8)) : Decidable (LowerCase key) :=
  decidable_of_iff (key ≠ [] ∧ key.all (fun byte => 97 ≤ byte.toNat ∧ byte.toNat ≤ 122) = true)
    ⟨fun both => ⟨both.1, by simpa using both.2⟩, fun word => ⟨word.filled, by simpa using word.letters⟩⟩

variable {member : Member} {members before after : List Member} {object : Object}

theorem lookup?_at (other : ∀ earlier ∈ before, earlier.key.value ≠ key)
    (own : member.key.value = key) :
    lookup? key (before ++ member :: after) = some (member, after) := by
  induction before with
  | nil => exact if_pos own
  | cons earlier before ih =>
    obtain ⟨first, rest⟩ := List.forall_mem_cons.mp other
    exact (if_neg first).trans (ih rest)

theorem lookup?_none (other : ∀ member ∈ members, member.key.value ≠ key) :
    lookup? key members = none := by
  induction members with
  | nil => rfl
  | cons member members ih =>
    obtain ⟨first, rest⟩ := List.forall_mem_cons.mp other
    exact (if_neg first).trans (ih rest)

theorem LowerCase.quote_not_mem (word : LowerCase key) : quote ∉ key := fun member =>
  absurd (word.letters quote member).1 (by decide)

/-- No key follows blanks that end in punctuation. -/
theorem LowerCase.apart (word : LowerCase key) (blanks : Blanks)
    (punctuation : mark.toNat < 97 ∨ 122 < mark.toNat) :
    ¬ key ++ [quote] <+: blanks.bytes ++ mark :: tail := by
  intro starts
  obtain ⟨first, key, rfl⟩ := List.exists_cons_of_ne_nil word.filled
  have letter := word.letters first List.mem_cons_self
  cases spaces : blanks.bytes with
  | nil =>
    rw [spaces, List.nil_append, List.cons_append, List.cons_prefix_cons] at starts
    rw [starts.1] at letter
    omega
  | cons blank more =>
    rw [spaces, List.cons_append, List.cons_append, List.cons_prefix_cons] at starts
    have space := blanks.blank blank (by rw [spaces]; exact List.mem_cons_self)
    rw [starts.1] at letter
    rcases space with rfl | rfl | rfl <;> exact absurd letter.1 (by decide)

theorem Blanks.not_mem (blanks : Blanks) (high : 32 < mark.toNat) : mark ∉ blanks.bytes := by
  intro member
  rcases blanks.blank mark member with rfl | rfl | rfl <;> exact absurd high (by decide)

theorem Blanks.quiet (blanks : Blanks) : Quiet (quoted key) blanks.bytes tail :=
  .of_not_mem (blanks.not_mem (by decide))

/-- A string that does not mention the key, before blanks and punctuation. -/
theorem quiet_quoted (word : LowerCase key) (absent : ¬ quoted key <:+: quoted raw) (blanks : Blanks)
    (punctuation : mark.toNat < 97 ∨ 122 < mark.toNat) :
    Quiet (quoted key) (quoted raw) (blanks.bytes ++ mark :: tail) :=
  .wrapped word.quote_not_mem absent (word.apart blanks punctuation)

theorem quote_not_mem_decimal (n : Nat) : quote ∉ decimal n := by
  intro member
  obtain ⟨digit, small, same⟩ := decimal_digit member
  have read := hexDigit_ofNat small
  have unread : hexDigit quote = none := by decide
  rw [← same, unread] at read
  cases read

theorem Member.quiet_rest (word : LowerCase key) (silent : ¬ member.Mentions key)
    (punctuation : mark.toNat < 97 ∨ 122 < mark.toNat) :
    Quiet (quoted key) member.rest (mark :: tail) := by
  have value : Quiet (quoted key) member.value.written (member.afterValue.bytes ++ mark :: tail) := by
    cases kind : member.value with
    | string literal =>
      have absent := not_exists.mp silent literal
      exact quiet_quoted word (fun within => absent ⟨by simp [kind, Value.literals], within⟩) _
        punctuation
    | number n => exact .of_not_mem (quote_not_mem_decimal n)
  have ends := value.append member.afterValue.quiet
  exact member.afterKey.quiet.append (.cons (by decide) (member.beforeValue.quiet.append ends))

/-- A member that does not mention the key, before punctuation. -/
theorem Member.quiet (word : LowerCase key) (silent : ¬ member.Mentions key)
    (punctuation : mark.toNat < 97 ∨ 122 < mark.toNat) :
    Quiet (quoted key) member.text (mark :: tail) := by
  have name : Quiet (quoted key) (quoted member.key.raw) (member.rest ++ mark :: tail) := by
    rw [Member.rest, List.append_assoc, List.cons_append]
    exact quiet_quoted word (fun within => silent ⟨member.key, List.mem_cons_self, within⟩) _
      (by decide)
  exact member.beforeKey.quiet.append (name.append (quiet_rest word silent punctuation))

namespace Object

theorem body_cons (object : Object) (member : Member) (after : List Member) :
    object.body (member :: after) = member.text ++ object.behind after := by
  cases after <;> rfl

/-- The text of an object from one of its members on. -/
theorem body_split (object : Object) (before after : List Member) (member : Member) :
    object.body (before ++ member :: after) =
      before.flatMap (fun earlier => earlier.text ++ [comma]) ++
        (member.text ++ object.behind after) := by
  induction before with
  | nil => exact object.body_cons member after
  | cons earlier before ih =>
    rw [List.flatMap_cons, List.append_assoc, ← ih]
    cases before <;> simp [body]

theorem quiet_members (word : LowerCase key) (silent : ∀ earlier ∈ before, ¬ earlier.Mentions key) :
    Quiet (quoted key) (before.flatMap fun earlier => earlier.text ++ [comma]) tail := by
  induction before with
  | nil => exact .nil
  | cons earlier before ih =>
    obtain ⟨first, rest⟩ := List.forall_mem_cons.mp silent
    rw [List.flatMap_cons, List.append_assoc]
    exact (earlier.quiet word first (by decide)).append (.cons (by decide) (ih rest))

/-- A line at one of its members: the search for a key that no earlier member mentions gets
as far as the member's own key. -/
theorem line_at (word : LowerCase key) (split : object.members = before ++ member :: after)
    (silent : ∀ earlier ∈ before, ¬ earlier.Mentions key) :
    ∃ front, object.line = front ++ (quoted member.key.raw ++ (member.rest ++ object.behind after)) ∧
      ∀ tail, Quiet (quoted key) front tail := by
  refine ⟨object.lead.bytes ++ opening :: (object.inner.bytes ++
    (before.flatMap (fun earlier => earlier.text ++ [comma]) ++ member.beforeKey.bytes)), ?_, ?_⟩
  · rw [line, split, body_split]
    simp only [Member.text, List.append_assoc, List.cons_append]
  · intro tail
    exact object.lead.quiet.append (.cons (by decide) (object.inner.quiet.append
      ((quiet_members word silent).append member.beforeKey.quiet)))

/-- A line at the value of its last member, if no string before mentions the key. -/
theorem line_at_value (word : LowerCase key) (split : object.members = before ++ [member])
    (silent : ∀ earlier ∈ before, ¬ earlier.Mentions key)
    (name : ¬ quoted key <:+: quoted member.key.raw) :
    ∃ front, object.line = front ++ (member.value.written ++ (member.afterValue.bytes ++ object.ending)) ∧
      ∀ tail, Quiet (quoted key) front tail := by
  obtain ⟨front, line, quiet⟩ := object.line_at word split silent
  refine ⟨front ++ (quoted member.key.raw ++ (member.afterKey.bytes ++ colon :: member.beforeValue.bytes)),
    ?_, fun tail => ?_⟩
  · rw [line, Member.rest, behind]
    simp only [List.append_assoc, List.cons_append]
  · have key : Quiet (quoted key) (quoted member.key.raw)
        ((member.afterKey.bytes ++ colon :: member.beforeValue.bytes) ++ tail) := by
      rw [List.append_assoc, List.cons_append]
      exact quiet_quoted word name _ (by decide)
    exact (quiet _).append (key.append
      (member.afterKey.quiet.append (.cons (by decide) member.beforeValue.quiet)))

/-- A line in which no member mentions the key. -/
theorem quiet_line (word : LowerCase key) (silent : ∀ member ∈ object.members, ¬ member.Mentions key) :
    Quiet (quoted key) object.line [] := by
  have ending : Quiet (quoted key) object.ending [] :=
    .cons (by decide) object.trail.quiet
  rcases List.eq_nil_or_concat object.members with empty | ⟨before, member, split⟩
  · rw [line, empty]
    exact object.lead.quiet.append (.cons (by decide) (object.inner.quiet.append ending))
  · rw [List.concat_eq_append] at split
    rw [split] at silent
    rw [line, split, body_split]
    have last := silent member (List.mem_append_right _ List.mem_cons_self)
    have earlier : Quiet (quoted key) (before.flatMap fun earlier => earlier.text ++ [comma])
        (member.text ++ object.ending ++ []) :=
      quiet_members word fun earlier inside => silent earlier (List.mem_append_left _ inside)
    exact object.lead.quiet.append (.cons (by decide) (object.inner.quiet.append
      (earlier.append ((member.quiet word last (by decide)).append ending))))

end Object

end ZeeboLle.Json
