import ZeeboLle.Json.Flat

/-! JSON texts as trees, read by descent. A reader takes a value off the front of a text and leaves
the rest; what it does with a text it does with every longer one, and it passes over no control
character but the blanks. -/
namespace ZeeboLle.Json

inductive Tree where
  | null
  | bool (value : Bool)
  | number (text : List (BitVec 8))
  | string (text : List (BitVec 8))
  | array (items : List Tree)
  | object (members : List (List (BitVec 8) × Tree))

/-- What a reader makes of a text: a value and the rest. -/
abbrev Reader (α : Type) := List (BitVec 8) → Option (α × List (BitVec 8))

def isBlank (byte : BitVec 8) : Bool := byte = 32 || byte = 9 || byte = 10 || byte = 13

def skip (text : List (BitVec 8)) : List (BitVec 8) := text.dropWhile isBlank

/-- A byte after any blanks. -/
def readMark (mark : BitVec 8) : Reader Unit := fun text =>
  match skip text with
  | [] => none
  | byte :: rest => if byte = mark then some ((), rest) else none

/-- UTF-8 for any number that an escape can write, a lone surrogate too. -/
def codePoint (n : Nat) : List (BitVec 8) :=
  if n < 0x80 then [BitVec.ofNat 8 n]
  else if n < 0x800 then [BitVec.ofNat 8 (0xc0 + n / 0x40), BitVec.ofNat 8 (0x80 + n % 0x40)]
  else if n < 0x10000 then
    [BitVec.ofNat 8 (0xe0 + n / 0x1000), BitVec.ofNat 8 (0x80 + n / 0x40 % 0x40),
      BitVec.ofNat 8 (0x80 + n % 0x40)]
  else
    [BitVec.ofNat 8 (0xf0 + n / 0x40000), BitVec.ofNat 8 (0x80 + n / 0x1000 % 0x40),
      BitVec.ofNat 8 (0x80 + n / 0x40 % 0x40), BitVec.ofNat 8 (0x80 + n % 0x40)]

/-- A byte of a string, or the number of a `\u` escape. -/
inductive Piece where
  | byte (byte : BitVec 8)
  | unicode (n : Nat)

/-- The bytes a string stands for: two halves of a surrogate pair are one character. -/
def bytesOf : List Piece → List (BitVec 8)
  | [] => []
  | .byte byte :: rest => byte :: bytesOf rest
  | .unicode n :: .unicode m :: rest =>
    if 0xd800 ≤ n ∧ n < 0xdc00 ∧ 0xdc00 ≤ m ∧ m < 0xe000 then
      codePoint (0x10000 + 0x400 * (n - 0xd800) + (m - 0xdc00)) ++ bytesOf rest
    else codePoint n ++ bytesOf (.unicode m :: rest)
  | .unicode n :: rest => codePoint n ++ bytesOf rest

/-- What may follow a backslash. -/
def readEscape : Reader Piece
  | [] => none
  | letter :: rest =>
    if letter = 117 then
      match rest with
      | a :: b :: c :: d :: rest => (fourHex [a, b, c, d]).map fun n => (.unicode n, rest)
      | _ => none
    else (shortEscapes.lookup letter).map fun byte => (.byte byte, rest)

/-- Pieces up to the closing quotation mark. -/
def readPieces : Nat → Reader (List Piece)
  | 0, _ => none
  | _ + 1, [] => none
  | fuel + 1, byte :: rest =>
    if byte = quote then some ([], rest)
    else if byte = backslash then
      (readEscape rest).bind fun piece =>
        (readPieces fuel piece.2).map fun pieces => (piece.1 :: pieces.1, pieces.2)
    else if byte.toNat < 32 then none
    else (readPieces fuel rest).map fun pieces => (.byte byte :: pieces.1, pieces.2)

/-- A string behind its opening quotation mark. -/
def readChars (fuel : Nat) : Reader (List (BitVec 8)) := fun text =>
  (readPieces fuel text).map fun pieces => (bytesOf pieces.1, pieces.2)

def isDigit (byte : BitVec 8) : Bool := 48 ≤ byte.toNat && byte.toNat ≤ 57

/-- A digit, a sign, a point or the mark of an exponent. -/
def inNumber (byte : BitVec 8) : Bool :=
  isDigit byte || byte = 43 || byte = 45 || byte = 46 || byte = 69 || byte = 101

def isExponent : List (BitVec 8) → Bool
  | [] => true
  | mark :: rest =>
    let digits := if rest.head? = some 43 ∨ rest.head? = some 45 then rest.tail else rest
    (mark = 69 || mark = 101) && !digits.isEmpty && digits.all isDigit

def isNumber (text : List (BitVec 8)) : Bool :=
  let text := if text.head? = some 45 then text.tail else text
  let whole := text.takeWhile isDigit
  let rest := text.dropWhile isDigit
  !whole.isEmpty && (whole = [48] || whole.head? ≠ some 48) &&
    if rest.head? = some 46 then
      !(rest.tail.takeWhile isDigit).isEmpty && isExponent (rest.tail.dropWhile isDigit)
    else isExponent rest

def readNumber : Reader Tree := fun text =>
  if isNumber (text.takeWhile inNumber) then
    some (.number (text.takeWhile inNumber), text.dropWhile inNumber)
  else none

/-- `null`, `true`, `false` or a number. -/
def readScalar : Reader Tree := fun text =>
  if text.take 4 = [110, 117, 108, 108] then some (.null, text.drop 4)
  else if text.take 4 = [116, 114, 117, 101] then some (.bool true, text.drop 4)
  else if text.take 5 = [102, 97, 108, 115, 101] then some (.bool false, text.drop 5)
  else readNumber text

/-- Items with commas between them, up to the closing mark. -/
def readItems {α : Type} (item : Reader α) (close : BitVec 8) : Nat → Reader (List α)
  | 0, _ => none
  | fuel + 1, text =>
    (item text).bind fun first =>
      match skip first.2 with
      | [] => none
      | byte :: rest =>
        if byte = close then some ([first.1], rest)
        else if byte = comma then
          (readItems item close fuel rest).map fun more => (first.1 :: more.1, more.2)
        else none

/-- Items, or none. -/
def readList {α : Type} (item : Reader α) (close : BitVec 8) (fuel : Nat) : Reader (List α) := fun text =>
  match skip text with
  | [] => none
  | byte :: rest => if byte = close then some ([], rest) else readItems item close fuel text

def readMember (value : Reader Tree) (fuel : Nat) : Reader (List (BitVec 8) × Tree) := fun text =>
  (readMark quote text).bind fun opened =>
    (readChars fuel opened.2).bind fun key =>
      (readMark colon key.2).bind fun marked =>
        (value marked.2).map fun tree => ((key.1, tree.1), tree.2)

def readTree : Nat → Reader Tree
  | 0, _ => none
  | fuel + 1, text =>
    match skip text with
    | [] => none
    | byte :: rest =>
      if byte = quote then (readChars fuel rest).map fun chars => (.string chars.1, chars.2)
      else if byte = 91 then
        (readList (readTree fuel) 93 fuel rest).map fun items => (.array items.1, items.2)
      else if byte = opening then
        (readList (readMember (readTree fuel) fuel) closing fuel rest).map fun members =>
          (.object members.1, members.2)
      else readScalar (byte :: rest)

/-- The tree of a whole text. No text holds more characters, items or levels than bytes. -/
def parse (text : List (BitVec 8)) : Option Tree :=
  (readTree (text.length + 1) text).bind fun tree => if skip tree.2 = [] then some tree.1 else none

example : parse [91, 49, 44, 32, 123, 34, 97, 34, 58, 110, 117, 108, 108, 125, 93] =
    some (.array [.number [49], .object [([97], .null)]]) := by rfl

variable {α : Type} {text rest tail : List (BitVec 8)} {byte mark close : BitVec 8} {fuel more : Nat}

/-- What one reader makes of a text the other makes of every longer one. -/
def Extends (reader longer : Reader α) : Prop :=
  ∀ text value rest tail, reader text = some (value, rest) →
    longer (text ++ tail) = some (value, rest ++ tail)

/-- A number that a text ends with does not go on in the tail. -/
def Stops (tail : List (BitVec 8)) : Prop := ∀ byte, tail.head? = some byte → inNumber byte = false

/-- As for `Extends`, with a tail that does not go on with a number. -/
def ExtendsTo (reader longer : Reader α) : Prop :=
  ∀ text value rest tail, reader text = some (value, rest) → (rest = [] → Stops tail) →
    longer (text ++ tail) = some (value, rest ++ tail)

theorem skip_append (found : skip text = byte :: rest) (tail : List (BitVec 8)) :
    skip (text ++ tail) = byte :: (rest ++ tail) := by
  rw [skip, List.dropWhile_append, ← skip, found]
  rfl

theorem readMark_extends (mark : BitVec 8) : Extends (readMark mark) (readMark mark) := by
  intro text value rest tail read
  unfold readMark at read ⊢
  split at read
  · cases read
  · next byte after found =>
    rw [skip_append found]
    split at read
    · next own =>
      cases read
      exact if_pos own
    · cases read

theorem readEscape_extends : Extends readEscape readEscape := by
  intro text value rest tail read
  unfold readEscape at read ⊢
  split at read
  · cases read
  · next letter after =>
    rw [List.cons_append]
    dsimp only
    split at read
    · next unicode =>
      rw [if_pos unicode]
      split at read
      · next a b c d after =>
        obtain ⟨n, means, same⟩ := Option.map_eq_some_iff.mp read
        cases same
        simp only [List.cons_append, means, Option.map_some]
      · cases read
    · next short =>
      obtain ⟨byte, means, same⟩ := Option.map_eq_some_iff.mp read
      cases same
      rw [if_neg short, means, Option.map_some]

theorem readPieces_extends (grows : fuel ≤ more) : Extends (readPieces fuel) (readPieces more) := by
  intro text value rest tail read
  induction fuel generalizing more text value with
  | zero => cases read
  | succ fuel ih =>
    obtain ⟨more, rfl⟩ := Nat.exists_eq_succ_of_ne_zero (Nat.ne_of_gt (Nat.zero_lt_of_lt grows))
    have grows := Nat.le_of_succ_le_succ grows
    cases text with
    | nil => cases read
    | cons byte text =>
      rw [readPieces] at read
      rw [List.cons_append, readPieces]
      split at read
      · next closing =>
        cases read
        rw [if_pos closing]
      · next going =>
        rw [if_neg going]
        split at read
        · next escaped =>
          obtain ⟨⟨piece, after⟩, first, read⟩ := Option.bind_eq_some_iff.mp read
          obtain ⟨⟨pieces, last⟩, others, same⟩ := Option.map_eq_some_iff.mp read
          cases same
          rw [if_pos escaped, readEscape_extends _ _ _ tail first, Option.bind_some,
            ih grows _ _ others, Option.map_some]
        · next plain =>
          rw [if_neg plain]
          split at read
          · cases read
          · next printable =>
            obtain ⟨⟨pieces, last⟩, others, same⟩ := Option.map_eq_some_iff.mp read
            cases same
            rw [if_neg printable, ih grows _ _ others, Option.map_some]

theorem readChars_extends (grows : fuel ≤ more) : Extends (readChars fuel) (readChars more) := by
  intro text value rest tail read
  obtain ⟨⟨pieces, after⟩, found, same⟩ := Option.map_eq_some_iff.mp read
  cases same
  rw [readChars, readPieces_extends grows _ _ _ tail found, Option.map_some]

/-- What passes a test at the front does so in a longer text, if the tail does not go on with it. -/
theorem takeWhile_stops {test : BitVec 8 → Bool}
    (stops : text.dropWhile test = [] → ∀ byte, tail.head? = some byte → test byte = false) :
    (text ++ tail).takeWhile test = text.takeWhile test ∧
      (text ++ tail).dropWhile test = text.dropWhile test ++ tail := by
  induction text with
  | nil =>
    cases tail with
    | nil => exact ⟨rfl, rfl⟩
    | cons byte tail =>
      have fails := stops rfl byte rfl
      rw [List.nil_append, List.takeWhile_cons_of_neg (by simp [fails]),
        List.dropWhile_cons_of_neg (by simp [fails])]
      exact ⟨rfl, rfl⟩
  | cons byte text ih =>
    rw [List.cons_append]
    cases passes : test byte with
    | true =>
      rw [List.dropWhile_cons_of_pos passes] at stops
      obtain ⟨front, back⟩ := ih stops
      rw [List.takeWhile_cons_of_pos passes, List.takeWhile_cons_of_pos passes,
        List.dropWhile_cons_of_pos passes, List.dropWhile_cons_of_pos passes, front, back]
      exact ⟨rfl, rfl⟩
    | false =>
      have fails : ¬test byte = true := by simp [passes]
      rw [List.takeWhile_cons_of_neg fails, List.takeWhile_cons_of_neg fails,
        List.dropWhile_cons_of_neg fails, List.dropWhile_cons_of_neg fails]
      exact ⟨rfl, rfl⟩

theorem readNumber_extends : ExtendsTo readNumber readNumber := by
  intro text value rest tail read stops
  unfold readNumber at read ⊢
  split at read
  · next valid =>
    cases read
    obtain ⟨front, back⟩ := takeWhile_stops stops
    rw [front, back, if_pos valid]
  · cases read

/-- A text that begins as a number is not one of the names. -/
theorem take_ne {head : BitVec 8} {name : List (BitVec 8)} (digit : inNumber byte = true)
    (letter : inNumber head = false) (count : Nat) :
    (byte :: text).take (count + 1) ≠ head :: name := by
  rw [List.take_succ_cons]
  intro same
  rw [(List.cons.inj same).1, letter] at digit
  cases digit

theorem readScalar_number (digit : inNumber byte = true) :
    readScalar (byte :: text) = readNumber (byte :: text) := by
  rw [readScalar, if_neg (take_ne digit (by decide) 3), if_neg (take_ne digit (by decide) 3),
    if_neg (take_ne digit (by decide) 4)]

theorem readNumber_head {value : Tree} (read : readNumber text = some (value, rest)) :
    ∃ byte after, text = byte :: after ∧ inNumber byte = true := by
  unfold readNumber at read
  split at read
  · next valid =>
    cases text with
    | nil => cases valid
    | cons byte after =>
      refine ⟨byte, after, rfl, ?_⟩
      by_contra other
      rw [List.takeWhile_cons_of_neg other] at valid
      cases valid
  · cases read

theorem take_append {name : List (BitVec 8)} {count : Nat} (found : text.take count = name)
    (whole : name.length = count) (tail : List (BitVec 8)) :
    (text ++ tail).take count = name ∧ (text ++ tail).drop count = text.drop count ++ tail := by
  have long : count ≤ text.length := by
    have length := congrArg List.length found
    rw [List.length_take] at length
    omega
  rw [List.take_append_of_le_length long, List.drop_append_of_le_length long]
  exact ⟨found, rfl⟩

theorem readScalar_extends : ExtendsTo readScalar readScalar := by
  intro text value rest tail read stops
  unfold readScalar at read
  split at read
  · next name =>
    cases read
    obtain ⟨front, back⟩ := take_append name rfl tail
    rw [readScalar, if_pos front, back]
  · split at read
    · next name =>
      cases read
      obtain ⟨front, back⟩ := take_append name rfl tail
      rw [readScalar, front, if_neg (by decide), if_pos rfl, back]
    · split at read
      · next name =>
        cases read
        obtain ⟨front, back⟩ := take_append name rfl tail
        have early : (text ++ tail).take 4 = [102, 97, 108, 115] := by
          rw [show 4 = min 4 5 from rfl, ← List.take_take, front]
          rfl
        rw [readScalar, early, if_neg (by decide), if_neg (by decide), if_pos front, back]
      · obtain ⟨byte, after, rfl, digit⟩ := readNumber_head read
        rw [List.cons_append, readScalar_number digit, ← List.cons_append]
        exact readNumber_extends _ _ _ tail read stops

variable {item longer : Reader α}

theorem readItems_extends (each : ExtendsTo item longer) (close : BitVec 8) (grows : fuel ≤ more) :
    Extends (readItems item close fuel) (readItems longer close more) := by
  intro text value rest tail read
  induction fuel generalizing more text value with
  | zero => cases read
  | succ fuel ih =>
    obtain ⟨more, rfl⟩ := Nat.exists_eq_succ_of_ne_zero (Nat.ne_of_gt (Nat.zero_lt_of_lt grows))
    have grows := Nat.le_of_succ_le_succ grows
    rw [readItems] at read ⊢
    obtain ⟨⟨first, after⟩, head, read⟩ := Option.bind_eq_some_iff.mp read
    dsimp only at read
    split at read
    · cases read
    · next byte behind found =>
      have inside : after ≠ [] := by
        rintro rfl
        cases found
      rw [each _ _ _ tail head fun ended => absurd ended inside, Option.bind_some]
      dsimp only
      rw [skip_append found]
      dsimp only
      split at read
      · next closing =>
        cases read
        rw [if_pos closing]
      · next going =>
        rw [if_neg going]
        split at read
        · next separated =>
          obtain ⟨⟨others, last⟩, found, same⟩ := Option.map_eq_some_iff.mp read
          cases same
          rw [if_pos separated, ih grows _ _ found, Option.map_some]
        · cases read

theorem readList_extends (each : ExtendsTo item longer) (close : BitVec 8) (grows : fuel ≤ more) :
    Extends (readList item close fuel) (readList longer close more) := by
  intro text value rest tail read
  unfold readList at read ⊢
  split at read
  · cases read
  · next byte after found =>
    rw [skip_append found]
    dsimp only
    split at read
    · next closing =>
      cases read
      rw [if_pos closing]
    · next going =>
      rw [if_neg going]
      exact readItems_extends each close grows _ _ _ tail read

theorem readMember_extends {value longer : Reader Tree} (each : ExtendsTo value longer)
    (grows : fuel ≤ more) : ExtendsTo (readMember value fuel) (readMember longer more) := by
  intro text member rest tail read stops
  unfold readMember at read ⊢
  obtain ⟨first, opened, read⟩ := Option.bind_eq_some_iff.mp read
  obtain ⟨key, named, read⟩ := Option.bind_eq_some_iff.mp read
  obtain ⟨second, marked, read⟩ := Option.bind_eq_some_iff.mp read
  obtain ⟨tree, valued, same⟩ := Option.map_eq_some_iff.mp read
  cases same
  rw [readMark_extends quote _ _ _ tail opened, Option.bind_some,
    readChars_extends grows _ _ _ tail named, Option.bind_some,
    readMark_extends colon _ _ _ tail marked, Option.bind_some, each _ _ _ tail valued stops,
    Option.map_some]

/-- What a text is read as does not depend on the fuel left or on what follows. -/
theorem readTree_extends (grows : fuel ≤ more) : ExtendsTo (readTree fuel) (readTree more) := by
  induction fuel generalizing more with
  | zero =>
    intro text value rest tail read
    cases read
  | succ fuel ih =>
    intro text value rest tail read stops
    obtain ⟨more, rfl⟩ := Nat.exists_eq_succ_of_ne_zero (Nat.ne_of_gt (Nat.zero_lt_of_lt grows))
    have grows := Nat.le_of_succ_le_succ grows
    rw [readTree] at read ⊢
    split at read
    · cases read
    · next byte after found =>
      rw [skip_append found]
      dsimp only
      split at read
      · next string =>
        obtain ⟨⟨chars, last⟩, found, same⟩ := Option.map_eq_some_iff.mp read
        cases same
        rw [if_pos string, readChars_extends grows _ _ _ tail found, Option.map_some]
      · next other =>
        rw [if_neg other]
        split at read
        · next array =>
          obtain ⟨⟨items, last⟩, found, same⟩ := Option.map_eq_some_iff.mp read
          cases same
          rw [if_pos array, readList_extends (ih grows) 93 grows _ _ _ tail found, Option.map_some]
        · next other =>
          rw [if_neg other]
          split at read
          · next object =>
            obtain ⟨⟨members, last⟩, found, same⟩ := Option.map_eq_some_iff.mp read
            cases same
            rw [if_pos object, readList_extends (readMember_extends (ih grows) grows) closing grows
              _ _ _ tail found, Option.map_some]
          · next scalar =>
            rw [if_neg scalar, ← List.cons_append]
            exact readScalar_extends _ _ _ tail read stops

end ZeeboLle.Json
