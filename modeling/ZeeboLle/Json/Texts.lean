import ZeeboLle.Json.Reader

/-! Texts that parse: they have no control characters but blanks, and texts put together from such
texts parse as what they are put together from. -/
namespace ZeeboLle.Json

variable {α : Type} {text rest tail : List (BitVec 8)} {byte mark close : BitVec 8} {fuel more : Nat}

/-- A blank, or no control character. -/
def allowed (byte : BitVec 8) : Bool := isBlank byte || 32 ≤ byte.toNat

/-- From a text to its rest, over allowed bytes only. -/
def Over (text rest : List (BitVec 8)) : Prop :=
  ∃ front, text = front ++ rest ∧ ∀ byte ∈ front, allowed byte = true

theorem Over.refl (text : List (BitVec 8)) : Over text text :=
  ⟨[], rfl, fun _ member => absurd member List.not_mem_nil⟩

theorem Over.trans {first second third : List (BitVec 8)} (early : Over first second)
    (late : Over second third) : Over first third := by
  obtain ⟨front, rfl, left⟩ := early
  obtain ⟨back, rfl, right⟩ := late
  exact ⟨front ++ back, (List.append_assoc _ _ _).symm, List.forall_mem_append.mpr ⟨left, right⟩⟩

theorem Over.cons (fine : allowed byte = true) (onward : Over text rest) : Over (byte :: text) rest := by
  obtain ⟨front, rfl, each⟩ := onward
  exact ⟨byte :: front, rfl, List.forall_mem_cons.mpr ⟨fine, each⟩⟩

theorem over_dropWhile {test : BitVec 8 → Bool} (fine : ∀ byte, test byte = true → allowed byte = true)
    (text : List (BitVec 8)) : Over text (text.dropWhile test) :=
  ⟨text.takeWhile test, List.takeWhile_append_dropWhile.symm, fun byte member =>
    fine byte (List.mem_takeWhile_imp member)⟩

theorem over_skip (found : skip text = byte :: rest) (onward : Over (byte :: rest) tail) :
    Over text tail := by
  have blanks : Over text (text.dropWhile isBlank) :=
    over_dropWhile (fun byte blank => by simp [allowed, blank]) text
  rw [← skip, found] at blanks
  exact blanks.trans onward

theorem over_drop {count : Nat} {name : List (BitVec 8)} (found : text.take count = name)
    (fine : name.all allowed = true) : Over text (text.drop count) :=
  ⟨name, by rw [← found, List.take_append_drop], List.all_eq_true.mp fine⟩

def Passes (reader : Reader α) : Prop :=
  ∀ text value rest, reader text = some (value, rest) → Over text rest

theorem allowed_of_le (large : 32 ≤ byte.toNat) : allowed byte = true := by
  simp [allowed, large]

theorem readMark_passes (fine : allowed mark = true) : Passes (readMark mark) := by
  intro text value rest read
  unfold readMark at read
  split at read
  · cases read
  · next byte after found =>
    split at read
    · next own =>
      cases read
      exact over_skip found (.cons (own ▸ fine) (.refl _))
    · cases read

theorem readEscape_passes : Passes readEscape := by
  intro text value rest read
  unfold readEscape at read
  split at read
  · cases read
  · next letter after =>
    split at read
    · next unicode =>
      split at read
      · next a b c d after =>
        obtain ⟨n, means, same⟩ := Option.map_eq_some_iff.mp read
        cases same
        have digits := (fourHex_digits means).2
        refine .cons (unicode ▸ by decide) ⟨[a, b, c, d], rfl, fun byte member => ?_⟩
        exact allowed_of_le (le_trans (by decide) (digits byte member))
      · cases read
    · obtain ⟨byte, means, same⟩ := Option.map_eq_some_iff.mp read
      cases same
      obtain ⟨before, after, split, -⟩ := List.lookup_eq_some_iff.mp means
      have listed : letter ∈ shortEscapes.map Prod.fst := by simp [split]
      have fine : (shortEscapes.map Prod.fst).all allowed = true := by decide
      exact .cons (List.all_eq_true.mp fine letter listed) (.refl _)

theorem readPieces_passes (fuel : Nat) : Passes (readPieces fuel) := by
  intro text value rest read
  induction fuel generalizing text value with
  | zero => cases read
  | succ fuel ih =>
    cases text with
    | nil => cases read
    | cons byte text =>
      rw [readPieces] at read
      split at read
      · next closing =>
        cases read
        exact .cons (closing ▸ by decide) (.refl _)
      · split at read
        · next escaped =>
          obtain ⟨piece, first, read⟩ := Option.bind_eq_some_iff.mp read
          obtain ⟨pieces, others, same⟩ := Option.map_eq_some_iff.mp read
          cases same
          exact .cons (escaped ▸ by decide)
            ((readEscape_passes _ _ _ first).trans (ih _ _ others))
        · split at read
          · cases read
          · next printable =>
            obtain ⟨pieces, others, same⟩ := Option.map_eq_some_iff.mp read
            cases same
            exact .cons (allowed_of_le (not_lt.mp printable)) (ih _ _ others)

theorem readChars_passes (fuel : Nat) : Passes (readChars fuel) := by
  intro text value rest read
  obtain ⟨pieces, found, same⟩ := Option.map_eq_some_iff.mp read
  cases same
  exact readPieces_passes fuel _ _ _ found

theorem allowed_inNumber (byte : BitVec 8) (digit : inNumber byte = true) : allowed byte = true := by
  revert byte
  decide +kernel

theorem readScalar_passes : Passes readScalar := by
  intro text value rest read
  unfold readScalar at read
  split at read
  · next name =>
    cases read
    exact over_drop name (by decide)
  · split at read
    · next name =>
      cases read
      exact over_drop name (by decide)
    · split at read
      · next name =>
        cases read
        exact over_drop name (by decide)
      · unfold readNumber at read
        split at read
        · cases read
          exact over_dropWhile allowed_inNumber text
        · cases read

variable {item : Reader α}

theorem readItems_passes (each : Passes item) (fine : allowed close = true) (fuel : Nat) :
    Passes (readItems item close fuel) := by
  intro text value rest read
  induction fuel generalizing text value with
  | zero => cases read
  | succ fuel ih =>
    rw [readItems] at read
    obtain ⟨first, head, read⟩ := Option.bind_eq_some_iff.mp read
    have early := each _ _ _ head
    split at read
    · cases read
    · next byte behind found =>
      split at read
      · next closing =>
        cases read
        exact early.trans (over_skip found (.cons (closing ▸ fine) (.refl _)))
      · split at read
        · next separated =>
          obtain ⟨others, found', same⟩ := Option.map_eq_some_iff.mp read
          cases same
          exact early.trans (over_skip found (.cons (separated ▸ by decide) (ih _ _ found')))
        · cases read

theorem readList_passes (each : Passes item) (fine : allowed close = true) (fuel : Nat) :
    Passes (readList item close fuel) := by
  intro text value rest read
  unfold readList at read
  split at read
  · cases read
  · next byte after found =>
    split at read
    · next closing =>
      cases read
      exact over_skip found (.cons (closing ▸ fine) (.refl _))
    · exact readItems_passes each fine fuel _ _ _ read

theorem readMember_passes {value : Reader Tree} (each : Passes value) (fuel : Nat) :
    Passes (readMember value fuel) := by
  intro text member rest read
  unfold readMember at read
  obtain ⟨first, opened, read⟩ := Option.bind_eq_some_iff.mp read
  obtain ⟨key, named, read⟩ := Option.bind_eq_some_iff.mp read
  obtain ⟨second, marked, read⟩ := Option.bind_eq_some_iff.mp read
  obtain ⟨tree, valued, same⟩ := Option.map_eq_some_iff.mp read
  cases same
  have front := (readMark_passes (by decide) _ _ _ opened).trans (readChars_passes fuel _ _ _ named)
  exact front.trans ((readMark_passes (by decide) _ _ _ marked).trans (each _ _ _ valued))

theorem readTree_passes (fuel : Nat) : Passes (readTree fuel) := by
  induction fuel with
  | zero =>
    intro text value rest read
    cases read
  | succ fuel ih =>
    intro text value rest read
    rw [readTree] at read
    split at read
    · cases read
    · next byte after found =>
      refine over_skip found ?_
      split at read
      · next string =>
        obtain ⟨chars, behind, same⟩ := Option.map_eq_some_iff.mp read
        cases same
        exact .cons (string ▸ by decide) (readChars_passes fuel _ _ _ behind)
      · split at read
        · next array =>
          obtain ⟨items, behind, same⟩ := Option.map_eq_some_iff.mp read
          cases same
          exact .cons (array ▸ by decide) (readList_passes ih (by decide) fuel _ _ _ behind)
        · split at read
          · next object =>
            obtain ⟨members, behind, same⟩ := Option.map_eq_some_iff.mp read
            cases same
            exact .cons (object ▸ by decide)
              (readList_passes (readMember_passes ih fuel) (by decide) fuel _ _ _ behind)
          · exact readScalar_passes _ _ _ read

/-- A text that parses has no control character but blanks. -/
theorem parse_allowed {tree : Tree} (parsed : parse text = some tree) :
    ∀ byte ∈ text, allowed byte = true := by
  obtain ⟨found, read, rest⟩ := Option.bind_eq_some_iff.mp parsed
  obtain ⟨front, split, each⟩ := readTree_passes _ _ _ _ read
  split at rest
  · next ended =>
    have blanks : ∀ byte ∈ found.2, allowed byte = true := by
      intro byte member
      have blank := List.dropWhile_eq_nil_iff.mp ended byte member
      simp [allowed, blank]
    rw [split]
    exact List.forall_mem_append.mpr ⟨each, blanks⟩
  · cases rest

/-- A mark that ends a value. -/
def Ends (byte : BitVec 8) : Prop := isBlank byte = false ∧ inNumber byte = false

/-- A text is read as a value whatever mark comes after it, up to blanks before the mark. -/
def Reads (item : Reader α) (text : List (BitVec 8)) (value : α) : Prop :=
  ∀ byte tail, Ends byte →
    ∃ rest, item (text ++ byte :: tail) = some (value, rest) ∧ skip rest = byte :: tail

variable {tree : Tree} {raw key value : List (BitVec 8)}

theorem skip_mark (ends : Ends byte) (tail : List (BitVec 8)) : skip (byte :: tail) = byte :: tail :=
  List.dropWhile_cons_of_neg (by simp [ends.1])

theorem readMark_self (ends : Ends mark) (tail : List (BitVec 8)) :
    readMark mark (mark :: tail) = some ((), tail) := by
  rw [readMark, skip_mark ends]
  exact if_pos rfl

theorem reads_of_parse (parsed : parse text = some tree) (enough : text.length < fuel) :
    Reads (readTree fuel) text tree := by
  intro byte tail ends
  obtain ⟨found, read, rest⟩ := Option.bind_eq_some_iff.mp parsed
  split at rest
  · next ended =>
    cases rest
    have stops : Stops (byte :: tail) := by
      intro head same
      cases same
      exact ends.2
    refine ⟨_, readTree_extends enough _ _ _ (byte :: tail) read fun _ => stops, ?_⟩
    rw [skip, List.dropWhile_append, ← skip, ended]
    exact skip_mark ends tail
  · cases rest

theorem parse_head (parsed : parse text = some tree) :
    ∃ byte rest, skip text = byte :: rest ∧ byte ≠ 93 := by
  obtain ⟨found, read, -⟩ := Option.bind_eq_some_iff.mp parsed
  rw [readTree] at read
  split at read
  · cases read
  · next byte rest first =>
    refine ⟨byte, rest, first, ?_⟩
    rintro rfl
    rw [if_neg (by decide), if_neg (by decide), if_neg (by decide)] at read
    simp [readScalar, readNumber, inNumber, isDigit, isNumber] at read

/-- Items with commas between them are read one after the other. -/
theorem readItems_intercalate {item : Reader α} {parts : List (List (BitVec 8) × α)}
    (ends : Ends close) (apart : comma ≠ close) (some : parts ≠ [])
    (each : ∀ part ∈ parts, Reads item part.1 part.2) (enough : parts.length ≤ fuel)
    (tail : List (BitVec 8)) :
    readItems item close fuel ([comma].intercalate (parts.map Prod.fst) ++ close :: tail) =
      Option.some (parts.map Prod.snd, tail) := by
  have separates : Ends comma := ⟨by decide, by decide⟩
  induction parts generalizing fuel with
  | nil => exact absurd rfl some
  | cons part others ih =>
    obtain ⟨head, later⟩ := List.forall_mem_cons.mp each
    obtain ⟨fuel, rfl⟩ := Nat.exists_eq_succ_of_ne_zero (Nat.ne_of_gt (Nat.zero_lt_of_lt enough))
    rw [readItems]
    cases others with
    | nil =>
      obtain ⟨rest, read, left⟩ := head close tail ends
      rw [List.map_singleton, List.intercalate_singleton, read, Option.bind_some]
      dsimp only
      rw [left]
      exact if_pos rfl
    | cons next more =>
      obtain ⟨rest, read, left⟩ := head comma
        ([comma].intercalate ((next :: more).map Prod.fst) ++ close :: tail) separates
      have text : [comma].intercalate ((part :: next :: more).map Prod.fst) ++ close :: tail =
          part.1 ++ comma :: ([comma].intercalate ((next :: more).map Prod.fst) ++ close :: tail) := by
        simp [List.intercalate_cons_cons]
      rw [text, read, Option.bind_some]
      dsimp only
      rw [left]
      dsimp only
      rw [if_neg apart, if_pos rfl, ih (List.cons_ne_nil _ _) later (Nat.le_of_succ_le_succ enough)]
      rfl

theorem mem_intercalate {texts : List (List (BitVec 8))} (member : text ∈ texts)
    (inside : byte ∈ text) (between : List (BitVec 8)) : byte ∈ between.intercalate texts := by
  induction texts with
  | nil => cases member
  | cons first texts ih =>
    cases texts with
    | nil =>
      rw [List.mem_singleton.mp member] at inside
      simpa using inside
    | cons next more =>
      rw [List.intercalate_cons_cons, List.mem_append, List.mem_append]
      rcases List.mem_cons.mp member with same | later
      · exact .inl (.inl (same ▸ inside))
      · exact .inr (ih later)

/-- No item is longer than all of them, and there are not many more than bytes. -/
theorem length_intercalate (texts : List (List (BitVec 8))) :
    (∀ text ∈ texts, text.length ≤ ([comma].intercalate texts).length) ∧
      texts.length ≤ ([comma].intercalate texts).length + 1 := by
  induction texts with
  | nil => exact ⟨fun _ member => absurd member List.not_mem_nil, Nat.zero_le _⟩
  | cons text texts ih =>
    cases texts with
    | nil => simp
    | cons next more =>
      have whole : ([comma].intercalate (text :: next :: more)).length =
          text.length + 1 + ([comma].intercalate (next :: more)).length := by
        simp only [List.intercalate_cons_cons, List.length_append, List.length_singleton]
      rw [whole]
      refine ⟨List.forall_mem_cons.mpr ⟨by omega, fun other member => ?_⟩, ?_⟩
      · have short := ih.1 other member
        omega
      · have few := ih.2
        rw [List.length_cons] at few ⊢
        omega

/-- A list of items, none of which begins with the closing mark. -/
theorem readList_intercalate {item : Reader α} {parts : List (List (BitVec 8) × α)}
    (ends : Ends close) (apart : comma ≠ close)
    (heads : ∀ part ∈ parts, ∃ byte rest, skip part.1 = byte :: rest ∧ byte ≠ close)
    (each : ∀ part ∈ parts, Reads item part.1 part.2) (enough : parts.length ≤ fuel)
    (tail : List (BitVec 8)) :
    readList item close fuel ([comma].intercalate (parts.map Prod.fst) ++ close :: tail) =
      some (parts.map Prod.snd, tail) := by
  cases parts with
  | nil =>
    rw [List.map_nil, List.intercalate_nil, List.nil_append, readList, skip_mark ends]
    exact if_pos rfl
  | cons part others =>
    obtain ⟨byte, rest, first, other⟩ := heads part List.mem_cons_self
    have front : ∃ more, [comma].intercalate ((part :: others).map Prod.fst) ++ close :: tail =
        part.1 ++ more := by
      cases others with
      | nil => exact ⟨close :: tail, by simp⟩
      | cons next more => exact ⟨_, by simp [List.intercalate_cons_cons]; rfl⟩
    obtain ⟨more, split⟩ := front
    have items := readItems_intercalate ends apart (List.cons_ne_nil part others) each enough tail
    rw [split] at items ⊢
    rw [readList, skip_append first]
    dsimp only
    rw [if_neg other, items]

/-- A whole text that is one value. -/
theorem parse_of_read (read : readTree (text.length + 1) text = some (tree, [])) :
    parse text = some tree := by
  rw [parse, read]
  rfl

theorem skip_unblank (unblank : isBlank byte = false) (tail : List (BitVec 8)) :
    skip (byte :: tail) = byte :: tail := List.dropWhile_cons_of_neg (by simp [unblank])

theorem parse_array {parts : List (List (BitVec 8) × Tree)}
    (each : ∀ part ∈ parts, parse part.1 = some part.2) :
    parse (91 :: ([comma].intercalate (parts.map Prod.fst) ++ [93])) =
      some (.array (parts.map Prod.snd)) := by
  obtain ⟨short, few⟩ := length_intercalate (parts.map Prod.fst)
  rw [List.length_map] at few
  apply parse_of_read
  rw [List.length_cons, List.length_append, List.length_singleton]
  rw [readTree, skip_unblank (by decide)]
  dsimp only
  rw [if_neg (by decide), if_pos rfl, readList_intercalate ⟨by decide, by decide⟩ (by decide)
    (fun part member => parse_head (each part member)) (fun part member => ?_) (by omega)]
  · rfl
  · have inside := short part.1 (List.mem_map_of_mem member)
    exact reads_of_parse (each part member) (by omega)

/-- What is written between quotation marks, and what it means. -/
def Spelled (raw value : List (BitVec 8)) : Prop :=
  ∃ pieces, bytesOf pieces = value ∧ ∀ fuel tail, raw.length < fuel →
    readPieces fuel (raw ++ quote :: tail) = some (pieces, tail)

theorem Spelled.nil : Spelled [] [] := by
  refine ⟨[], rfl, fun fuel tail enough => ?_⟩
  obtain ⟨fuel, rfl⟩ := Nat.exists_eq_succ_of_ne_zero (Nat.ne_of_gt enough)
  exact if_pos rfl

theorem Spelled.plain (printable : 32 ≤ byte.toNat) (unquoted : byte ≠ quote)
    (unescaped : byte ≠ backslash) (spelled : Spelled raw value) :
    Spelled (byte :: raw) (byte :: value) := by
  obtain ⟨pieces, means, read⟩ := spelled
  refine ⟨.byte byte :: pieces, congrArg (byte :: ·) means, fun fuel tail enough => ?_⟩
  obtain ⟨fuel, rfl⟩ := Nat.exists_eq_succ_of_ne_zero (Nat.ne_of_gt (Nat.zero_lt_of_lt enough))
  rw [List.cons_append, readPieces, if_neg unquoted, if_neg unescaped, if_neg (not_lt.mpr printable),
    read fuel tail (Nat.lt_of_succ_lt_succ enough)]
  rfl

theorem Spelled.short {letter : BitVec 8} (listed : shortEscapes.lookup letter = some byte)
    (letters : letter ≠ 117) (spelled : Spelled raw value) :
    Spelled (backslash :: letter :: raw) (byte :: value) := by
  obtain ⟨pieces, means, read⟩ := spelled
  refine ⟨.byte byte :: pieces, congrArg (byte :: ·) means, fun fuel tail enough => ?_⟩
  obtain ⟨fuel, rfl⟩ := Nat.exists_eq_succ_of_ne_zero (Nat.ne_of_gt (Nat.zero_lt_of_lt enough))
  rw [List.length_cons, List.length_cons] at enough
  have escape : readEscape (letter :: (raw ++ quote :: tail)) = some (.byte byte, raw ++ quote :: tail) := by
    unfold readEscape
    dsimp only
    rw [if_neg letters, listed, Option.map_some]
  rw [List.cons_append, List.cons_append, readPieces, if_neg (by decide), if_pos rfl, escape,
    Option.bind_some, read fuel tail (by omega)]
  rfl

/-- What needs no escape is written as it is. -/
def isPlain (byte : BitVec 8) : Bool :=
  32 ≤ byte.toNat && byte ≠ quote && byte ≠ backslash

theorem Spelled.self (plain : raw.all isPlain = true) : Spelled raw raw := by
  induction raw with
  | nil => exact .nil
  | cons byte raw ih =>
    rw [List.all_cons, Bool.and_eq_true] at plain
    obtain ⟨first, others⟩ := plain
    simp only [isPlain, Bool.and_eq_true, decide_eq_true_eq] at first
    exact .plain first.1.1 first.1.2 first.2 (ih others)

theorem Spelled.read (spelled : Spelled raw value) (enough : raw.length < fuel)
    (tail : List (BitVec 8)) : readChars fuel (raw ++ quote :: tail) = some (value, tail) := by
  obtain ⟨pieces, means, read⟩ := spelled
  rw [readChars, read fuel tail enough, Option.map_some, means]

theorem parse_string (spelled : Spelled raw value) :
    parse (quote :: (raw ++ [quote])) = some (.string value) := by
  apply parse_of_read
  rw [readTree, skip_unblank (by decide)]
  dsimp only
  rw [if_pos rfl, spelled.read (by simp)]
  rfl

/-- A member of an object as it is written, with its key and value. -/
structure Entry where
  raw : List (BitVec 8)
  key : List (BitVec 8)
  text : List (BitVec 8)
  tree : Tree

def Entry.written (entry : Entry) : List (BitVec 8) :=
  quote :: (entry.raw ++ quote :: colon :: entry.text)

structure Entry.Means (entry : Entry) : Prop where
  spelled : Spelled entry.raw entry.key
  parsed : parse entry.text = some entry.tree

/-- A member with a plain key. -/
def Entry.plain (key text : List (BitVec 8)) (tree : Tree) : Entry := ⟨key, key, text, tree⟩

theorem Entry.Means.plain (plain : key.all isPlain = true) (parsed : parse text = some tree) :
    (Entry.plain key text tree).Means := ⟨.self plain, parsed⟩

theorem Entry.Means.reads {entry : Entry} (means : entry.Means)
    (enough : entry.written.length ≤ fuel) :
    Reads (readMember (readTree fuel) fuel) entry.written (entry.key, entry.tree) := by
  intro byte tail ends
  rw [written, List.length_cons, List.length_append, List.length_cons, List.length_cons] at enough
  have value : Reads (readTree fuel) entry.text entry.tree := reads_of_parse means.parsed (by omega)
  obtain ⟨rest, read, left⟩ := value byte tail ends
  refine ⟨rest, ?_, left⟩
  rw [written, List.cons_append, List.append_assoc, List.cons_append, List.cons_append, readMember,
    readMark_self ⟨by decide, by decide⟩, Option.bind_some, means.spelled.read (by omega),
    Option.bind_some, readMark_self ⟨by decide, by decide⟩, Option.bind_some, read, Option.map_some]

theorem parse_object {entries : List Entry} (each : ∀ entry ∈ entries, entry.Means) :
    parse (opening :: ([comma].intercalate (entries.map Entry.written) ++ [closing])) =
      some (.object (entries.map fun entry => (entry.key, entry.tree))) := by
  let parts := entries.map fun entry => (entry.written, (entry.key, entry.tree))
  have texts : entries.map Entry.written = parts.map Prod.fst := by simp [parts]
  have values : (entries.map fun entry => (entry.key, entry.tree)) = parts.map Prod.snd := by
    simp [parts]
  rw [texts, values]
  obtain ⟨short, few⟩ := length_intercalate (parts.map Prod.fst)
  rw [List.length_map] at few
  apply parse_of_read
  rw [List.length_cons, List.length_append, List.length_singleton]
  rw [readTree, skip_unblank (by decide)]
  dsimp only
  rw [if_neg (by decide), if_neg (by decide), if_pos rfl,
    readList_intercalate ⟨by decide, by decide⟩ (by decide) (fun part member => ?_)
      (fun part member => ?_) (by omega)]
  · rfl
  · obtain ⟨entry, listed, rfl⟩ := List.mem_map.mp member
    exact ⟨quote, _, skip_unblank (by decide) _, by decide⟩
  · have inside := short part.1 (List.mem_map_of_mem member)
    obtain ⟨entry, listed, rfl⟩ := List.mem_map.mp member
    exact (each entry listed).reads (Nat.le_succ_of_le (Nat.le_succ_of_le inside))

end ZeeboLle.Json
