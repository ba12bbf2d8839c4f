import Mathlib.Data.List.Basic

/-! Lines in a stream, each closed by a separator that occurs in none of them. A reader sees
the stream in pieces; what it holds and what is still to come are together the lines that
it has not taken yet. -/
namespace ZeeboLle.Streams

variable {α : Type*} {sep : α} {line buf rest tail : List α} {lines others : List (List α)}

/-- The lines one after the other, each with its separator. -/
def frames (sep : α) (lines : List (List α)) : List α := lines.flatMap (· ++ [sep])

@[simp] theorem frames_nil : frames sep [] = [] := rfl

@[simp] theorem frames_cons : frames sep (line :: lines) = line ++ sep :: frames sep lines := by
  simp [frames]

theorem frames_append : frames sep (lines ++ others) = frames sep lines ++ frames sep others :=
  List.flatMap_append

theorem frames_singleton : frames sep [line] = line ++ [sep] := frames_cons

/-- A stream of lines is empty or holds a separator. -/
theorem frames_eq_nil_of_not_mem (absent : sep ∉ frames sep lines) : lines = [] := by
  cases lines with
  | nil => rfl
  | cons line rest => simp at absent

/-- Reading part of one line with its separator is reading all of it. -/
theorem whole_frame (plain : sep ∉ line) (split : buf ++ rest = line ++ [sep]) (found : sep ∈ buf) :
    buf = line ++ [sep] ∧ rest = [] := by
  induction line generalizing buf with
  | nil =>
    cases buf with
    | nil => cases found
    | cons head more =>
      obtain ⟨rfl, empty⟩ := List.cons.inj split
      obtain ⟨rfl, rfl⟩ := List.append_eq_nil_iff.mp empty
      exact ⟨rfl, rfl⟩
  | cons first line ih =>
    cases buf with
    | nil => cases found
    | cons head more =>
      obtain ⟨rfl, same⟩ := List.cons.inj split
      obtain ⟨other, plain⟩ := not_or.mp (mt List.mem_cons.mpr plain)
      obtain ⟨all, none⟩ := ih plain same ((List.mem_cons.mp found).resolve_left other)
      exact ⟨congrArg (head :: ·) all, none⟩

section

variable [DecidableEq α]

/-- The first line of a buffer, and what follows its separator. -/
def takeLine (sep : α) (buf : List α) : List α × List α :=
  (buf.takeWhile (· != sep), (buf.dropWhile (· != sep)).tail)

/-- A buffer that holds a separator holds the first line of the stream. -/
theorem takeLine_frames (plain : sep ∉ line) (split : buf ++ rest = line ++ sep :: tail)
    (found : sep ∈ buf) :
    (takeLine sep buf).1 = line ∧ (takeLine sep buf).2 ++ rest = tail := by
  induction line generalizing buf with
  | nil =>
    cases buf with
    | nil => cases found
    | cons head more =>
      obtain ⟨rfl, same⟩ := List.cons.inj split
      simpa [takeLine] using same
  | cons first line ih =>
    cases buf with
    | nil => cases found
    | cons head more =>
      obtain ⟨rfl, same⟩ := List.cons.inj split
      obtain ⟨other, plain⟩ := not_or.mp (mt List.mem_cons.mpr plain)
      obtain ⟨taken, left⟩ := ih plain same ((List.mem_cons.mp found).resolve_left other)
      have skips : (head != sep) = true := by simpa using Ne.symm other
      simp only [takeLine, List.takeWhile_cons, List.dropWhile_cons, skips, if_true]
      exact ⟨congrArg (head :: ·) taken, left⟩

/-- The closed lines of a stream, and what follows them. -/
def cutLines (sep : α) : List α → List (List α) × List α
  | [] => ([], [])
  | head :: rest =>
    if head = sep then ([] :: (cutLines sep rest).1, (cutLines sep rest).2)
    else
      match (cutLines sep rest).1 with
      | [] => ([], head :: (cutLines sep rest).2)
      | line :: lines => ((head :: line) :: lines, (cutLines sep rest).2)

/-- Every stream is its closed lines, and then something without a separator. -/
theorem cutLines_spec (sep : α) (stream : List α) :
    stream = frames sep (cutLines sep stream).1 ++ (cutLines sep stream).2 ∧
      (∀ line ∈ (cutLines sep stream).1, sep ∉ line) ∧ sep ∉ (cutLines sep stream).2 := by
  induction stream with
  | nil => simp [cutLines]
  | cons head rest ih =>
    obtain ⟨whole, plain, left⟩ := ih
    unfold cutLines
    split
    · rename_i closes
      subst closes
      refine ⟨?_, ?_, left⟩
      · rw [frames_cons, List.nil_append, List.cons_append, ← whole]
      · intro line member
        rcases List.mem_cons.mp member with rfl | later
        · exact List.not_mem_nil
        · exact plain line later
    · rename_i other
      split
      · rename_i none
        rw [none, frames_nil, List.nil_append] at whole
        refine ⟨?_, by simp, ?_⟩
        · rw [frames_nil, List.nil_append, ← whole]
        · rintro (_ | ⟨_, later⟩)
          · exact other rfl
          · exact left later
      · rename_i line lines some
        rw [some] at whole plain
        refine ⟨?_, ?_, left⟩
        · rw [frames_cons] at whole ⊢
          rw [List.cons_append, List.cons_append, ← whole]
        · intro found member
          rcases List.mem_cons.mp member with rfl | later
          · rintro (_ | ⟨_, inside⟩)
            · exact other rfl
            · exact plain line List.mem_cons_self inside
          · exact plain found (List.mem_cons_of_mem _ later)

end

end ZeeboLle.Streams
