import Mathlib.Data.List.Basic

/-! Page tables over arbitrary protections and backings. A span is a run of
consecutive pages; installing, removing and protecting act on exactly one span.
-/
namespace ZeeboLle.Paging

/-- A run of `count` pages starting at page number `first`. -/
structure Span where
  first : Nat
  count : Nat
deriving DecidableEq, Repr

instance : Membership Nat Span where
  mem span page := span.first ≤ page ∧ page < span.first + span.count

theorem Span.mem_iff {span : Span} {page : Nat} :
    page ∈ span ↔ span.first ≤ page ∧ page < span.first + span.count := Iff.rfl

instance (page : Nat) (span : Span) : Decidable (page ∈ span) :=
  inferInstanceAs (Decidable (_ ∧ _))

/-- A Boolean test on every page of a span. -/
def Span.all (span : Span) (test : Nat → Bool) : Bool :=
  (List.range span.count).all fun step => test (span.first + step)

theorem Span.all_iff {span : Span} {test : Nat → Bool} :
    span.all test = true ↔ ∀ page ∈ span, test page = true := by
  rw [Span.all, List.all_eq_true]
  constructor
  · intro every page member
    obtain ⟨lower, upper⟩ := Span.mem_iff.mp member
    have step := every (page - span.first) (List.mem_range.mpr (by omega))
    rwa [Nat.add_sub_cancel' lower] at step
  · intro every step bound
    have below := List.mem_range.mp bound
    exact every _ (Span.mem_iff.mpr ⟨by omega, by omega⟩)

/-- Two spans share no page. -/
def Span.Disjoint (left right : Span) : Prop :=
  ∀ page, page ∈ left → page ∉ right

theorem Span.Disjoint.symm {left right : Span} (apart : left.Disjoint right) :
    right.Disjoint left :=
  fun page inRight inLeft => apart page inLeft inRight

/-- Spans of positive length are disjoint exactly when one ends before the
other begins, so the relation can be tested. -/
theorem Span.disjoint_iff {left right : Span} :
    left.Disjoint right ↔ left.count = 0 ∨ right.count = 0 ∨
      left.first + left.count ≤ right.first ∨ right.first + right.count ≤ left.first := by
  constructor
  · intro apart
    by_contra overlap
    have inLeft : max left.first right.first ∈ left := Span.mem_iff.mpr (by omega)
    have inRight : max left.first right.first ∈ right := Span.mem_iff.mpr (by omega)
    exact apart _ inLeft inRight
  · intro cases page inLeft inRight
    have leftBounds := Span.mem_iff.mp inLeft
    have rightBounds := Span.mem_iff.mp inRight
    omega

instance (left right : Span) : Decidable (left.Disjoint right) :=
  decidable_of_iff _ Span.disjoint_iff.symm

theorem Span.first_mem {span : Span} (nonempty : 0 < span.count) : span.first ∈ span :=
  Span.mem_iff.mpr ⟨Nat.le_refl _, by omega⟩

/-- One mapped page: its protection and what backs it. -/
structure Page (π β : Type) where
  prot : π
  backing : β
deriving DecidableEq, Repr

/-- A page table sends a page number to the page mapped there, if any. -/
def PageTable (π β : Type) := Nat → Option (Page π β)

namespace PageTable

variable {π β : Type}

@[ext] theorem ext {left right : PageTable π β} (same : ∀ page, left page = right page) :
    left = right := funext same

/-- No page of the span is mapped. -/
def free (table : PageTable π β) (span : Span) : Bool :=
  span.all fun page => (table page).isNone

/-- Every page of the span is mapped. -/
def full (table : PageTable π β) (span : Span) : Bool :=
  span.all fun page => (table page).isSome

/-- Map the span, page by page, whatever was there before. -/
def install (table : PageTable π β) (span : Span) (fresh : Nat → Page π β) : PageTable π β :=
  fun page => if page ∈ span then some (fresh page) else table page

def remove (table : PageTable π β) (span : Span) : PageTable π β :=
  fun page => if page ∈ span then none else table page

/-- Change the protection of the mapped pages of a span and keep their backing. -/
def protect (table : PageTable π β) (span : Span) (prot : π) : PageTable π β :=
  fun page => if page ∈ span then (table page).map fun old => { old with prot } else table page

theorem free_iff {table : PageTable π β} {span : Span} :
    table.free span = true ↔ ∀ page ∈ span, table page = none := by
  simp [free, Span.all_iff]

theorem full_iff {table : PageTable π β} {span : Span} :
    table.full span = true ↔ ∀ page ∈ span, (table page).isSome = true := by
  simp [full, Span.all_iff]

/-- A nonempty span is never both free and full. -/
theorem free_eq_false_of_full {table : PageTable π β} {span : Span} (nonempty : 0 < span.count)
    (full : table.full span = true) : table.free span = false := by
  have mapped := full_iff.mp full span.first (Span.first_mem nonempty)
  by_contra free
  rw [Bool.not_eq_false] at free
  simp [free_iff.mp free span.first (Span.first_mem nonempty)] at mapped

@[simp] theorem install_of_mem {table : PageTable π β} {span : Span} {fresh : Nat → Page π β}
    {page : Nat} (member : page ∈ span) : table.install span fresh page = some (fresh page) := by
  simp [install, member]

@[simp] theorem install_of_not_mem {table : PageTable π β} {span : Span} {fresh : Nat → Page π β}
    {page : Nat} (outside : page ∉ span) : table.install span fresh page = table page := by
  simp [install, outside]

@[simp] theorem remove_of_mem {table : PageTable π β} {span : Span} {page : Nat}
    (member : page ∈ span) : table.remove span page = none := by
  simp [remove, member]

@[simp] theorem remove_of_not_mem {table : PageTable π β} {span : Span} {page : Nat}
    (outside : page ∉ span) : table.remove span page = table page := by
  simp [remove, outside]

theorem protect_of_mem {table : PageTable π β} {span : Span} {prot : π} {page : Nat}
    (member : page ∈ span) :
    table.protect span prot page = (table page).map fun old => { old with prot } := by
  simp [protect, member]

@[simp] theorem protect_of_not_mem {table : PageTable π β} {span : Span} {prot : π} {page : Nat}
    (outside : page ∉ span) : table.protect span prot page = table page := by
  simp [protect, outside]

/-- What backs a page, when it is mapped. -/
def backing (table : PageTable π β) (page : Nat) : Option β :=
  (table page).map Page.backing

/-- The protection of a page, when it is mapped. -/
def prot (table : PageTable π β) (page : Nat) : Option π :=
  (table page).map Page.prot

@[simp] theorem backing_protect (table : PageTable π β) (span : Span) (prot : π) (page : Nat) :
    (table.protect span prot).backing page = table.backing page := by
  by_cases member : page ∈ span
  · simp [backing, protect_of_mem member, Function.comp_def]
  · simp [backing, member]

@[simp] theorem isSome_protect (table : PageTable π β) (span : Span) (prot : π) (page : Nat) :
    (table.protect span prot page).isSome = (table page).isSome := by
  by_cases member : page ∈ span
  · simp [protect_of_mem member]
  · simp [member]

/-- Pages stay mapped under an installation. -/
theorem isSome_install {table : PageTable π β} {span : Span} {fresh : Nat → Page π β} {page : Nat}
    (mapped : (table page).isSome = true) : (table.install span fresh page).isSome = true := by
  by_cases member : page ∈ span
  · simp [member]
  · simpa [member] using mapped

/-- A span just removed is free. -/
theorem free_remove (table : PageTable π β) (span : Span) :
    (table.remove span).free span = true :=
  free_iff.mpr fun _ member => remove_of_mem member

end PageTable

end ZeeboLle.Paging
