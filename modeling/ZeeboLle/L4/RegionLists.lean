import ZeeboLle.L4.SpaceManager

/-! The region lists over a run of `record` calls: every list stays well formed, and one call
sets the region of its own page and no other. -/
namespace ZeeboLle.L4

open Paging Unicorn

structure RecordCall where
  sid : Word
  va : Nat
  size : Nat
  prot : Prot
  host : HostPtr
deriving DecidableEq, Repr

/-- The base address of the page a call starts on. -/
def RecordCall.base (call : RecordCall) : Nat := roundDown call.va

/-- The addresses and sizes a mapping request can bring. -/
structure RecordCall.InRange (call : RecordCall) : Prop where
  va : call.va < 2 ^ 33
  size : call.size ≤ 2 ^ 32

/-- Whole pages inside the 32-bit space. -/
structure Extent.WellPlaced (extent : Extent) : Prop where
  aligned : extent.va % 0x1000 = 0
  below : extent.va < 2 ^ 32
  whole : extent.size % 0x1000 = 0
  nonempty : 0 < extent.size
  fits : extent.va + extent.size ≤ 2 ^ 32

namespace SpaceManager

def recordCall (mgr : SpaceManager) (call : RecordCall) : SpaceManager :=
  mgr.record call.sid call.va call.size call.prot call.host

def recordAll (mgr : SpaceManager) (calls : List RecordCall) : SpaceManager :=
  calls.foldl recordCall mgr

/-- Distinct, well placed ranges in every space. -/
structure WellFormed (mgr : SpaceManager) : Prop where
  placed : ∀ sid, ∀ region ∈ mgr.regionsOf sid, region.toExtent.WellPlaced
  distinct : ∀ sid, ((mgr.regionsOf sid).map fun region => region.va).Nodup

/-- What one call is for: its page carries exactly what was asked for, and all other regions
stay as they were. -/
structure Records (before : SpaceManager) (call : RecordCall) (after : SpaceManager) : Prop where
  set : ∃ region ∈ after.regionsOf call.sid, region.va = call.base ∧ region.prot = call.prot ∧
    region.host = call.host ∧ region.va ≤ call.va ∧
    min (call.va + call.size) (2 ^ 32) ≤ region.va + region.size
  kept : ∀ sid region, (sid, region.va) ≠ (call.sid, call.base) →
    (region ∈ after.regionsOf sid ↔ region ∈ before.regionsOf sid)

end SpaceManager

variable {call : RecordCall} {extent : Extent}

/-- Rounding and clamping keep a range inside the space, also an empty one. -/
theorem RecordCall.InRange.wellPlaced (inRange : call.InRange)
    (range : clampRange call.va call.size = some extent) : extent.WellPlaced := by
  obtain ⟨va, size⟩ := inRange
  obtain ⟨base, below⟩ := clampRange_va range
  refine ⟨extent.aligned, below, extent.whole, extent.nonempty, ?_⟩
  unfold clampRange at range
  split at range
  · cases range
    simp only [clampEnd, roundDown] at base below ⊢
    omega
  · cases range

/-- The pages of a range cover the bytes asked for, up to the top of the space. -/
theorem RecordCall.InRange.covered (inRange : call.InRange)
    (range : clampRange call.va call.size = some extent) :
    min (call.va + call.size) (2 ^ 32) ≤ extent.va + extent.size := by
  obtain ⟨va, size⟩ := inRange
  obtain ⟨base, below⟩ := clampRange_va range
  unfold clampRange at range
  split at range
  · cases range
    simp only [clampEnd, roundDown] at base below ⊢
    omega
  · cases range

theorem exists_clampRange {va : Nat} (size : Nat) (below : va < 2 ^ 32) :
    ∃ extent, clampRange va size = some extent :=
  ⟨_, dif_pos (by unfold roundDown; omega)⟩

theorem clampRange_none {va size : Nat} (above : 2 ^ 32 ≤ va) : clampRange va size = none :=
  dif_neg (by unfold roundDown; omega)

namespace SpaceManager

variable {mgr : SpaceManager}

theorem WellFormed.empty : SpaceManager.empty.WellFormed where
  placed _ _ member := nomatch member
  distinct := SpaceManager.empty.regionsOf_distinct

theorem WellFormed.recordCall (wellFormed : mgr.WellFormed) (inRange : call.InRange) :
    (mgr.recordCall call).WellFormed where
  placed sid region member := by
    rcases mem_regionsOf_record member with old | ⟨-, range, -, -⟩
    · exact wellFormed.placed sid region old
    · exact inRange.wellPlaced range
  distinct := (mgr.recordCall call).regionsOf_distinct

theorem WellFormed.recordAll {calls : List RecordCall} (wellFormed : mgr.WellFormed)
    (inRange : ∀ call ∈ calls, call.InRange) : (mgr.recordAll calls).WellFormed := by
  induction calls generalizing mgr with
  | nil => exact wellFormed
  | cons call rest ih =>
    have first := wellFormed.recordCall (inRange call List.mem_cons_self)
    exact ih first fun later member => inRange later (List.mem_cons_of_mem call member)

theorem recordAll_snoc (mgr : SpaceManager) (calls : List RecordCall) (call : RecordCall) :
    mgr.recordAll (calls ++ [call]) = (mgr.recordAll calls).recordCall call := by
  simp [SpaceManager.recordAll]

theorem records_recordCall (mgr : SpaceManager) (inRange : call.InRange) (below : call.va < 2 ^ 32) :
    Records mgr call (mgr.recordCall call) := by
  obtain ⟨extent, range⟩ := exists_clampRange call.size below
  obtain ⟨base, -⟩ := clampRange_va range
  have list := regionsOf_record range mgr call.sid call.prot call.host
  refine ⟨⟨⟨extent, call.prot, call.host⟩, ?_, base, rfl, rfl, ?_, inRange.covered range⟩, ?_⟩
  · rw [recordCall, list, if_pos rfl]
    exact mem_upsert_self _ _ _
  · rw [base]
    exact Nat.sub_le _ _
  · intro sid region other
    rw [recordCall, list]
    split
    · rename_i own
      subst own
      have elsewhere : region.va ≠ extent.va := fun same => other (by rw [same, base]; rfl)
      constructor
      · intro member
        rcases mem_upsert member with new | old
        · exact absurd (congrArg (fun region : Region => region.va) new) elsewhere
        · exact old
      · exact fun member => mem_upsert_of_ne member elsewhere
    · exact Iff.rfl

/-- After any calls, every list is well formed; one more call below 4 GiB sets its own region
only, and one above it changes nothing. -/
theorem recordAll_wellFormed (calls : List RecordCall) (inRange : ∀ call ∈ calls, call.InRange) :
    (SpaceManager.empty.recordAll calls).WellFormed ∧
      ∀ call : RecordCall, call.InRange →
        (call.va < 2 ^ 32 →
          Records (SpaceManager.empty.recordAll calls) call
            (SpaceManager.empty.recordAll (calls ++ [call]))) ∧
        (2 ^ 32 ≤ call.va →
          SpaceManager.empty.recordAll (calls ++ [call]) = SpaceManager.empty.recordAll calls) := by
  refine ⟨WellFormed.empty.recordAll inRange, fun call ranged => ⟨?_, ?_⟩⟩
  · rw [recordAll_snoc]
    exact records_recordCall _ ranged
  · intro above
    rw [recordAll_snoc]
    simp only [SpaceManager.recordCall, record, clampRange_none above]

/-- A range cut at the top of the space, then a region replaced by an empty request. -/
theorem recordAll_wellFormed_replaced :
    (SpaceManager.empty.recordAll
      [⟨1, 0x1080, 0x2000, .readOnly, 7⟩, ⟨1, 0xfffff001, 0x100000000, .readOnly, 8⟩]).WellFormed ∧
    Records (SpaceManager.empty.recordAll [⟨1, 0x1080, 0x2000, .readOnly, 7⟩]) ⟨1, 0x1fff, 0, .none, 9⟩
      (SpaceManager.empty.recordAll
        [⟨1, 0x1080, 0x2000, .readOnly, 7⟩, ⟨1, 0x1fff, 0, .none, 9⟩]) := by
  have first : (⟨1, 0x1080, 0x2000, .readOnly, 7⟩ : RecordCall).InRange := ⟨by decide, by decide⟩
  have second : (⟨1, 0xfffff001, 0x100000000, .readOnly, 8⟩ : RecordCall).InRange :=
    ⟨by decide, by decide⟩
  constructor
  · refine (recordAll_wellFormed _ ?_).1
    simp only [List.forall_mem_cons]
    exact ⟨first, second, List.forall_mem_nil _⟩
  · refine ((recordAll_wellFormed _ ?_).2 _ ⟨by decide, by decide⟩).1 (by decide)
    simp only [List.forall_mem_cons]
    exact ⟨first, List.forall_mem_nil _⟩

end SpaceManager

end ZeeboLle.L4
