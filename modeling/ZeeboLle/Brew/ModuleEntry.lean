import ZeeboLle.Paging.Bytes
import ZeeboLle.Unicorn.Memory

/-! Where a module is entered. The guard that keeps data out of the applet launch and the loader
that resolves the entry of a `.mod` decode the payload separately, each with its own copy of the
branch decoder; the gate later asks whether a program counter lies in the module. -/
namespace ZeeboLle.Brew

open Paging Unicorn

/-- The entry lies in the half-open range the module is loaded to. -/
def InModule (d : List Byte) (loadVa entry : Word) : Prop :=
  loadVa.toNat ≤ entry.toNat ∧ entry.toNat < loadVa.toNat + d.length

instance (d : List Byte) (loadVa entry : Word) : Decidable (InModule d loadVa entry) :=
  inferInstanceAs (Decidable (_ ∧ _))

namespace Efs2Guard

inductive ModuleVerdict where
  | reject
  | elf
  | armBranch
deriving DecidableEq

def rd32 (d : List Byte) (off : Nat) : Word :=
  if off + 4 ≤ d.length then BitVec.ofNat 32 (fieldAt d off 4) else 0

/-- Target of an unconditional `B` or `BL`, computed with 64 bits. -/
def decodeArmBranch (insn insnVa : Word) : Option Word :=
  let cond := insn >>> 28
  let op := (insn >>> 24) &&& 0xf
  if cond ≠ 0xe then none
  else if op ≠ 0xa ∧ op ≠ 0xb then none
  else
    let imm24 := insn &&& 0x00ffffff
    let imm24 := if imm24 &&& 0x00800000 ≠ 0 then imm24 ||| 0xff000000 else imm24
    let tgt : Int := insnVa.toNat + 8 + imm24.toInt * 4
    if tgt < 0 ∨ tgt > 0xffffffff then none else some (BitVec.ofNat 32 tgt.toNat)

def classifyPayload (d : List Byte) (loadVa : Word) : ModuleVerdict × Word :=
  if d.length < 4 then (.reject, 0)
  else
    let moduleEnd := loadVa.toNat + d.length
    if 0x20 ≤ d.length ∧ d[0]? = some 0x7f ∧ d[1]? = some 0x45 ∧ d[2]? = some 0x4c ∧
        d[3]? = some 0x46 then
      let eEntry := rd32 d 24
      if loadVa ≤ eEntry ∧ eEntry.toNat < moduleEnd then (.elf, eEntry)
      else if eEntry.toNat < d.length then
        let rel := loadVa.toNat + eEntry.toNat
        if rel < moduleEnd ∧ rel ≤ 0xffffffff then (.elf, BitVec.ofNat 32 rel) else (.reject, 0)
      else (.reject, 0)
    else
      match decodeArmBranch (rd32 d 0) loadVa with
      | some tgt =>
        if loadVa ≤ tgt ∧ tgt.toNat < moduleEnd then (.armBranch, tgt) else (.reject, 0)
      | none => (.reject, 0)

end Efs2Guard

namespace BrewLoader

inductive EntryKind where
  | none
  | elf
  | rawBranch
  | rawStart
deriving DecidableEq

def rd32 (d : List Byte) (off : Nat) : Word :=
  if d.length < 4 ∨ d.length - 4 < off then 0 else BitVec.ofNat 32 (fieldAt d off 4)

def decodeArmBranch (insn insnVa : Word) : Option Word :=
  let cond := insn >>> 28
  let op := (insn >>> 24) &&& 0xf
  if cond ≠ 0xe then none
  else if op ≠ 0xa ∧ op ≠ 0xb then none
  else
    let imm24 := insn &&& 0x00ffffff
    let imm24 := if imm24 &&& 0x00800000 ≠ 0 then imm24 ||| 0xff000000 else imm24
    let tgt : Int := insnVa.toNat + 8 + imm24.toInt * 4
    if tgt < 0 ∨ tgt > 0xffffffff then none else some (BitVec.ofNat 32 tgt.toNat)

/-- A branch out of the module resolves to nothing; a first word that is no branch is taken for
the entry itself when the base is plausible. -/
def resolveModEntry (d : List Byte) (loadVa : Word) : EntryKind × Word :=
  if d.length < 4 then (.none, 0)
  else
    let moduleEnd := loadVa.toNat + d.length
    if 0x20 ≤ d.length ∧ d[0]? = some 0x7f ∧ d[1]? = some 0x45 ∧ d[2]? = some 0x4c ∧
        d[3]? = some 0x46 then
      let eEntry := rd32 d 24
      if loadVa ≤ eEntry ∧ eEntry.toNat < moduleEnd then (.elf, eEntry)
      else if eEntry.toNat < d.length then
        let rel := loadVa.toNat + eEntry.toNat
        if rel < moduleEnd ∧ rel ≤ 0xffffffff then (.elf, BitVec.ofNat 32 rel) else (.none, 0)
      else (.none, 0)
    else
      match decodeArmBranch (rd32 d 0) loadVa with
      | some tgt =>
        if loadVa ≤ tgt ∧ tgt.toNat < moduleEnd then (.rawBranch, tgt) else (.none, 0)
      | Option.none => if 0x1000 < loadVa then (.rawStart, loadVa) else (.none, 0)

end BrewLoader

def pcInModuleRange (loadVa size pc : Word) : Bool :=
  if size = 0 then false
  else
    let addr := pc &&& ~~~1#32
    let lo := loadVa.toNat
    let hi := lo + size.toNat
    lo ≤ addr.toNat && addr.toNat < hi

variable {d : List Byte} {loadVa entry : Word}

theorem rd32_eq (enough : 4 ≤ d.length) (off : Nat) : BrewLoader.rd32 d off = Efs2Guard.rd32 d off := by
  unfold BrewLoader.rd32 Efs2Guard.rd32
  by_cases inside : off + 4 ≤ d.length
  · rw [if_pos inside, if_neg (by omega)]
  · rw [if_neg inside, if_pos (by omega)]

/-- What guard and loader make of a payload, case by case. -/
theorem classify_resolve (d : List Byte) (loadVa : Word) :
    (∃ entry, InModule d loadVa entry ∧ 4 ≤ d.length ∧
        Efs2Guard.classifyPayload d loadVa = (.elf, entry) ∧
        BrewLoader.resolveModEntry d loadVa = (.elf, entry)) ∨
      (∃ entry, InModule d loadVa entry ∧ 4 ≤ d.length ∧
        Efs2Guard.classifyPayload d loadVa = (.armBranch, entry) ∧
        BrewLoader.resolveModEntry d loadVa = (.rawBranch, entry)) ∨
      (Efs2Guard.classifyPayload d loadVa = (.reject, 0) ∧
        (BrewLoader.resolveModEntry d loadVa = (.none, 0) ∨
          4 ≤ d.length ∧ BrewLoader.resolveModEntry d loadVa = (.rawStart, loadVa))) := by
  unfold Efs2Guard.classifyPayload BrewLoader.resolveModEntry
  by_cases short : d.length < 4
  · simp only [short, if_true]
    exact .inr (.inr ⟨trivial, .inl trivial⟩)
  have enough : 4 ≤ d.length := Nat.le_of_not_lt short
  have decoders : BrewLoader.decodeArmBranch = Efs2Guard.decodeArmBranch := rfl
  simp only [short, if_false, rd32_eq enough, decoders]
  by_cases magic : 0x20 ≤ d.length ∧ d[0]? = some 0x7f ∧ d[1]? = some 0x45 ∧ d[2]? = some 0x4c ∧
      d[3]? = some 0x46
  · simp only [if_pos magic]
    obtain ⟨eEntry, named⟩ : ∃ eEntry, eEntry = Efs2Guard.rd32 d 24 := ⟨_, rfl⟩
    rw [← named]
    by_cases absolute : loadVa ≤ eEntry ∧ eEntry.toNat < loadVa.toNat + d.length
    · simp only [if_pos absolute]
      exact .inl ⟨eEntry, ⟨BitVec.le_def.mp absolute.1, absolute.2⟩, enough, rfl, rfl⟩
    by_cases inside : eEntry.toNat < d.length
    · by_cases fits : loadVa.toNat + eEntry.toNat < loadVa.toNat + d.length ∧
          loadVa.toNat + eEntry.toNat ≤ 0xffffffff
      · simp only [if_neg absolute, if_pos inside, if_pos fits]
        refine .inl ⟨BitVec.ofNat 32 (loadVa.toNat + eEntry.toNat), ?_, enough, rfl, rfl⟩
        rw [InModule, BitVec.toNat_ofNat]
        omega
      · simp only [if_neg absolute, if_pos inside, if_neg fits]
        exact .inr (.inr ⟨trivial, .inl trivial⟩)
    · simp only [if_neg absolute, if_neg inside]
      exact .inr (.inr ⟨trivial, .inl trivial⟩)
  · simp only [if_neg magic]
    cases Efs2Guard.decodeArmBranch (Efs2Guard.rd32 d 0) loadVa with
    | some tgt =>
      by_cases inside : loadVa ≤ tgt ∧ tgt.toNat < loadVa.toNat + d.length
      · simp only [if_pos inside]
        exact .inr (.inl ⟨tgt, ⟨BitVec.le_def.mp inside.1, inside.2⟩, enough, rfl, rfl⟩)
      · simp only [if_neg inside]
        exact .inr (.inr ⟨trivial, .inl trivial⟩)
    | none =>
      by_cases based : 0x1000 < loadVa
      · simp only [if_pos based]
        exact .inr (.inr ⟨trivial, .inr ⟨enough, trivial⟩⟩)
      · simp only [if_neg based]
        exact .inr (.inr ⟨trivial, .inl trivial⟩)

theorem toNat_clear (entry : Word) : (entry &&& ~~~1#32).toNat = entry.toNat / 2 * 2 :=
  @toNat_clear_low 32 1 (by decide) entry

/-- Dropping the Thumb bit of an entry does not leave a module with an even base. -/
theorem InModule.pcInModuleRange (inside : InModule d loadVa entry) (even : loadVa.toNat % 2 = 0)
    (nonempty : 0 < d.length) (fits : d.length < 2 ^ 32) :
    pcInModuleRange loadVa (BitVec.ofNat 32 d.length) entry = true := by
  have size : (BitVec.ofNat 32 d.length).toNat = d.length := by
    rw [BitVec.toNat_ofNat, Nat.mod_eq_of_lt fits]
  have positive : BitVec.ofNat 32 d.length ≠ 0 := by
    intro zero
    rw [zero] at size
    exact absurd size (by simpa using Nat.ne_of_lt nonempty)
  obtain ⟨above, below⟩ := inside
  rw [Brew.pcInModuleRange, if_neg positive]
  simp only [toNat_clear, size, Bool.and_eq_true, decide_eq_true_eq]
  omega

theorem pcInModuleRange_clear (size : Word) :
    pcInModuleRange loadVa size (entry &&& ~~~1#32) = pcInModuleRange loadVa size entry := by
  simp [pcInModuleRange, BitVec.and_assoc]

/-- Guard and loader agree on modules and their entries; what the guard rejects the loader
resolves to nothing or to the raw start; and every entry lies in the range of the gate, the
Thumb bit cleared or not. -/
theorem guard_loader_agree (d : List Byte) (loadVa : Word) :
    let verdict := Efs2Guard.classifyPayload d loadVa
    let resolved := BrewLoader.resolveModEntry d loadVa
    (verdict.1 = .elf ↔ resolved.1 = .elf) ∧
      (verdict.1 = .armBranch ↔ resolved.1 = .rawBranch) ∧
      (verdict.1 = .elf ∨ verdict.1 = .armBranch → verdict.2 = resolved.2) ∧
      (verdict.1 = .reject → resolved.1 = .none ∨ resolved.1 = .rawStart) ∧
      (loadVa.toNat % 2 = 0 → d.length < 2 ^ 32 →
        let size := BitVec.ofNat 32 d.length
        (verdict.1 ≠ .reject → pcInModuleRange loadVa size verdict.2 = true ∧
          pcInModuleRange loadVa size (verdict.2 &&& ~~~1#32) = true) ∧
        (resolved.1 ≠ .none → pcInModuleRange loadVa size resolved.2 = true ∧
          pcInModuleRange loadVa size (resolved.2 &&& ~~~1#32) = true)) := by
  intro verdict resolved
  have inRange : ∀ {entry}, InModule d loadVa entry → 4 ≤ d.length → loadVa.toNat % 2 = 0 →
      d.length < 2 ^ 32 → pcInModuleRange loadVa (BitVec.ofNat 32 d.length) entry = true ∧
        pcInModuleRange loadVa (BitVec.ofNat 32 d.length) (entry &&& ~~~1#32) = true := by
    intro entry inside enough even fits
    rw [pcInModuleRange_clear]
    exact ⟨inside.pcInModuleRange even (by omega) fits, inside.pcInModuleRange even (by omega) fits⟩
  rcases classify_resolve d loadVa with ⟨entry, inside, enough, guarded, loaded⟩ |
    ⟨entry, inside, enough, guarded, loaded⟩ | ⟨guarded, loaded | ⟨enough, loaded⟩⟩
  · simp only [verdict, resolved, guarded, loaded]
    refine ⟨by simp, by simp, fun _ => trivial, by simp, fun even fits => ?_⟩
    exact ⟨fun _ => inRange inside enough even fits, fun _ => inRange inside enough even fits⟩
  · simp only [verdict, resolved, guarded, loaded]
    refine ⟨by simp, by simp, fun _ => trivial, by simp, fun even fits => ?_⟩
    exact ⟨fun _ => inRange inside enough even fits, fun _ => inRange inside enough even fits⟩
  · simp [verdict, resolved, guarded, loaded]
  · simp only [verdict, resolved, guarded, loaded]
    refine ⟨by simp, by simp, by simp, by simp, fun even fits => ⟨by simp, fun _ => ?_⟩⟩
    exact inRange ⟨Nat.le_refl _, by omega⟩ enough even fits

theorem guard_loader_agree_branch :
    let payload : List Byte := [0xfe, 0xff, 0xff, 0xea, 0, 0, 0, 0]
    Efs2Guard.classifyPayload payload 0x10000 = (.armBranch, 0x10000) ∧
      pcInModuleRange 0x10000 8 (Efs2Guard.classifyPayload payload 0x10000).2 = true := by
  intro payload
  have accepted : Efs2Guard.classifyPayload payload 0x10000 = (.armBranch, 0x10000) := by
    decide +kernel
  have agree := (guard_loader_agree payload 0x10000).2.2.2.2 (by decide) (by decide)
  exact ⟨accepted, (agree.1 (by rw [accepted]; decide)).1⟩

end ZeeboLle.Brew
