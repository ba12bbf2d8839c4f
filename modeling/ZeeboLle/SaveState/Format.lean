import ZeeboLle.Paging.Bytes
import ZeeboLle.Unicorn.Regions

/-! The records of a save-state file: the packed header of the whole file, and one packed header
in front of the bytes of each region. Fields are little-endian. -/
namespace ZeeboLle.SaveState

open Paging Unicorn

/-- `ZeeboLLEStateHeader` -/
structure ZeeboLLEStateHeader where
  magic : Word
  version : Word
  c0Insns : DoubleWord
  c0Entry : Word
  c1Insns : DoubleWord
  c1Entry : Word
  c0ContextSize : Word
  c1ContextSize : Word
  numMemRegions : Word
deriving DecidableEq, Repr

namespace ZeeboLLEStateHeader

/-- `sizeof(ZeeboLLEStateHeader)` -/
def packedSize : Nat := 44

def bytes (hdr : ZeeboLLEStateHeader) : List Byte :=
  leBytes 4 hdr.magic.toNat ++ (leBytes 4 hdr.version.toNat ++ (leBytes 8 hdr.c0Insns.toNat ++
    (leBytes 4 hdr.c0Entry.toNat ++ (leBytes 8 hdr.c1Insns.toNat ++ (leBytes 4 hdr.c1Entry.toNat ++
      (leBytes 4 hdr.c0ContextSize.toNat ++ (leBytes 4 hdr.c1ContextSize.toNat ++
        (leBytes 4 hdr.numMemRegions.toNat ++ []))))))))

def ofBytes (record : List Byte) : ZeeboLLEStateHeader where
  magic := BitVec.ofNat 32 (fieldAt record 0 4)
  version := BitVec.ofNat 32 (fieldAt record 4 4)
  c0Insns := BitVec.ofNat 64 (fieldAt record 8 8)
  c0Entry := BitVec.ofNat 32 (fieldAt record 16 4)
  c1Insns := BitVec.ofNat 64 (fieldAt record 20 8)
  c1Entry := BitVec.ofNat 32 (fieldAt record 28 4)
  c0ContextSize := BitVec.ofNat 32 (fieldAt record 32 4)
  c1ContextSize := BitVec.ofNat 32 (fieldAt record 36 4)
  numMemRegions := BitVec.ofNat 32 (fieldAt record 40 4)

@[simp] theorem length_bytes (hdr : ZeeboLLEStateHeader) : hdr.bytes.length = packedSize := by
  simp [bytes, packedSize]

end ZeeboLLEStateHeader

/-- `ZeeboMemRegionHeader` -/
structure ZeeboMemRegionHeader where
  begin : DoubleWord
  last : DoubleWord
  perms : Word
  coreId : Word
  dataSize : DoubleWord
deriving DecidableEq, Repr

namespace ZeeboMemRegionHeader

/-- `sizeof(ZeeboMemRegionHeader)` -/
def packedSize : Nat := 32

def bytes (rh : ZeeboMemRegionHeader) : List Byte :=
  leBytes 8 rh.begin.toNat ++ (leBytes 8 rh.last.toNat ++ (leBytes 4 rh.perms.toNat ++
    (leBytes 4 rh.coreId.toNat ++ (leBytes 8 rh.dataSize.toNat ++ []))))

def ofBytes (record : List Byte) : ZeeboMemRegionHeader where
  begin := BitVec.ofNat 64 (fieldAt record 0 8)
  last := BitVec.ofNat 64 (fieldAt record 8 8)
  perms := BitVec.ofNat 32 (fieldAt record 16 4)
  coreId := BitVec.ofNat 32 (fieldAt record 20 4)
  dataSize := BitVec.ofNat 64 (fieldAt record 24 8)

@[simp] theorem length_bytes (rh : ZeeboMemRegionHeader) : rh.bytes.length = packedSize := by
  simp [bytes, packedSize]

end ZeeboMemRegionHeader

theorem fieldAt_word (word : Word) (rest : List Byte) :
    BitVec.ofNat 32 (fieldAt (leBytes 4 word.toNat ++ rest) 0 4) = word := by
  apply BitVec.eq_of_toNat_eq
  have bound := word.isLt
  rw [fieldAt_first, BitVec.toNat_ofNat]
  omega

theorem fieldAt_doubleWord (word : DoubleWord) (rest : List Byte) :
    BitVec.ofNat 64 (fieldAt (leBytes 8 word.toNat ++ rest) 0 8) = word := by
  apply BitVec.eq_of_toNat_eq
  have bound := word.isLt
  rw [fieldAt_first, BitVec.toNat_ofNat]
  omega

@[simp] theorem ZeeboLLEStateHeader.ofBytes_bytes (hdr : ZeeboLLEStateHeader) :
    ofBytes hdr.bytes = hdr := by
  simp only [ofBytes, bytes, fieldAt_later, Nat.reduceLeDiff, Nat.reduceSub, fieldAt_word,
    fieldAt_doubleWord]

@[simp] theorem ZeeboMemRegionHeader.ofBytes_bytes (rh : ZeeboMemRegionHeader) :
    ofBytes rh.bytes = rh := by
  simp only [ofBytes, bytes, fieldAt_later, Nat.reduceLeDiff, Nat.reduceSub, fieldAt_word,
    fieldAt_doubleWord]

end ZeeboLle.SaveState
