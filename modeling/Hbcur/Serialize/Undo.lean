import Hbcur.Serialize.CompressedScript
import Hbcur.Coins.Entry

/-!
# Undo data on disk

`CTxInUndo`, `CTxUndo` and `CBlockUndo` of `undo.h` and `main.h`.  Height and
flags of an undo record share one number, and the version is only present when
the height is not zero.
-/

namespace Hbcur

structure CTxUndo where
  vprevout : List CTxInUndo := []
  deriving DecidableEq, Repr

structure CBlockUndo where
  vtxundo : List CTxUndo := []
  deriving DecidableEq, Repr

namespace Serialize

open Foundation

/-!
# One input
-/

def undoCode (undo : CTxInUndo) : Int :=
  wrapUInt32 (undo.nHeight * 4 + (if undo.fCoinBase then 2 else 0) +
    (if undo.fCoinStake then 1 else 0))

def writeTxInUndo (ops : PubKeyOps) (undo : CTxInUndo) : List UInt8 :=
  writeVarInt (undoCode undo) ++
    ((if 0 < undo.nHeight then writeVarInt undo.nVersion else []) ++
      writeTxOut ops undo.txout)

def readTxInUndo (ops : PubKeyOps) (bytes : List UInt8) :
    Option (CTxInUndo × List UInt8) :=
  match readVarInt wrapUInt32 bytes with
  | none => none
  | some (nCode, rest) =>
      let nHeight := nCode.toNat / 4
      match if 0 < nHeight then readVarInt wrapInt32 rest else some (0, rest) with
      | none => none
      | some (nVersion, rest') =>
          match readTxOut ops rest' with
          | none => none
          | some (txout, rest'') =>
              some ({ txout := txout
                      fCoinBase := nCode.toNat / 2 % 2 == 1
                      fCoinStake := nCode.toNat % 2 == 1
                      nHeight := nHeight
                      nVersion := nVersion }, rest'')

/-- What a version looks like once it has been written and read. -/
def storedVersion (nVersion : Int) : Int :=
  if nVersion < 0 then nVersion % 128 else nVersion

def storedTxInUndo (undo : CTxInUndo) : CTxInUndo :=
  { undo with
    txout := storedTxOut undo.txout
    nVersion := if 0 < undo.nHeight then storedVersion undo.nVersion else 0 }

@[simp] theorem nHeight_storedTxInUndo (undo : CTxInUndo) :
    (storedTxInUndo undo).nHeight = undo.nHeight := by
  cases undo
  rfl

@[simp] theorem txout_storedTxInUndo (undo : CTxInUndo) :
    (storedTxInUndo undo).txout = storedTxOut undo.txout := rfl

/-- The ranges in which a record is read back in step with what was written. -/
structure UndoInRange (undo : CTxInUndo) : Prop where
  height : undo.nHeight < 1073741824
  version : -2147483648 ≤ undo.nVersion ∧ undo.nVersion < 2147483648
  script : undo.txout.scriptPubKey.length ≤ MAX_SIZE

theorem reads_writeVersion {nVersion : Int}
    (h : -2147483648 ≤ nVersion ∧ nVersion < 2147483648) :
    Reads (readVarInt wrapInt32) (writeVarInt nVersion) (storedVersion nVersion) := by
  unfold storedVersion
  by_cases hneg : nVersion < 0
  · rw [if_pos hneg]
    apply reads_writeVarInt_neg _ hneg
    intro m h0 hm
    exact wrapInt32_of_range m (by omega) (by omega)
  · rw [if_neg hneg]
    have hwrap : forall m, 0 ≤ m -> m < 2147483648 -> wrapInt32 m = m :=
      fun m h0 hm => wrapInt32_of_range m (by omega) hm
    exact reads_writeVarInt hwrap (by omega) h.2

theorem undoCode_eq {undo : CTxInUndo} (h : undo.nHeight < 1073741824) :
    0 ≤ undoCode undo ∧ undoCode undo < 4294967296 ∧
      (undoCode undo).toNat / 4 = undo.nHeight ∧
      ((undoCode undo).toNat / 2 % 2 == 1) = undo.fCoinBase ∧
      ((undoCode undo).toNat % 2 == 1) = undo.fCoinStake := by
  have hcode : undoCode undo = undo.nHeight * 4 + (if undo.fCoinBase then 2 else 0) +
      (if undo.fCoinStake then 1 else 0) := by
    unfold undoCode
    cases undo.fCoinBase <;> cases undo.fCoinStake <;>
      exact wrapUInt32_of_range _ (by simp; try omega) (by simp; try omega)
  rw [hcode]
  cases undo.fCoinBase <;> cases undo.fCoinStake <;> simp <;> omega

theorem reads_writeTxInUndo (ops : PubKeyOps) {undo : CTxInUndo}
    (h : UndoInRange undo) :
    Reads (readTxInUndo ops) (writeTxInUndo ops undo) (storedTxInUndo undo) := by
  intro rest
  rcases undoCode_eq h.height with ⟨hcode0, hcode, hheight, hbase, hstake⟩
  have htxout := reads_writeTxOut ops (fits_of_le_maxSize h.script) rest
  unfold writeTxInUndo
  by_cases hpos : 0 < undo.nHeight
  · have hversion := reads_writeVersion h.version (writeTxOut ops undo.txout ++ rest)
    rw [if_pos hpos]
    have hread := reads_writeVarInt wrapUInt32_of_range hcode0 hcode
      (writeVarInt undo.nVersion ++ (writeTxOut ops undo.txout ++ rest))
    simp only [List.append_assoc, readTxInUndo, hread, hheight, if_pos hpos, hversion,
      htxout, hbase, hstake, storedTxInUndo]
  · rw [if_neg hpos]
    have hread := reads_writeVarInt wrapUInt32_of_range hcode0 hcode
      (writeTxOut ops undo.txout ++ rest)
    simp only [List.append_assoc, List.nil_append, readTxInUndo, hread, hheight,
      if_neg hpos, htxout, hbase, hstake, storedTxInUndo]

/-!
# Transactions and blocks
-/

def writeTxUndo (ops : PubKeyOps) (txundo : CTxUndo) : List UInt8 :=
  writeVector (writeTxInUndo ops) txundo.vprevout

def readTxUndo (ops : PubKeyOps) (bytes : List UInt8) : Option (CTxUndo × List UInt8) :=
  match readVector (readTxInUndo ops) bytes with
  | none => none
  | some (vprevout, rest) => some ({ vprevout := vprevout }, rest)

def writeBlockUndo (ops : PubKeyOps) (blockUndo : CBlockUndo) : List UInt8 :=
  writeVector (writeTxUndo ops) blockUndo.vtxundo

def readBlockUndo (ops : PubKeyOps) (bytes : List UInt8) :
    Option (CBlockUndo × List UInt8) :=
  match readVector (readTxUndo ops) bytes with
  | none => none
  | some (vtxundo, rest) => some ({ vtxundo := vtxundo }, rest)

/-- Write the undo data of a block and read it again. -/
def undoFromDisk (ops : PubKeyOps) (blockUndo : CBlockUndo) : Option CBlockUndo :=
  (readBlockUndo ops (writeBlockUndo ops blockUndo)).map Prod.fst

def storedTxUndo (txundo : CTxUndo) : CTxUndo :=
  { vprevout := txundo.vprevout.map storedTxInUndo }

def storedBlockUndo (blockUndo : CBlockUndo) : CBlockUndo :=
  { vtxundo := blockUndo.vtxundo.map storedTxUndo }

theorem reads_writeTxUndo (ops : PubKeyOps) {txundo : CTxUndo}
    (hsize : txundo.vprevout.length ≤ MAX_SIZE)
    (h : forall undo, undo ∈ txundo.vprevout -> UndoInRange undo) :
    Reads (readTxUndo ops) (writeTxUndo ops txundo) (storedTxUndo txundo) := by
  intro rest
  have hread := reads_writeVector hsize
    (fun undo hmem => reads_writeTxInUndo ops (h undo hmem)) rest
  simp only [readTxUndo, writeTxUndo, hread]
  rfl

theorem undoFromDisk_eq (ops : PubKeyOps) {blockUndo : CBlockUndo}
    (hsize : blockUndo.vtxundo.length ≤ MAX_SIZE)
    (hsizes : forall txundo, txundo ∈ blockUndo.vtxundo ->
      txundo.vprevout.length ≤ MAX_SIZE)
    (h : forall txundo, txundo ∈ blockUndo.vtxundo ->
      forall undo, undo ∈ txundo.vprevout -> UndoInRange undo) :
    undoFromDisk ops blockUndo = some (storedBlockUndo blockUndo) := by
  have hread := reads_writeVector hsize
    (fun txundo hmem => reads_writeTxUndo ops (hsizes txundo hmem) (h txundo hmem)) []
  rw [List.append_nil] at hread
  simp only [undoFromDisk, readBlockUndo, writeBlockUndo, hread]
  rfl

/-!
# What any undo data can hold

Whatever the bytes were, a height which comes off the disk is below 2^30.
-/

theorem wrapUInt32_range (n : Int) : 0 ≤ wrapUInt32 n ∧ wrapUInt32 n < 4294967296 := by
  unfold wrapUInt32
  omega

theorem readVarIntFrom_range :
    forall (bytes : List UInt8) (acc n : Int) (rest : List UInt8),
      readVarIntFrom wrapUInt32 acc bytes = some (n, rest) -> 0 ≤ n ∧ n < 4294967296 := by
  intro bytes
  induction bytes with
  | nil =>
      intro acc n rest h
      cases h
  | cons byte bytes ih =>
      intro acc n rest h
      unfold readVarIntFrom at h
      split at h
      · exact ih _ n rest h
      · cases h
        exact wrapUInt32_range _

theorem nHeight_of_readTxInUndo {ops : PubKeyOps} (bytes : List UInt8)
    (undo : CTxInUndo) (rest : List UInt8)
    (h : readTxInUndo ops bytes = some (undo, rest)) : undo.nHeight < 1073741824 := by
  unfold readTxInUndo at h
  cases hcode : readVarInt wrapUInt32 bytes with
  | none =>
      rw [hcode] at h
      cases h
  | some found =>
      rcases found with ⟨nCode, rest1⟩
      have hrange := readVarIntFrom_range bytes 0 nCode rest1 hcode
      simp only [hcode] at h
      split at h
      · cases h
      · split at h
        · cases h
        · cases h
          show nCode.toNat / 4 < 1073741824
          omega

theorem nHeight_of_undoFromDisk {ops : PubKeyOps} {blockUndo stored : CBlockUndo}
    (h : undoFromDisk ops blockUndo = some stored) :
    forall txundo, txundo ∈ stored.vtxundo ->
      forall undo, undo ∈ txundo.vprevout -> undo.nHeight < 1073741824 := by
  have htx : forall bytes txundo rest, readTxUndo ops bytes = some (txundo, rest) ->
      forall undo, undo ∈ txundo.vprevout -> undo.nHeight < 1073741824 := by
    intro bytes txundo rest hread
    unfold readTxUndo at hread
    split at hread
    · cases hread
    · rename_i hvector
      cases hread
      exact forall_of_readVector nHeight_of_readTxInUndo hvector
  rcases Option.map_eq_some_iff.mp h with ⟨⟨found, rest⟩, hread, hfound⟩
  subst hfound
  unfold readBlockUndo at hread
  split at hread
  · cases hread
  · rename_i hvector
    cases hread
    exact forall_of_readVector htx hvector

end Serialize
end Hbcur
