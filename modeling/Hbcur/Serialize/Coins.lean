import Hbcur.Serialize.CoinsMask
import Hbcur.Serialize.Sizes

/-!
# Coins entries on disk

`CCoins::Serialize` and `CCoins::Unserialize`: the version, a header code with the flags and the
number of mask bytes which are not zero, the mask, the unspent outputs and the height.
-/

namespace Hbcur
namespace Serialize

open Foundation

/-!
# Writing
-/

/-- `nMaskCode - (fFirst || fSecond ? 0 : 1)` -/
def maskCode (coins : CCoins) : Int :=
  (calcMaskSize coins).2 - (if coins.isAvailable 0 || coins.isAvailable 1 then 0 else 1)

def headerFlags (coins : CCoins) : Int :=
  (if coins.fCoinBase then 1 else 0) + (if coins.fCoinStake then 2 else 0) +
    (if coins.isAvailable 0 then 4 else 0) + (if coins.isAvailable 1 then 8 else 0)

/-- `Serialize` and `GetSerializeSize` have their own factor in front of the mask code. -/
def headerCode (factor : Int) (coins : CCoins) : Int :=
  wrapUInt32 (factor * maskCode coins + headerFlags coins)

/-- `assert(fFirst || fSecond || nMaskCode)` -/
def serializable (coins : CCoins) : Bool :=
  coins.isAvailable 0 || coins.isAvailable 1 || decide (0 < (calcMaskSize coins).2)

def unspentOutputs (coins : CCoins) : List CTxOut :=
  coins.vout.filter fun out => !out.isNull

def writeCoins (ops : PubKeyOps) (coins : CCoins) : Option (List UInt8) :=
  if serializable coins then
    some (writeVarInt coins.nVersion ++ (writeVarInt (headerCode 16 coins) ++
      (writeMask coins ++ ((unspentOutputs coins).flatMap (writeTxOut ops) ++
        writeVarInt coins.nHeight))))
  else none

/-!
# Reading
-/

/-- `(nCode / 16) + ((nCode & 12) != 0 ? 0 : 1)` -/
def nMaskCode (nCode : Int) : Nat :=
  nCode.toNat / 16 + (if nCode.toNat / 4 % 4 != 0 then 0 else 1)

def vAvail (nCode : Int) (mask : List UInt8) : List Bool :=
  [nCode.toNat / 4 % 2 == 1, nCode.toNat / 8 % 2 == 1] ++ mask.flatMap availBits

/-- Outputs which are not available keep their default. -/
def readOutputs (ops : PubKeyOps) : List Bool -> List UInt8 -> Option (List CTxOut × List UInt8)
  | [] => readDone []
  | true :: vAvail =>
      readThen (readTxOut ops) fun out =>
        readThen (readOutputs ops vAvail) fun vout => readDone (out :: vout)
  | false :: vAvail =>
      readThen (readOutputs ops vAvail) fun vout => readDone (CTxOut.null :: vout)

def readCoins (ops : PubKeyOps) : List UInt8 -> Option (CCoins × List UInt8) :=
  readThen (readVarInt wrapInt32) fun nVersion =>
  readThen (readVarInt wrapUInt32) fun nCode =>
  readThen (readCounted (fun chAvail => chAvail != 0) (nMaskCode nCode)) fun mask =>
  readThen (readOutputs ops (vAvail nCode mask)) fun vout =>
  readThen (readVarInt wrapInt32) fun nHeight =>
  readDone (CCoins.cleanup
    { fCoinBase := nCode.toNat % 2 == 1
      fCoinStake := nCode.toNat / 2 % 2 == 1
      vout := vout
      nHeight := nHeight
      nVersion := nVersion })

/-!
# Available outputs
-/

theorem isAvailable_eq_getD (coins : CCoins) (nPos : Nat) :
    coins.isAvailable nPos = !(coins.vout.getD nPos CTxOut.null).isNull := by
  unfold CCoins.isAvailable
  rw [List.getD_eq_getElem?_getD]
  cases coins.vout[nPos]? with
  | none => rfl
  | some out => rfl

theorem serializable_of_not_pruned {coins : CCoins} (h : coins.isPruned = false) :
    serializable coins = true := by
  rcases (CCoins.isPruned_eq_false_iff coins).mp h with ⟨nPos, out, hout⟩
  have havail : coins.isAvailable nPos = true := by
    rw [CCoins.isAvailable_eq, hout]
    rfl
  unfold serializable
  by_cases hmask : 0 < (calcMaskSize coins).2
  · rw [decide_eq_true hmask, Bool.or_true]
  · have hfound := maskFound_calcMaskSize coins
    have hsize : (calcMaskSize coins).1 = 0 := by
      cases hone : (calcMaskSize coins).1 with
      | zero => rfl
      | succ b =>
          have hused := hfound.last b hone
          have hwithin := hfound.within
          have hpos : 0 < (List.range (maskLength coins)).countP (usedByte coins) :=
            List.countP_pos_iff.mpr ⟨b, List.mem_range.mpr (by omega), hused⟩
          rw [← hfound.count] at hpos
          exact absurd hpos hmask
    have hpos : nPos < 2 := by
      apply Nat.lt_of_not_le
      intro hle
      rw [isAvailable_beyond_mask coins (by omega)] at havail
      cases havail
    have hcases : nPos = 0 ∨ nPos = 1 := by omega
    rcases hcases with hzero | hone
    · rw [hzero] at havail
      rw [havail, Bool.true_or, Bool.true_or]
    · rw [hone] at havail
      rw [havail, Bool.or_true, Bool.true_or]

/-- `vout.assign(size, CTxOut())` with the outputs copied in. -/
def resized (coins : CCoins) (size : Nat) : List CTxOut :=
  (List.range size).map fun nPos => coins.vout.getD nPos CTxOut.null

theorem map_range_getD {value : Type} (l : List value) (d : value) (n : Nat) :
    (List.range n).map (fun i => l.getD i d) = l.take n ++ List.replicate (n - l.length) d := by
  apply List.ext_getElem?
  intro i
  rw [List.getElem?_map]
  by_cases hn : i < n
  · rw [List.getElem?_range hn]
    by_cases hl : i < l.length
    · rw [List.getElem?_append_left (by rw [List.length_take]; omega),
        List.getElem?_take_of_lt hn, List.getElem?_eq_getElem hl]
      simp [hl]
    · rw [List.getElem?_append_right (by rw [List.length_take]; omega), List.length_take,
        List.getElem?_replicate, if_pos (by omega)]
      simp [Nat.le_of_not_lt hl]
  · rw [List.getElem?_eq_none (by rw [List.length_range]; omega), eq_comm]
    apply List.getElem?_eq_none
    rw [List.length_append, List.length_take, List.length_replicate]
    omega

/-- The outputs beyond the mask are not written. -/
theorem filter_resized (coins : CCoins) :
    (resized coins (2 + (calcMaskSize coins).1 * 8)).filter (fun out => !out.isNull) =
      unspentOutputs coins := by
  have hpad : forall n, (List.replicate n CTxOut.null).filter (fun out => !out.isNull) = [] := by
    intro n
    rw [List.filter_replicate]
    rfl
  have hdrop : (coins.vout.drop (2 + (calcMaskSize coins).1 * 8)).filter
      (fun out => !out.isNull) = [] := by
    apply List.filter_eq_nil_iff.mpr
    intro out hout
    rcases List.mem_iff_getElem?.mp hout with ⟨i, hi⟩
    rw [List.getElem?_drop] at hi
    have hbeyond := isAvailable_beyond_mask coins
      (Nat.le_add_right (2 + (calcMaskSize coins).1 * 8) i)
    rw [isAvailable_eq_getD, List.getD_eq_getElem?_getD, hi, Option.getD_some] at hbeyond
    rw [hbeyond]
    exact Bool.false_ne_true
  rw [resized, map_range_getD, List.filter_append, hpad, List.append_nil, unspentOutputs]
  conv =>
    rhs
    rw [← List.take_append_drop (2 + (calcMaskSize coins).1 * 8) coins.vout]
  rw [List.filter_append, hdrop, List.append_nil]

/-!
# The header
-/

/-- The ranges in which an entry can be written, apart from the amounts. -/
structure CoinsInRange (coins : CCoins) : Prop where
  version : 0 ≤ coins.nVersion ∧ coins.nVersion < 2147483648
  height : 0 ≤ coins.nHeight ∧ coins.nHeight < 2147483648
  mask : (calcMaskSize coins).2 < 268435456
  scripts : forall out, out ∈ coins.vout -> out.isNull = false ->
    out.scriptPubKey.length + nSpecialScripts < 4294967296

theorem headerFlags_bounds (coins : CCoins) : 0 ≤ headerFlags coins ∧ headerFlags coins < 16 := by
  unfold headerFlags
  cases coins.fCoinBase <;> cases coins.fCoinStake <;> cases coins.isAvailable 0 <;>
    cases coins.isAvailable 1 <;> decide

theorem maskCode_nonneg {coins : CCoins} (h : serializable coins = true) :
    0 ≤ maskCode coins := by
  unfold serializable at h
  unfold maskCode
  cases hfirst : (coins.isAvailable 0 || coins.isAvailable 1) with
  | true =>
      rw [if_pos rfl]
      omega
  | false =>
      rw [hfirst, Bool.false_or, decide_eq_true_eq] at h
      rw [if_neg Bool.false_ne_true]
      omega

/-- The four flags are the low digits of a header code. -/
theorem header_digits (fCoinBase fCoinStake fFirst fSecond : Bool) {m : Int} (hm : 0 ≤ m)
    {code : Nat}
    (hcode : (code : Int) = 16 * m + ((if fCoinBase then 1 else 0) + (if fCoinStake then 2 else 0) +
      (if fFirst then 4 else 0) + (if fSecond then 8 else 0))) :
    code % 2 = fCoinBase.toNat ∧ code / 2 % 2 = fCoinStake.toNat ∧ code / 4 % 2 = fFirst.toNat ∧
      code / 8 % 2 = fSecond.toNat ∧ code / 4 % 4 = fFirst.toNat + 2 * fSecond.toNat ∧
      code / 16 = m.toNat := by
  cases fCoinBase <;> cases fCoinStake <;> cases fFirst <;> cases fSecond <;>
    simp only [Bool.false_eq_true, if_true, if_false, Bool.toNat_false, Bool.toNat_true]
      at hcode ⊢ <;> omega

theorem toNat_beq_one (b : Bool) : (b.toNat == 1) = b := by
  cases b <;> rfl

/-- What the reader finds in a header code which does not wrap. -/
structure HeaderRead (coins : CCoins) (nCode : Int) : Prop where
  nonneg : 0 ≤ nCode
  fits : nCode < 4294967296
  coinBase : (nCode.toNat % 2 == 1) = coins.fCoinBase
  coinStake : (nCode.toNat / 2 % 2 == 1) = coins.fCoinStake
  first : (nCode.toNat / 4 % 2 == 1) = coins.isAvailable 0
  second : (nCode.toNat / 8 % 2 == 1) = coins.isAvailable 1
  mask : nMaskCode nCode = (calcMaskSize coins).2

theorem headerRead {coins : CCoins} (h : serializable coins = true)
    (hmask : (calcMaskSize coins).2 < 268435456) : HeaderRead coins (headerCode 16 coins) := by
  have hnonneg := maskCode_nonneg h
  have hflags := headerFlags_bounds coins
  have hle : maskCode coins ≤ (calcMaskSize coins).2 := by
    unfold maskCode
    split <;> omega
  have hcode : headerCode 16 coins = 16 * maskCode coins + headerFlags coins :=
    wrapUInt32_of_range _ (by omega) (by omega)
  rw [hcode]
  have hnat : ((16 * maskCode coins + headerFlags coins).toNat : Int) =
      16 * maskCode coins + headerFlags coins := Int.toNat_of_nonneg (by omega)
  rcases header_digits _ _ _ _ hnonneg hnat with ⟨hbase, hstake, hfirst, hsecond, hboth, hrest⟩
  constructor
  · omega
  · omega
  · rw [hbase, toNat_beq_one]
  · rw [hstake, toNat_beq_one]
  · rw [hfirst, toNat_beq_one]
  · rw [hsecond, toNat_beq_one]
  · unfold nMaskCode
    rw [hrest, hboth]
    unfold maskCode at hnonneg ⊢
    revert hnonneg
    cases coins.isAvailable 0 <;> cases coins.isAvailable 1 <;> intro hnonneg <;>
      simp at hnonneg ⊢
    omega

/-!
# Outputs
-/

/-- What an output looks like once the entry has been written and read. -/
def readBack (out : CTxOut) : CTxOut :=
  if out.isNull then CTxOut.null else storedTxOut out

theorem reads_outputs (ops : PubKeyOps) :
    forall outs : List CTxOut,
      (forall out, out ∈ outs -> out.isNull = false ->
        out.scriptPubKey.length + nSpecialScripts < 4294967296) ->
      Reads (readOutputs ops (outs.map fun out => !out.isNull))
        ((outs.filter fun out => !out.isNull).flatMap (writeTxOut ops)) (outs.map readBack) := by
  intro outs
  induction outs with
  | nil =>
      intro _
      exact reads_readDone []
  | cons out outs ih =>
      intro hscripts
      have htail := ih fun out' hmem => hscripts out' (List.mem_cons_of_mem out hmem)
      rw [List.map_cons, List.map_cons, List.filter_cons, readBack]
      cases hnull : out.isNull with
      | true => exact reads_last (fun vout => CTxOut.null :: vout) htail
      | false =>
          have hout := reads_writeTxOut ops (hscripts out List.mem_cons_self hnull)
          apply reads_readThen hout
          exact reads_last (fun vout => storedTxOut out :: vout) htail

/-!
# Entries read back
-/

theorem vAvail_eq {coins : CCoins} {nCode : Int} (h : HeaderRead coins nCode) :
    vAvail nCode (writeMask coins) =
      (resized coins (2 + (calcMaskSize coins).1 * 8)).map fun out => !out.isNull := by
  unfold vAvail resized
  rw [h.first, h.second, flatMap_availBits, List.map_map]
  apply List.map_congr_left
  intro nPos _
  exact isAvailable_eq_getD coins nPos

/-- The outputs up to the end of the mask come back, as far as an output can. -/
theorem reads_writeCoins (ops : PubKeyOps) {coins : CCoins} (h : CoinsInRange coins)
    {bytes : List UInt8} (hbytes : writeCoins ops coins = some bytes) :
    Reads (readCoins ops) bytes
      (CCoins.cleanup
        { coins with
          vout := (resized coins (2 + (calcMaskSize coins).1 * 8)).map readBack }) := by
  unfold writeCoins at hbytes
  cases hserial : serializable coins with
  | false =>
      rw [hserial] at hbytes
      cases hbytes
  | true =>
      rw [hserial, if_pos rfl, Option.some.injEq] at hbytes
      have hheader := headerRead hserial h.mask
      have hwrap : forall m, 0 ≤ m -> m < 2147483648 -> wrapInt32 m = m :=
        fun m h0 hm => wrapInt32_of_range m (by omega) hm
      have hversion := reads_writeVarInt hwrap h.version.1 h.version.2
      have hcode := reads_writeVarInt wrapUInt32_of_range hheader.nonneg hheader.fits
      have hmask := reads_writeMask coins
      have houtputs := reads_outputs ops (resized coins (2 + (calcMaskSize coins).1 * 8)) (by
        intro out hmem hnull
        rcases List.mem_map.mp hmem with ⟨nPos, _, rfl⟩
        apply h.scripts _ _ hnull
        rw [List.getD_eq_getElem?_getD] at hnull ⊢
        cases hget : coins.vout[nPos]? with
        | none =>
            rw [hget] at hnull
            cases hnull
        | some out => exact List.mem_of_getElem? hget)
      have hheight := reads_writeVarInt hwrap h.height.1 h.height.2
      rw [filter_resized, ← vAvail_eq hheader] at houtputs
      rw [← hheader.mask] at hmask
      rw [← hbytes]
      apply reads_readThen hversion
      apply reads_readThen hcode
      apply reads_readThen hmask
      apply reads_readThen houtputs
      rw [hheader.coinBase, hheader.coinStake]
      exact reads_last _ hheight

/-!
# Amounts which survive
-/

/-- Unspent outputs whose amount is money and whose rounds are not set. -/
def OutputsStorable (coins : CCoins) : Prop :=
  forall out, out ∈ coins.vout -> out.isNull = false ->
    0 ≤ out.nValue ∧ out.nValue < 1152921504606846976 ∧ out.nRounds = -10

theorem readBack_of_storable {coins : CCoins} (hcanon : coins.Canonical)
    (hstorable : OutputsStorable coins) {out : CTxOut} (hmem : out ∈ coins.vout) :
    readBack out = out := by
  unfold readBack
  cases hnull : out.isNull with
  | true =>
      rw [if_pos rfl]
      exact (hcanon out hmem hnull).symm
  | false =>
      rcases hstorable out hmem hnull with ⟨h0, hmax, hrounds⟩
      rw [if_neg Bool.false_ne_true]
      exact storedTxOut_of_range h0 hmax hrounds

theorem map_readBack_resized {coins : CCoins} (hcanon : coins.Canonical)
    (hstorable : OutputsStorable coins) (size : Nat) :
    (resized coins size).map readBack = resized coins size := by
  unfold resized
  rw [List.map_map]
  apply List.map_congr_left
  intro nPos _
  rw [Function.comp_apply, List.getD_eq_getElem?_getD]
  cases hget : coins.vout[nPos]? with
  | none => rfl
  | some out => exact readBack_of_storable hcanon hstorable (List.mem_of_getElem? hget)

theorem getElem?_resized (coins : CCoins) (size nPos : Nat) :
    (resized coins size)[nPos]? =
      if nPos < size then some (coins.vout.getD nPos CTxOut.null) else none := by
  unfold resized
  rw [List.getElem?_map]
  by_cases hlt : nPos < size
  · rw [if_pos hlt, List.getElem?_range hlt]
    rfl
  · rw [if_neg hlt, List.getElem?_eq_none (by rw [List.length_range]; omega)]
    rfl

/-- The padding and what lies beyond the mask make no difference to the unspent outputs. -/
theorem output?_resized (coins : CCoins) (nPos : Nat) :
    ({ coins with vout := resized coins (2 + (calcMaskSize coins).1 * 8) } : CCoins).output? nPos =
      coins.output? nPos := by
  unfold CCoins.output?
  rw [getElem?_resized]
  by_cases hlt : nPos < 2 + (calcMaskSize coins).1 * 8
  · rw [if_pos hlt, List.getD_eq_getElem?_getD]
    cases coins.vout[nPos]? with
    | none => rfl
    | some out => rfl
  · have hbeyond := isAvailable_beyond_mask coins (Nat.le_of_not_lt hlt)
    rw [CCoins.isAvailable_eq] at hbeyond
    rw [if_neg hlt]
    exact (Option.isNone_iff_eq_none.mp (Option.isSome_eq_false_iff.mp hbeyond)).symm

theorem canonical_resized {coins : CCoins} (h : coins.Canonical) (size : Nat) :
    ({ coins with vout := resized coins size } : CCoins).Canonical := by
  intro out hmem hnull
  rcases List.mem_map.mp hmem with ⟨nPos, _, rfl⟩
  rw [List.getD_eq_getElem?_getD] at hnull ⊢
  cases hget : coins.vout[nPos]? with
  | none => rfl
  | some out =>
      rw [hget] at hnull
      exact h out (List.mem_of_getElem? hget) hnull

/-- A clean entry comes back whole. -/
theorem readCoins_writeCoins (ops : PubKeyOps) {coins : CCoins} (hclean : coins.cleanup = coins)
    (hpruned : coins.isPruned = false) (hrange : CoinsInRange coins)
    (hcanon : coins.Canonical) (hstorable : OutputsStorable coins) :
    exists bytes, writeCoins ops coins = some bytes ∧ Reads (readCoins ops) bytes coins := by
  have hsome : exists bytes, writeCoins ops coins = some bytes := by
    unfold writeCoins
    rw [serializable_of_not_pruned hpruned, if_pos rfl]
    exact ⟨_, rfl⟩
  rcases hsome with ⟨bytes, hbytes⟩
  exists bytes
  constructor
  · exact hbytes
  · have hread := reads_writeCoins ops hrange hbytes
    have hvout : (CCoins.cleanup
        { coins with vout := resized coins (2 + (calcMaskSize coins).1 * 8) }).vout =
        coins.cleanup.vout :=
      CCoins.cleanup_vout_ext (canonical_resized hcanon _) hcanon (output?_resized coins)
    have hback : CCoins.cleanup
        { coins with vout := resized coins (2 + (calcMaskSize coins).1 * 8) } = coins := by
      rw [hclean] at hvout
      calc CCoins.cleanup { coins with vout := resized coins (2 + (calcMaskSize coins).1 * 8) } =
          { coins with
            vout := (CCoins.cleanup { coins with
              vout := resized coins (2 + (calcMaskSize coins).1 * 8) }).vout } := rfl
        _ = coins := by rw [hvout]
    rw [map_readBack_resized hcanon hstorable, hback] at hread
    exact hread

/-!
# Examples

An entry whose first two outputs are spent, and one with an amount which the compressor loses.
-/

namespace CoinsExample

open ScriptExample

def laterOutput : CCoins :=
  { fCoinBase := true
    vout := [CTxOut.null, CTxOut.null, CTxOut.make 5 [OP_DUP]]
    nHeight := 120891
    nVersion := 1 }

theorem mem_laterOutput {out : CTxOut} (h : out ∈ laterOutput.vout) :
    out = CTxOut.null ∨ out = CTxOut.make 5 [OP_DUP] := by
  rcases List.mem_cons.mp h with hfirst | hrest
  · exact Or.inl hfirst
  · rcases List.mem_cons.mp hrest with hsecond | hlast
    · exact Or.inl hsecond
    · exact Or.inr (List.mem_singleton.mp hlast)

theorem readCoins_writeCoins_later :
    exists bytes, writeCoins noFullKeys laterOutput = some bytes ∧
      Reads (readCoins noFullKeys) bytes laterOutput := by
  apply readCoins_writeCoins noFullKeys
  · decide
  · decide
  · constructor
    · decide
    · decide
    · decide
    · intro out hmem _
      rcases mem_laterOutput hmem with rfl | rfl <;> decide
  · intro out hmem hnull
    rcases mem_laterOutput hmem with rfl | rfl
    · rfl
    · cases hnull
  · intro out hmem hnull
    rcases mem_laterOutput hmem with rfl | rfl
    · cases hnull
    · decide

def largestAmount : CCoins :=
  { vout := [CTxOut.make 9223372036854775807 []], nHeight := 1, nVersion := 1 }

theorem largestAmount_not_read :
    largestAmount.cleanup = largestAmount ∧ largestAmount.isPruned = false ∧
      0 ≤ largestAmount.nVersion ∧ 0 ≤ largestAmount.nHeight ∧
      largestAmount.nHeight < 2147483648 ∧
      ¬ exists bytes, writeCoins noFullKeys largestAmount = some bytes ∧
        Reads (readCoins noFullKeys) bytes largestAmount := by
  have hrange : CoinsInRange largestAmount := by
    constructor
    · decide
    · decide
    · decide
    · intro out hmem _
      rw [List.mem_singleton.mp hmem]
      decide
  apply And.intro (by decide)
  apply And.intro (by decide)
  apply And.intro (by decide)
  apply And.intro (by decide)
  apply And.intro (by decide)
  intro h
  rcases h with ⟨bytes, hbytes, hreads⟩
  -- the entry which is read is another one, and a reader has one result
  have hother := reads_writeCoins noFullKeys hrange hbytes []
  rw [hreads [], Option.some.injEq, Prod.mk.injEq] at hother
  exact absurd hother.1 (by decide)

end CoinsExample

end Serialize
end Hbcur

/-!
# The size of a coins entry

`CCoins::GetSerializeSize` multiplies the mask code by 8, where `CCoins::Serialize` multiplies it by
16.  The two header codes are numbers of the same size for most entries.
-/

namespace Hbcur
namespace Serialize

open Foundation

/-- The size of an output is counted by a `CSizeComputer`, to which the output is written. -/
def getSerializeSizeTxOut (ops : PubKeyOps) (txout : CTxOut) : Nat :=
  (writeTxOut ops txout).length

/-- The parts of an entry, with a factor in front of the mask code. -/
def entrySize (ops : PubKeyOps) (factor : Int) (coins : CCoins) : Nat :=
  getSizeOfVarInt coins.nVersion + getSizeOfVarInt (headerCode factor coins) +
    (calcMaskSize coins).1 + ((unspentOutputs coins).map (getSerializeSizeTxOut ops)).sum +
    getSizeOfVarInt coins.nHeight

def getSerializeSizeCoins (ops : PubKeyOps) (coins : CCoins) : Option Nat :=
  if serializable coins then some (entrySize ops 8 coins % 4294967296) else none

theorem length_writeCoins (ops : PubKeyOps) (coins : CCoins) :
    (writeCoins ops coins).map List.length =
      if serializable coins then some (entrySize ops 16 coins) else none := by
  unfold writeCoins
  cases serializable coins with
  | false => rfl
  | true =>
      have hmask : (writeMask coins).length = (calcMaskSize coins).1 := by
        rw [writeMask, List.length_map, List.length_range]
      have houtputs : ((unspentOutputs coins).flatMap (writeTxOut ops)).length =
          ((unspentOutputs coins).map (getSerializeSizeTxOut ops)).sum := List.length_flatMap
      simp only [if_true, Option.map_some, List.length_append, length_writeVarInt, hmask, houtputs,
        entrySize, Option.some.injEq]
      omega

/-!
# When the sizes agree
-/

/-- The two header codes of a mask code and its flags take the same number of bytes. -/
def SameHeaderSize (nMaskCode flags : Int) : Prop :=
  SameVarIntSize (wrapUInt32 (8 * nMaskCode + flags)) (wrapUInt32 (16 * nMaskCode + flags))

instance (nMaskCode flags : Int) : Decidable (SameHeaderSize nMaskCode flags) :=
  inferInstanceAs (Decidable (SameVarIntSize _ _))

theorem wrapUInt32_lt (n : Int) : wrapUInt32 n < 4294967296 :=
  Int.emod_lt_of_pos n (by decide)

theorem entrySize_agrees_iff (ops : PubKeyOps) (coins : CCoins) :
    entrySize ops 8 coins % 4294967296 = entrySize ops 16 coins <->
      SameHeaderSize (maskCode coins) (headerFlags coins) ∧
        entrySize ops 16 coins < 4294967296 := by
  have height : getSizeOfVarInt (headerCode 8 coins) ≤ 4 + 1 :=
    (getSizeOfVarInt_le_iff 4 _).mpr (Int.lt_trans (wrapUInt32_lt _) (by decide))
  have hsixteen : getSizeOfVarInt (headerCode 16 coins) ≤ 4 + 1 :=
    (getSizeOfVarInt_le_iff 4 _).mpr (Int.lt_trans (wrapUInt32_lt _) (by decide))
  have hsame : getSizeOfVarInt (headerCode 8 coins) = getSizeOfVarInt (headerCode 16 coins) <->
      SameHeaderSize (maskCode coins) (headerFlags coins) :=
    getSizeOfVarInt_eq_iff (wrapUInt32_lt _) (wrapUInt32_lt _)
  rw [← hsame]
  unfold entrySize
  omega

theorem getSerializeSize_eq_length_iff (ops : PubKeyOps) {coins : CCoins}
    (hpruned : coins.isPruned = false) :
    getSerializeSizeCoins ops coins = (writeCoins ops coins).map List.length <->
      SameHeaderSize (maskCode coins) (headerFlags coins) ∧
        entrySize ops 16 coins < 4294967296 := by
  rw [length_writeCoins, getSerializeSizeCoins, serializable_of_not_pruned hpruned, if_pos rfl,
    if_pos rfl, Option.some.injEq]
  exact entrySize_agrees_iff ops coins

namespace CoinsExample

open ScriptExample

theorem getSerializeSize_eq_length_iff_later :
    getSerializeSizeCoins noFullKeys laterOutput =
        (writeCoins noFullKeys laterOutput).map List.length <->
      SameHeaderSize (maskCode laterOutput) (headerFlags laterOutput) ∧
        entrySize noFullKeys 16 laterOutput < 4294967296 :=
  getSerializeSize_eq_length_iff noFullKeys (by decide)

/-- An entry with 66 unspent outputs. -/
def manyOutputs : CCoins :=
  { vout := List.replicate 66 (CTxOut.make 5 []), nHeight := 1, nVersion := 1 }

theorem manyOutputs_size_differs :
    manyOutputs.isPruned = false ∧ 0 ≤ manyOutputs.nVersion ∧ 0 ≤ manyOutputs.nHeight ∧
      getSerializeSizeCoins noFullKeys manyOutputs ≠
        (writeCoins noFullKeys manyOutputs).map List.length := by
  apply And.intro (by decide)
  apply And.intro (by decide)
  apply And.intro (by decide)
  rw [length_writeCoins, getSerializeSizeCoins, serializable_of_not_pruned (by decide), if_pos rfl,
    if_pos rfl]
  intro heq
  have hagrees := (entrySize_agrees_iff noFullKeys manyOutputs).mp (Option.some.inj heq)
  exact absurd hagrees.1 (by decide)

end CoinsExample

end Serialize
end Hbcur
