import Hbcur.BlockIndex.Disk

/-!
# Persistence of the block index

Writing all entries and loading them gives every member back, except that the hash of the stake
kernel is not in the records.
-/

namespace Hbcur
namespace BlockIndex
namespace Disk

open Foundation Serialize

/-!
# The status bits
-/

theorem raised_and (s nUpTo : BitVec 32) {bit : BitVec 32} (hbit : ~~~BLOCK_VALID_MASK &&& bit = bit)
    (hupto : nUpTo &&& bit = 0) : (s &&& ~~~BLOCK_VALID_MASK ||| nUpTo) &&& bit = s &&& bit := by
  rw [BitVec.and_or_distrib_right, BitVec.and_assoc, hbit, hupto]
  exact BitVec.or_zero

/-- A bit in front of the validity mask does not change with the validity. -/
theorem raiseValidity_and (e : CBlockIndex) (nUpTo : BitVec 32) {bit : BitVec 32}
    (hbit : ~~~BLOCK_VALID_MASK &&& bit = bit) (hupto : nUpTo &&& bit = 0) :
    (e.raiseValidity nUpTo).nStatus &&& bit = e.nStatus &&& bit := by
  unfold CBlockIndex.raiseValidity
  split
  · rfl
  · split
    · exact raised_and e.nStatus nUpTo hbit hupto
    · rfl

/-- All other members stay. -/
theorem raiseValidity_eq (e : CBlockIndex) (nUpTo : BitVec 32) :
    e.raiseValidity nUpTo = { e with nStatus := (e.raiseValidity nUpTo).nStatus } := by
  unfold CBlockIndex.raiseValidity
  split
  · rfl
  · split
    · rfl
    · rfl

/-!
# Entries which can be written
-/

/-- What is left out of a record has its default value; the hash of the stake kernel of a
proof-of-stake entry is the exception. -/
structure Writable (e : CBlockIndex) : Prop where
  height : 0 ≤ e.nHeight ∧ e.nHeight < 2147483648
  file : 0 ≤ e.nFile ∧ e.nFile < 2147483648
  prevout : e.prevoutStake.n < 4294967296
  work : e.isProofOfStake = false ->
    e.prevoutStake = nullOutPoint ∧ e.nStakeTime = 0 ∧ e.hashProofOfStake = 0
  noFile : e.haveData = false -> e.haveUndo = false -> e.nFile = 0
  noData : e.haveData = false -> e.nDataPos = 0
  noUndo : e.haveUndo = false -> e.nUndoPos = 0

theorem Writable.raiseValidity {e : CBlockIndex} (h : Writable e) {nUpTo : BitVec 32}
    (hdata : nUpTo &&& BLOCK_HAVE_DATA = 0) (hundo : nUpTo &&& BLOCK_HAVE_UNDO = 0) :
    Writable (e.raiseValidity nUpTo) := by
  have hkeepData : (e.raiseValidity nUpTo).haveData = e.haveData := by
    unfold CBlockIndex.haveData
    rw [raiseValidity_and e nUpTo (by decide) hdata]
  have hkeepUndo : (e.raiseValidity nUpTo).haveUndo = e.haveUndo := by
    unfold CBlockIndex.haveUndo
    rw [raiseValidity_and e nUpTo (by decide) hundo]
  have heq := raiseValidity_eq e nUpTo
  constructor
  case height => rw [heq]; exact h.height
  case file => rw [heq]; exact h.file
  case prevout => rw [heq]; exact h.prevout
  case work => rw [heq]; exact h.work
  case noFile => rw [hkeepData, hkeepUndo, heq]; exact h.noFile
  case noData => rw [hkeepData, heq]; exact h.noData
  case noUndo => rw [hkeepUndo, heq]; exact h.noUndo

theorem or_and_self {s bit : BitVec 32} (hbit : bit ≠ 0) : (s ||| bit) &&& bit ≠ 0 := by
  intro hzero
  rw [BitVec.and_or_distrib_right, BitVec.and_self] at hzero
  exact hbit (BitVec.or_eq_zero_iff.mp hzero).2

theorem or_and_other (s : BitVec 32) {bit other : BitVec 32} (h : bit &&& other = 0) :
    (s ||| bit) &&& other = s &&& other := by
  rw [BitVec.and_or_distrib_right, h]
  exact BitVec.or_zero

theorem writable_ofBlock (block : Block) : Writable (CBlockIndex.ofBlock block) where
  height := ⟨Int.le_refl 0, Int.ofNat_succ_pos _⟩
  file := ⟨Int.le_refl 0, Int.ofNat_succ_pos _⟩
  prevout := by
    cases hstake : block.fProofOfStake with
    | false => simp [CBlockIndex.ofBlock, hstake, nullOutPoint, COutPoint.maxUInt32]
    | true => simpa [CBlockIndex.ofBlock, hstake] using block.prevout_range
  work := by
    cases hstake : block.fProofOfStake with
    | false => simp [CBlockIndex.ofBlock, hstake]
    | true => simp [CBlockIndex.ofBlock, hstake, CBlockIndex.isProofOfStake, BLOCK_PROOF_OF_STAKE]
  noFile := fun _ _ => rfl
  noData := fun _ => rfl
  noUndo := fun _ => rfl

theorem Writable.place {e : CBlockIndex} (h : Writable e) {hash : UInt256} {prev : Entry}
    (hprev : 0 ≤ prev.nHeight) (hheight : prev.nHeight + 1 < 2147483648)
    (mapProofOfStake : StdMap UInt256 UInt256) (next : Stake.NextModifier) :
    Writable (e.place hash prev mapProofOfStake next) := by
  have hkeep : (e.place hash prev mapProofOfStake next).isProofOfStake = e.isProofOfStake := by
    unfold CBlockIndex.isProofOfStake CBlockIndex.place
    have hentropy : (if hash.getLsbD 0 then BLOCK_STAKE_ENTROPY else 0) &&& BLOCK_PROOF_OF_STAKE =
        (0 : BitVec 32) := by
      split <;> decide
    have hmodifier : (if next.fGeneratedStakeModifier then BLOCK_STAKE_MODIFIER else 0) &&&
        BLOCK_PROOF_OF_STAKE = (0 : BitVec 32) := by
      split <;> decide
    rw [or_and_other _ hmodifier, or_and_other _ hentropy]
  constructor
  case height =>
    show 0 ≤ prev.nHeight + 1 ∧ prev.nHeight + 1 < 2147483648
    omega
  case file => exact h.file
  case prevout => exact h.prevout
  case work =>
    intro hstake
    rw [hkeep] at hstake
    rcases h.work hstake with ⟨hprevout, htime, hproof⟩
    exact ⟨hprevout, htime, by simp [CBlockIndex.place, hstake, hproof]⟩
  case noFile => exact h.noFile
  case noData => exact h.noData
  case noUndo => exact h.noUndo

theorem Writable.received {e : CBlockIndex} (h : Writable e) (block : Block) {pos : CDiskBlockPos}
    (hpos : 0 ≤ pos.nFile ∧ pos.nFile < 2147483648) : Writable (e.received block pos) := by
  have hdata : forall e' : CBlockIndex, e'.nStatus = e.nStatus ||| BLOCK_HAVE_DATA ->
      e'.haveData = true := by
    intro e' hstatus
    unfold CBlockIndex.haveData
    rw [hstatus, bne_iff_ne]
    exact or_and_self (by decide)
  apply Writable.raiseValidity
  case hdata => decide
  case hundo => decide
  case h =>
    constructor
    case height => exact h.height
    case file => exact hpos
    case prevout => exact h.prevout
    case work =>
      cases hstake : block.fProofOfStake with
      | false => simpa [CBlockIndex.isProofOfStake] using h.work
      | true =>
          intro hwork
          simp only [CBlockIndex.isProofOfStake, if_true, bne_eq_false_iff_eq] at hwork
          exact absurd hwork (or_and_self (by decide))
    case noFile =>
      intro hnone
      rw [hdata _ rfl] at hnone
      cases hnone
    case noData =>
      intro hnone
      rw [hdata _ rfl] at hnone
      cases hnone
    case noUndo => exact fun _ => rfl

theorem Writable.undoWritten {e : CBlockIndex} (h : Writable e) (nPos : BitVec 32) :
    Writable (e.undoWritten nPos) := by
  unfold CBlockIndex.undoWritten
  split
  · apply Writable.raiseValidity
    case hdata => decide
    case hundo => decide
    case h =>
      split
      · have hdata : (e.nStatus ||| BLOCK_HAVE_UNDO) &&& BLOCK_HAVE_DATA =
            e.nStatus &&& BLOCK_HAVE_DATA := or_and_other _ (by decide)
        have hundo : (e.nStatus ||| BLOCK_HAVE_UNDO) &&& BLOCK_HAVE_UNDO ≠ 0 :=
          or_and_self (by decide)
        rename_i hnew
        rw [Bool.not_eq_true'] at hnew
        constructor
        case height => exact h.height
        case file => exact h.file
        case prevout => exact h.prevout
        case work => exact h.work
        case noFile =>
          intro hnone hnone'
          simp only [CBlockIndex.haveUndo, bne_eq_false_iff_eq] at hnone'
          exact absurd hnone' hundo
        case noData =>
          intro hnone
          simp only [CBlockIndex.haveData, hdata] at hnone
          exact h.noData hnone
        case noUndo =>
          intro hnone
          simp only [CBlockIndex.haveUndo, bne_eq_false_iff_eq] at hnone
          exact absurd hnone hundo
      · exact h
  · exact h

theorem Writable.connected {e : CBlockIndex} (h : Writable e)
    (nMoneySupplyPrev nValueOut nValueIn : BitVec 64) (undo : Option (BitVec 32)) :
    Writable (e.connected nMoneySupplyPrev nValueOut nValueIn undo) := by
  have hsupply : forall nMoneySupply nMint,
      Writable { e with nMoneySupply := nMoneySupply, nMint := nMint } := by
    intro nMoneySupply nMint
    exact ⟨h.height, h.file, h.prevout, h.work, h.noFile, h.noData, h.noUndo⟩
  unfold CBlockIndex.connected
  cases undo with
  | none => exact hsupply _ _
  | some nPos => exact (hsupply _ _).undoWritten nPos

/-!
# Reading a record back
-/

theorem reads_serializeOutPoint {out : COutPoint} (h : out.n < 4294967296) :
    Reads readOutPoint out.serialize out := by
  have hword : out.serialize = writeUInt256 out.hash ++ (writeLE 4 out.n ++ []) := by
    simp [COutPoint.serialize, writeUInt256]
  rw [hword]
  apply reads_readThen (reads_writeUInt256 out.hash)
  apply reads_readThen (reads_writeLE h)
  exact reads_readDone out

/-- What a record says about an entry. -/
def CDiskBlockIndex.stored (r : CDiskBlockIndex) : CDiskBlockIndex :=
  { r with
    nFile := if r.haveData || r.haveUndo then r.nFile else 0
    nDataPos := if r.haveData then r.nDataPos else 0
    nUndoPos := if r.haveUndo then r.nUndoPos else 0
    prevoutStake := if r.isProofOfStake then r.prevoutStake else nullOutPoint
    nStakeTime := if r.isProofOfStake then r.nStakeTime else 0
    hashProofOfStake := 0 }

theorem reads_serialize {r : CDiskBlockIndex} (h : Writable r.toCBlockIndex) :
    Reads CDiskBlockIndex.unserialize r.serialize r.stored := by
  unfold CDiskBlockIndex.serialize CDiskBlockIndex.unserialize
  apply reads_readThen (reads_writeVarInt32 (by decide) (by decide))
  apply reads_readThen (reads_writeVarInt32 h.height.1 h.height.2)
  apply reads_readThen (reads_writeVarUInt32 r.nStatus)
  apply reads_readThen (reads_writeVarUInt32 r.nTx)
  apply reads_readThen (reads_readIf _ _ (reads_writeVarInt32 h.file.1 h.file.2))
  apply reads_readThen (reads_readIf _ _ (reads_writeVarUInt32 r.nDataPos))
  apply reads_readThen (reads_readIf _ _ (reads_writeVarUInt32 r.nUndoPos))
  apply reads_readThen (reads_writeWord 8 r.nMint)
  apply reads_readThen (reads_writeWord 8 r.nMoneySupply)
  apply reads_readThen (reads_writeWord 4 r.nFlags)
  apply reads_readThen (reads_writeWord 8 r.nStakeModifier)
  apply reads_readThen (reads_readIf _ _ (reads_serializeOutPoint h.prevout))
  apply reads_readThen (reads_readIf _ _ (reads_writeWord 4 r.nStakeTime))
  apply reads_readThen (reads_writeWord 4 r.nVersion)
  apply reads_readThen (reads_writeUInt256 r.hashPrev)
  apply reads_readThen (reads_writeUInt256 r.hashNext)
  apply reads_readThen (reads_writeUInt256 r.hashMerkleRoot)
  apply reads_readThen (reads_writeWord 4 r.nTime)
  apply reads_readThen (reads_writeWord 4 r.nBits)
  apply reads_readThen (reads_writeWord 4 r.nNonce)
  exact reads_readDone r.stored

def CBlockIndex.withoutProof (e : CBlockIndex) : CBlockIndex := { e with hashProofOfStake := 0 }

def CDiskBlockIndex.withoutProof (r : CDiskBlockIndex) : CDiskBlockIndex :=
  { r with toCBlockIndex := r.toCBlockIndex.withoutProof }

/-- Only the hash of the stake kernel is lost. -/
theorem stored_eq {r : CDiskBlockIndex} (h : Writable r.toCBlockIndex) :
    r.stored = r.withoutProof := by
  have hfile : (if r.haveData || r.haveUndo then r.nFile else 0) = r.nFile := by
    split
    · rfl
    · rename_i hnone
      rw [Bool.not_eq_true, Bool.or_eq_false_iff] at hnone
      exact (h.noFile hnone.1 hnone.2).symm
  have hdata : (if r.haveData then r.nDataPos else 0) = r.nDataPos := by
    split
    · rfl
    · rename_i hnone
      exact (h.noData (Bool.not_eq_true _ ▸ hnone)).symm
  have hundo : (if r.haveUndo then r.nUndoPos else 0) = r.nUndoPos := by
    split
    · rfl
    · rename_i hnone
      exact (h.noUndo (Bool.not_eq_true _ ▸ hnone)).symm
  have hstake : (if r.isProofOfStake then r.prevoutStake else nullOutPoint) = r.prevoutStake ∧
      (if r.isProofOfStake then r.nStakeTime else 0) = r.nStakeTime := by
    cases hcase : r.isProofOfStake with
    | false =>
        rcases h.work hcase with ⟨hprevout, htime, _⟩
        exact ⟨hprevout.symm, htime.symm⟩
    | true => exact ⟨rfl, rfl⟩
  unfold CDiskBlockIndex.stored
  rw [hfile, hdata, hundo, hstake.1, hstake.2]
  rfl

/-!
# Building
-/

section Building

variable {getHash : CBlockHeader -> BlockHash} {map map' : BlockMap}

/-- An entry under the hash of its header. -/
structure Recorded (getHash : CBlockHeader -> BlockHash) (hash : UInt256) (e : Entry) : Prop where
  writable : Writable e.toCBlockIndex
  hash_eq : (getHash (CDiskBlockIndex.ofEntry e).header).val = hash
  link : e.pprev ≠ some 0

def AllRecorded (getHash : CBlockHeader -> BlockHash) (map : BlockMap) : Prop :=
  forall hash e, map.lookup hash = some e -> Recorded getHash hash e

theorem AllRecorded.insert (h : AllRecorded getHash map) {hash : UInt256} {e : Entry}
    (he : Recorded getHash hash e) : AllRecorded getHash (map.insert hash e) := by
  intro hash' e' hlookup
  rw [StdMap.lookup_insert_eq] at hlookup
  split_ifs at hlookup with hsame
  · cases hlookup
    rw [hsame]
    exact he
  · exact h hash' e' hlookup

theorem AllRecorded.lookup_zero (h : AllRecorded getHash map) : map.lookup 0 = none := by
  cases hlookup : map.lookup 0 with
  | none => rfl
  | some e => exact absurd (h 0 e hlookup).hash_eq (getHash _).property

theorem headerOf_raiseValidity (e : CBlockIndex) (nUpTo : BitVec 32) (hash : UInt256) :
    headerOf (e.raiseValidity nUpTo) hash = headerOf e hash := by
  rw [raiseValidity_eq]
  rfl

theorem allRecorded_add (h : AllRecorded getHash map) {mapProofOfStake : StdMap UInt256 UInt256}
    {next : Stake.NextModifier} {block : Block}
    (hadmitted : Admitted map (Action.add mapProofOfStake next block)) :
    AllRecorded getHash (addToBlockIndex getHash map mapProofOfStake next block) := by
  have hnew := writable_ofBlock block
  unfold addToBlockIndex
  simp only [Admitted] at hadmitted
  dsimp only
  cases hself : map.lookup (getHash block.header).val with
  | some e => exact h
  | none =>
      cases hprev : map.lookup block.hashPrevBlock with
      | none =>
          simp only [hprev] at hadmitted ⊢
          apply h.insert
          constructor
          case writable => exact hnew.raiseValidity (by decide) (by decide)
          case hash_eq =>
            show (getHash (headerOf ((CBlockIndex.ofBlock block).raiseValidity BLOCK_VALID_TREE)
              0)).val = (getHash block.header).val
            rw [headerOf_raiseValidity, Block.header, hadmitted]
          case link => exact nofun
      | some prev =>
          simp only [hprev] at hadmitted ⊢
          have hbefore := h block.hashPrevBlock prev hprev
          apply AllRecorded.insert
          case h =>
            apply h.insert
            exact ⟨hbefore.writable, hbefore.hash_eq, hbefore.link⟩
          case he =>
            constructor
            case writable =>
              apply Writable.raiseValidity
              case hdata => decide
              case hundo => decide
              case h => exact hnew.place hbefore.writable.height.1 hadmitted mapProofOfStake next
            case hash_eq =>
              show (getHash (headerOf (((CBlockIndex.ofBlock block).place (getHash block.header).val
                prev mapProofOfStake next).raiseValidity BLOCK_VALID_TREE)
                block.hashPrevBlock)).val = (getHash block.header).val
              rw [headerOf_raiseValidity]
              rfl
            case link =>
              intro hzero
              rw [Option.some.injEq] at hzero
              rw [hzero, h.lookup_zero] at hprev
              cases hprev

theorem headerOf_received (e : CBlockIndex) (block : Block) (pos : CDiskBlockPos) (hash : UInt256) :
    headerOf (e.received block pos) hash = headerOf e hash :=
  headerOf_raiseValidity _ _ _

theorem headerOf_undoWritten (e : CBlockIndex) (nPos : BitVec 32) (hash : UInt256) :
    headerOf (e.undoWritten nPos) hash = headerOf e hash := by
  unfold CBlockIndex.undoWritten
  split
  · rw [headerOf_raiseValidity]
    split
    · rfl
    · rfl
  · rfl

theorem headerOf_connected (e : CBlockIndex) (nMoneySupplyPrev nValueOut nValueIn : BitVec 64)
    (undo : Option (BitVec 32)) (hash : UInt256) :
    headerOf (e.connected nMoneySupplyPrev nValueOut nValueIn undo) hash = headerOf e hash := by
  cases undo with
  | none => rfl
  | some nPos => exact headerOf_undoWritten _ nPos hash

theorem allRecorded_received (h : AllRecorded getHash map) (hash : UInt256) (block : Block)
    {pos : CDiskBlockPos} (hpos : 0 ≤ pos.nFile ∧ pos.nFile < 2147483648) :
    AllRecorded getHash (receivedBlockTransactions map hash block pos) := by
  intro hash' e' hlookup
  rw [receivedBlockTransactions, StdMap.lookup_modify] at hlookup
  split_ifs at hlookup with hsame
  · rw [Option.map_eq_some_iff] at hlookup
    rcases hlookup with ⟨e, hold, rfl⟩
    have hbefore := h hash' e hold
    constructor
    case writable => exact hbefore.writable.received block hpos
    case hash_eq =>
      show (getHash (headerOf (e.received block pos) (e.pprev.getD 0))).val = hash'
      rw [headerOf_received]
      exact hbefore.hash_eq
    case link => exact hbefore.link
  · exact h hash' e' hlookup

theorem allRecorded_connect (h : AllRecorded getHash map) (hash : UInt256)
    (nValueOut nValueIn : BitVec 64) (undo : Option (BitVec 32)) :
    AllRecorded getHash (connectBlock map hash nValueOut nValueIn undo) := by
  unfold connectBlock
  cases hlookup : map.lookup hash with
  | none => exact h
  | some e =>
      have hbefore := h hash e hlookup
      apply h.insert
      constructor
      case writable => exact hbefore.writable.connected _ _ _ _
      case hash_eq =>
        show (getHash (headerOf (e.connected _ _ _ _) (e.pprev.getD 0))).val = hash
        rw [headerOf_connected]
        exact hbefore.hash_eq
      case link => exact hbefore.link

theorem allRecorded_of_built (hbuilt : Built getHash map) : AllRecorded getHash map := by
  apply invariant_of_reachable _ _ hbuilt
  · intro hash e hlookup
    cases hlookup
  · intro m a m' h hadmitted hnext
    subst hnext
    cases a with
    | add mapProofOfStake next block => exact allRecorded_add h hadmitted
    | received hash block pos => exact allRecorded_received h hash block hadmitted
    | connect hash nValueOut nValueIn undo =>
        exact allRecorded_connect h hash nValueOut nValueIn undo

end Building

/-!
# Keys
-/

theorem foldl_byte_injective :
    forall (bytes bytes' : List UInt8) (n n' : Nat), bytes.length = bytes'.length ->
      bytes.foldl (fun n byte => 256 * n + byte.toNat) n =
        bytes'.foldl (fun n byte => 256 * n + byte.toNat) n' ->
      n = n' ∧ bytes = bytes'
  | [], [], n, n', _, h => ⟨h, rfl⟩
  | byte :: bytes, byte' :: bytes', n, n', hlength, h => by
      rcases foldl_byte_injective bytes bytes' _ _ (Nat.succ.inj hlength) h with ⟨hvalue, hrest⟩
      have hlt := byte.toNat_lt
      have hlt' := byte'.toNat_lt
      dsimp only at hvalue
      have hbyte : byte = byte' := UInt8.toNat_inj.mp (by omega)
      exact ⟨by omega, by rw [hbyte, hrest]⟩

/-- Different hashes have different keys. -/
theorem keyOrder_injective {hash hash' : UInt256} (h : keyOrder hash = keyOrder hash') :
    hash = hash' := by
  have hbytes := (foldl_byte_injective _ _ 0 0 (by simp) h).2
  have hvalue := congrArg valueLE hbytes
  have hlt : hash.toNat < 256 ^ 32 := hash.isLt
  have hlt' : hash'.toNat < 256 ^ 32 := hash'.isLt
  rw [valueLE_writeLE 32 _ hlt, valueLE_writeLE 32 _ hlt'] at hvalue
  exact BitVec.eq_of_toNat_eq hvalue

/-!
# Writing all entries
-/

section Loading

variable {getHash : CBlockHeader -> BlockHash}

/-- A record holds an entry. -/
structure IsRecord (getHash : CBlockHeader -> BlockHash) (record : UInt256 × List UInt8)
    (e : Entry) : Prop where
  recorded : Recorded getHash record.1 e
  bytes : record.2 = (CDiskBlockIndex.ofEntry e).serialize

theorem mem_foldl_writeBlockIndex :
    forall (entries : List (Sigma fun _ : UInt256 => Entry)) (db : DiskDb),
      entries.NodupKeys -> (forall s, s ∈ entries -> Recorded getHash s.1 s.2) ->
      forall record : UInt256 × List UInt8,
        record ∈ (entries.foldl (fun db s => db.writeBlockIndex getHash s.2) db).records <->
          (exists s, s ∈ entries ∧ record = (s.1, (CDiskBlockIndex.ofEntry s.2).serialize)) ∨
          record ∈ db.records ∧ record.1 ∉ entries.keys := by
  intro entries
  induction entries with
  | nil =>
      intro db _ _ record
      simp
  | cons s entries ih =>
      intro db hnodup hrecorded record
      rw [List.nodupKeys_cons] at hnodup
      have hkey := (hrecorded s List.mem_cons_self).hash_eq
      rw [List.foldl_cons, ih _ hnodup.2 fun s' hmem => hrecorded s' (List.mem_cons_of_mem s hmem)]
      have hwrite : record ∈ (db.writeBlockIndex getHash s.2).records <->
          record = (s.1, (CDiskBlockIndex.ofEntry s.2).serialize) ∨
            record ∈ db.records ∧ record.1 ≠ s.1 := by
        rw [DiskDb.writeBlockIndex, mem_insertRecord_iff _ db.ordered, hkey]
        have horder : keyOrder record.1 ≠ keyOrder s.1 <-> record.1 ≠ s.1 :=
          not_congr ⟨keyOrder_injective, congrArg keyOrder⟩
        rw [horder]
      rw [hwrite, List.keys_cons, List.mem_cons]
      constructor
      · intro h
        rcases h with ⟨s', hmem, hrecord⟩ | ⟨hrecord | ⟨hmem, hne⟩, hother⟩
        · exact Or.inl ⟨s', List.mem_cons_of_mem s hmem, hrecord⟩
        · exact Or.inl ⟨s, List.mem_cons_self, hrecord⟩
        · exact Or.inr ⟨hmem, fun h => h.elim hne hother⟩
      · intro h
        rcases h with ⟨s', hmem, hrecord⟩ | ⟨hmem, hother⟩
        · rcases List.mem_cons.mp hmem with rfl | hmem
          · exact Or.inr ⟨Or.inl hrecord, by rw [hrecord]; exact hnodup.1⟩
          · exact Or.inl ⟨s', hmem, hrecord⟩
        · exact Or.inr ⟨Or.inr ⟨hmem, fun h => hother (Or.inl h)⟩, fun h => hother (Or.inr h)⟩

theorem mem_writeAll {map : BlockMap} (h : AllRecorded getHash map)
    (record : UInt256 × List UInt8) :
    record ∈ (writeAll getHash map).records <->
      exists e, map.lookup record.1 = some e ∧ IsRecord getHash record e := by
  have hentries : forall s, s ∈ map.entries -> Recorded getHash s.1 s.2 :=
    fun s hmem => h s.1 s.2 (AList.mem_lookup_iff.mpr hmem)
  rw [writeAll, mem_foldl_writeBlockIndex map.entries _ map.nodupKeys hentries]
  constructor
  · intro hmem
    rcases hmem with ⟨s, hmem, rfl⟩ | ⟨hnone, _⟩
    · exact ⟨s.2, AList.mem_lookup_iff.mpr hmem, hentries s hmem, rfl⟩
    · cases hnone
  · intro hmem
    rcases hmem with ⟨e, hlookup, hrecord⟩
    exact Or.inl ⟨⟨record.1, e⟩, AList.mem_lookup_iff.mp hlookup, by rw [← hrecord.bytes]⟩

/-!
# Loading
-/

/-- An entry as it comes back. -/
def Entry.restored (e : Entry) : Entry :=
  { toCBlockIndex := e.toCBlockIndex.withoutProof, pprev := e.pprev }

/-- The loader refuses a proof-of-work height with a hash above its target. -/
def CanLoad (getHash : CBlockHeader -> BlockHash) (nLastPOWBlock : Int)
    (checkProofOfWork : BlockHash -> Nat -> Bool) (e : Entry) : Prop :=
  e.nHeight ≤ nLastPOWBlock ->
    checkProofOfWork (getHash (CDiskBlockIndex.ofEntry e).header) e.nBits.toNat = true

theorem insertBlockIndex_keeps {map : LoadedMap} {hash : UInt256} {e : Entry}
    (h : map hash = some e) (hash' : UInt256) : (insertBlockIndex map hash').1 hash = some e := by
  unfold insertBlockIndex
  split
  · exact h
  · cases hother : map hash' with
    | some e' => exact h
    | none =>
        have hne : hash ≠ hash' := by
          intro heq
          rw [heq, hother] at h
          cases h
        simp only [Function.update_of_ne hne, h]

theorem insertBlockIndex_link (map : LoadedMap) (hash : UInt256) :
    (insertBlockIndex map hash).2 = if hash = 0 then none else some hash := by
  unfold insertBlockIndex
  split
  · rfl
  · split
    · rfl
    · rfl

variable (nLastPOWBlock : Int) (checkProofOfWork : BlockHash -> Nat -> Bool)

/-- One record is refused, or gives its entry and leaves the others. -/
theorem loadRecord_spec {record : UInt256 × List UInt8} {e : Entry}
    (h : IsRecord getHash record e) (map : LoadedMap) :
    (¬ CanLoad getHash nLastPOWBlock checkProofOfWork e ∧
      loadRecord getHash nLastPOWBlock checkProofOfWork map record.2 = none) ∨
    (CanLoad getHash nLastPOWBlock checkProofOfWork e ∧
      exists map', loadRecord getHash nLastPOWBlock checkProofOfWork map record.2 = some map' ∧
        map' record.1 = some e.restored ∧
        forall hash e', hash ≠ record.1 -> map hash = some e' -> map' hash = some e') := by
  have hread := reads_serialize (r := CDiskBlockIndex.ofEntry e) h.recorded.writable []
  rw [List.append_nil, stored_eq h.recorded.writable] at hread
  have hlink : (if e.pprev.getD 0 = 0 then none else some (e.pprev.getD 0)) = e.pprev := by
    cases hprev : e.pprev with
    | none => rfl
    | some hash =>
        have hne : hash ≠ 0 := fun hzero => h.recorded.link (by rw [hprev, hzero])
        exact if_neg hne
  rw [h.bytes, loadRecord, hread]
  simp only [insertBlockIndex_link]
  by_cases hrefused : e.nHeight ≤ nLastPOWBlock ∧
      checkProofOfWork (getHash (CDiskBlockIndex.ofEntry e).header) e.nBits.toNat = false
  · apply Or.inl
    constructor
    · intro hload
      rw [hload hrefused.1] at hrefused
      exact Bool.noConfusion hrefused.2
    · exact if_pos hrefused
  · apply Or.inr
    constructor
    · intro hheight
      rw [← Bool.not_eq_false]
      exact fun hfalse => hrefused ⟨hheight, hfalse⟩
    · refine ⟨_, if_neg hrefused, ?_, ?_⟩
      · rw [← h.recorded.hash_eq]
        refine (Function.update_self _ _ _).trans ?_
        rw [Option.some.injEq, Entry.restored, ← hlink]
        rfl
      · intro hash e' hne hbefore
        rw [← h.recorded.hash_eq] at hne
        refine (Function.update_of_ne hne _ _).trans ?_
        apply insertBlockIndex_keeps
        apply insertBlockIndex_keeps
        exact insertBlockIndex_keeps hbefore _

/-- Loading records one after another: every one of them can be loaded, and its entry stays. -/
theorem foldlM_loadRecord_some :
    forall (records : List (UInt256 × List UInt8)) (map loaded : LoadedMap),
      (forall record, record ∈ records -> exists e, IsRecord getHash record e) ->
      Ordered keyOrder records ->
      records.foldlM (fun map record => loadRecord getHash nLastPOWBlock checkProofOfWork map record.2)
        map = some loaded ->
      (forall record e, record ∈ records -> IsRecord getHash record e ->
        CanLoad getHash nLastPOWBlock checkProofOfWork e ∧ loaded record.1 = some e.restored) ∧
      forall hash e, (forall record, record ∈ records -> hash ≠ record.1) ->
        map hash = some e -> loaded hash = some e := by
  intro records
  induction records with
  | nil =>
      intro map loaded _ _ hload
      cases hload
      exact ⟨fun record e hmem => absurd hmem List.not_mem_nil, fun hash e _ h => h⟩
  | cons record records ih =>
      intro map loaded hrecords hordered hload
      rcases List.pairwise_cons.mp hordered with ⟨hfirst, hrest⟩
      rcases hrecords record List.mem_cons_self with ⟨e, he⟩
      rw [List.foldlM_cons, Option.bind_eq_bind, Option.bind_eq_some_iff] at hload
      rcases hload with ⟨map', hone, hload⟩
      rcases ih map' loaded (fun r hmem => hrecords r (List.mem_cons_of_mem record hmem)) hrest hload
        with ⟨hothers, hkeep⟩
      have hdistinct : forall r, r ∈ records -> record.1 ≠ r.1 := by
        intro r hmem heq
        exact Nat.ne_of_lt (hfirst r hmem) (congrArg keyOrder heq)
      have hspec : forall e', IsRecord getHash record e' ->
          CanLoad getHash nLastPOWBlock checkProofOfWork e' ∧ map' record.1 = some e'.restored ∧
            forall hash e'', hash ≠ record.1 -> map hash = some e'' -> map' hash = some e'' := by
        intro e' he'
        rcases loadRecord_spec nLastPOWBlock checkProofOfWork he' map with
          ⟨_, hnone⟩ | ⟨hcan, map'', hsome, hspec⟩
        · rw [hnone] at hone
          cases hone
        · rw [hsome] at hone
          cases hone
          exact ⟨hcan, hspec⟩
      constructor
      · intro r e' hmem he'
        rcases List.mem_cons.mp hmem with rfl | hmem
        · rcases hspec e' he' with ⟨hcan, hset, _⟩
          exact ⟨hcan, hkeep r.1 _ hdistinct hset⟩
        · exact hothers r e' hmem he'
      · intro hash e' hother hbefore
        have hfirst' := hother record List.mem_cons_self
        exact hkeep hash e' (fun r hmem => hother r (List.mem_cons_of_mem record hmem))
          ((hspec e he).2.2 hash e' hfirst' hbefore)

theorem exists_foldlM_loadRecord :
    forall (records : List (UInt256 × List UInt8)) (map : LoadedMap),
      (forall record, record ∈ records -> exists e, IsRecord getHash record e ∧
        CanLoad getHash nLastPOWBlock checkProofOfWork e) ->
      exists loaded, records.foldlM
        (fun map record => loadRecord getHash nLastPOWBlock checkProofOfWork map record.2) map =
          some loaded := by
  intro records
  induction records with
  | nil => exact fun map _ => ⟨map, rfl⟩
  | cons record records ih =>
      intro map hrecords
      rcases hrecords record List.mem_cons_self with ⟨e, he, hcan⟩
      rcases loadRecord_spec nLastPOWBlock checkProofOfWork he map with ⟨hcannot, _⟩ | ⟨_, map', hone, _⟩
      · exact absurd hcan hcannot
      · rcases ih map' fun r hmem => hrecords r (List.mem_cons_of_mem record hmem) with
          ⟨loaded, hload⟩
        exact ⟨loaded, by rw [List.foldlM_cons, hone]; exact hload⟩

/-- The loader succeeds on the records of all entries if and only if it accepts each of them. -/
theorem loaded_of_built {map : BlockMap} (hbuilt : Built getHash map)
    (hload : forall hash e, map.lookup hash = some e ->
      CanLoad getHash nLastPOWBlock checkProofOfWork e) :
    exists loaded, loadBlockIndexGuts getHash nLastPOWBlock checkProofOfWork
      (writeAll getHash map) = some loaded := by
  have hrecorded := allRecorded_of_built hbuilt
  apply exists_foldlM_loadRecord
  intro record hmem
  rcases (mem_writeAll hrecorded record).mp hmem with ⟨e, hlookup, hrecord⟩
  exact ⟨e, hrecord, hload record.1 e hlookup⟩

theorem restored_of_loaded {map : BlockMap} {loaded : LoadedMap} (hbuilt : Built getHash map)
    (hload : loadBlockIndexGuts getHash nLastPOWBlock checkProofOfWork (writeAll getHash map) =
      some loaded) :
    forall hash e, map.lookup hash = some e ->
      CanLoad getHash nLastPOWBlock checkProofOfWork e ∧ loaded hash = some e.restored := by
  have hrecorded := allRecorded_of_built hbuilt
  intro hash e hlookup
  have hrecord : IsRecord getHash (hash, (CDiskBlockIndex.ofEntry e).serialize) e :=
    ⟨hrecorded hash e hlookup, rfl⟩
  have hrecords : forall record, record ∈ (writeAll getHash map).records ->
      exists e, IsRecord getHash record e := by
    intro record hmem
    rcases (mem_writeAll hrecorded record).mp hmem with ⟨e', _, hrecord'⟩
    exact ⟨e', hrecord'⟩
  exact (foldlM_loadRecord_some _ _ _ _ loaded hrecords (writeAll getHash map).ordered hload).1 _ e
    ((mem_writeAll hrecorded _).mpr ⟨e, hlookup, hrecord⟩) hrecord

end Loading

/-!
# Restoring the index
-/

/-- The loaded entries have all members of the entries built, and the checksums along every chain
are the same as before. -/
structure Restores (hashBytes : List UInt8 -> UInt256) (map : BlockMap) (loaded : LoadedMap) :
    Prop where
  entries : forall hash e, map.lookup hash = some e ->
    exists e', loaded hash = some e' ∧ e'.toCBlockIndex = e.toCBlockIndex ∧ e'.pprev = e.pprev
  checksums : forall link chain, Chain (fun hash => map.lookup hash) link chain ->
    exists chain', Chain loaded link chain' ∧
      checksumAlong hashBytes chain' = checksumAlong hashBytes chain

theorem chain_loaded {map : BlockMap} {loaded : LoadedMap}
    (hentries : forall hash e, map.lookup hash = some e ->
      exists e', loaded hash = some e' ∧ e'.toCBlockIndex = e.toCBlockIndex ∧ e'.pprev = e.pprev)
    {link : Option UInt256} {chain : List CBlockIndex}
    (hchain : Chain (fun hash => map.lookup hash) link chain) : Chain loaded link chain := by
  induction hchain with
  | nil => exact Chain.nil
  | cons hlookup _ ih =>
      rcases hentries _ _ hlookup with ⟨e', hloaded, hsame, hprev⟩
      rw [← hsame]
      rw [← hprev] at ih
      exact Chain.cons hloaded ih

theorem withoutProof_eq_iff {e : CBlockIndex} (h : Writable e) :
    e.withoutProof = e <-> (e.isProofOfStake = true -> e.hashProofOfStake = 0) := by
  constructor
  · intro heq _
    rw [← heq]
    rfl
  · intro hzero
    have hproof : e.hashProofOfStake = 0 := by
      cases hstake : e.isProofOfStake with
      | false => exact (h.work hstake).2.2
      | true => exact hzero hstake
    unfold CBlockIndex.withoutProof
    rw [← hproof]

/-- Writing an index and loading it restores it if and only if the loader accepts every entry and
no proof-of-stake entry has a kernel hash to lose. -/
theorem restores_iff_no_kernel_hash (getHash : CBlockHeader -> BlockHash) (nLastPOWBlock : Int)
    (checkProofOfWork : BlockHash -> Nat -> Bool) (hashBytes : List UInt8 -> UInt256)
    (map : BlockMap) (hbuilt : Built getHash map) :
    (exists loaded, loadBlockIndexGuts getHash nLastPOWBlock checkProofOfWork
        (writeAll getHash map) = some loaded ∧ Restores hashBytes map loaded) <->
      forall hash e, map.lookup hash = some e ->
        CanLoad getHash nLastPOWBlock checkProofOfWork e ∧
          (e.isProofOfStake = true -> e.hashProofOfStake = 0) := by
  have hrecorded := allRecorded_of_built hbuilt
  constructor
  · intro hrestores hash e hlookup
    rcases hrestores with ⟨loaded, hload, hentries, _⟩
    rcases restored_of_loaded nLastPOWBlock checkProofOfWork hbuilt hload hash e hlookup with
      ⟨hcan, hloaded⟩
    rcases hentries hash e hlookup with ⟨e', hloaded', hsame, _⟩
    rw [hloaded, Option.some.injEq] at hloaded'
    rw [← hloaded'] at hsame
    exact ⟨hcan, (withoutProof_eq_iff (hrecorded hash e hlookup).writable).mp hsame⟩
  · intro hall
    rcases loaded_of_built nLastPOWBlock checkProofOfWork hbuilt
      (fun hash e hlookup => (hall hash e hlookup).1) with ⟨loaded, hload⟩
    have hentries : forall hash e, map.lookup hash = some e -> exists e', loaded hash = some e' ∧
        e'.toCBlockIndex = e.toCBlockIndex ∧ e'.pprev = e.pprev := by
      intro hash e hlookup
      have hwritable := (hrecorded hash e hlookup).writable
      exact ⟨e.restored,
        (restored_of_loaded nLastPOWBlock checkProofOfWork hbuilt hload hash e hlookup).2,
        (withoutProof_eq_iff hwritable).mpr (hall hash e hlookup).2, rfl⟩
    exact ⟨loaded, hload, hentries, fun link chain hchain =>
      ⟨chain, chain_loaded hentries hchain, rfl⟩⟩

namespace PersistenceExample

def getHash (header : CBlockHeader) : BlockHash :=
  if header.nNonce = 0 then ⟨1, by decide⟩ else ⟨2, by decide⟩

def hashBytes (bytes : List UInt8) : UInt256 :=
  BitVec.ofNat 256 (bytes.map UInt8.toNat).sum <<< 224

def blockOf (nNonce : BitVec 32) (hashPrevBlock : UInt256) (fProofOfStake : Bool) : Block where
  nVersion := 3
  hashPrevBlock := hashPrevBlock
  hashMerkleRoot := 0x77
  nTime := 1619651540
  nBits := 0x1e0fffff
  nNonce := nNonce
  fProofOfStake := fProofOfStake
  prevoutStake := { hash := 0x33, n := 1 }
  prevout_range := by decide
  vtxSize := 2

def next : Stake.NextModifier := { ok := true, nStakeModifier := 9, fGeneratedStakeModifier := true }

/-- The genesis block and one block after it. -/
def index (mapProofOfStake : StdMap UInt256 UInt256) (fProofOfStake : Bool) : BlockMap :=
  addToBlockIndex getHash (addToBlockIndex getHash ∅ ∅ next (blockOf 0 0 false)) mapProofOfStake next
    (blockOf 1 1 fProofOfStake)

theorem built_index (mapProofOfStake : StdMap UInt256 UInt256) (fProofOfStake : Bool) :
    Built getHash (index mapProofOfStake fProofOfStake) := by
  have hgenesis : Built getHash (addToBlockIndex getHash ∅ ∅ next (blockOf 0 0 false)) :=
    Reachable.step (o := Action.add ∅ next (blockOf 0 0 false)) Reachable.start rfl rfl
  have hheight : (0 : Int) + 1 < 2147483648 := by decide
  exact Reachable.step (o := Action.add mapProofOfStake next (blockOf 1 1 fProofOfStake)) hgenesis
    hheight rfl

/-- Every hash is accepted, as on a network which skips the check. -/
def checkProofOfWork : BlockHash -> Nat -> Bool := Hbcur.checkProofOfWork true 0

theorem canLoad (e : Entry) : CanLoad getHash 0 checkProofOfWork e := fun _ => rfl

/-- The kernel hash of the second block. -/
def mapProofOfStake : StdMap UInt256 UInt256 := AList.insert 2 5 ∅

end PersistenceExample

open PersistenceExample

theorem restores_work_index :
    exists loaded, loadBlockIndexGuts PersistenceExample.getHash 0
        PersistenceExample.checkProofOfWork (writeAll PersistenceExample.getHash (index ∅ false)) =
          some loaded ∧
      Restores PersistenceExample.hashBytes (index ∅ false) loaded := by
  have hwork : forall s, s ∈ (index ∅ false).entries -> s.2.isProofOfStake = false := by
    decide +kernel
  apply (restores_iff_no_kernel_hash PersistenceExample.getHash 0
    PersistenceExample.checkProofOfWork PersistenceExample.hashBytes (index ∅ false)
    (built_index ∅ false)).mpr
  intro hash e hlookup
  have hnone := hwork ⟨hash, e⟩ (AList.mem_lookup_iff.mp hlookup)
  exact ⟨canLoad e, fun hstake => absurd hstake (by rw [hnone]; exact Bool.noConfusion)⟩

def genesisEntry : Entry := ((index mapProofOfStake true).lookup 1).getD {}

def stakeEntry : Entry := ((index mapProofOfStake true).lookup 2).getD {}

/-- A proof-of-stake entry comes back without its kernel hash, and with another checksum. -/
theorem kernel_hash_lost :
    Built PersistenceExample.getHash (index mapProofOfStake true) ∧
    stakeEntry.hashProofOfStake = 5 ∧
    exists loaded, loadBlockIndexGuts PersistenceExample.getHash 0
        PersistenceExample.checkProofOfWork
        (writeAll PersistenceExample.getHash (index mapProofOfStake true)) = some loaded ∧
      (loaded 2).map (fun e => e.hashProofOfStake) = some 0 ∧
      Chain (fun hash => (index mapProofOfStake true).lookup hash) (some 2)
        [stakeEntry.toCBlockIndex, genesisEntry.toCBlockIndex] ∧
      ¬ exists chain, Chain loaded (some 2) chain ∧
        checksumAlong PersistenceExample.hashBytes chain =
          checksumAlong PersistenceExample.hashBytes
            [stakeEntry.toCBlockIndex, genesisEntry.toCBlockIndex] := by
  have hbuilt := built_index mapProofOfStake true
  have hgenesis : (index mapProofOfStake true).lookup 1 = some genesisEntry := by decide +kernel
  have hstake : (index mapProofOfStake true).lookup 2 = some stakeEntry := by decide +kernel
  have hlinks : genesisEntry.pprev = none ∧ stakeEntry.pprev = some 1 := by decide +kernel
  rcases loaded_of_built 0 PersistenceExample.checkProofOfWork hbuilt (fun hash e _ => canLoad e)
    with ⟨loaded, hload⟩
  have hrestored := restored_of_loaded 0 PersistenceExample.checkProofOfWork hbuilt hload
  have hloadedGenesis := (hrestored 1 genesisEntry hgenesis).2
  have hloadedStake := (hrestored 2 stakeEntry hstake).2
  constructor
  · exact hbuilt
  · constructor
    · decide +kernel
    · apply Exists.intro loaded
      constructor
      · exact hload
      · constructor
        · rw [hloadedStake]
          rfl
        · constructor
          · apply Chain.cons hstake
            rw [hlinks.2]
            apply Chain.cons hgenesis
            rw [hlinks.1]
            exact Chain.nil
          · intro hsame
            rcases hsame with ⟨chain, hchain, hchecksum⟩
            cases hchain with
            | cons hfirst hrest =>
                rw [hloadedStake, Option.some.injEq] at hfirst
                rw [← hfirst, Entry.restored, hlinks.2] at hrest
                cases hrest with
                | cons hsecond hnone =>
                    rw [hloadedGenesis, Option.some.injEq] at hsecond
                    rw [← hsecond, Entry.restored, hlinks.1] at hnone
                    cases hnone
                    rw [← hfirst, ← hsecond] at hchecksum
                    exact absurd hchecksum (by decide +kernel)

end Disk
end BlockIndex
end Hbcur
