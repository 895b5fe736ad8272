import Hbcur.Validation.BlockSteps
import Hbcur.Validation.Unspent

/-!
# Connecting a block and disconnecting it again

The undo data of a block restores the coins which the block spent.  It does so
exactly when every spent output survives the disk format and no entry which the
block spends completely is one whose metadata the undo path loses.
-/

namespace Hbcur

open Serialize CCoins

variable {state : Type} [CoinsState state]

/-- The entry from which a block spends: one it creates, or one of the view. -/
def blockEntry (v : state) (block : CBlock) (nHeight : Int) (txid : UInt256) : CCoins :=
  match block.vtx.find? fun tx => tx.hash == txid with
  | some tx => CCoins.fromTx tx nHeight
  | none => coinsAt v txid

/-!
# Ranges

What `CheckBlock` and the types of the source guarantee about a block and about
the entries of a view.
-/

structure BlockInRange (block : CBlock) : Prop where
  coinBaseFirst : block.CoinBaseFirst
  size : block.vtx.length ≤ MAX_SIZE
  inputs : forall tx, tx ∈ block.vtx -> tx.vin.length ≤ MAX_SIZE
  version : forall tx, tx ∈ block.vtx -> tx.nVersion < 2147483648
  values : forall tx, tx ∈ block.vtx -> forall out, out ∈ tx.vout -> 0 ≤ out.nValue
  scripts : forall tx, tx ∈ block.vtx -> forall out, out ∈ tx.vout ->
    out.scriptPubKey.length ≤ MAX_SIZE

structure StateInRange (v : state) : Prop where
  canonical : StateCanonical v
  version : forall txid, -2147483648 ≤ (coinsAt v txid).nVersion ∧
    (coinsAt v txid).nVersion < 2147483648
  scripts : forall txid nPos out, (coinsAt v txid).output? nPos = some out ->
    out.scriptPubKey.length ≤ MAX_SIZE

/-!
# The invariants along a run
-/

section Runs

variable [LawfulCoinsState state] {nHeight : Int} {entry : UInt256 -> CCoins}

/-- Spent outputs stay spent to the end, where nothing is pending. -/
theorem tracks_of_run {v v1 : state} {log : List UndoStep}
    (hrun : StepsRun nHeight v log v1) :
    forall spent, Tracks entry spent (createdBy log) v -> (createdBy log).Nodup ->
      EntriesOf nHeight entry log ->
      exists spent', (forall out, out ∈ spent' <-> out ∈ spentBy log ++ spent) ∧
        Tracks entry spent' [] v1 := by
  induction hrun with
  | nil =>
      intro spent htracks _ _
      exact ⟨spent, fun _ => Iff.rfl, htracks⟩
  | @spend v v' v1 out undo log hspend _ ih =>
      intro spent htracks hnodup hentries
      rcases ih (out :: spent) (tracks_spend htracks hspend) hnodup
        (entriesOf_of_cons hentries) with ⟨spent', hmem, hend⟩
      refine ⟨spent', ?_, hend⟩
      intro other
      rw [hmem other]
      simp only [spentBy, List.filterMap_cons, List.cons_append, List.mem_append,
        List.mem_cons]
      tauto
  | @create v v1 tx log _ ih =>
      intro spent htracks hnodup hentries
      have hcreated : createdBy (UndoStep.remove tx :: log) = tx.hash :: createdBy log := rfl
      rw [hcreated] at htracks hnodup
      rcases List.nodup_cons.mp hnodup with ⟨hnew, hnodup'⟩
      exact ih spent (tracks_create htracks hnew (hentries tx List.mem_cons_self)) hnodup'
        (entriesOf_of_cons hentries)

/-- Heights of completely spent entries which an undo record can carry. -/
def HeightsComplete (entry : UInt256 -> CCoins) (spent : List COutPoint) : Prop :=
  forall out, out ∈ spent -> FullySpent entry spent out.hash ->
    0 < (entry out.hash).nHeight ∧ (entry out.hash).nHeight < 1073741824

/-- Entries whose other fields are in the range of their types. -/
structure EntriesInRange (entry : UInt256 -> CCoins) : Prop where
  version : forall txid, -2147483648 ≤ (entry txid).nVersion ∧
    (entry txid).nVersion < 2147483648
  scripts : forall txid nPos out, (entry txid).output? nPos = some out ->
    out.scriptPubKey.length ≤ MAX_SIZE

/-- Every record of the run is in range and holds an output of its entry. -/
theorem undoInRange_of_run {v v1 : state} {log : List UndoStep}
    (hrun : StepsRun nHeight v log v1) (hrange : EntriesInRange entry) :
    forall spent all, Tracks entry spent (createdBy log) v -> (createdBy log).Nodup ->
      EntriesOf nHeight entry log -> HeightsComplete entry all ->
      spentBy log ++ spent ⊆ all ->
      forall out undo, UndoStep.restore out undo ∈ log -> UndoInRange undo := by
  induction hrun with
  | nil =>
      intro spent all _ _ _ _ _ out undo hmem
      cases hmem
  | @spend v v' v1 out undo log hspend _ ih =>
      intro spent all htracks hnodup hentries hheights hsub other undo' hmem
      have hsub' : spentBy log ++ out :: spent ⊆ all := by
        intro o ho
        apply hsub
        simp only [spentBy, List.filterMap_cons, List.cons_append, List.mem_append,
          List.mem_cons] at ho ⊢
        tauto
      rcases List.mem_cons.mp hmem with heq | hlater
      · injection heq with hout hundo
        subst hout hundo
        rcases undo_of_spendInput hspend with ⟨_, hrecord⟩
        have hentryOut := output?_of_tracks htracks hspend
        have hmeta := metadata_of_tracks htracks hspend
        simp only [CCoins.metadata, Prod.mk.injEq] at hmeta
        have hscript := hrange.scripts other.hash other.n undo'.txout hentryOut
        cases hlast : (coinsAt v' other.hash).isPruned with
        | false =>
            rw [hlast, if_neg Bool.false_ne_true] at hrecord
            rw [hrecord]
            exact ⟨by simp, by simp, hscript⟩
        | true =>
            rw [hlast, if_pos rfl] at hrecord
            have honly := (onlyOutput_iff_isPruned hspend).mpr hlast
            have hfull : FullySpent entry all other.hash := fun nPos hne =>
              hsub' (List.mem_append.mpr (Or.inr
                ((onlyOutput_iff_of_tracks htracks hspend).mp honly nPos hne)))
            have hheight := hheights other
              (hsub' (List.mem_append.mpr (Or.inr List.mem_cons_self))) hfull
            rw [hrecord]
            refine ⟨?_, ?_, hscript⟩
            · show toUInt32 (coinsAt v other.hash).nHeight < 1073741824
              rw [hmeta.2.2.1]
              unfold toUInt32
              omega
            · show -2147483648 ≤ (coinsAt v other.hash).nVersion ∧
                (coinsAt v other.hash).nVersion < 2147483648
              rw [hmeta.2.2.2]
              exact hrange.version other.hash
      · exact ih (out :: spent) all (tracks_spend htracks hspend) hnodup
          (entriesOf_of_cons hentries) hheights hsub' other undo' hlater
  | @create v v1 tx log _ ih =>
      intro spent all htracks hnodup hentries hheights hsub other undo' hmem
      have hcreated : createdBy (UndoStep.remove tx :: log) = tx.hash :: createdBy log := rfl
      rw [hcreated] at htracks hnodup
      rcases List.nodup_cons.mp hnodup with ⟨hnew, hnodup'⟩
      rcases List.mem_cons.mp hmem with heq | hlater
      · cases heq
      · exact ih spent all (tracks_create htracks hnew (hentries tx List.mem_cons_self))
          hnodup' (entriesOf_of_cons hentries) hheights hsub other undo' hlater

/-- What is spent was an unspent output of its entry. -/
theorem output?_of_mem_spentBy {v v1 : state} {log : List UndoStep}
    (hrun : StepsRun nHeight v log v1) :
    forall spent, Tracks entry spent (createdBy log) v -> (createdBy log).Nodup ->
      EntriesOf nHeight entry log ->
      forall out, out ∈ spentBy log ->
        exists txout, (entry out.hash).output? out.n = some txout := by
  induction hrun with
  | nil =>
      intro spent _ _ _ out hmem
      cases hmem
  | @spend v v' v1 out undo log hspend _ ih =>
      intro spent htracks hnodup hentries other hmem
      rcases List.mem_cons.mp hmem with heq | hlater
      · rw [heq]
        exact ⟨undo.txout, output?_of_tracks htracks hspend⟩
      · exact ih (out :: spent) (tracks_spend htracks hspend) hnodup
          (entriesOf_of_cons hentries) other hlater
  | @create v v1 tx log _ ih =>
      intro spent htracks hnodup hentries other hmem
      have hcreated : createdBy (UndoStep.remove tx :: log) = tx.hash :: createdBy log := rfl
      rw [hcreated] at htracks hnodup
      rcases List.nodup_cons.mp hnodup with ⟨hnew, hnodup'⟩
      exact ih spent (tracks_create htracks hnew (hentries tx List.mem_cons_self)) hnodup'
        (entriesOf_of_cons hentries) other hmem

end Runs

/-!
# The entries of a block
-/

section Block

variable {v : state} {block : CBlock} {nHeight : Int}

theorem blockEntry_of_mem (hnodup : (block.vtx.map CTransaction.hash).Nodup)
    {tx : CTransaction} (htx : tx ∈ block.vtx) :
    blockEntry v block nHeight tx.hash = CCoins.fromTx tx nHeight := by
  unfold blockEntry
  cases hfind : block.vtx.find? fun t => t.hash == tx.hash with
  | none =>
      have hnone := List.find?_eq_none.mp hfind tx htx
      simp at hnone
  | some found =>
      have hhash : found.hash = tx.hash := by
        simpa using List.find?_some hfind
      have heq : found = tx := List.inj_on_of_nodup_map hnodup
        (List.mem_of_find?_eq_some hfind) htx hhash
      rw [heq]

theorem blockEntry_of_not_mem {txid : UInt256}
    (h : txid ∉ block.vtx.map CTransaction.hash) :
    blockEntry v block nHeight txid = coinsAt v txid := by
  unfold blockEntry
  have hfind : (block.vtx.find? fun tx => tx.hash == txid) = none := by
    rw [List.find?_eq_none]
    intro tx htx heq
    apply h
    have hhash : tx.hash = txid := by simpa using heq
    rw [← hhash]
    exact List.mem_map_of_mem htx
  rw [hfind]

theorem entriesInRange_blockEntry (hblock : BlockInRange block)
    (hversion : forall tx, tx ∈ block.vtx -> 0 ≤ tx.nVersion)
    (hstate : StateInRange v) : EntriesInRange (blockEntry v block nHeight) := by
  constructor
  · intro txid
    unfold blockEntry
    cases hfind : block.vtx.find? fun tx => tx.hash == txid with
    | none => exact hstate.version txid
    | some tx =>
        have hmem := List.mem_of_find?_eq_some hfind
        have hlow := hversion tx hmem
        have hhigh := hblock.version tx hmem
        show -2147483648 ≤ tx.nVersion ∧ tx.nVersion < 2147483648
        omega
  · intro txid nPos out
    unfold blockEntry
    cases hfind : block.vtx.find? fun tx => tx.hash == txid with
    | none => exact hstate.scripts txid nPos out
    | some tx =>
        intro hout
        exact hblock.scripts tx (List.mem_of_find?_eq_some hfind) out
          (mem_vout_of_output?_fromTx hout)

theorem tracks_start (habsent : forall tx, tx ∈ block.vtx ->
      (coinsAt v tx.hash).isPruned = true) :
    Tracks (blockEntry v block nHeight) [] (block.vtx.map CTransaction.hash) v := by
  constructor
  · intro txid hmem
    rcases List.mem_map.mp hmem with ⟨tx, htx, rfl⟩
    exact habsent tx htx
  · intro out hmem
    cases hmem
  · intro txid hnot nPos
    rw [if_neg List.not_mem_nil, blockEntry_of_not_mem hnot]
  · intro txid hnot _
    rw [blockEntry_of_not_mem hnot]

end Block

/-!
# The round trip
-/

/--
Disconnecting with the undo data off the disk is clean, gives every entry back in
all fields and resets the best block.
-/
def RoundTrips (ops : PubKeyOps) (v : state) (block : CBlock) (pprevHash : BlockHash)
    (nHeight : Int) (blockUndo : CBlockUndo) (v1 : state) : Prop :=
  exists stored v2, undoFromDisk ops blockUndo = some stored ∧
    disconnectBlock v1 block block.hash pprevHash nHeight stored = some (true, v2) ∧
    (forall txid, (coinsAt v2 txid).cleanup.same (coinsAt v txid).cleanup = true) ∧
    CoinsState.getBestBlock v2 = pprevHash.val

section RoundTrip

variable [LawfulCoinsState state] {v v' : state} {block : CBlock} {nHeight : Int}
  {blockUndo : CBlockUndo}

/-- Records of a run which fit the disk format are read back as they are stored. -/
theorem undoFromDisk_of_run (ops : PubKeyOps) (hblock : BlockInRange block)
    (hlength : blockUndo.vtxundo.length + 1 = block.vtx.length)
    (hfits : forall pair, pair ∈ undoPairs block.vtx blockUndo.vtxundo -> UndoFits pair)
    (hrecords : forall out undo, UndoStep.restore out undo ∈
      undoStepsOf (undoPairs block.vtx blockUndo.vtxundo) -> UndoInRange undo) :
    undoFromDisk ops blockUndo = some (storedBlockUndo blockUndo) := by
  have hsize := hblock.size
  apply undoFromDisk_eq ops (by omega)
  · intro txundo hmem
    rcases (mem_restore_of_mem hlength hfits hmem).1 with ⟨tx, htx, heq⟩
    rw [heq]
    exact hblock.inputs tx htx
  · intro txundo hmem undo hundo
    rcases (mem_restore_of_mem hlength hfits hmem).2 undo hundo with ⟨out, hout⟩
    exact hrecords out undo hout

/-- Disconnecting a connected block with undo data that fits it. -/
theorem disconnectBlock_eq (w : state) (nHeight : Int) (pprevHash : BlockHash)
    (hlength : blockUndo.vtxundo.length + 1 = block.vtx.length)
    (hfits : forall pair, pair ∈ undoPairs block.vtx blockUndo.vtxundo -> UndoFits pair) :
    disconnectBlock (CoinsState.setBestBlock w block.hash.val) block block.hash pprevHash
        nHeight blockUndo =
      some ((undoSteps nHeight (CoinsState.setBestBlock w block.hash.val)
          (undoStepsOf (undoPairs block.vtx blockUndo.vtxundo))).1,
        CoinsState.setBestBlock (undoSteps nHeight
          (CoinsState.setBestBlock w block.hash.val)
          (undoStepsOf (undoPairs block.vtx blockUndo.vtxundo))).2 pprevHash.val) := by
  have hsteps := disconnectTxs_eq nHeight (CoinsState.setBestBlock w block.hash.val)
    (undoPairs block.vtx blockUndo.vtxundo) hfits
  unfold undoPairs at hsteps
  unfold disconnectBlock
  rw [if_pos (LawfulCoinsState.getBestBlock_setBestBlock w block.hash.val
    block.hash.property).symm, if_pos hlength, hsteps]
  rfl

omit [LawfulCoinsState state] in
/-- Undo data with which disconnecting succeeds fits the block. -/
theorem undoFits_of_disconnectBlock {w : state} {pprevHash : BlockHash}
    {result : Bool × state} (hshape : block.CoinBaseFirst)
    (h : disconnectBlock w block block.hash pprevHash nHeight blockUndo = some result) :
    blockUndo.vtxundo.length + 1 = block.vtx.length ∧
      forall pair, pair ∈ undoPairs block.vtx blockUndo.vtxundo -> UndoFits pair := by
  unfold disconnectBlock at h
  split at h
  · split at h
    · rename_i _ hlength
      refine ⟨hlength, ?_⟩
      cases hsteps : disconnectTxs w nHeight
          (block.vtx.zip (none :: blockUndo.vtxundo.map some)) with
      | none =>
          rw [hsteps] at h
          cases h
      | some found =>
          have hlengths := lengths_of_disconnectTxs _ found hsteps
          unfold CBlock.CoinBaseFirst at hshape
          intro pair hmem
          unfold undoPairs at hmem
          cases hvtx : block.vtx with
          | nil =>
              rw [hvtx] at hshape
              exact absurd hshape id
          | cons first rest =>
              rw [hvtx] at hshape hmem hlengths
              rcases List.mem_cons.mp hmem with heq | hlater
              · rw [heq]
                exact hshape.1
              · rcases pair with ⟨tx, txundo⟩
                rcases List.of_mem_zip hlater with ⟨htx, hundo⟩
                rcases List.mem_map.mp hundo with ⟨found', _, hfound⟩
                subst hfound
                exact ⟨hshape.2 tx htx,
                  hlengths tx found' (List.mem_cons_of_mem _ hlater)⟩
    · cases h
  · cases h

theorem undoFits_stored {pairs : List (CTransaction × Option CTxUndo)}
    (h : forall pair, pair ∈ pairs -> UndoFits pair) :
    forall pair, pair ∈ pairs.map (fun pair => (pair.1, pair.2.map storedTxUndo)) ->
      UndoFits pair := by
  intro pair hmem
  rcases List.mem_map.mp hmem with ⟨⟨tx, txundo⟩, hold, rfl⟩
  have hfit := h (tx, txundo) hold
  cases txundo with
  | none => exact hfit
  | some txundo =>
      refine ⟨hfit.1, ?_⟩
      show (txundo.vprevout.map storedTxInUndo).length = tx.vin.length
      rw [List.length_map]
      exact hfit.2

theorem agree_of_cleanup_same {a b : CCoins} (h : a.cleanup.same b.cleanup = true) :
    CCoins.Agree a b :=
  agree_trans (agree_symm (agree_cleanup a)) (agree_trans (agree_of_same h) (agree_cleanup b))

/-- The log of a connected block, with everything the runs need to know about it. -/
structure BlockRun (v : state) (block : CBlock) (nHeight : Int) (log : List UndoStep)
    (v' : state) : Prop where
  run : StepsRun nHeight v log v'
  created : createdBy log = block.vtx.map CTransaction.hash
  spent : spentBy log = block.spentOutpoints
  nodup : (createdBy log).Nodup
  tracks : Tracks (blockEntry v block nHeight) [] (createdBy log) v
  checked : CheckedLog log
  entries : EntriesOf nHeight (blockEntry v block nHeight) log

theorem mem_vtx_of_remove {vtxundo : List CTxUndo} {tx : CTransaction}
    (hlength : vtxundo.length + 1 = block.vtx.length) :
    UndoStep.remove tx ∈ undoStepsOf (undoPairs block.vtx vtxundo) <-> tx ∈ block.vtx := by
  rw [mem_remove_iff, map_fst_undoPairs hlength]

omit [LawfulCoinsState state] in
theorem blockRun_of_steps {log : List UndoStep} {vtxundo : List CTxUndo}
    (hblock : BlockInRange block)
    (hversion : forall tx, tx ∈ block.vtx -> 0 ≤ tx.nVersion)
    (hnodup : (block.vtx.map CTransaction.hash).Nodup)
    (habsent : forall tx, tx ∈ block.vtx -> (coinsAt v tx.hash).isPruned = true)
    (hlog : log = undoStepsOf (undoPairs block.vtx vtxundo))
    (hlength : vtxundo.length + 1 = block.vtx.length)
    (hfits : forall pair, pair ∈ undoPairs block.vtx vtxundo -> UndoFits pair)
    (hrun : StepsRun nHeight v log v') : BlockRun v block nHeight log v' := by
  have hcreated : createdBy log = block.vtx.map CTransaction.hash := by
    rw [hlog]
    exact createdBy_undoPairs hlength
  have hmem : forall tx, UndoStep.remove tx ∈ log -> tx ∈ block.vtx := by
    intro tx htx
    rw [hlog] at htx
    exact (mem_vtx_of_remove hlength).mp htx
  refine ⟨hrun, hcreated, ?_, ?_, ?_, ?_, ?_⟩
  · rw [hlog, spentBy_undoStepsOf _ hfits, map_fst_undoPairs hlength]
    rfl
  · rw [hcreated]
    exact hnodup
  · rw [hcreated]
    exact tracks_start habsent
  · intro tx htx
    exact ⟨hversion tx (hmem tx htx), hblock.values tx (hmem tx htx)⟩
  · intro tx htx
    exact blockEntry_of_mem hnodup (hmem tx htx)

/-- An entry which the block spends completely has nothing left after it. -/
theorem isPruned_of_fullySpent {log : List UndoStep}
    (h : BlockRun v block nHeight log v') {txid : UInt256}
    (hfull : FullySpent (blockEntry v block nHeight) block.spentOutpoints txid) :
    (coinsAt v' txid).isPruned = true := by
  rcases tracks_of_run h.run [] h.tracks h.nodup h.entries with ⟨spent', hmem, hend⟩
  rw [isPruned_iff]
  intro nPos
  rw [hend.outputs txid List.not_mem_nil nPos]
  by_cases hnone : (blockEntry v block nHeight txid).output? nPos = none
  · rw [hnone, ite_self]
  · have hspent := hfull nPos hnone
    rw [← h.spent] at hspent
    rw [if_pos ((hmem _).mpr (List.mem_append.mpr (Or.inl hspent)))]

/-- Whatever came off the disk, a clean result shows that heights were in range. -/
theorem heightsComplete_of_clean {log log' : List UndoStep} {w : state}
    (h : BlockRun v block nHeight log v')
    (hversion : forall tx, tx ∈ block.vtx -> 0 ≤ tx.nVersion)
    (hw : forall txid, coinsAt w txid = coinsAt v' txid)
    (hremove : forall tx, tx ∈ block.vtx -> UndoStep.remove tx ∈ log')
    (hheights : HeightsInRange log')
    (hclean : (undoSteps nHeight w log').1 = true)
    (hagree : StateAgree (undoSteps nHeight w log').2 v) :
    HeightsComplete (blockEntry v block nHeight) block.spentOutpoints := by
  intro out hout hfull
  have hpruned := isPruned_of_fullySpent h hfull
  have hstart : HeightStored (coinsAt w out.hash) := by
    rw [hw]
    exact Or.inl hpruned
  rw [← h.spent] at hout
  rcases output?_of_mem_spentBy h.run [] h.tracks h.nodup h.entries out hout with
    ⟨txout, htxout⟩
  have hunpruned : (blockEntry v block nHeight out.hash).isPruned = false :=
    (isPruned_eq_false_iff _).mpr ⟨out.n, txout, htxout⟩
  have hstored : HeightStored (blockEntry v block nHeight out.hash) := by
    by_cases hmem : out.hash ∈ block.vtx.map CTransaction.hash
    · rcases List.mem_map.mp hmem with ⟨tx, htx, hhash⟩
      have hentry : blockEntry v block nHeight out.hash = CCoins.fromTx tx nHeight := by
        rw [← hhash]
        apply blockEntry_of_mem _ htx
        rw [← h.created]
        exact h.nodup
      rw [hentry]
      rw [← hhash] at hstart
      exact heightStored_fromTx log' hheights (hversion tx htx) (hremove tx htx) hstart
        hclean
    · rw [blockEntry_of_not_mem hmem] at hunpruned ⊢
      right
      have hend := heightStored_undoSteps log' hheights hstart hclean
      have hmeta := (hagree out.hash).2 hunpruned
      simp only [CCoins.metadata, Prod.mk.injEq] at hmeta
      rw [← hmeta.2.2.1]
      apply hend.resolve_left
      rw [isPruned_eq_of_agree (hagree out.hash), hunpruned]
      exact Bool.false_ne_true
  exact hstored.resolve_left (by rw [hunpruned]; exact Bool.false_ne_true)

/-- Records of a block whose completely spent entries have heights in range. -/
theorem undoInRange_of_blockRun {log : List UndoStep}
    (h : BlockRun v block nHeight log v') (hrange : EntriesInRange (blockEntry v block nHeight))
    (hheights : HeightsComplete (blockEntry v block nHeight) block.spentOutpoints) :
    forall out undo, UndoStep.restore out undo ∈ log -> UndoInRange undo := by
  apply undoInRange_of_run h.run hrange [] block.spentOutpoints h.tracks h.nodup h.entries
    hheights
  rw [List.append_nil, h.spent]
  exact List.Subset.refl _

theorem undoStepsOf_undoPairs_stored (vtx : List CTransaction) (vtxundo : List CTxUndo) :
    undoStepsOf (undoPairs vtx (vtxundo.map storedTxUndo)) =
      (undoStepsOf (undoPairs vtx vtxundo)).map storedStep := by
  rw [undoPairs_stored]
  exact undoStepsOf_stored _

/-- Undo data off the disk with which disconnecting works out was complete. -/
theorem undoComplete_of_clean {log : List UndoStep} {w : state}
    (h : BlockRun v block nHeight log v')
    (habsent : forall tx, tx ∈ block.vtx -> (coinsAt v tx.hash).isPruned = true)
    (hrecords : HeightsInRange log)
    (hw : forall txid, coinsAt w txid = coinsAt v' txid)
    (hclean : (undoSteps nHeight w (log.map storedStep)).1 = true)
    (hagree : StateAgree (undoSteps nHeight w (log.map storedStep)).2 v) :
    UndoComplete (blockEntry v block nHeight) block.spentOutpoints := by
  have hspendable : forall txid, txid ∈ createdBy log -> (coinsAt v txid).Spendable := by
    intro txid hmem
    rw [h.created] at hmem
    rcases List.mem_map.mp hmem with ⟨tx, htx, rfl⟩
    exact spendable_of_isPruned (habsent tx htx)
  rcases spendable_of_run h.run _ hspendable with ⟨hlogSpendable, hendSpendable⟩
  have hend : forall txid, txid ∈ createdBy log -> (coinsAt w txid).Spendable := by
    intro txid hmem
    rw [hw]
    exact hendSpendable txid hmem
  have hresult := (undoComplete_of_undoSteps h.run [] h.tracks h.nodup h.checked h.entries
    hrecords hlogSpendable (List.Subset.refl _) w hend hclean hagree).2
  rw [List.append_nil, h.spent] at hresult
  exact hresult

theorem undoComplete_of_roundTrips {ops : PubKeyOps} {pprevHash : BlockHash} {v1 : state}
    (hblock : BlockInRange block) (hstate : StateInRange v)
    (hversion : forall tx, tx ∈ block.vtx -> 0 ≤ tx.nVersion)
    (hnodup : (block.vtx.map CTransaction.hash).Nodup)
    (habsent : forall tx, tx ∈ block.vtx -> (coinsAt v tx.hash).isPruned = true)
    (hconnect : connectCoins v block nHeight = some (blockUndo, v1)) :
    RoundTrips ops v block pprevHash nHeight blockUndo v1 ->
      UndoComplete (blockEntry v block nHeight) block.spentOutpoints := by
  rcases stepsRun_connectCoins hblock.coinBaseFirst hconnect with
    ⟨v', rfl, hlength, hfits, hrun⟩
  have hblockRun := blockRun_of_steps hblock hversion hnodup habsent rfl hlength hfits hrun
  have hrange : EntriesInRange (blockEntry v block nHeight) :=
    entriesInRange_blockEntry hblock hversion hstate
  have hsame : forall txid, coinsAt (CoinsState.setBestBlock v' block.hash.val) txid =
      coinsAt v' txid := fun txid =>
    LawfulCoinsState.coinsAt_setBestBlock v' block.hash.val txid
  rintro ⟨stored, v2, hdisk, hdisconnect, hentries, _⟩
  rcases undoFits_of_disconnectBlock hblock.coinBaseFirst hdisconnect with
    ⟨hlength', hfits'⟩
  rw [disconnectBlock_eq v' nHeight pprevHash hlength' hfits'] at hdisconnect
  injection hdisconnect with hdisconnect
  injection hdisconnect with hclean hv2
  have hagree : StateAgree (undoSteps nHeight
      (CoinsState.setBestBlock v' block.hash.val)
      (undoStepsOf (undoPairs block.vtx stored.vtxundo))).2 v := by
    intro txid
    have hentry := agree_of_cleanup_same (hentries txid)
    rw [← hv2, LawfulCoinsState.coinsAt_setBestBlock] at hentry
    exact hentry
  have hheights : HeightsInRange (undoStepsOf (undoPairs block.vtx stored.vtxundo)) := by
    intro out undo hmem
    rcases mem_restore_iff.mp hmem with ⟨tx, txundo, hpair, hzip⟩
    exact nHeight_of_undoFromDisk hdisk txundo (mem_vtxundo_of_mem_undoPairs hpair).2
      undo (List.of_mem_zip hzip).2
  have hcomplete := heightsComplete_of_clean hblockRun hversion hsame
    (fun tx htx => (mem_vtx_of_remove hlength').mpr htx) hheights hclean hagree
  have hrecords := undoInRange_of_blockRun hblockRun hrange hcomplete
  -- the records were in range, so what came back is what was stored
  have hstored : stored.vtxundo = blockUndo.vtxundo.map storedTxUndo := by
    rw [undoFromDisk_of_run ops hblock hlength hfits hrecords] at hdisk
    rw [← Option.some.inj hdisk]
    rfl
  rw [hstored, undoStepsOf_undoPairs_stored] at hclean hagree
  exact undoComplete_of_clean hblockRun habsent
    (fun out undo hmem => (hrecords out undo hmem).height) hsame hclean hagree

theorem roundTrips_of_undoComplete (ops : PubKeyOps) (pprevHash : BlockHash) {v1 : state}
    (hblock : BlockInRange block) (hstate : StateInRange v)
    (hversion : forall tx, tx ∈ block.vtx -> 0 ≤ tx.nVersion)
    (hnodup : (block.vtx.map CTransaction.hash).Nodup)
    (habsent : forall tx, tx ∈ block.vtx -> (coinsAt v tx.hash).isPruned = true)
    (hconnect : connectCoins v block nHeight = some (blockUndo, v1))
    (hcomplete : UndoComplete (blockEntry v block nHeight) block.spentOutpoints) :
    RoundTrips ops v block pprevHash nHeight blockUndo v1 := by
  rcases stepsRun_connectCoins hblock.coinBaseFirst hconnect with
    ⟨v', rfl, hlength, hfits, hrun⟩
  have hblockRun := blockRun_of_steps hblock hversion hnodup habsent rfl hlength hfits hrun
  have hrange : EntriesInRange (blockEntry v block nHeight) :=
    entriesInRange_blockEntry hblock hversion hstate
  have hsame : forall txid, coinsAt (CoinsState.setBestBlock v' block.hash.val) txid =
      coinsAt v' txid := fun txid =>
    LawfulCoinsState.coinsAt_setBestBlock v' block.hash.val txid
  have hheights : HeightsComplete (blockEntry v block nHeight) block.spentOutpoints := by
    intro out hout hfull
    have hmeta := (hcomplete out hout).2 hfull
    exact ⟨hmeta.height_pos, hmeta.height_lt⟩
  have hrecords := undoInRange_of_blockRun hblockRun hrange hheights
  have hstart : StateAgree (CoinsState.setBestBlock v' block.hash.val) v' := by
    intro txid
    rw [hsame]
    exact agree_refl _
  have hcanonical : StateCanonical (CoinsState.setBestBlock v' block.hash.val) := by
    intro txid
    rw [hsame]
    exact stateCanonical_of_run hrun hblockRun.checked hstate.canonical txid
  have hall : UndoComplete (blockEntry v block nHeight)
      (spentBy (undoStepsOf (undoPairs block.vtx blockUndo.vtxundo)) ++ []) := by
    rw [List.append_nil, hblockRun.spent]
    exact hcomplete
  rcases undoSteps_of_undoComplete hrun [] hblockRun.tracks hblockRun.nodup
      hblockRun.checked hblockRun.entries hall _ hstart hcanonical with
    ⟨hclean, hagree, hcanonical'⟩
  rw [← undoStepsOf_undoPairs_stored] at hclean hagree hcanonical'
  have hlength' : (storedBlockUndo blockUndo).vtxundo.length + 1 = block.vtx.length := by
    show (blockUndo.vtxundo.map storedTxUndo).length + 1 = block.vtx.length
    rw [List.length_map]
    exact hlength
  have hfits' : forall pair, pair ∈ undoPairs block.vtx
      (storedBlockUndo blockUndo).vtxundo -> UndoFits pair := by
    show forall pair, pair ∈ undoPairs block.vtx (blockUndo.vtxundo.map storedTxUndo) -> _
    rw [undoPairs_stored]
    exact undoFits_stored hfits
  refine ⟨storedBlockUndo blockUndo,
    CoinsState.setBestBlock (undoSteps nHeight
      (CoinsState.setBestBlock v' block.hash.val)
      (undoStepsOf (undoPairs block.vtx (blockUndo.vtxundo.map storedTxUndo)))).2
      pprevHash.val,
    undoFromDisk_of_run ops hblock hlength hfits hrecords, ?_, ?_,
    LawfulCoinsState.getBestBlock_setBestBlock _ _ pprevHash.property⟩
  · have heq := disconnectBlock_eq v' nHeight pprevHash hlength' hfits'
    change _ = some ((undoSteps nHeight (CoinsState.setBestBlock v' block.hash.val)
      (undoStepsOf (undoPairs block.vtx
        (blockUndo.vtxundo.map storedTxUndo)))).1, _) at heq
    rw [hclean] at heq
    exact heq
  · intro txid
    rw [LawfulCoinsState.coinsAt_setBestBlock]
    exact (same_cleanup_iff_agree (hcanonical' txid) (hstate.canonical txid)).mpr
      (hagree txid)

/--
The round trip holds exactly when the undo data of the block is complete: each
spent output survives the disk format, and each entry which the block spends
completely is not a coinstake, has a height in (0, 2^30) and a non-negative
version.
-/
theorem roundTrips_iff_undoComplete (ops : PubKeyOps) (v v1 : state) (block : CBlock)
    (pprevHash : BlockHash) (nHeight : Int) (blockUndo : CBlockUndo)
    (hblock : BlockInRange block) (hstate : StateInRange v)
    (hversion : forall tx, tx ∈ block.vtx -> 0 ≤ tx.nVersion)
    (hnodup : (block.vtx.map CTransaction.hash).Nodup)
    (habsent : forall tx, tx ∈ block.vtx -> (coinsAt v tx.hash).isPruned = true)
    (hconnect : connectCoins v block nHeight = some (blockUndo, v1)) :
    RoundTrips ops v block pprevHash nHeight blockUndo v1 <->
      UndoComplete (blockEntry v block nHeight) block.spentOutpoints := by
  constructor
  · exact undoComplete_of_roundTrips hblock hstate hversion hnodup habsent hconnect
  · exact roundTrips_of_undoComplete ops pprevHash hblock hstate hversion hnodup habsent
      hconnect

end RoundTrip

/-!
# Examples

A block which spends the only output of an entry.  The entry comes back unless it
belongs to a coinstake.
-/

namespace RoundTripExample

theorem decompress_of_isFullyValid (x y : List UInt8) (parity : UInt8) (_ : x.length = 32)
    (_ : y.length = 31) (hvalid : false = true) :
    (none : Option (List UInt8)) = some (4 :: x ++ (y ++ [parity])) := by
  cases hvalid

def noFullKeys : PubKeyOps where
  isFullyValid := fun _ => false
  decompress := fun _ => none
  decompress_valid := decompress_of_isFullyValid

def entry (fCoinStake : Bool) : CCoins :=
  { fCoinStake := fCoinStake, vout := [CTxOut.make 5 []], nHeight := 1, nVersion := 1 }

def view (fCoinStake : Bool) : CoinsMap where
  coins := fun txid => if txid = 1 then entry fCoinStake else CCoins.empty
  bestBlock := 10

def coinBase : CTransaction where
  hash := 2
  nVersion := 1
  vin := [{ prevout := { hash := 0, n := 0xffffffff }, scriptSig := [], nSequence := 0 }]
  vout := [CTxOut.make 1 []]
  nLockTime := 0

def spending : CTransaction where
  hash := 3
  nVersion := 1
  vin := [{ prevout := { hash := 1, n := 0 }, scriptSig := [], nSequence := 0 }]
  vout := [CTxOut.make 4 []]
  nLockTime := 0

def block : CBlock where
  hash := ⟨11, by decide⟩
  nVersion := 3
  hashPrevBlock := 10
  hashMerkleRoot := 0
  nTime := 0
  nBits := 0
  nNonce := 0
  vtx := [coinBase, spending]
  vchBlockSig := []

theorem blockInRange : BlockInRange block where
  coinBaseFirst := by
    refine ⟨rfl, ?_⟩
    intro tx htx
    rw [List.mem_singleton.mp htx]
    rfl
  size := by decide
  inputs := by decide
  version := by decide
  values := by decide
  scripts := by decide

theorem coinsAt_view (fCoinStake : Bool) (txid : UInt256) :
    coinsAt (view fCoinStake) txid =
      if txid = 1 then entry fCoinStake else CCoins.empty := rfl

theorem stateInRange (fCoinStake : Bool) : StateInRange (view fCoinStake) := by
  constructor
  · intro txid _ out hout hnull
    rw [coinsAt_view] at hout
    split at hout
    · rw [List.mem_singleton.mp hout] at hnull
      cases hnull
    · cases hout
  · intro txid
    rw [coinsAt_view]
    split
    · show -2147483648 ≤ (1 : Int) ∧ (1 : Int) < 2147483648
      decide
    · show -2147483648 ≤ (0 : Int) ∧ (0 : Int) < 2147483648
      decide
  · intro txid nPos out hout
    rw [coinsAt_view] at hout
    split at hout
    · have hmem := List.mem_of_getElem? ((output?_eq_some_iff _ _ _).mp hout).1
      rw [List.mem_singleton.mp hmem]
      exact Nat.zero_le _
    · cases hout

theorem absent (fCoinStake : Bool) :
    forall tx, tx ∈ block.vtx -> (coinsAt (view fCoinStake) tx.hash).isPruned = true := by
  intro tx htx
  rcases List.mem_cons.mp htx with heq | hlater
  · rw [heq]
    rfl
  · rw [List.mem_singleton.mp hlater]
    rfl

theorem spentOutpoints_block : block.spentOutpoints = [{ hash := 1, n := 0 }] := rfl

theorem blockEntry_spent (fCoinStake : Bool) :
    blockEntry (view fCoinStake) block 5 1 = entry fCoinStake := rfl

theorem complete_of_not_coinStake :
    UndoComplete (blockEntry (view false) block 5) block.spentOutpoints := by
  intro out hout
  rw [spentOutpoints_block] at hout
  rw [List.mem_singleton.mp hout]
  show (forall txout, (blockEntry (view false) block 5 1).output? 0 = some txout ->
    storedTxOut txout = txout) ∧ (_ -> (blockEntry (view false) block 5 1).MetadataStored)
  rw [blockEntry_spent]
  constructor
  · intro txout htxout
    have heq : CTxOut.make 5 [] = txout := Option.some.inj htxout
    rw [← heq]
    exact storedTxOut_of_range (by decide) (by decide) rfl
  · intro _
    exact ⟨rfl, by decide, by decide, by decide⟩

theorem fullySpent_one (fCoinStake : Bool) :
    FullySpent (blockEntry (view fCoinStake) block 5) block.spentOutpoints 1 := by
  intro nPos hne
  rw [blockEntry_spent] at hne
  cases nPos with
  | zero =>
      rw [spentOutpoints_block]
      exact List.mem_singleton.mpr rfl
  | succ nPos => exact absurd rfl hne

end RoundTripExample

open RoundTripExample in
/-- Spending an ordinary entry is undone completely. -/
theorem roundTrips_iff_undoComplete_plain :
    exists blockUndo v1, connectCoins (view false) block 5 = some (blockUndo, v1) ∧
      RoundTrips noFullKeys (view false) block ⟨10, by decide⟩ 5 blockUndo v1 := by
  refine ⟨_, _, rfl, ?_⟩
  exact (roundTrips_iff_undoComplete noFullKeys (view false) _ block ⟨10, by decide⟩ 5 _
    blockInRange (stateInRange false) (by decide) (by decide) (absent false) rfl).mpr
    complete_of_not_coinStake

open RoundTripExample in
/-- A coinstake's entry does not come back as it was: its flag is lost. -/
theorem not_roundTrips_coinStake :
    (block.vtx.map CTransaction.hash).Nodup ∧
      (forall tx, tx ∈ block.vtx -> 0 ≤ tx.nVersion) ∧
      (forall tx, tx ∈ block.vtx -> (coinsAt (view true) tx.hash).isPruned = true) ∧
      exists blockUndo v1, connectCoins (view true) block 5 = some (blockUndo, v1) ∧
        ¬ RoundTrips noFullKeys (view true) block ⟨10, by decide⟩ 5 blockUndo v1 := by
  refine ⟨by decide, by decide, absent true, _, _, rfl, ?_⟩
  intro hround
  have hcomplete := undoComplete_of_roundTrips blockInRange (stateInRange true) (by decide)
    (by decide) (absent true) rfl hround
  have hmeta := (hcomplete { hash := 1, n := 0 } (List.mem_singleton.mpr rfl)).2
    (fullySpent_one true)
  have hstake := hmeta.notCoinStake
  cases hstake

end Hbcur
