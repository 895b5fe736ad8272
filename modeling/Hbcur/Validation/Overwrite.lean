import Hbcur.Foundation.Run
import Hbcur.Validation.Supply
import Hbcur.Validation.Unspent

/-!
# Overwriting unspent transactions

`ConnectTip` and `DisconnectTip` as steps of the active chain.  `ConnectBlock`
refuses to overwrite an unspent transaction only for a block without a hash, so for
a block of the chain it depends on its transactions whether one is overwritten.
-/

namespace Hbcur

open Foundation CCoins

variable {state : Type} [CoinsState state]

/-!
# The active chain
-/

/-- The blocks above the genesis block, the last one first, and the coins. -/
structure ActiveChain (state : Type) where
  root : PrevIndex
  blocks : List (CBlock × PrevIndex)
  coins : state

namespace ActiveChain

def tip (s : ActiveChain state) : PrevIndex :=
  match s.blocks with
  | [] => s.root
  | (_, index) :: _ => index

/-- All transactions of the chain in the order in which they were connected. -/
def ledger (s : ActiveChain state) : List CTransaction :=
  s.blocks.reverse.flatMap fun entry => entry.1.vtx

def nextIndex (s : ActiveChain state) (block : CBlock) : PIndex :=
  { phashBlock := some block.hash
    nHeight := s.tip.nHeight + 1
    nTime := block.nTime
    pprev := some s.tip }

/-- `ConnectTip`; the genesis block has no predecessor and never comes here. -/
def connectTip (s : ActiveChain state) (node : NodeState) (vstate : CValidationState)
    (block : CBlock) : Option (ActiveChain state) :=
  if block.hash = node.params.hashGenesisBlock then none
  else
    match connectBlock node vstate s.coins block (s.nextIndex block) false with
    | Except.error _ => none
    | Except.ok c => some
        { s with
          blocks := (block,
            { hash := block.hash
              nHeight := s.tip.nHeight + 1
              nMoneySupply := c.nMoneySupply }) :: s.blocks
          coins := c.view }

/-- `DisconnectTip` with the undo data found on disk. -/
def disconnectTip (s : ActiveChain state) (blockUndo : CBlockUndo) :
    Option (ActiveChain state) :=
  match s.blocks with
  | [] => none
  | (block, index) :: rest =>
      let s' := { s with blocks := rest }
      match disconnectBlock s.coins block index.hash s'.tip.hash index.nHeight blockUndo with
      | some (true, v) => some { s' with coins := v }
      | _ => none

end ActiveChain

inductive ChainStep where
  | connect (node : NodeState) (vstate : CValidationState) (block : CBlock)
  | disconnect (blockUndo : CBlockUndo)

/-- No transaction finds an entry with unspent outputs under its own identifier. -/
def NoOverwrite (v : state) (nHeight : Int) (txs : List CTransaction) : Prop :=
  forall before tx after undos w, txs = before ++ tx :: after ->
    updateCoinsAll v nHeight before = some (undos, w) ->
    (coinsAt w tx.hash).isPruned = true

/-- Transactions with the same identifier have the same inputs. -/
def TxIdsDistinguish (known : List CTransaction) (txs : List CTransaction) : Prop :=
  forall tx, tx ∈ txs -> forall other, other ∈ known ++ txs ->
    tx.hash = other.hash -> tx.vin = other.vin

/-- The coinbase of a block to be connected is not one of the chain's transactions. -/
def CoinBaseFresh (s : ActiveChain state) (block : CBlock) : Prop :=
  forall tx, tx ∈ block.vtx -> tx.isCoinBase = true ->
    tx.hash ∉ s.ledger.map CTransaction.hash

def freshSteps (s : ActiveChain state) : ChainStep -> Prop
  | ChainStep.connect _ _ block =>
      CoinBaseFresh s block ∧ TxIdsDistinguish s.ledger block.vtx
  | ChainStep.disconnect _ => True

/-!
# What the ledger says about the coins
-/

def spentBefore (ledger : List CTransaction) : List COutPoint :=
  ledger.flatMap CTransaction.spends

/-- A bound on the unspent outputs, and no identifier or outpoint used twice. -/
structure LedgerBounds (ledger : List CTransaction) (v : state) : Prop where
  unspent : forall out txout, unspentAt v out = some txout ->
    out.hash ∈ ledger.map CTransaction.hash ∧ out ∉ spentBefore ledger
  txids : (ledger.map CTransaction.hash).Nodup
  spent : (spentBefore ledger).Nodup
  earlier : forall before tx after, ledger = before ++ tx :: after ->
    forall out, out ∈ tx.spends -> out.hash ∈ before.map CTransaction.hash

theorem spentBefore_append (xs ys : List CTransaction) :
    spentBefore (xs ++ ys) = spentBefore xs ++ spentBefore ys :=
  List.flatMap_append

@[simp] theorem spentBefore_singleton (tx : CTransaction) :
    spentBefore [tx] = tx.spends := by
  simp [spentBefore]

namespace LedgerBounds

variable {ledger : List CTransaction} {v : state}

theorem isPruned_of_fresh (h : LedgerBounds ledger v) {txid : UInt256}
    (hfresh : txid ∉ ledger.map CTransaction.hash) : (coinsAt v txid).isPruned = true := by
  rw [isPruned_iff_unspentAt]
  intro n
  rw [Option.eq_none_iff_forall_ne_some]
  intro txout hout
  exact hfresh (h.unspent _ _ hout).1

/-- Everything spent was created before. -/
theorem hash_mem_of_spent (h : LedgerBounds ledger v) {out : COutPoint}
    (hmem : out ∈ spentBefore ledger) : out.hash ∈ ledger.map CTransaction.hash := by
  rcases List.mem_flatMap.mp hmem with ⟨tx, htx, hout⟩
  rcases List.append_of_mem htx with ⟨before, after, hsplit⟩
  have hbefore := h.earlier before tx after hsplit out hout
  rw [hsplit, List.map_append]
  exact List.mem_append_left _ hbefore

/-- The bounds of a ledger without its last transaction, except for the coins. -/
theorem of_append {tx : CTransaction} (h : LedgerBounds (ledger ++ [tx]) v) {w : state}
    (hunspent : forall out txout, unspentAt w out = some txout ->
      out.hash ∈ ledger.map CTransaction.hash ∧ out ∉ spentBefore ledger) :
    LedgerBounds ledger w := by
  have htxids := h.txids
  have hspent := h.spent
  rw [List.map_append] at htxids
  rw [spentBefore_append] at hspent
  refine ⟨hunspent, (List.nodup_append.mp htxids).1, (List.nodup_append.mp hspent).1, ?_⟩
  intro before t after hsplit out hout
  refine h.earlier before t (after ++ [tx]) ?_ out hout
  rw [hsplit, List.append_assoc, List.cons_append]

end LedgerBounds

/-!
# Connecting a transaction
-/

section Connect

variable [LawfulCoinsState state] {ledger : List CTransaction} {v v' : state}
  {tx : CTransaction} {nHeight : Int} {undo : CTxUndo}

/-- A transaction whose inputs are unspent is new unless it is a coinbase. -/
theorem fresh_of_updateCoins (h : LedgerBounds ledger v) (hvin : tx.vin ≠ [])
    (hcb : tx.isCoinBase = false)
    (hsame : forall other, other ∈ ledger -> tx.hash = other.hash -> tx.vin = other.vin)
    (hupdate : updateCoins v tx nHeight = some (undo, v')) :
    tx.hash ∉ ledger.map CTransaction.hash := by
  intro hmem
  rcases List.mem_map.mp hmem with ⟨other, hother, hhash⟩
  have hvinEq := hsame other hother hhash.symm
  have hspends : tx.spends = other.spends := by
    unfold CTransaction.spends CTransaction.isCoinBase CTransaction.prevouts
    rw [hvinEq]
  cases hins : tx.vin with
  | nil =>
      exact hvin hins
  | cons txin rest =>
      have hin : txin.prevout ∈ tx.spends := by
        unfold CTransaction.spends CTransaction.prevouts
        rw [if_neg (by rw [hcb]; exact Bool.false_ne_true), hins, List.map_cons]
        exact List.mem_cons_self
      rcases (unspentAt_updateCoins hupdate).2 txin.prevout hin with ⟨txout, hout⟩
      apply (h.unspent _ _ hout).2
      rw [hspends] at hin
      exact List.mem_flatMap.mpr ⟨other, hother, hin⟩

theorem ledgerBounds_updateCoins (h : LedgerBounds ledger v)
    (hfresh : tx.hash ∉ ledger.map CTransaction.hash) (hnodup : tx.spends.Nodup)
    (hupdate : updateCoins v tx nHeight = some (undo, v')) :
    LedgerBounds (ledger ++ [tx]) v' := by
  rcases unspentAt_updateCoins hupdate with ⟨hafter, hbefore⟩
  have hspendsOld : forall out, out ∈ tx.spends ->
      out.hash ∈ ledger.map CTransaction.hash ∧ out ∉ spentBefore ledger := by
    intro out hmem
    rcases hbefore out hmem with ⟨txout, hout⟩
    exact h.unspent out txout hout
  constructor
  · intro out txout hout
    rw [hafter out] at hout
    rw [List.map_append, spentBefore_append, spentBefore_singleton, List.mem_append,
      List.mem_append]
    split_ifs at hout with hhash hspent
    · refine ⟨Or.inr (List.mem_singleton.mpr hhash), ?_⟩
      rintro (hold | hnew)
      · exact hfresh (hhash ▸ h.hash_mem_of_spent hold)
      · exact hfresh (hhash ▸ (hspendsOld out hnew).1)
    · refine ⟨Or.inl (h.unspent out txout hout).1, ?_⟩
      rintro (hold | hnew)
      · exact (h.unspent out txout hout).2 hold
      · exact hspent hnew
  · rw [List.map_append, List.nodup_append]
    refine ⟨h.txids, List.nodup_singleton _, ?_⟩
    intro txid hold other hnew heq
    rw [List.map_singleton, List.mem_singleton] at hnew
    exact hfresh (hnew ▸ heq ▸ hold)
  · rw [spentBefore_append, spentBefore_singleton, List.nodup_append]
    refine ⟨h.spent, hnodup, ?_⟩
    intro out hold other hnew heq
    exact (hspendsOld other hnew).2 (heq ▸ hold)
  · intro before t after hsplit out hout
    rcases List.eq_nil_or_concat after with rfl | ⟨after', last, rfl⟩
    · -- the transaction found is the new one
      rcases List.append_inj' hsplit rfl with ⟨hledger, hlast⟩
      injection hlast with htx _
      rw [← hledger]
      rw [← htx] at hout
      exact (hspendsOld out hout).1
    · rw [List.concat_eq_append, ← List.cons_append, ← List.append_assoc] at hsplit
      exact h.earlier before t after' (List.append_inj' hsplit rfl).1 out hout

end Connect

/-!
# Connecting a block
-/

section ConnectBlock

variable [LawfulCoinsState state] {nHeight : Int}

theorem spends_nodup {params : CChainParams} {tx : CTransaction}
    (h : CheckedTransaction params tx) : tx.spends.Nodup := by
  unfold CTransaction.spends
  split_ifs
  · exact List.nodup_nil
  · exact h.nodup

omit [LawfulCoinsState state] in
theorem noOverwrite_cons {v v1 : state} {tx : CTransaction} {rest : List CTransaction}
    {undo : CTxUndo} (hpruned : (coinsAt v tx.hash).isPruned = true)
    (hone : updateCoins v tx nHeight = some (undo, v1))
    (hrest : NoOverwrite v1 nHeight rest) : NoOverwrite v nHeight (tx :: rest) := by
  intro before t after undos w hsplit hbefore
  cases before with
  | nil =>
      injection hsplit with ht _
      cases hbefore
      rw [← ht]
      exact hpruned
  | cons first others =>
      injection hsplit with hfirst hothers
      subst hfirst
      rcases updateCoinsAll_cons hbefore with ⟨undo', v1', undos', hone', hothersRun, _⟩
      rw [hone, Option.some.injEq, Prod.mk.injEq] at hone'
      rw [← hone'.2] at hothersRun
      exact hrest others t after undos' w hothers hothersRun

/-- Transactions with inputs are new, one after another. -/
theorem ledgerBounds_updateCoinsAll {params : CChainParams} :
    forall (txs : List CTransaction) {ledger : List CTransaction} {v v' : state}
      {undos : List CTxUndo}, LedgerBounds ledger v ->
      (forall tx, tx ∈ txs -> CheckedTransaction params tx) ->
      (forall tx, tx ∈ txs -> tx.isCoinBase = false) ->
      TxIdsDistinguish ledger txs ->
      updateCoinsAll v nHeight txs = some (undos, v') ->
      LedgerBounds (ledger ++ txs) v' ∧ NoOverwrite v nHeight txs := by
  intro txs
  induction txs with
  | nil =>
      intro ledger v v' undos h _ _ _ hall
      cases hall
      rw [List.append_nil]
      refine ⟨h, ?_⟩
      intro before tx after _ _ hsplit
      cases before <;> cases hsplit
  | cons tx rest ih =>
      intro ledger v v' undos h hchecked hcb hdistinct hall
      have htx := hchecked tx List.mem_cons_self
      rcases updateCoinsAll_cons hall with ⟨undo, v1, undos', hone, hrest, _⟩
      have hfresh := fresh_of_updateCoins h htx.vin_ne_nil (hcb tx List.mem_cons_self)
        (fun other hother => hdistinct tx List.mem_cons_self other
          (List.mem_append_left _ hother)) hone
      have hnext := ledgerBounds_updateCoins h hfresh (spends_nodup htx) hone
      have hdistinctRest : TxIdsDistinguish (ledger ++ [tx]) rest := by
        intro t ht other hother
        rw [List.append_assoc, List.singleton_append] at hother
        exact hdistinct t (List.mem_cons_of_mem _ ht) other hother
      rcases ih hnext (fun t ht => hchecked t (List.mem_cons_of_mem _ ht))
        (fun t ht => hcb t (List.mem_cons_of_mem _ ht)) hdistinctRest hrest with
        ⟨hbounds, hnone⟩
      rw [List.append_assoc, List.singleton_append] at hbounds
      exact ⟨hbounds, noOverwrite_cons (h.isPruned_of_fresh hfresh) hone hnone⟩

/-- A block which passed its checks, with a coinbase that is new. -/
theorem ledgerBounds_block {node : NodeState} {block : CBlock} {ledger : List CTransaction}
    {v v' : state} {undos : List CTxUndo} (h : LedgerBounds ledger v)
    (hblock : CheckedBlock node block)
    (hfresh : forall tx, tx ∈ block.vtx -> tx.isCoinBase = true ->
      tx.hash ∉ ledger.map CTransaction.hash)
    (hdistinct : TxIdsDistinguish ledger block.vtx)
    (hall : updateCoinsAll v nHeight block.vtx = some (undos, v')) :
    LedgerBounds (ledger ++ block.vtx) v' ∧ NoOverwrite v nHeight block.vtx := by
  have hcb := hblock.coinBaseFirst
  have hchecked := hblock.txs
  unfold CBlock.CoinBaseFirst at hcb
  cases hvtx : block.vtx with
  | nil =>
      rw [hvtx] at hcb
      exact hcb.elim
  | cons first rest =>
      rw [hvtx] at hcb hall hdistinct hfresh hchecked
      rcases updateCoinsAll_cons hall with ⟨undo, v1, undos', hone, hrest, _⟩
      have hfirst := hfresh first List.mem_cons_self hcb.1
      have hnext := ledgerBounds_updateCoins h hfirst
        (spends_nodup (hchecked first List.mem_cons_self)) hone
      have hdistinctRest : TxIdsDistinguish (ledger ++ [first]) rest := by
        intro t ht other hother
        rw [List.append_assoc, List.singleton_append] at hother
        exact hdistinct t (List.mem_cons_of_mem _ ht) other hother
      rcases ledgerBounds_updateCoinsAll rest hnext
        (fun t ht => hchecked t (List.mem_cons_of_mem _ ht)) hcb.2 hdistinctRest hrest with
        ⟨hbounds, hnone⟩
      rw [List.append_assoc, List.singleton_append] at hbounds
      exact ⟨hbounds, noOverwrite_cons (h.isPruned_of_fresh hfirst) hone hnone⟩

end ConnectBlock

/-!
# Disconnecting

Whatever the undo data, a disconnected block leaves no output which the ledger
below it does not allow.
-/

section Disconnect

variable [LawfulCoinsState state] {nHeight : Int}

theorem unspentAt_removeOutputs (v : state) (tx : CTransaction) (out : COutPoint) :
    unspentAt (removeOutputs v tx nHeight).2 out =
      if out.hash = tx.hash then none else unspentAt v out := by
  show unspentAt (assign v tx.hash CCoins.empty) out = _
  rw [unspentAt_assign]
  rfl

theorem unspentAt_restoreInput {v : state} {out other : COutPoint} {undo : CTxInUndo}
    {txout : CTxOut} (h : unspentAt (restoreInput v out undo).2 other = some txout) :
    other = out ∨ unspentAt v other = some txout := by
  by_cases hhash : other.hash = out.hash
  · by_cases hn : other.n = out.n
    · left
      cases other
      cases out
      simp_all
    · right
      unfold unspentAt at h ⊢
      rw [hhash, output?_restoreInput, if_neg hn] at h
      by_cases hheight : undo.nHeight = 0
      · rw [reopened_of_no_height hheight] at h
        rw [hhash]
        exact h
      · rw [output?_reopened_of_height hheight] at h
        cases h
  · right
    unfold unspentAt at h ⊢
    rw [coinsAt_restoreInput_other v out undo hhash] at h
    exact h

theorem unspentAt_restoreInputs {v : state} {other : COutPoint} {txout : CTxOut} :
    forall (pairs : List (COutPoint × CTxInUndo)),
      unspentAt (restoreInputs v pairs).2 other = some txout ->
      other ∈ pairs.map Prod.fst ∨ unspentAt v other = some txout := by
  intro pairs
  induction pairs with
  | nil =>
      intro h
      exact Or.inr h
  | cons pair rest ih =>
      rcases pair with ⟨out, undo⟩
      intro h
      rw [List.map_cons, List.mem_cons]
      rcases unspentAt_restoreInput h with heq | hrest
      · exact Or.inl (Or.inl heq)
      · rcases ih hrest with hmem | hold
        · exact Or.inl (Or.inr hmem)
        · exact Or.inr hold

theorem mem_of_mem_zip_fst {outs : List COutPoint} {undos : List CTxInUndo}
    {out : COutPoint} (h : out ∈ (outs.zip undos).map Prod.fst) : out ∈ outs := by
  rcases List.mem_map.mp h with ⟨pair, hpair, rfl⟩
  exact (List.of_mem_zip hpair).1

/-- What a disconnected transaction may leave unspent. -/
theorem unspentAt_disconnectTx {v v' : state} {tx : CTransaction}
    {txundo : Option CTxUndo} {fClean : Bool} (hcb : txundo = none ∨ tx.isCoinBase = false)
    (h : disconnectTx v nHeight tx txundo = some (fClean, v')) {out : COutPoint}
    {txout : CTxOut} (hout : unspentAt v' out = some txout) :
    out ∈ tx.spends ∨ (out.hash ≠ tx.hash ∧ unspentAt v out = some txout) := by
  have hremoved : forall {w}, unspentAt (removeOutputs v tx nHeight).2 out = some w ->
      out.hash ≠ tx.hash ∧ unspentAt v out = some w := by
    intro w hw
    rw [unspentAt_removeOutputs] at hw
    split_ifs at hw with hhash
    exact ⟨hhash, hw⟩
  unfold disconnectTx at h
  cases txundo with
  | none =>
      simp only [Option.some.injEq, Prod.mk.injEq] at h
      rcases h with ⟨_, rfl⟩
      exact Or.inr (hremoved hout)
  | some txundo =>
      rcases hcb with hnone | hcb
      · cases hnone
      simp only at h
      split_ifs at h with hlen
      simp only [Option.some.injEq, Prod.mk.injEq] at h
      rcases h with ⟨_, rfl⟩
      rcases unspentAt_restoreInputs _ hout with hmem | hold
      · left
        unfold CTransaction.spends
        rw [if_neg (by rw [hcb]; exact Bool.false_ne_true)]
        exact mem_of_mem_zip_fst hmem
      · exact Or.inr (hremoved hold)

theorem ledgerBounds_disconnectTx {ledger : List CTransaction} {v v' : state}
    {tx : CTransaction} {txundo : Option CTxUndo} {fClean : Bool}
    (h : LedgerBounds (ledger ++ [tx]) v) (hcb : txundo = none ∨ tx.isCoinBase = false)
    (hdisconnect : disconnectTx v nHeight tx txundo = some (fClean, v')) :
    LedgerBounds ledger v' := by
  have hspent := h.spent
  rw [spentBefore_append, spentBefore_singleton, List.nodup_append] at hspent
  apply h.of_append
  intro out txout hout
  rcases unspentAt_disconnectTx hcb hdisconnect hout with hmem | ⟨hne, hold⟩
  · refine ⟨h.earlier ledger tx [] rfl out hmem, ?_⟩
    intro hbefore
    exact hspent.2.2 out hbefore out hmem rfl
  · rcases h.unspent out txout hold with ⟨hhash, hnot⟩
    rw [List.map_append, List.mem_append, List.map_singleton, List.mem_singleton] at hhash
    rw [spentBefore_append, List.mem_append, not_or] at hnot
    exact ⟨hhash.resolve_right hne, hnot.1⟩

theorem ledgerBounds_disconnectTxs :
    forall (pairs : List (CTransaction × Option CTxUndo)) {ledger : List CTransaction}
      {v v' : state} {fClean : Bool},
      LedgerBounds (ledger ++ pairs.map Prod.fst) v ->
      (forall pair, pair ∈ pairs -> pair.2 = none ∨ pair.1.isCoinBase = false) ->
      disconnectTxs v nHeight pairs = some (fClean, v') -> LedgerBounds ledger v' := by
  intro pairs
  induction pairs with
  | nil =>
      intro ledger v v' fClean h _ hdisconnect
      cases hdisconnect
      rw [List.map_nil, List.append_nil] at h
      exact h
  | cons pair rest ih =>
      rcases pair with ⟨tx, txundo⟩
      intro ledger v v' fClean h hcb hdisconnect
      rw [List.map_cons, List.append_cons] at h
      rcases disconnectTxs_cons hdisconnect with ⟨fCleanRest, v1, fCleanOne, hrest, hone, _⟩
      have hmid := ih h (fun p hp => hcb p (List.mem_cons_of_mem _ hp)) hrest
      exact ledgerBounds_disconnectTx hmid (hcb (tx, txundo) List.mem_cons_self) hone

omit [CoinsState state] [LawfulCoinsState state] in
/-- Only the coinbase of a block goes without undo data. -/
theorem coinBase_of_mem_zip {block : CBlock} (hcb : block.CoinBaseFirst)
    (undos : List (Option CTxUndo)) {pair : CTransaction × Option CTxUndo}
    (hmem : pair ∈ block.vtx.zip (none :: undos)) :
    pair.2 = none ∨ pair.1.isCoinBase = false := by
  unfold CBlock.CoinBaseFirst at hcb
  cases hvtx : block.vtx with
  | nil =>
      rw [hvtx] at hcb
      exact hcb.elim
  | cons first rest =>
      rw [hvtx] at hcb hmem
      rw [List.zip_cons_cons, List.mem_cons] at hmem
      rcases hmem with rfl | hrest
      · exact Or.inl rfl
      · exact Or.inr (hcb.2 pair.1 (List.of_mem_zip hrest).1)

theorem unspentAt_setBestBlock (v : state) (hash : UInt256) (out : COutPoint) :
    unspentAt (CoinsState.setBestBlock v hash) out = unspentAt v out := by
  unfold unspentAt
  rw [LawfulCoinsState.coinsAt_setBestBlock]

theorem ledgerBounds_setBestBlock {ledger : List CTransaction} {v : state}
    (h : LedgerBounds ledger v) (hash : UInt256) :
    LedgerBounds ledger (CoinsState.setBestBlock v hash) := by
  refine ⟨?_, h.txids, h.spent, h.earlier⟩
  intro out txout hout
  rw [unspentAt_setBestBlock] at hout
  exact h.unspent out txout hout

theorem ledgerBounds_disconnectBlock {ledger : List CTransaction} {v v' : state}
    {block : CBlock} {pindexHash pprevHash : BlockHash} {blockUndo : CBlockUndo}
    {fClean : Bool} (h : LedgerBounds (ledger ++ block.vtx) v)
    (hcb : block.CoinBaseFirst)
    (hdisconnect : disconnectBlock v block pindexHash pprevHash nHeight blockUndo =
      some (fClean, v')) : LedgerBounds ledger v' := by
  unfold disconnectBlock at hdisconnect
  split_ifs at hdisconnect with hbest hlen
  cases htxs : disconnectTxs v nHeight
      (block.vtx.zip (none :: blockUndo.vtxundo.map some)) with
  | none =>
      rw [htxs] at hdisconnect
      cases hdisconnect
  | some result =>
      rcases result with ⟨fClean', v1⟩
      simp only [htxs, Option.some.injEq, Prod.mk.injEq] at hdisconnect
      rcases hdisconnect with ⟨_, rfl⟩
      apply ledgerBounds_setBestBlock
      refine ledgerBounds_disconnectTxs _ ?_ ?_ htxs
      · rw [List.map_fst_zip (by simp; omega)]
        exact h
      · exact fun _ hmem => coinBase_of_mem_zip hcb _ hmem

end Disconnect

/-!
# Runs
-/

section Runs

/-- A chain of the genesis block only, whose transactions are not connected. -/
def Started (s : ActiveChain state) : Prop :=
  s.blocks = [] ∧ forall out, unspentAt s.coins out = none

structure ChainBounds (s : ActiveChain state) : Prop where
  coins : LedgerBounds s.ledger s.coins
  coinBaseFirst : forall entry, entry ∈ s.blocks -> entry.1.CoinBaseFirst

theorem chainBounds_of_started {s : ActiveChain state} (h : Started s) : ChainBounds s := by
  have hledger : s.ledger = [] := by
    unfold ActiveChain.ledger
    rw [h.1]
    rfl
  constructor
  · rw [hledger]
    refine ⟨?_, List.nodup_nil, List.nodup_nil, ?_⟩
    · intro out txout hout
      rw [h.2 out] at hout
      cases hout
    · intro before tx after hsplit
      cases before <;> cases hsplit
  · intro entry hmem
    rw [h.1] at hmem
    cases hmem

omit [CoinsState state] in
theorem ledger_cons {s : ActiveChain state} {block : CBlock} {index : PrevIndex}
    {rest : List (CBlock × PrevIndex)} (h : s.blocks = (block, index) :: rest) :
    s.ledger = (rest.reverse.flatMap fun entry => entry.1.vtx) ++ block.vtx := by
  unfold ActiveChain.ledger
  rw [h, List.reverse_cons, List.flatMap_append, List.flatMap_singleton]

variable [LawfulCoinsState state]

theorem chainBounds_connectTip {s s' : ActiveChain state} {node : NodeState}
    {vstate : CValidationState} {block : CBlock} (h : ChainBounds s)
    (hfresh : freshSteps s (ChainStep.connect node vstate block))
    (hconnect : s.connectTip node vstate block = some s') :
    ChainBounds s' ∧ NoOverwrite s.coins (s.tip.nHeight + 1) block.vtx := by
  unfold ActiveChain.connectTip at hconnect
  split_ifs at hconnect with hgenesis
  cases hblock : connectBlock node vstate s.coins block (s.nextIndex block) false with
  | error err =>
      rw [hblock] at hconnect
      cases hconnect
  | ok c =>
      simp only [hblock, Option.some.injEq] at hconnect
      rcases connectBlock_accepted hgenesis rfl hblock with
        ⟨haccepted, _, undos, v', hall, _, hview⟩
      rcases hview rfl with ⟨hash, _, hview⟩
      rcases ledgerBounds_block h.coins haccepted.checked hfresh.1 hfresh.2 hall with
        ⟨hbounds, hnone⟩
      refine ⟨?_, hnone⟩
      subst hconnect
      constructor
      · rw [ledger_cons rfl]
        show LedgerBounds (s.ledger ++ block.vtx) c.view
        rw [hview]
        exact ledgerBounds_setBestBlock hbounds hash.val
      · intro entry hmem
        rcases List.mem_cons.mp hmem with rfl | hold
        · exact haccepted.checked.coinBaseFirst
        · exact h.coinBaseFirst entry hold

theorem chainBounds_disconnectTip {s s' : ActiveChain state} {blockUndo : CBlockUndo}
    (h : ChainBounds s) (hdisconnect : s.disconnectTip blockUndo = some s') :
    ChainBounds s' := by
  unfold ActiveChain.disconnectTip at hdisconnect
  cases hblocks : s.blocks with
  | nil =>
      rw [hblocks] at hdisconnect
      cases hdisconnect
  | cons entry rest =>
      rcases entry with ⟨block, index⟩
      rw [hblocks] at hdisconnect
      simp only at hdisconnect
      split at hdisconnect
      · rename_i v hblock
        cases hdisconnect
        have hcoins := h.coins
        rw [ledger_cons hblocks] at hcoins
        have hcb := h.coinBaseFirst (block, index) (by rw [hblocks]; exact List.mem_cons_self)
        refine ⟨ledgerBounds_disconnectBlock hcoins hcb hblock, ?_⟩
        intro entry hmem
        exact h.coinBaseFirst entry (by rw [hblocks]; exact List.mem_cons_of_mem _ hmem)
      · cases hdisconnect

end Runs

namespace OverwriteExample

open SupplyExample

/-- The node when a given block is its tip. -/
def nodeAt (tip : BlockHash) (nHeight : Nat) : NodeState :=
  { node with
    tip := some (tip, nHeight)
    mapBlockIndex := fun hash =>
      if hash = tip.val then
        some { nHeight := nHeight, fFailed := false, fHaveData := true, medianTimePast := 0 }
      else none }

def genesisHash : BlockHash := CChainParams.mainParams.hashGenesisBlock

def start : ActiveChain CoinsMap where
  root := { hash := genesisHash, nHeight := 0, nMoneySupply := 0 }
  blocks := []
  coins := { bestBlock := genesisHash.val }

theorem started : Started start := ⟨rfl, fun _ => rfl⟩

end OverwriteExample

end Hbcur
