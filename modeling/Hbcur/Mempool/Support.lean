import Hbcur.Mempool.Consistency
import Hbcur.Validation.Availability

/-!
# What the inputs of the pool refer to

An input is supported when its transaction is in the pool too or when it is good for
another reason.  Removal with all descendants leaves every input supported that was.
-/

namespace Hbcur

open Foundation

namespace CTxMemPool

/--
The pool with its identifiers, no two of which belong to different transactions: they are
looked up in a fixed function.
-/
structure Named (txOf : UInt256 -> CTransaction) (pool : CTxMemPool) : Prop where
  consistent : Consistent pool
  named : forall hash entry, pool.mapTx.lookup hash = some entry -> txOf hash = entry.tx
  outputs : forall hash entry out, pool.mapTx.lookup hash = some entry ->
    out ∈ entry.tx.prevouts -> IsOutput txOf out ∧ out.hash ≠ hash

section Named

variable {txOf : UInt256 -> CTransaction} {pool : CTxMemPool}

theorem named_of_empty (htx : pool.mapTx = ∅) (hnext : pool.mapNextTx = ∅)
    (htotal : pool.totalTxSize = 0) : Named txOf pool := by
  refine ⟨consistent_of_empty htx hnext htotal, ?_, ?_⟩
  · intro hash entry hlookup
    rw [htx] at hlookup
    cases hlookup
  · intro hash entry out hlookup
    rw [htx] at hlookup
    cases hlookup

theorem Named.withDeltas (h : Named txOf pool) (deltas : StdMap UInt256 (Rat × Int)) :
    Named txOf { pool with mapDeltas := deltas } :=
  ⟨h.consistent.withDeltas deltas, h.named, h.outputs⟩

theorem Named.eraseTx (h : Named txOf pool) {hash : UInt256} {entry : CTxMemPoolEntry}
    (hlookup : pool.mapTx.lookup hash = some entry) :
    Named txOf (pool.eraseTx hash entry) := by
  refine ⟨h.consistent.eraseTx hlookup, ?_, ?_⟩
  · intro other entry' hother
    exact h.named other entry' (lookup_of_eraseTx hother).2
  · intro other entry' out hother
    exact h.outputs other entry' out (lookup_of_eraseTx hother).2

/-- The spender of an output in range is found among the children. -/
theorem mem_children (h : Consistent pool) {hash child : UInt256} {entry : CTxMemPoolEntry}
    {n nOut : Nat} (hlookup : pool.mapTx.lookup child = some entry)
    (hmem : { hash := hash, n := n } ∈ entry.tx.prevouts) (hn : n < nOut) :
    child ∈ pool.children hash nOut := by
  rcases h.spender hlookup hmem with ⟨i, hspent⟩
  refine List.mem_filterMap.mpr ⟨n, List.mem_range.mpr hn, ?_⟩
  rw [hspent, Option.map_some, h.keyed child entry hlookup]

end Named

/-!
# Shrinking
-/

def Shrinks (pool pool' : CTxMemPool) : Prop :=
  forall hash entry, pool'.mapTx.lookup hash = some entry ->
    pool.mapTx.lookup hash = some entry

theorem Shrinks.refl (pool : CTxMemPool) : Shrinks pool pool := fun _ _ h => h

theorem Shrinks.trans {pool pool' pool'' : CTxMemPool} (h : Shrinks pool pool')
    (h' : Shrinks pool' pool'') : Shrinks pool pool'' :=
  fun hash entry hlookup => h hash entry (h' hash entry hlookup)

theorem Shrinks.eraseTx {pool pool' : CTxMemPool} (h : Shrinks pool pool') (hash : UInt256)
    (entry : CTxMemPoolEntry) : Shrinks pool (pool'.eraseTx hash entry) :=
  fun other entry' hlookup => h other entry' (lookup_of_eraseTx hlookup).2

theorem Shrinks.lookup_eq_none {pool pool' : CTxMemPool} (h : Shrinks pool pool')
    {hash : UInt256} (hnone : pool.mapTx.lookup hash = none) :
    pool'.mapTx.lookup hash = none := by
  cases hlookup : pool'.mapTx.lookup hash with
  | none => rfl
  | some entry =>
      rw [h hash entry hlookup] at hnone
      cases hnone

theorem shrinks_removeLoop (fRecursive : Bool) (pool : CTxMemPool)
    (removed : List CTransaction) (txToRemove : List UInt256) :
    Shrinks pool (removeLoop fRecursive pool removed txToRemove).1 :=
  removeLoop_preserves (P := Shrinks pool) (fun _ hash entry h _ => h.eraseTx hash entry)
    fRecursive pool removed txToRemove (Shrinks.refl pool)

theorem shrinks_remove (pool : CTxMemPool) (tx : CTransaction) (removed : List CTransaction)
    (fRecursive : Bool) : Shrinks pool (pool.remove tx removed fRecursive).1 :=
  shrinks_removeLoop fRecursive pool removed _

/-- What is in the queue is gone at the end. -/
theorem lookup_removeLoop_eq_none (fRecursive : Bool) (pool : CTxMemPool)
    (removed : List CTransaction) (txToRemove : List UInt256) {hash : UInt256}
    (h : hash ∈ txToRemove) :
    (removeLoop fRecursive pool removed txToRemove).1.mapTx.lookup hash = none := by
  induction pool, removed, txToRemove using removeLoop.induct fRecursive with
  | case1 pool removed => cases h
  | case2 pool removed first rest hnone ih =>
      rw [removeLoop_of_none hnone]
      rcases List.mem_cons.mp h with rfl | hrest
      · exact (shrinks_removeLoop fRecursive pool removed rest).lookup_eq_none hnone
      · exact ih hrest
  | case3 pool removed first rest entry hsome ih =>
      rw [removeLoop_of_some hsome]
      rcases List.mem_cons.mp h with rfl | hrest
      · apply (shrinks_removeLoop fRecursive _ _ _).lookup_eq_none
        rw [lookup_mapTx_eraseTx, if_pos rfl]
      · exact ih (List.mem_append_left _ hrest)

theorem lookup_remove_eq_none (pool : CTxMemPool) (tx : CTransaction)
    (removed : List CTransaction) (fRecursive : Bool) :
    (pool.remove tx removed fRecursive).1.mapTx.lookup tx.hash = none :=
  lookup_removeLoop_eq_none fRecursive pool removed _ List.mem_cons_self

/-!
# Support
-/

/-- The inputs of transactions which are in the queue are excepted. -/
def SupportedExcept (ok : COutPoint -> Prop) (queue : List UInt256) (pool : CTxMemPool) :
    Prop :=
  forall hash entry out, pool.mapTx.lookup hash = some entry -> out ∈ entry.tx.prevouts ->
    pool.exists? out.hash = true ∨ ok out ∨ hash ∈ queue

def Supported (ok : COutPoint -> Prop) (pool : CTxMemPool) : Prop :=
  SupportedExcept ok [] pool

theorem exists?_iff (pool : CTxMemPool) (hash : UInt256) :
    pool.exists? hash = true <-> exists entry, pool.mapTx.lookup hash = some entry :=
  StdMap.contains_iff pool.mapTx hash

theorem exists?_eraseTx {pool : CTxMemPool} {hash other : UInt256} (entry : CTxMemPoolEntry)
    (hne : other ≠ hash) : (pool.eraseTx hash entry).exists? other = pool.exists? other := by
  unfold exists? StdMap.contains
  rw [lookup_mapTx_eraseTx, if_neg hne]

section Supported

variable {txOf : UInt256 -> CTransaction} {ok ok' : COutPoint -> Prop} {pool : CTxMemPool}

theorem SupportedExcept.mono {queue queue' : List UInt256}
    (h : SupportedExcept ok queue pool) (hok : forall out, ok out -> ok' out)
    (hqueue : forall hash, hash ∈ queue -> hash ∈ queue') :
    SupportedExcept ok' queue' pool :=
  fun hash entry out hlookup hmem => (h hash entry out hlookup hmem).imp_right
    fun hor => hor.imp (hok out) (hqueue hash)

theorem Supported.mono (h : Supported ok pool) (hok : forall out, ok out -> ok' out) :
    Supported ok' pool :=
  SupportedExcept.mono h hok fun _ hmem => hmem

/-- One round of a recursive removal moves the children into the queue. -/
theorem SupportedExcept.eraseTx (h : Named txOf pool) {hash : UInt256}
    {entry : CTxMemPoolEntry} (hlookup : pool.mapTx.lookup hash = some entry)
    {rest : List UInt256} (hsup : SupportedExcept ok (hash :: rest) pool) :
    SupportedExcept ok (rest ++ pool.children hash entry.tx.vout.length)
      (pool.eraseTx hash entry) := by
  intro other entry' out hother hmem
  rcases lookup_of_eraseTx hother with ⟨hne, hother⟩
  by_cases hparent : out.hash = hash
  · refine Or.inr (Or.inr (List.mem_append_right _ ?_))
    have hrange := (h.outputs other entry' out hother hmem).1.lt_length
    rw [hparent, h.named hash entry hlookup] at hrange
    refine mem_children h.consistent hother (n := out.n) ?_ hrange
    rw [← hparent]
    exact hmem
  · rw [exists?_eraseTx entry hparent]
    refine (hsup other entry' out hother hmem).imp_right fun hor => hor.imp_right fun hin => ?_
    exact List.mem_append_left _ ((List.mem_cons.mp hin).resolve_left hne)

theorem supported_removeLoop (removed : List CTransaction) (queue : List UInt256)
    (h : Named txOf pool) (hsup : SupportedExcept ok queue pool) :
    Supported ok (removeLoop true pool removed queue).1 := by
  induction pool, removed, queue using removeLoop.induct true with
  | case1 pool removed =>
      rw [removeLoop]
      exact hsup
  | case2 pool removed hash rest hnone ih =>
      rw [removeLoop_of_none hnone]
      apply ih h
      intro other entry out hother hmem
      refine (hsup other entry out hother hmem).imp_right fun hor => hor.imp_right fun hin => ?_
      refine (List.mem_cons.mp hin).resolve_left fun heq => ?_
      rw [heq, hnone] at hother
      cases hother
  | case3 pool removed hash rest entry hsome ih =>
      rw [removeLoop_of_some hsome]
      exact ih (h.eraseTx hsome) (SupportedExcept.eraseTx h hsome hsup)

theorem supported_remove (removed : List CTransaction) (tx : CTransaction)
    (h : Named txOf pool) (hsup : Supported ok pool) :
    Supported ok (pool.remove tx removed true).1 :=
  supported_removeLoop removed _ h (SupportedExcept.mono hsup (fun _ hok => hok)
    fun _ hmem => nomatch hmem)

/-- Afterwards the outputs of the transaction are not needed any more. -/
theorem supported_remove_of_hash (removed : List CTransaction) {tx : CTransaction}
    (h : Named txOf pool) (htx : txOf tx.hash = tx)
    (hsup : Supported (fun out => ok out ∨ out.hash = tx.hash) pool) :
    Supported ok (pool.remove tx removed true).1 := by
  apply supported_removeLoop removed _ h
  intro hash entry out hlookup hmem
  rcases hsup hash entry out hlookup hmem with hin | (hok | hhash) | hnil
  · exact Or.inl hin
  · exact Or.inr (Or.inl hok)
  · cases hexists : pool.exists? tx.hash with
    | true =>
        rw [hhash]
        exact Or.inl hexists
    | false =>
        refine Or.inr (Or.inr (List.mem_cons_of_mem _ ?_))
        have hrange := (h.outputs hash entry out hlookup hmem).1.lt_length
        rw [hhash, htx] at hrange
        refine mem_children h.consistent hlookup (n := out.n) ?_ hrange
        rw [← hhash]
        exact hmem
  · cases hnil

end Supported

/-!
# Removal for a block
-/

/-- No transaction of the pool spends the outpoint. -/
def Unspends (pool : CTxMemPool) (out : COutPoint) : Prop :=
  forall hash entry, pool.mapTx.lookup hash = some entry -> out ∉ entry.tx.prevouts

theorem Unspends.of_shrinks {pool pool' : CTxMemPool} {out : COutPoint}
    (h : Unspends pool out) (hshrinks : Shrinks pool pool') : Unspends pool' out :=
  fun hash entry hlookup => h hash entry (hshrinks hash entry hlookup)

section Block

variable {txOf : UInt256 -> CTransaction} {ok : COutPoint -> Prop}

theorem Named.remove {pool : CTxMemPool} (h : Named txOf pool) (tx : CTransaction)
    (removed : List CTransaction) (fRecursive : Bool) :
    Named txOf (pool.remove tx removed fRecursive).1 :=
  remove_preserves (fun _ _ _ h hlookup => Named.eraseTx h hlookup) pool tx removed
    fRecursive h

theorem remove_not_recursive (pool : CTxMemPool) (tx : CTransaction)
    (removed : List CTransaction) :
    (pool.remove tx removed false).1 =
      match pool.mapTx.lookup tx.hash with
      | none => pool
      | some entry => pool.eraseTx tx.hash entry := by
  unfold CTxMemPool.remove
  simp only [Bool.false_and, Bool.false_eq_true, if_false]
  cases hlookup : pool.mapTx.lookup tx.hash with
  | none =>
      rw [removeLoop_of_none hlookup, removeLoop]
  | some entry =>
      rw [removeLoop_of_some hlookup]
      simp only [Bool.false_eq_true, if_false, List.append_nil]
      rw [removeLoop]

theorem removeForBlock_empty (vtx conflicts : List CTransaction) :
    ({} : CTxMemPool).removeForBlock vtx conflicts = ({}, conflicts) := by
  have hconflicts : forall (tx : CTransaction) (vin : List CTxIn),
      vin.foldl (removeConflict tx) ({}, conflicts) = ({}, conflicts) := by
    intro tx vin
    induction vin with
    | nil => rfl
    | cons txin rest ih => exact ih
  unfold removeForBlock
  induction vtx with
  | nil => rfl
  | cons tx rest ih =>
      have hone : removeForBlockTx ({}, conflicts) tx = ({}, conflicts) := by
        unfold removeForBlockTx removeConflicts
        rw [remove_not_recursive]
        exact congrArg (fun found : CTxMemPool × List CTransaction =>
          (found.1.clearPrioritisation tx.hash, found.2)) (hconflicts tx tx.vin)
      rw [List.foldl_cons, hone]
      exact ih

/-- A transaction which moves into a block leaves its children behind. -/
theorem supported_remove_not_recursive {pool : CTxMemPool} (tx : CTransaction)
    (removed : List CTransaction) (hsup : Supported ok pool) :
    Supported (fun out => ok out ∨ out.hash = tx.hash)
      (pool.remove tx removed false).1 := by
  rw [remove_not_recursive]
  cases hlookup : pool.mapTx.lookup tx.hash with
  | none => exact hsup.mono fun _ hok => Or.inl hok
  | some entry =>
      intro hash entry' out hother hmem
      rcases lookup_of_eraseTx hother with ⟨_, hother⟩
      by_cases hparent : out.hash = tx.hash
      · exact Or.inr (Or.inl (Or.inr hparent))
      · rw [exists?_eraseTx entry hparent]
        exact (hsup hash entry' out hother hmem).imp_right fun hor => hor.imp_left Or.inl

/-- What removing the conflicts of some inputs of a transaction does to the pool. -/
structure ConflictsRemoved (txOf : UInt256 -> CTransaction) (ok : COutPoint -> Prop)
    (outs : List COutPoint) (pool pool' : CTxMemPool) : Prop where
  shrinks : Shrinks pool pool'
  named : Named txOf pool'
  supported : Supported ok pool'
  unspends : forall out, out ∈ outs -> Unspends pool' out

theorem conflictsRemoved_removeConflict {tx : CTransaction}
    {found : CTxMemPool × List CTransaction} (txin : CTxIn) (h : Named txOf found.1)
    (hsup : Supported ok found.1) (hgone : found.1.mapTx.lookup tx.hash = none) :
    ConflictsRemoved txOf ok [txin.prevout] found.1 (removeConflict tx found txin).1 := by
  unfold removeConflict
  cases hnext : found.1.mapNextTx.lookup txin.prevout with
  | none =>
      refine ⟨Shrinks.refl _, h, hsup, ?_⟩
      intro out hout hash entry hlookup hmem
      rw [List.mem_singleton.mp hout] at hmem
      rcases h.consistent.spender hlookup hmem with ⟨i, hspent⟩
      rw [hnext] at hspent
      cases hspent
  | some next =>
      rcases h.consistent.noOther _ _ hnext with ⟨⟨entry, hentry, htx⟩, txin', hi, hprevout⟩
      have hother : next.ptx.hash ≠ tx.hash := by
        intro heq
        rw [heq, hgone] at hentry
        cases hentry
      simp only [if_neg hother]
      refine ⟨shrinks_remove _ _ _ _, h.remove _ _ _, supported_remove _ _ h hsup, ?_⟩
      intro out hout hash entry' hlookup hmem
      -- Only the transaction just removed spent this outpoint.
      rw [List.mem_singleton.mp hout] at hmem
      have hspends : txin.prevout ∈ entry.tx.prevouts := by
        rw [htx, ← hprevout]
        exact mem_prevouts_of_getElem? hi
      have hbefore := shrinks_remove found.1 next.ptx found.2 true hash entry' hlookup
      rw [h.consistent.eq_of_spends hbefore hentry hmem hspends, lookup_remove_eq_none]
        at hlookup
      cases hlookup

theorem conflictsRemoved_foldl {tx : CTransaction} (vin : List CTxIn)
    (found : CTxMemPool × List CTransaction) (h : Named txOf found.1)
    (hsup : Supported ok found.1) (hgone : found.1.mapTx.lookup tx.hash = none) :
    ConflictsRemoved txOf ok (vin.map CTxIn.prevout) found.1
      (vin.foldl (removeConflict tx) found).1 := by
  induction vin generalizing found with
  | nil => exact ⟨Shrinks.refl _, h, hsup, fun _ hmem => nomatch hmem⟩
  | cons txin rest ih =>
      have hone := conflictsRemoved_removeConflict txin h hsup hgone
      have hrest := ih (removeConflict tx found txin) hone.named hone.supported
        (hone.shrinks.lookup_eq_none hgone)
      refine ⟨hone.shrinks.trans hrest.shrinks, hrest.named, hrest.supported, ?_⟩
      intro out hmem
      rw [List.map_cons, List.mem_cons] at hmem
      rcases hmem with rfl | hmem
      · exact (hone.unspends _ (List.mem_singleton_self _)).of_shrinks hrest.shrinks
      · exact hrest.unspends out hmem

/-- What removing the transactions of a block does to the pool. -/
structure BlockRemoved (txOf : UInt256 -> CTransaction) (ok : COutPoint -> Prop)
    (vtx : List CTransaction) (pool pool' : CTxMemPool) : Prop where
  shrinks : Shrinks pool pool'
  named : Named txOf pool'
  supported : Supported (fun out => ok out ∨ out.hash ∈ vtx.map CTransaction.hash) pool'
  gone : forall tx, tx ∈ vtx -> pool'.mapTx.lookup tx.hash = none
  unspends : forall tx, tx ∈ vtx -> forall out, out ∈ tx.prevouts -> Unspends pool' out

theorem blockRemoved_one (found : CTxMemPool × List CTransaction) (tx : CTransaction)
    (h : Named txOf found.1) (hsup : Supported ok found.1) :
    BlockRemoved txOf ok [tx] found.1 (removeForBlockTx found tx).1 := by
  have hgone := lookup_remove_eq_none found.1 tx [] false
  have hconflicts := conflictsRemoved_foldl tx.vin ((found.1.remove tx [] false).1, found.2)
    (h.remove tx [] false) (supported_remove_not_recursive tx [] hsup) hgone
  refine ⟨(shrinks_remove _ _ _ _).trans hconflicts.shrinks, hconflicts.named.withDeltas _,
    ?_, ?_, ?_⟩
  · apply Supported.mono hconflicts.supported
    rintro out (hok | hhash)
    · exact Or.inl hok
    · exact Or.inr (List.mem_singleton.mpr hhash)
  · intro tx' hmem
    rw [List.mem_singleton.mp hmem]
    exact hconflicts.shrinks.lookup_eq_none hgone
  · intro tx' hmem out hout
    rw [List.mem_singleton.mp hmem] at hout
    exact hconflicts.unspends out hout

theorem blockRemoved_removeForBlock (vtx : List CTransaction) (pool : CTxMemPool)
    (conflicts : List CTransaction) (h : Named txOf pool) (hsup : Supported ok pool) :
    BlockRemoved txOf ok vtx pool (pool.removeForBlock vtx conflicts).1 := by
  unfold removeForBlock
  induction vtx generalizing pool conflicts ok with
  | nil =>
      exact ⟨Shrinks.refl _, h, hsup.mono fun _ hok => Or.inl hok,
        (fun _ hmem => nomatch hmem), (fun _ hmem => nomatch hmem)⟩
  | cons tx rest ih =>
      rw [List.foldl_cons]
      have hone := blockRemoved_one (pool, conflicts) tx h hsup
      have hrest := ih _ (removeForBlockTx (pool, conflicts) tx).2 hone.named hone.supported
      refine ⟨hone.shrinks.trans hrest.shrinks, hrest.named, ?_, ?_, ?_⟩
      · apply Supported.mono hrest.supported
        rintro out ((hok | hhash) | hin)
        · exact Or.inl hok
        · exact Or.inr (List.mem_append_left _ hhash)
        · exact Or.inr (List.mem_cons_of_mem _ hin)
      · intro tx' hmem
        rcases List.mem_cons.mp hmem with rfl | hin
        · exact hrest.shrinks.lookup_eq_none (hone.gone _ (List.mem_singleton_self _))
        · exact hrest.gone tx' hin
      · intro tx' hmem out hout
        rcases List.mem_cons.mp hmem with rfl | hin
        · exact (hone.unspends _ (List.mem_singleton_self _) out hout).of_shrinks
            hrest.shrinks
        · exact hrest.unspends tx' hin out hout

end Block

end CTxMemPool

end Hbcur
