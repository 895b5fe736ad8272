import Hbcur.Mempool.Accept
import Hbcur.Mempool.Support

/-!
# Accepting and putting back

What `AcceptToMemoryPool` adds is supported by the pool and the coins it has looked at, and
`DisconnectTip` removes the descendants of whatever it cannot put back.
-/

namespace Hbcur

open Foundation CCoins

variable {state : Type} [CoinsState state]

/-- One round of the loop of `DisconnectTip` over the transactions of the block. -/
def resurrectTx (env : AcceptEnv) (pcoinsTip : state) (pool : CTxMemPool)
    (tx : CTransaction) : CTxMemPool :=
  if tx.isCoinBase || tx.isCoinStake then (pool.remove tx [] true).1
  else
    let accepted := acceptToMemoryPool env pcoinsTip pool tx
    if accepted.1.toBool then accepted.2 else (accepted.2.remove tx [] true).1

/-- `AccessCoins`; a cache may hold an entry without outputs. -/
def accessCoins (v : state) (cached : UInt256 -> Bool) (txid : UInt256) : Option CCoins :=
  if (coinsAt v txid).vout.isEmpty && !cached txid then none else some (coinsAt v txid)

namespace CTxMemPool

section Accepting

variable {txOf : UInt256 -> CTransaction} {ok : COutPoint -> Prop} {v : state}
  {pool : CTxMemPool} {env : AcceptEnv} {tx : CTransaction}

theorem available_view {out : COutPoint}
    (h : (coinsAt (pool.view v) out.hash).isAvailable out.n = true) :
    (exists entry, pool.mapTx.lookup out.hash = some entry ∧
      ((fromTx entry.tx MEMPOOL_HEIGHT).output? out.n).isSome = true) ∨ IsUnspent v out := by
  rw [isAvailable_eq] at h
  have hcoins : coinsAt (pool.view v) out.hash = (pool.view v).coins out.hash := rfl
  rw [hcoins] at h
  unfold view at h
  cases hlookup : pool.mapTx.lookup out.hash with
  | none =>
      simp only [hlookup] at h
      exact Or.inr h
  | some entry =>
      simp only [hlookup] at h
      exact Or.inl ⟨entry, rfl, h⟩

theorem haveCoins_of_isAvailable {w : CoinsMap} {out : COutPoint}
    (h : (coinsAt w out.hash).isAvailable out.n = true) : haveCoins w out.hash = true := by
  unfold haveCoins
  cases hvout : (coinsAt w out.hash).vout with
  | nil =>
      unfold CCoins.isAvailable at h
      rw [hvout] at h
      cases h
  | cons first rest => rfl

/-- Every input of an accepted transaction was found, and under another identifier. -/
theorem accepted_input (h : AcceptedTx env v pool tx) (hpool : Named txOf pool)
    (hcoins : CoinsNamed txOf v) {out : COutPoint} (hmem : out ∈ tx.prevouts) :
    (pool.exists? out.hash = true ∨ IsUnspent v out) ∧ IsOutput txOf out ∧
      out.hash ≠ tx.hash := by
  have hinputs := h.inputs
  unfold haveInputs at hinputs
  rw [h.notCoinBase, Bool.false_or, List.all_eq_true] at hinputs
  rcases List.mem_map.mp hmem with ⟨txin, htxin, rfl⟩
  have havailable := hinputs txin htxin
  have hne : txin.prevout.hash ≠ tx.hash := by
    intro heq
    have hunknown := h.unknown
    rw [← heq, haveCoins_of_isAvailable havailable] at hunknown
    cases hunknown
  rcases available_view havailable with ⟨entry, hlookup, hsome⟩ | hunspent
  · have hkeyed := hpool.consistent.keyed _ entry hlookup
    have hnamed := hpool.named _ entry hlookup
    rw [← hkeyed] at hnamed
    exact ⟨Or.inl ((exists?_iff pool _).mpr ⟨entry, hlookup⟩),
      (isOutput_iff hnamed hkeyed.symm MEMPOOL_HEIGHT).mpr hsome, hne⟩
  · exact ⟨Or.inr hunspent, hcoins _ hunspent, hne⟩

theorem Named.addUnchecked (hpool : Named txOf pool) (hadd : MayAdd pool tx.hash (newEntry tx))
    (htx : txOf tx.hash = tx)
    (houtputs : forall out, out ∈ tx.prevouts -> IsOutput txOf out ∧ out.hash ≠ tx.hash) :
    Named txOf (pool.addUnchecked tx.hash (newEntry tx)) := by
  refine ⟨hpool.consistent.addUnchecked hadd, ?_, ?_⟩
  · intro hash entry hlookup
    rw [lookup_mapTx_addUnchecked] at hlookup
    split_ifs at hlookup with heq
    · cases hlookup
      rw [heq]
      exact htx
    · exact hpool.named hash entry hlookup
  · intro hash entry out hlookup hmem
    rw [lookup_mapTx_addUnchecked] at hlookup
    split_ifs at hlookup with heq
    · cases hlookup
      rw [heq]
      exact houtputs out hmem
    · exact hpool.outputs hash entry out hlookup hmem

theorem exists?_addUnchecked (hash other : UInt256) (entry : CTxMemPoolEntry) :
    (pool.addUnchecked hash entry).exists? other =
      (decide (other = hash) || pool.exists? other) :=
  StdMap.contains_insert pool.mapTx other hash entry

/-- Once the transaction is in the pool, its outputs need no other support. -/
theorem supported_addUnchecked
    (hsup : Supported (fun out => ok out ∨ out.hash = tx.hash) pool)
    (hinputs : forall out, out ∈ tx.prevouts -> pool.exists? out.hash = true ∨ ok out) :
    Supported ok (pool.addUnchecked tx.hash (newEntry tx)) := by
  intro hash entry out hlookup hmem
  rw [exists?_addUnchecked, Bool.or_eq_true, decide_eq_true_iff]
  rw [lookup_mapTx_addUnchecked] at hlookup
  split_ifs at hlookup with heq
  · cases hlookup
    rcases hinputs out hmem with hin | hok
    · exact Or.inl (Or.inr hin)
    · exact Or.inr (Or.inl hok)
  · rcases hsup hash entry out hlookup hmem with hin | (hok | hhash) | hnil
    · exact Or.inl (Or.inr hin)
    · exact Or.inr (Or.inl hok)
    · exact Or.inl (Or.inl hhash)
    · cases hnil

/-- What is left to rely on after one transaction of a block has been dealt with. -/
structure Resurrected (txOf : UInt256 -> CTransaction) (ok : COutPoint -> Prop)
    (put : UInt256 -> Prop) (pool pool' : CTxMemPool) : Prop where
  named : Named txOf pool'
  supported : Supported ok pool'
  only : forall hash, pool'.exists? hash = true -> pool.exists? hash = true ∨ put hash

theorem exists?_of_shrinks {pool' : CTxMemPool} (h : Shrinks pool pool') {hash : UInt256}
    (hin : pool'.exists? hash = true) : pool.exists? hash = true := by
  rcases (exists?_iff pool' hash).mp hin with ⟨entry, hlookup⟩
  exact (exists?_iff pool hash).mpr ⟨entry, h hash entry hlookup⟩

theorem resurrected_remove {put : UInt256 -> Prop} (hpool : Named txOf pool)
    (htx : txOf tx.hash = tx)
    (hsup : Supported (fun out => ok out ∨ out.hash = tx.hash) pool) :
    Resurrected txOf ok put pool (pool.remove tx [] true).1 :=
  ⟨hpool.remove tx [] true, supported_remove_of_hash [] hpool htx hsup,
    fun _ hin => Or.inl (exists?_of_shrinks (shrinks_remove pool tx [] true) hin)⟩

/-- The call itself, for a transaction which is not needed by the pool or is. -/
theorem resurrected_accept (hpool : Named txOf pool) (hcoins : CoinsNamed txOf v)
    (htx : txOf tx.hash = tx) (hok : forall out, IsUnspent v out -> ok out)
    (hsup : Supported (fun out => ok out ∨ out.hash = tx.hash) pool)
    (hadd : (acceptToMemoryPool env v pool tx).1.toBool = true) :
    Resurrected txOf ok (fun hash => hash = tx.hash ∧ AcceptedTx env v pool tx) pool
      (acceptToMemoryPool env v pool tx).2 := by
  rcases acceptToMemoryPool_cases env v pool tx with ⟨deltas, ⟨hfail, _⟩ | ⟨_, haccepted, heq⟩⟩
  · rw [hadd] at hfail
    cases hfail
  · rw [heq]
    refine ⟨(hpool.withDeltas deltas).addUnchecked (haccepted.mayAdd deltas) htx ?_,
      supported_addUnchecked hsup ?_, ?_⟩
    · intro out hmem
      exact (accepted_input haccepted hpool hcoins hmem).2
    · intro out hmem
      exact (accepted_input haccepted hpool hcoins hmem).1.imp_right (hok out)
    · intro hash hin
      rw [exists?_addUnchecked, Bool.or_eq_true, decide_eq_true_iff] at hin
      rcases hin with hhash | hin
      · exact Or.inr ⟨hhash, haccepted⟩
      · exact Or.inl hin

theorem resurrected_refused (env : AcceptEnv) (v : state) (tx : CTransaction)
    (h : (acceptToMemoryPool env v pool tx).1.toBool = false) :
    exists deltas, (acceptToMemoryPool env v pool tx).2 =
      { pool with mapDeltas := deltas } := by
  rcases acceptToMemoryPool_cases env v pool tx with ⟨deltas, ⟨_, heq⟩ | ⟨hadd, _⟩⟩
  · exact ⟨deltas, heq⟩
  · rw [h] at hadd
    cases hadd

theorem resurrected_one (hpool : Named txOf pool) (hcoins : CoinsNamed txOf v)
    (htx : txOf tx.hash = tx) (hok : forall out, IsUnspent v out -> ok out)
    (hsup : Supported (fun out => ok out ∨ out.hash = tx.hash) pool) :
    Resurrected txOf ok
      (fun hash => hash = tx.hash ∧ tx.isCoinBase = false ∧ tx.isCoinStake = false) pool
      (resurrectTx env v pool tx) := by
  unfold resurrectTx
  cases hkind : tx.isCoinBase || tx.isCoinStake with
  | true =>
      rw [if_pos rfl]
      exact resurrected_remove hpool htx hsup
  | false =>
      rw [if_neg Bool.false_ne_true]
      simp only
      cases hadd : (acceptToMemoryPool env v pool tx).1.toBool with
      | true =>
          have haccept := resurrected_accept hpool hcoins htx hok hsup hadd
          rw [if_pos rfl]
          refine ⟨haccept.named, haccept.supported, ?_⟩
          intro hash hin
          exact (haccept.only hash hin).imp_right fun hput =>
            ⟨hput.1, Bool.or_eq_false_iff.mp hkind⟩
      | false =>
          rcases resurrected_refused env v tx hadd with ⟨deltas, heq⟩
          rw [if_neg Bool.false_ne_true, heq]
          have hremove : Resurrected txOf ok (fun hash => hash = tx.hash ∧
              tx.isCoinBase = false ∧ tx.isCoinStake = false) _ _ :=
            resurrected_remove (hpool.withDeltas deltas) htx hsup
          exact ⟨hremove.named, hremove.supported, hremove.only⟩

/-- The whole loop, for a block whose outputs are no longer among the coins. -/
theorem resurrected_block (hcoins : CoinsNamed txOf v) (env : AcceptEnv) :
    forall (vtx : List CTransaction) (pool : CTxMemPool), Named txOf pool ->
      (forall tx, tx ∈ vtx -> txOf tx.hash = tx) ->
      Supported (fun out => IsUnspent v out ∨ out.hash ∈ vtx.map CTransaction.hash) pool ->
      Resurrected txOf (IsUnspent v)
        (fun hash => exists tx, tx ∈ vtx ∧ hash = tx.hash ∧ tx.isCoinBase = false ∧
          tx.isCoinStake = false) pool (vtx.foldl (resurrectTx env v) pool) := by
  intro vtx
  induction vtx with
  | nil =>
      intro pool hpool _ hsup
      exact ⟨hpool, hsup.mono fun _ hor => hor.resolve_right (fun hmem => nomatch hmem),
        fun _ hin => Or.inl hin⟩
  | cons tx rest ih =>
      intro pool hpool htxs hsup
      have hone : Resurrected txOf
          (fun out => IsUnspent v out ∨ out.hash ∈ rest.map CTransaction.hash) _ pool
          (resurrectTx env v pool tx) := resurrected_one hpool hcoins
        (htxs tx List.mem_cons_self) (fun _ hunspent => Or.inl hunspent)
        (hsup.mono fun out hor => by
          rw [List.map_cons, List.mem_cons] at hor
          tauto)
      have hrest := ih (resurrectTx env v pool tx) hone.named
        (fun t ht => htxs t (List.mem_cons_of_mem _ ht)) hone.supported
      refine ⟨hrest.named, hrest.supported, ?_⟩
      intro hash hin
      rcases hrest.only hash hin with hmid | ⟨t, ht, hput⟩
      · rcases hone.only hash hmid with hold | hput
        · exact Or.inl hold
        · exact Or.inr ⟨tx, List.mem_cons_self, hput⟩
      · exact Or.inr ⟨t, List.mem_cons_of_mem _ ht, hput⟩

end Accepting

section Removing

variable {txOf : UInt256 -> CTransaction} {ok : COutPoint -> Prop}

theorem resurrected_removeEach (txs : List CTransaction) (pool : CTxMemPool)
    (hpool : Named txOf pool) (hsup : Supported ok pool) :
    Resurrected txOf ok (fun _ => False) pool (pool.removeEach txs) := by
  unfold removeEach
  induction txs generalizing pool with
  | nil => exact ⟨hpool, hsup, fun _ hin => Or.inl hin⟩
  | cons tx rest ih =>
      have hrest := ih _ (hpool.remove tx [] true) (supported_remove [] tx hpool hsup)
      refine ⟨hrest.named, hrest.supported, ?_⟩
      intro hash hin
      exact (hrest.only hash hin).imp_left
        (exists?_of_shrinks (shrinks_remove pool tx [] true))

theorem resurrected_removeCoinbaseSpends {pool : CTxMemPool}
    (pcoins : UInt256 -> Option CCoins) (nMemPoolHeight nMaturity : Nat)
    (hpool : Named txOf pool) (hsup : Supported ok pool) :
    Resurrected txOf ok (fun _ => False) pool
      (pool.removeCoinbaseSpends pcoins nMemPoolHeight nMaturity) :=
  resurrected_removeEach _ pool hpool hsup

end Removing

end CTxMemPool

end Hbcur
