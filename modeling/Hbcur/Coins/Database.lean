import Hbcur.Coins.Cache

/-!
# The coins database

`CCoinsViewDB` of `txdb.cpp`, the usual base view.  The disk is a map; reading an
entry ends with `Cleanup`, as `CCoins::Unserialize` does.
-/

namespace Hbcur

structure CCoinsViewDB where
  coins : AList (fun _ : UInt256 => CCoins) := ∅
  hashBestChain : Option UInt256 := none

namespace CCoinsViewDB

def getCoins (db : CCoinsViewDB) (txid : UInt256) : Option CCoins :=
  (db.coins.lookup txid).map CCoins.cleanup

def getBestBlock (db : CCoinsViewDB) : UInt256 :=
  db.hashBestChain.getD 0

/-- `BatchWriteCoins` for the entries which are dirty. -/
def batchWriteCoins (coins : AList (fun _ : UInt256 => CCoins)) (txid : UInt256)
    (entry : CCoinsCacheEntry) : Option (AList (fun _ : UInt256 => CCoins)) :=
  if entry.dirty then
    if entry.coins.isPruned then some (coins.erase txid)
    else some (coins.insert txid entry.coins)
  else some coins

def batchWrite (db : CCoinsViewDB) (mapCoins : CCoinsMap) (hashBlock : UInt256) :
    CCoinsViewDB where
  coins := (Foundation.keyedLoop batchWriteCoins db.coins mapCoins.entries).getD db.coins
  hashBestChain := if hashBlock ≠ 0 then some hashBlock else db.hashBestChain

instance : CCoinsView CCoinsViewDB where
  getCoins := getCoins
  getBestBlock := getBestBlock
  batchWrite := batchWrite

/-!
# The database is a lawful base view
-/

def written (old : Option CCoins) (entry : CCoinsCacheEntry) : Option CCoins :=
  if entry.dirty then
    if entry.coins.isPruned then none else some entry.coins
  else old

theorem keyedBody_batchWriteCoins :
    Foundation.KeyedBody batchWriteCoins
      (fun (coins : AList (fun _ : UInt256 => CCoins)) (txid : UInt256) =>
        coins.lookup txid)
      (fun _ _ => True) written := by
  intro coins txid entry _
  beta_reduce
  unfold batchWriteCoins written
  cases entry.dirty with
  | false => exact ⟨coins, rfl, rfl, fun _ _ => rfl⟩
  | true =>
      cases entry.coins.isPruned with
      | true =>
          refine ⟨_, rfl, AList.lookup_erase _ _, ?_⟩
          intro other hne
          exact AList.lookup_erase_ne hne
      | false =>
          refine ⟨_, rfl, AList.lookup_insert _, ?_⟩
          intro other hne
          exact AList.lookup_insert_ne hne

theorem lookup_batchWrite (db : CCoinsViewDB) (mapCoins : CCoinsMap)
    (hashBlock txid : UInt256) :
    (db.batchWrite mapCoins hashBlock).coins.lookup txid =
      match mapCoins.lookup txid with
      | none => db.coins.lookup txid
      | some entry => written (db.coins.lookup txid) entry := by
  rcases Foundation.keyedLoop_spec keyedBody_batchWriteCoins mapCoins.entries db.coins
      mapCoins.nodupKeys (fun _ _ _ => trivial) with ⟨coins, hloop, hlookup⟩
  have hkey := hlookup txid
  unfold batchWrite
  rw [hloop]
  cases hentry : mapCoins.lookup txid with
  | none =>
      unfold AList.lookup at hentry
      rw [hentry] at hkey
      exact hkey
  | some entry =>
      unfold AList.lookup at hentry
      rw [hentry] at hkey
      exact hkey

instance : CacheStack.LawfulCCoinsView CCoinsViewDB where
  clean := by
    intro db txid coins hget
    rcases Option.map_eq_some_iff.mp hget with ⟨stored, _, rfl⟩
    exact CacheStack.cleanup_cleanup stored
  getCoins_batchWrite := by
    intro db batch hash txid hclean _
    show CacheStack.unspent (((db.batchWrite batch hash).coins.lookup txid).map
      CCoins.cleanup) = _
    rw [lookup_batchWrite]
    cases hentry : batch.lookup txid with
    | none => rfl
    | some entry =>
        simp only [written]
        cases hdirty : entry.dirty with
        | false =>
            rw [if_neg Bool.false_ne_true, if_neg Bool.false_ne_true]
            rfl
        | true =>
            rw [if_pos rfl, if_pos rfl]
            cases hpruned : entry.coins.isPruned with
            | true =>
                rw [if_pos rfl, CacheStack.unspent_some_of_isPruned hpruned]
                rfl
            | false =>
                rw [if_neg Bool.false_ne_true, Option.map_some, hclean entry hentry]
  getBestBlock_batchWrite := by
    intro db batch hash
    show getBestBlock (db.batchWrite batch hash) = hash ∨
      hash = 0 ∧ getBestBlock (db.batchWrite batch hash) = getBestBlock db
    unfold batchWrite getBestBlock
    by_cases hnull : hash = 0
    · right
      exact ⟨hnull, by rw [if_neg (not_not.mpr hnull)]⟩
    · left
      rw [if_pos hnull]
      rfl

end CCoinsViewDB

end Hbcur
