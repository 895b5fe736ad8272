import Hbcur.Coins.Cache

/-!
# Coins as block processing sees them

`ConnectBlock` and `DisconnectBlock` work on a `CCoinsViewCache` through four
operations: look at an entry (an absent one reads as an empty one), assign to an
entry through `ModifyCoins`, and read or move the best block.  The laws say what
these operations guarantee; a pruned entry may be kept or dropped.
-/

namespace Hbcur

class CoinsState (state : Type) where
  coinsAt : state -> UInt256 -> CCoins
  assign : state -> UInt256 -> CCoins -> state
  getBestBlock : state -> UInt256
  setBestBlock : state -> UInt256 -> state

class LawfulCoinsState (state : Type) [CoinsState state] : Prop where
  coinsAt_assign_self : forall (v : state) (txid : UInt256) (coins : CCoins),
    coins.isPruned = false ->
      CoinsState.coinsAt (CoinsState.assign v txid coins) txid = coins.cleanup
  isPruned_assign_self : forall (v : state) (txid : UInt256) (coins : CCoins),
    coins.isPruned = true ->
      (CoinsState.coinsAt (CoinsState.assign v txid coins) txid).isPruned = true
  coinsAt_assign_other : forall (v : state) (txid other : UInt256) (coins : CCoins),
    other ≠ txid -> CoinsState.coinsAt (CoinsState.assign v txid coins) other =
      CoinsState.coinsAt v other
  coinsAt_setBestBlock : forall (v : state) (hash txid : UInt256),
    CoinsState.coinsAt (CoinsState.setBestBlock v hash) txid = CoinsState.coinsAt v txid
  getBestBlock_setBestBlock : forall (v : state) (hash : UInt256), hash ≠ 0 ->
    CoinsState.getBestBlock (CoinsState.setBestBlock v hash) = hash
  getBestBlock_assign : forall (v : state) (txid : UInt256) (coins : CCoins),
    CoinsState.getBestBlock (CoinsState.assign v txid coins) = CoinsState.getBestBlock v

export CoinsState (coinsAt assign)

/-!
# Consequences of the laws
-/

section Lawful

variable {state : Type} [CoinsState state] [LawfulCoinsState state]

theorem agree_assign_self (v : state) (txid : UInt256) (coins : CCoins) :
    CCoins.Agree (coinsAt (assign v txid coins) txid) coins := by
  cases hpruned : coins.isPruned with
  | false =>
      rw [LawfulCoinsState.coinsAt_assign_self v txid coins hpruned]
      exact CCoins.agree_cleanup coins
  | true =>
      have hself := LawfulCoinsState.isPruned_assign_self v txid coins hpruned
      constructor
      · intro nPos
        rw [(CCoins.isPruned_iff _).mp hself nPos, (CCoins.isPruned_iff _).mp hpruned nPos]
      · intro hfalse
        rw [hpruned] at hfalse
        cases hfalse

theorem isPruned_assign (v : state) (txid : UInt256) (coins : CCoins) :
    (coinsAt (assign v txid coins) txid).isPruned = coins.isPruned :=
  CCoins.isPruned_eq_of_agree (agree_assign_self v txid coins)

theorem output?_assign (v : state) (txid : UInt256) (coins : CCoins) (nPos : Nat) :
    (coinsAt (assign v txid coins) txid).output? nPos = coins.output? nPos :=
  (agree_assign_self v txid coins).1 nPos

end Lawful

/-!
# A plain map
-/

structure CoinsMap where
  coins : UInt256 -> CCoins := fun _ => CCoins.empty
  bestBlock : UInt256 := 0

namespace CoinsMap

instance : CoinsState CoinsMap where
  coinsAt v txid := v.coins txid
  assign v txid coins := { v with coins := Function.update v.coins txid coins.cleanup }
  getBestBlock v := v.bestBlock
  setBestBlock v hash := { v with bestBlock := hash }

instance : LawfulCoinsState CoinsMap where
  coinsAt_assign_self := by
    intro v txid coins _
    exact Function.update_self txid coins.cleanup v.coins
  isPruned_assign_self := by
    intro v txid coins hpruned
    show (Function.update v.coins txid coins.cleanup txid).isPruned = true
    rw [Function.update_self, CCoins.isPruned_cleanup]
    exact hpruned
  coinsAt_assign_other := by
    intro v txid other coins hne
    exact Function.update_of_ne hne coins.cleanup v.coins
  coinsAt_setBestBlock := fun _ _ _ => rfl
  getBestBlock_setBestBlock := fun _ _ _ => rfl
  getBestBlock_assign := fun _ _ _ => rfl

end CoinsMap

/-!
# The cache itself

A stack of caches which satisfies its invariant and has a top cache.
-/

structure CoinsStack (base : Type) [CCoinsView base] where
  view : base
  top : CCoinsViewCache
  below : List CCoinsViewCache
  ok : CacheStack.StackOk view (top :: below)

namespace CoinsStack

variable {base : Type} [CCoinsView base] [CacheStack.LawfulCCoinsView base]

def coins (v : CoinsStack base) (txid : UInt256) : CCoins :=
  (CacheStack.content v.view (v.top :: v.below) txid).getD CCoins.empty

/-- The caches after `ModifyCoins`, an assignment and the end of the modifier. -/
def modified (v : CoinsStack base) (txid : UInt256) (coins : CCoins) :
    CCoinsViewCache × List CCoinsViewCache :=
  match CacheStack.modifiedEntry v.view txid v.top v.below with
  | (entry, below') =>
      (CacheStack.closeModifier txid { entry with coins := coins } v.top, below')

omit [CacheStack.LawfulCCoinsView base] in
theorem modifyCoins_eq (v : CoinsStack base) (txid : UInt256) (coins : CCoins) :
    CacheStack.modifyCoins v.view txid coins (v.top :: v.below) =
      some ((v.modified txid coins).1 :: (v.modified txid coins).2) := rfl

theorem modified_spec (v : CoinsStack base) (txid : UInt256) (coins : CCoins) :
    CacheStack.Unchanged v.view v.below (v.modified txid coins).2 ∧
      (v.modified txid coins).1.hashBlock = v.top.hashBlock ∧
      CacheStack.StackOk v.view ((v.modified txid coins).1 :: (v.modified txid coins).2) ∧
      forall other, CacheStack.unspent (CacheStack.content v.view
          ((v.modified txid coins).1 :: (v.modified txid coins).2) other) =
        if other = txid then CacheStack.unspent (some coins.cleanup)
        else CacheStack.unspent (CacheStack.content v.view (v.top :: v.below) other) := by
  rcases CacheStack.modifyCoins_spec txid coins v.ok with
    ⟨cache', rest', hmod, hun, hhash, hok, hcontent⟩
  rw [modifyCoins_eq, Option.some.injEq, List.cons.injEq] at hmod
  rw [hmod.1, hmod.2]
  exact ⟨hun, hhash, hok, hcontent⟩

def assign (v : CoinsStack base) (txid : UInt256) (coins : CCoins) : CoinsStack base where
  view := v.view
  top := (v.modified txid coins).1
  below := (v.modified txid coins).2
  ok := (modified_spec v txid coins).2.2.1

def setBestBlock (v : CoinsStack base) (hash : UInt256) : CoinsStack base where
  view := v.view
  top := { v.top with hashBlock := hash }
  below := v.below
  ok := v.ok

instance : CoinsState (CoinsStack base) where
  coinsAt := coins
  assign := assign
  getBestBlock v := CacheStack.bestBlock v.view (v.top :: v.below)
  setBestBlock := setBestBlock

theorem lookup_closeModifier_other {txid other : UInt256} (hne : other ≠ txid)
    (entry : CCoinsCacheEntry) (cache : CCoinsViewCache) :
    (CacheStack.closeModifier txid entry cache).cacheCoins.lookup other =
      cache.cacheCoins.lookup other := by
  unfold CacheStack.closeModifier
  split
  · exact AList.lookup_erase_ne hne
  · exact AList.lookup_insert_ne hne

theorem content_modified_other (v : CoinsStack base) {txid other : UInt256}
    (hne : other ≠ txid) (coins : CCoins) :
    CacheStack.content v.view
        ((v.modified txid coins).1 :: (v.modified txid coins).2) other =
      CacheStack.content v.view (v.top :: v.below) other := by
  have hun := (modified_spec v txid coins).1
  have hlookup : (v.modified txid coins).1.cacheCoins.lookup other =
      v.top.cacheCoins.lookup other := lookup_closeModifier_other hne _ _
  simp only [CacheStack.content, hlookup, hun.content_eq]

/-- What is read after an assignment, once pruned entries are forgotten. -/
theorem unspent_modified_self (v : CoinsStack base) (txid : UInt256) (coins : CCoins) :
    CacheStack.unspent (CacheStack.content v.view
        ((v.modified txid coins).1 :: (v.modified txid coins).2) txid) =
      CacheStack.unspent (some coins.cleanup) := by
  rw [(modified_spec v txid coins).2.2.2 txid, if_pos rfl]

instance : LawfulCoinsState (CoinsStack base) where
  coinsAt_assign_self := by
    intro v txid coins hpruned
    have hself := unspent_modified_self v txid coins
    rw [CacheStack.unspent_some_of_not_isPruned
      ((CCoins.isPruned_cleanup coins).trans hpruned)] at hself
    rcases Option.filter_eq_some_iff.mp hself with ⟨hcontent, _⟩
    show (CacheStack.content v.view
      ((v.modified txid coins).1 :: (v.modified txid coins).2) txid).getD
        CCoins.empty = coins.cleanup
    rw [hcontent]
    rfl
  isPruned_assign_self := by
    intro v txid coins hpruned
    have hself := unspent_modified_self v txid coins
    rw [CacheStack.unspent_some_of_isPruned
      ((CCoins.isPruned_cleanup coins).trans hpruned)] at hself
    show ((CacheStack.content v.view
      ((v.modified txid coins).1 :: (v.modified txid coins).2) txid).getD
        CCoins.empty).isPruned = true
    cases hcontent : CacheStack.content v.view
        ((v.modified txid coins).1 :: (v.modified txid coins).2) txid with
    | none => rfl
    | some found =>
        rw [hcontent] at hself
        cases hfound : found.isPruned with
        | true => exact hfound
        | false =>
            rw [CacheStack.unspent_some_of_not_isPruned hfound] at hself
            cases hself
  coinsAt_assign_other := by
    intro v txid other coins hne
    show (CacheStack.content v.view
      ((v.modified txid coins).1 :: (v.modified txid coins).2) other).getD CCoins.empty = _
    rw [content_modified_other v hne coins]
    rfl
  coinsAt_setBestBlock := fun _ _ _ => rfl
  getBestBlock_setBestBlock := by
    intro v hash hne
    exact if_neg hne
  getBestBlock_assign := by
    intro v txid coins
    rcases modified_spec v txid coins with ⟨hun, hhash, _⟩
    show CacheStack.bestBlock v.view
      ((v.modified txid coins).1 :: (v.modified txid coins).2) =
        CacheStack.bestBlock v.view (v.top :: v.below)
    simp only [CacheStack.bestBlock, hhash, hun.bestBlock_eq]

end CoinsStack

end Hbcur
