import Mathlib.Algebra.Order.BigOperators.Group.Finset
import Hbcur.Wallet.CreateTransaction

/-!
# The balance of created transactions

The inputs of a created transaction are worth its outputs and the fee, as long as the amounts and
the available coins are far from overflowing.
-/

namespace Hbcur
namespace CreateTransaction

open Foundation Serialize CoinSelection

/-!
# The coins of the wallet
-/

section Coins

variable {env : SendEnv} {coinControl : Option CCoinControl} {fOnlyConfirmed : Bool}
  {fIncludeZeroValue : Bool} {nCoinType : AvailableCoinsType} {fUseIX : Bool}

theorem nodup_allCoins (env : SendEnv) : (allCoins env).Nodup := by
  unfold allCoins
  rw [List.nodup_flatMap]
  constructor
  · intro entry _
    apply List.nodup_range.map
    intro i j heq
    exact (Prod.ext_iff.mp heq).2
  · have hpositions : (env.wallet.zipIdx.map Prod.snd).Nodup := by
      rw [List.zipIdx_map_snd]
      exact List.nodup_range'
    refine (List.pairwise_map.mp hpositions).imp ?_
    intro entry other hne coin hcoin hother
    rcases List.mem_map.mp hcoin with ⟨i, _, rfl⟩
    rcases List.mem_map.mp hother with ⟨j, _, heq⟩
    exact hne (Prod.ext_iff.mp heq).1.symm

theorem nodup_coinsInOrder (env : SendEnv) (setCoins : Finset (Nat × Nat)) :
    (coinsInOrder env setCoins).Nodup :=
  (nodup_allCoins env).filter _

theorem toFinset_coinsInOrder {setCoins : Finset (Nat × Nat)}
    (h : forall coin, coin ∈ setCoins -> coin ∈ allCoins env) :
    (coinsInOrder env setCoins).toFinset = setCoins := by
  ext coin
  unfold coinsInOrder
  rw [List.mem_toFinset, List.mem_filter, decide_eq_true_eq]
  exact ⟨fun hin => hin.2, fun hin => ⟨h coin hin, hin⟩⟩

/-- The coins which are available are some of all, in the same order. -/
theorem availableCoins_sublist :
    ((availableCoins env fOnlyConfirmed coinControl fIncludeZeroValue nCoinType fUseIX).map
      COutput.outpoint).Sublist (allCoins env) := by
  unfold availableCoins allCoins
  rw [List.map_flatMap]
  apply List.Sublist.flatMap_right
  intro entry _
  dsimp only
  split_ifs
  all_goals try exact List.nil_sublist _
  rw [List.map_map, List.range_eq_range', ← List.zipIdx_map_snd, List.map_map]
  exact List.filter_sublist.map _

theorem pos_of_not_passedOver {pcoin : WalletTx} {i : Nat} {txout : CTxOut}
    (h : isPassedOver env coinControl false nCoinType pcoin i txout = false) :
    0 < txout.nValue := by
  by_contra hle
  unfold isPassedOver at h
  rw [decide_eq_true (Int.not_lt.mp hle)] at h
  split_ifs at h with hfound hspent hmine hwatch hlocked hzero
  exact hzero rfl

theorem pos_of_available {out : COutput}
    (h : out ∈ availableCoins env fOnlyConfirmed coinControl false nCoinType fUseIX) :
    0 < outputValue (mapWallet env) out.outpoint := by
  unfold availableCoins at h
  rcases List.mem_flatMap.mp h with ⟨⟨pcoin, tx⟩, hentry, hout⟩
  dsimp only at hout
  split_ifs at hout
  all_goals try cases hout
  rcases List.mem_map.mp hout with ⟨⟨txout, i⟩, hin, rfl⟩
  rw [List.mem_filter, Bool.not_eq_true'] at hin
  have htx := List.mem_zipIdx_iff_getElem?.mp hentry
  have hi := List.mem_zipIdx_iff_getElem?.mp hin.1
  have hvalue : outputValue (mapWallet env) (tx, i) = txout.nValue := by
    unfold outputValue mapWallet
    rw [htx, List.getD_eq_getElem?_getD, hi]
    rfl
  exact hvalue ▸ pos_of_not_passedOver hin.2

end Coins

/-!
# Coins which are inserted
-/

section Inserted

variable {env : SendEnv} {vCoins : List COutput} {nTargetValue : Int}

variable (env vCoins) in
/-- What the coins add up to. -/
def totalOf : Int := (vCoins.map fun out => outputValue (mapWallet env) out.outpoint).sum

variable (env vCoins) in
/-- The coins are distinct, and positive, and their total is less than the largest amount. -/
structure CoinsInRange : Prop where
  distinct : (vCoins.map COutput.outpoint).Nodup
  positive : forall out, out ∈ vCoins -> 0 < outputValue (mapWallet env) out.outpoint
  total_lt : totalOf env vCoins < 9223372036854775807

variable (env vCoins) in
/-- The selection has coins of the list, and the value is what they add up to. -/
structure Adds (s : CoinSelection.Selection) : Prop where
  mem : forall outpoint, outpoint ∈ s.setCoinsRet -> outpoint ∈ vCoins.map COutput.outpoint
  value_eq : s.nValueRet = ∑ outpoint ∈ s.setCoinsRet, outputValue (mapWallet env) outpoint

theorem CoinsInRange.value_nonneg (h : CoinsInRange env vCoins) {outpoint : Nat × Nat}
    (hmem : outpoint ∈ vCoins.map COutput.outpoint) :
    0 ≤ outputValue (mapWallet env) outpoint := by
  rcases List.mem_map.mp hmem with ⟨out, hout, rfl⟩
  exact Int.le_of_lt (h.positive out hout)

/-- Distinct coins of the list add up to its total at most. -/
theorem CoinsInRange.sum_le (h : CoinsInRange env vCoins) {setCoins : Finset (Nat × Nat)}
    (hmem : forall outpoint, outpoint ∈ setCoins -> outpoint ∈ vCoins.map COutput.outpoint) :
    (∑ outpoint ∈ setCoins, outputValue (mapWallet env) outpoint) ≤ totalOf env vCoins := by
  have htotal : totalOf env vCoins =
      ∑ outpoint ∈ (vCoins.map COutput.outpoint).toFinset,
        outputValue (mapWallet env) outpoint := by
    rw [List.sum_toFinset _ h.distinct, List.map_map]
    rfl
  rw [htotal]
  apply Finset.sum_le_sum_of_subset_of_nonneg
  · intro outpoint hin
    exact List.mem_toFinset.mpr (hmem outpoint hin)
  · intro outpoint hin _
    exact h.value_nonneg (List.mem_toFinset.mp hin)

/-- Distinct coins of the list which are inserted in turn. -/
theorem CoinsInRange.adds_inserted (h : CoinsInRange env vCoins) {coins : List COutput}
    (hsub : coins ⊆ vCoins) (hnodup : (coins.map COutput.outpoint).Nodup) :
    Adds env vCoins ((coins.map (COutput.toCoin (mapWallet env))).foldl Selection.insert
      Selection.cleared) := by
  have hsecond : (coins.map (COutput.toCoin (mapWallet env))).map Coin.second =
      coins.map COutput.outpoint := List.map_map
  have hmem : forall outpoint, outpoint ∈ (coins.map COutput.outpoint).toFinset ->
      outpoint ∈ vCoins.map COutput.outpoint := by
    intro outpoint hin
    exact List.map_subset _ hsub (List.mem_toFinset.mp hin)
  have hsum : ApproximateBestSubset.sumOf (coins.map (COutput.toCoin (mapWallet env))) =
      ∑ outpoint ∈ (coins.map COutput.outpoint).toFinset,
        outputValue (mapWallet env) outpoint := by
    rw [List.sum_toFinset _ hnodup, List.map_map]
    unfold ApproximateBestSubset.sumOf
    rw [List.map_map]
    rfl
  have hset := setCoinsRet_foldl (coins.map (COutput.toCoin (mapWallet env))) Selection.cleared
  rw [hsecond] at hset
  have hset' := hset.trans (Finset.union_empty _)
  have hle := h.sum_le hmem
  have hlt := h.total_lt
  have hvalue := @nValueRet_foldl (coins.map (COutput.toCoin (mapWallet env))) Selection.cleared
    (by
      intro coin hcoin
      rcases List.mem_map.mp hcoin with ⟨out, hout, rfl⟩
      exact Int.le_of_lt (h.positive out (hsub hout)))
    (Int.le_refl 0) (by
      change 0 + _ < _
      omega)
  constructor
  · rw [hset']
    exact hmem
  · rw [hset', hvalue, ← hsum]
    exact Int.zero_add _

/-- Among the coins for which the loop goes through, those are inserted which a condition picks. -/
theorem exists_inserted {p : CoinSelection.Selection -> COutput -> Bool} {q : COutput -> Bool}
    (hq : forall s out, p s out = true -> q out = true) (coins : List COutput)
    (s : CoinSelection.Selection) :
    exists inserted : List COutput, inserted.Sublist (coins.filter q) ∧
      coins.foldl (insertIf env p) s =
        (inserted.map (COutput.toCoin (mapWallet env))).foldl Selection.insert s := by
  induction coins generalizing s with
  | nil => exact ⟨[], List.Sublist.refl _, rfl⟩
  | cons out coins ih =>
      rcases ih (insertIf env p s out) with ⟨inserted, hsub, heq⟩
      rw [List.foldl_cons, heq]
      cases hp : p s out with
      | true =>
          refine ⟨out :: inserted, ?_, ?_⟩
          · rw [List.filter_cons_of_pos (hq s out hp)]
            exact hsub.cons_cons out
          · rw [insertIf, if_pos hp]
            rfl
      | false =>
          refine ⟨inserted, ?_, ?_⟩
          · exact hsub.trans ((List.sublist_cons_self out coins).filter q)
          · rw [insertIf, if_neg (Bool.eq_false_iff.mp hp)]

theorem CoinsInRange.adds_picked (h : CoinsInRange env vCoins) (pick : COutput -> Bool) :
    Adds env vCoins
      (vCoins.foldl (insertIf env fun _ out => pick out) Selection.cleared) := by
  rcases @exists_inserted env (fun _ out => pick out) pick (fun _ _ hpick => hpick) vCoins
    Selection.cleared with ⟨inserted, hsub, heq⟩
  have hall := hsub.trans List.filter_sublist
  rw [heq]
  exact h.adds_inserted hall.subset (h.distinct.sublist (hall.map _))

variable (env vCoins) in
/-- The coins of some values, by values. -/
def coinsOfValues (values : List Int) : List COutput :=
  values.flatMap fun v =>
    vCoins.filter fun out => outputValue (mapWallet env) out.outpoint == v

theorem CoinsInRange.nodup_coinsOfValues (h : CoinsInRange env vCoins) {values : List Int}
    (hvalues : values.Nodup) : ((coinsOfValues env vCoins values).map COutput.outpoint).Nodup := by
  unfold coinsOfValues
  rw [List.map_flatMap, List.nodup_flatMap]
  constructor
  · intro v _
    exact h.distinct.sublist (List.filter_sublist.map _)
  · refine hvalues.imp ?_
    intro v v' hne outpoint hv hv'
    rcases List.mem_map.mp hv with ⟨out, hout, rfl⟩
    rcases List.mem_map.mp hv' with ⟨other, hother, heq⟩
    have hout' := eq_of_beq (List.mem_filter.mp hout).2
    have hother' := eq_of_beq (List.mem_filter.mp hother).2
    rw [heq] at hother'
    exact hne (hout'.symm.trans hother')

theorem exists_inserted_values {p : Int -> CoinSelection.Selection -> COutput -> Bool}
    (hp : forall v s out, p v s out = true ->
      (outputValue (mapWallet env) out.outpoint == v) = true)
    (values : List Int) (s : CoinSelection.Selection) :
    exists inserted : List COutput, inserted.Sublist (coinsOfValues env vCoins values) ∧
      values.foldl (fun s v => vCoins.foldl (insertIf env (p v)) s) s =
        (inserted.map (COutput.toCoin (mapWallet env))).foldl Selection.insert s := by
  induction values generalizing s with
  | nil => exact ⟨[], List.Sublist.refl _, rfl⟩
  | cons v values ih =>
      rcases exists_inserted (hp v) vCoins s with ⟨first, hfirst, heq⟩
      rcases ih (vCoins.foldl (insertIf env (p v)) s) with ⟨rest, hrest, heq'⟩
      refine ⟨first ++ rest, ?_, ?_⟩
      · unfold coinsOfValues
        rw [List.flatMap_cons]
        exact hfirst.append hrest
      · rw [List.foldl_cons, heq', heq, List.map_append, List.foldl_append]

/-- Coins which are picked by their values, one value after the other. -/
theorem CoinsInRange.adds_values (h : CoinsInRange env vCoins)
    {p : Int -> CoinSelection.Selection -> COutput -> Bool}
    (hp : forall v s out, p v s out = true ->
      (outputValue (mapWallet env) out.outpoint == v) = true)
    {values : List Int} (hvalues : values.Nodup) :
    Adds env vCoins (values.foldl (fun s v => vCoins.foldl (insertIf env (p v)) s)
      Selection.cleared) := by
  rcases @exists_inserted_values env vCoins p hp values Selection.cleared
    with ⟨inserted, hsub, heq⟩
  have hin : inserted ⊆ vCoins := by
    intro out hout
    rcases List.mem_flatMap.mp (hsub.subset hout) with ⟨v, _, hmem⟩
    exact (List.mem_filter.mp hmem).1
  rw [heq]
  exact h.adds_inserted hin ((h.nodup_coinsOfValues hvalues).sublist (hsub.map _))

theorem CoinsInRange.adds_selectDenominated (h : CoinsInRange env vCoins) :
    Adds env vCoins (selectDenominated env nTargetValue vCoins) := by
  unfold selectDenominated
  apply h.adds_values
  · intro v s out hp
    rw [Bool.and_eq_true, Bool.and_eq_true] at hp
    exact hp.1.1
  · decide

theorem CoinsInRange.inRange (h : CoinsInRange env vCoins) (hpos : 0 < nTargetValue)
    (hcent : nTargetValue + CENT < 9223372036854775808) (nConfMine nConfTheirs : Int) :
    InRange (mapWallet env) nTargetValue nConfMine nConfTheirs vCoins := by
  have htotal := h.total_lt
  have hvalues : forall v, v ∈ vCoins.map (fun out => outputValue (mapWallet env) out.outpoint) ->
      0 ≤ v := List.forall_mem_map.mpr fun out hout => Int.le_of_lt (h.positive out hout)
  refine ⟨h.distinct, fun out hout => Int.le_of_lt (h.positive out hout), ?_, hpos, hcent, ?_⟩
  · intro out hout
    have hle := List.single_le_sum hvalues _ (List.mem_map_of_mem hout)
    exact lt_of_le_of_lt hle htotal
  · have hle : lowerTotal (mapWallet env) nTargetValue nConfMine nConfTheirs vCoins ≤
        totalOf env vCoins := (List.filter_sublist.map _).sum_le_sum hvalues
    exact lt_trans (lt_of_le_of_lt hle htotal) (by decide)

/-- A selection which succeeds suffices, and its value is what its coins add up to. -/
theorem CoinsInRange.adds_minConf (h : CoinsInRange env vCoins) (hpos : 0 < nTargetValue)
    (hcent : nTargetValue + CENT < 9223372036854775808) (nConfMine nConfTheirs : Int)
    (draws : Draws)
    (hok : (selectCoinsMinConf (mapWallet env) nTargetValue nConfMine nConfTheirs draws
      vCoins).fOk = true) :
    Adds env vCoins
        (selectCoinsMinConf (mapWallet env) nTargetValue nConfMine nConfTheirs draws vCoins) ∧
      nTargetValue ≤
        (selectCoinsMinConf (mapWallet env) nTargetValue nConfMine nConfTheirs draws
          vCoins).nValueRet := by
  have hperm := draws.orderOutputs_perm vCoins
  have hrange := h.inRange hpos hcent nConfMine nConfTheirs
  have hpays := (((hrange.perm hperm).answers_loops draws).perm hperm).pays hok
  refine ⟨⟨?_, hpays.value_eq⟩, hpays.target_le⟩
  intro outpoint hmem
  rcases hpays.eligible outpoint hmem with ⟨out, hout, _, rfl⟩
  exact List.mem_map_of_mem hout

end Inserted

section Selected

variable {env : SendEnv} {coinControl : Option CCoinControl} {coinType : AvailableCoinsType}
  {useIX : Bool} {nTargetValue : Int} {pass : Nat}

variable (env coinControl coinType useIX) in
/-- The coins which are selected from. -/
def sendCoins : List COutput := availableCoins env true coinControl false coinType useIX

theorem coinsInRange_sendCoins
    (h : totalOf env (sendCoins env coinControl coinType useIX) < 9223372036854775807) :
    CoinsInRange env (sendCoins env coinControl coinType useIX) where
  distinct := (nodup_allCoins env).sublist availableCoins_sublist
  positive _ hout := pos_of_available hout
  total_lt := h

theorem adds_selectCoins
    (h : totalOf env (sendCoins env coinControl coinType useIX) < 9223372036854775807)
    (hpos : 0 < nTargetValue) (hcent : nTargetValue + CENT < 9223372036854775808)
    (hok : (selectCoins env pass nTargetValue coinControl coinType useIX).fOk = true) :
    Adds env (sendCoins env coinControl coinType useIX)
        (selectCoins env pass nTargetValue coinControl coinType useIX) ∧
      nTargetValue ≤ (selectCoins env pass nTargetValue coinControl coinType useIX).nValueRet := by
  have hrange := coinsInRange_sendCoins h
  revert hok
  unfold selectCoins
  dsimp only
  split_ifs
  · intro hok
    have hadds := hrange.adds_picked fun out =>
      out.fSpendable && (decide (coinType ≠ AvailableCoinsType.ONLY_DENOMINATED) ||
        isAnonymized env out)
    exact ⟨⟨hadds.mem, hadds.value_eq⟩, of_decide_eq_true hok⟩
  · intro hok
    have hadds : Adds env _ (selectDenominated env nTargetValue _) :=
      hrange.adds_selectDenominated
    exact ⟨⟨hadds.mem, hadds.value_eq⟩, of_decide_eq_true hok⟩
  all_goals exact hrange.adds_minConf hpos hcent _ _ _

end Selected

/-!
# Payments
-/

/-- What the outputs are worth. -/
def valueOf (vout : List CTxOut) : Int := (vout.map CTxOut.nValue).sum

/-- The outputs go to the script and are worth the amount. -/
def IsPaidBy (s : CScript × Int) (outputs : List CTxOut) : Prop :=
  (forall txout, txout ∈ outputs -> txout.scriptPubKey = s.1) ∧ valueOf outputs = s.2

section Payments

variable {nSplitBlock : Int}

theorem valueOf_append (vout vout' : List CTxOut) :
    valueOf (vout ++ vout') = valueOf vout + valueOf vout' := by
  unfold valueOf
  rw [List.map_append, List.sum_append]

theorem isPaidBy_splitOutputs {s : CScript × Int} (hn : 1 ≤ nSplitBlock) (hnonneg : 0 ≤ s.2)
    (hmax : s.2 < 9223372036854775808) : IsPaidBy s (splitOutputs nSplitBlock s) := by
  obtain ⟨m, hm⟩ : exists m : Nat, nSplitBlock = (m : Int) + 1 :=
    ⟨(nSplitBlock - 1).toNat, by omega⟩
  rw [splitOutputs_eq hm]
  constructor
  · intro txout hmem
    rcases List.mem_append.mp hmem with hsame | hlast
    · rw [List.eq_of_mem_replicate hsame]
      rfl
    · rw [List.mem_singleton.mp hlast]
      rfl
  · have hsame : valueOf (List.replicate m (CTxOut.make (s.2.tdiv nSplitBlock) s.1)) =
        m * s.2.tdiv nSplitBlock := by
      unfold valueOf
      rw [List.map_replicate, List.sum_replicate, nsmul_eq_mul]
      rfl
    have hlast : valueOf [CTxOut.make (lastAmount nSplitBlock s.2) s.1] =
        s.2.tdiv nSplitBlock + s.2.tmod nSplitBlock := by
      rw [lastAmount_eq hn hnonneg hmax]
      exact List.sum_singleton
    have hdivision := Int.mul_tdiv_add_tmod s.2 nSplitBlock
    rw [valueOf_append, hsame, hlast, ← Int.add_assoc]
    calc m * s.2.tdiv nSplitBlock + s.2.tdiv nSplitBlock + s.2.tmod nSplitBlock
        = nSplitBlock * s.2.tdiv nSplitBlock + s.2.tmod nSplitBlock := by
          rw [hm, add_mul, one_mul]
      _ = s.2 := hdivision

/-- The outputs for the payees, one list for each. -/
theorem payees_isPaidBy {minRelayTxFee : Int} {coinControl : Option CCoinControl}
    {vecSend : List (CScript × Int)} {payees : List CTxOut}
    (hsplit : forall control, coinControl = some control -> 1 ≤ control.nSplitBlock)
    (hamounts : forall s, s ∈ vecSend -> 0 ≤ s.2 ∧ s.2 < 9223372036854775808)
    (h : payeeOutputs minRelayTxFee coinControl vecSend = some payees) :
    exists paid, payees = paid.flatten ∧ List.Forall₂ IsPaidBy vecSend paid := by
  have hsplits : forall n, 1 ≤ n ->
      exists paid, vecSend.flatMap (splitOutputs n) = paid.flatten ∧
        List.Forall₂ IsPaidBy vecSend paid := by
    intro n hn
    refine ⟨vecSend.map (splitOutputs n), rfl, ?_⟩
    rw [List.forall₂_map_right_iff, List.forall₂_same]
    intro s hs
    exact isPaidBy_splitOutputs hn (hamounts s hs).1 (hamounts s hs).2
  unfold payeeOutputs at h
  cases coinControl with
  | none =>
      cases h
      exact hsplits 1 (le_refl 1)
  | some control =>
      dsimp only at h
      split at h
      · split at h
        · cases h
        · cases h
          refine ⟨vecSend.map fun s => [CTxOut.make s.2 s.1], ?_, ?_⟩
          · rw [List.map_eq_flatMap]
            rfl
          · rw [List.forall₂_map_right_iff, List.forall₂_same]
            intro s _
            refine ⟨?_, List.sum_singleton⟩
            intro txout hmem
            rw [List.mem_singleton.mp hmem]
            rfl
      · cases h
        exact hsplits control.nSplitBlock (hsplit control rfl)

theorem valueOf_payees {vecSend : List (CScript × Int)} {paid : List (List CTxOut)}
    (h : List.Forall₂ IsPaidBy vecSend paid) :
    valueOf paid.flatten = (vecSend.map Prod.snd).sum := by
  induction h with
  | nil => rfl
  | cons hpaid _ ih =>
      rw [List.flatten_cons, valueOf_append, hpaid.2, ih, List.map_cons, List.sum_cons]

theorem sum_amounts_nonneg {vecSend : List (CScript × Int)}
    (hpos : forall s, s ∈ vecSend -> 0 < s.2) : 0 ≤ (vecSend.map Prod.snd).sum :=
  List.sum_nonneg (List.forall_mem_map.mpr fun s hs => Int.le_of_lt (hpos s hs))

theorem sumAmounts_eq {vecSend : List (CScript × Int)} {nValue : Int} (hstart : 0 ≤ nValue)
    (hpos : forall s, s ∈ vecSend -> 0 < s.2)
    (hlt : nValue + (vecSend.map Prod.snd).sum < 9223372036854775808) :
    sumAmounts vecSend nValue = some (nValue + (vecSend.map Prod.snd).sum) := by
  induction vecSend generalizing nValue with
  | nil => rw [sumAmounts, List.map_nil, List.sum_nil, Int.add_zero]
  | cons s vecSend ih =>
      rw [List.forall_mem_cons] at hpos
      rw [List.map_cons, List.sum_cons] at hlt ⊢
      have hfirst := hpos.1
      have hrest := sum_amounts_nonneg hpos.2
      have hwrap : wrapInt64 (nValue + s.2) = nValue + s.2 :=
        wrapInt64_of_range _ (by omega) (by omega)
      rw [sumAmounts, if_neg (Int.not_lt.mpr hstart), hwrap,
        ih (by omega) hpos.2 (by omega), Int.add_assoc]

end Payments

/-!
# A pass
-/

/-- The fee is what the inputs have over the outputs, and only the change is not for a payee. -/
structure Balanced (env : SendEnv) (vecSend : List (CScript × Int)) (c : Created) : Prop where
  distinct : (coinsInOrder env c.setCoins).Nodup
  selected : (coinsInOrder env c.setCoins).toFinset = c.setCoins
  inputs : c.txNew.vin.map CTxIn.prevout = (coinsInOrder env c.setCoins).map (prevoutOf env)
  balance : ((coinsInOrder env c.setCoins).map (outputValue (mapWallet env))).sum =
    valueOf c.txNew.vout + c.nFeeRet
  payments : exists paid, List.Forall₂ IsPaidBy vecSend paid ∧ WithChange paid.flatten c.txNew.vout

/-- No pass pays more than that. -/
def feeBound (env : SendEnv) (useIX : Bool) (nFeePay : Int) : Int :=
  max 0 (max (feeToPay useIX nFeePay) env.maxTxFee)

/--
The amounts are positive, and with the largest fee and a cent on top, as the coins are, they are
less than the largest integer.
-/
structure SendInRange (env : SendEnv) (vecSend : List (CScript × Int))
    (coinControl : Option CCoinControl) (coinType : AvailableCoinsType) (useIX : Bool)
    (nFeePay : Int) : Prop where
  positive : forall s, s ∈ vecSend -> 0 < s.2
  splits : forall control, coinControl = some control -> 1 ≤ control.nSplitBlock
  total_lt : (vecSend.map Prod.snd).sum + feeBound env useIX nFeePay + CENT < 9223372036854775808
  coins_lt : totalOf env (sendCoins env coinControl coinType useIX) < 9223372036854775807

section Passes

variable {env : SendEnv} {vecSend : List (CScript × Int)} {coinControl : Option CCoinControl}
  {coinType : AvailableCoinsType} {useIX : Bool} {nFeePay : Int} {pass : Nat} {nFeeRet : Int}

theorem valueOf_addChange {nChange nFee : Int} {payees vout : List CTxOut} (hfee : 0 ≤ nFeeRet)
    (hchange : 0 ≤ nChange) (hlt : nFeeRet + nChange < 9223372036854775808)
    (h : addChange env pass coinControl nFeeRet nChange payees = some (nFee, vout)) :
    nFeeRet ≤ nFee ∧ valueOf vout + nFee = valueOf payees + nFeeRet + nChange := by
  unfold addChange at h
  split at h
  · rcases Option.map_eq_some_iff.mp h with ⟨script, _, heq⟩
    dsimp only at heq
    split at heq
    · cases heq
      rw [wrapInt64_of_range _ (by omega) hlt]
      exact ⟨by omega, by omega⟩
    · cases heq
      have hperm := List.perm_insertIdx (CTxOut.make nChange script) payees
        (Nat.le_of_lt_succ (Nat.mod_lt (env.changePosition pass) (Nat.succ_pos payees.length)))
      have hvalue : valueOf (payees.insertIdx (env.changePosition pass % (payees.length + 1))
          (CTxOut.make nChange script)) = nChange + valueOf payees :=
        (hperm.map CTxOut.nValue).sum_eq
      rw [hvalue]
      exact ⟨le_refl nFeeRet, by omega⟩
  · case isFalse hnot =>
      cases h
      exact ⟨le_refl nFeeRet, by omega⟩

theorem SendInRange.amount_range
    (h : SendInRange env vecSend coinControl coinType useIX nFeePay) {s : CScript × Int}
    (hs : s ∈ vecSend) : 0 ≤ s.2 ∧ s.2 < 9223372036854775808 := by
  have hle : s.2 ≤ (vecSend.map Prod.snd).sum := by
    apply List.single_le_sum _ _ (List.mem_map_of_mem hs)
    exact List.forall_mem_map.mpr fun other hother => Int.le_of_lt (h.positive other hother)
  have hbound : 0 ≤ feeBound env useIX nFeePay := le_max_left _ _
  have hcent : (0 : Int) ≤ CENT := by decide
  have htotal := h.total_lt
  exact ⟨Int.le_of_lt (h.positive s hs), by omega⟩

theorem SendInRange.sum_pos
    (h : SendInRange env vecSend coinControl coinType useIX nFeePay) (hne : vecSend ≠ []) :
    0 < (vecSend.map Prod.snd).sum := by
  apply List.sum_pos
  · exact List.forall_mem_map.mpr h.positive
  · exact fun hnil => hne (List.map_eq_nil_iff.mp hnil)

/-- The selection of a pass. -/
theorem SendInRange.adds_selection
    (h : SendInRange env vecSend coinControl coinType useIX nFeePay) (hne : vecSend ≠ [])
    (hfee : 0 ≤ nFeeRet) (hbound : nFeeRet ≤ feeBound env useIX nFeePay)
    (hok : (selection env coinControl coinType useIX (vecSend.map Prod.snd).sum pass
      nFeeRet).fOk = true) :
    Adds env (sendCoins env coinControl coinType useIX)
        (selection env coinControl coinType useIX (vecSend.map Prod.snd).sum pass nFeeRet) ∧
      (vecSend.map Prod.snd).sum + nFeeRet ≤
        (selection env coinControl coinType useIX (vecSend.map Prod.snd).sum pass
          nFeeRet).nValueRet := by
  have hpos := h.sum_pos hne
  have hcent : (0 : Int) ≤ CENT := by decide
  have htotal := h.total_lt
  have hwrap : wrapInt64 ((vecSend.map Prod.snd).sum + nFeeRet) =
      (vecSend.map Prod.snd).sum + nFeeRet := wrapInt64_of_range _ (by omega) (by omega)
  unfold selection at hok ⊢
  rw [hwrap] at hok ⊢
  exact adds_selectCoins h.coins_lt (by omega) (by omega) hok

/-- What is paid over the amounts is fee and change. -/
theorem paidOf_spec {nValue : Int} (hvalue : 0 ≤ nValue) (hfee : 0 ≤ nFeeRet)
    (hle : nValue + nFeeRet ≤
      (selection env coinControl coinType useIX nValue pass nFeeRet).nValueRet)
    (hlt : (selection env coinControl coinType useIX nValue pass nFeeRet).nValueRet <
      9223372036854775807) :
    nFeeRet ≤ (paidOf env coinControl coinType useIX nValue pass nFeeRet).1 ∧
      0 ≤ (paidOf env coinControl coinType useIX nValue pass nFeeRet).2 ∧
      (paidOf env coinControl coinType useIX nValue pass nFeeRet).1 +
          (paidOf env coinControl coinType useIX nValue pass nFeeRet).2 =
        (selection env coinControl coinType useIX nValue pass nFeeRet).nValueRet - nValue := by
  unfold paidOf
  generalize (selection env coinControl coinType useIX nValue pass nFeeRet).nValueRet = nValueIn
    at hle hlt ⊢
  have hover : wrapInt64 (nValueIn - nValue) = nValueIn - nValue :=
    wrapInt64_of_range _ (by omega) (by omega)
  have hchange : wrapInt64 (nValueIn - nValue - nFeeRet) = nValueIn - nValue - nFeeRet :=
    wrapInt64_of_range _ (by omega) (by omega)
  rw [hover, hchange]
  unfold overpay
  split
  · rw [wrapInt64_of_range _ (by omega) (by omega)]
    exact ⟨by omega, le_refl 0, by omega⟩
  · exact ⟨le_refl nFeeRet, by omega, by omega⟩

/-- What a pass builds is balanced, with at least the fee which it starts with. -/
theorem SendInRange.balanced_of_builds
    (h : SendInRange env vecSend coinControl coinType useIX nFeePay) (hne : vecSend ≠ [])
    (hfee : 0 ≤ nFeeRet) (hbound : nFeeRet ≤ feeBound env useIX nFeePay) {payees : List CTxOut}
    {nFee : Int} {txNew : CMutableTransaction}
    (hbuilds : Builds env vecSend coinControl coinType useIX (vecSend.map Prod.snd).sum pass
      nFeeRet payees nFee txNew) :
    nFeeRet ≤ nFee ∧
      Balanced env vecSend ⟨txNew, nFee, (selection env coinControl coinType useIX
        (vecSend.map Prod.snd).sum pass nFeeRet).setCoinsRet⟩ := by
  rcases h.adds_selection hne hfee hbound hbuilds.selected with ⟨hadds, htarget⟩
  have hrange := coinsInRange_sendCoins h.coins_lt
  have hlt : (selection env coinControl coinType useIX (vecSend.map Prod.snd).sum pass
      nFeeRet).nValueRet < 9223372036854775807 := by
    rw [hadds.value_eq]
    exact lt_of_le_of_lt (hrange.sum_le hadds.mem) h.coins_lt
  have hsum := sum_amounts_nonneg h.positive
  rcases paidOf_spec hsum hfee htarget hlt with ⟨hfirst, hsecond, hpaid⟩
  rcases valueOf_addChange (by omega) hsecond (by omega) hbuilds.change with ⟨hmore, hout⟩
  rcases payees_isPaidBy h.splits (fun s hs => h.amount_range hs) hbuilds.payees_eq
    with ⟨paid, heq, hforall⟩
  rw [heq, valueOf_payees hforall] at hout
  have hselected := @toFinset_coinsInOrder env (selection env coinControl coinType useIX
      (vecSend.map Prod.snd).sum pass nFeeRet).setCoinsRet fun coin hcoin =>
    availableCoins_sublist.subset (hadds.mem coin hcoin)
  refine ⟨by omega, nodup_coinsInOrder env _, hselected, hbuilds.inputs, ?_, paid, hforall, ?_⟩
  · rw [← List.sum_toFinset _ (nodup_coinsInOrder env _), hselected, ← hadds.value_eq]
    dsimp only
    omega
  · exact heq ▸ withChange_addChange hbuilds.change

variable (env vecSend useIX nFeePay) in
/-- A pass ends the loop with what it has to, or raises the fee. -/
def Proceeds (nFeeRet : Int) : Pass -> Prop
  | Pass.done outcome => forall c, outcome = Outcome.created c -> Balanced env vecSend c
  | Pass.again nFeeNeeded => nFeeRet < nFeeNeeded ∧ nFeeNeeded ≤ feeBound env useIX nFeePay

variable (pass) in
theorem SendInRange.proceeds_createPass
    (h : SendInRange env vecSend coinControl coinType useIX nFeePay) (hne : vecSend ≠ [])
    (hfee : 0 ≤ nFeeRet) (hbound : nFeeRet ≤ feeBound env useIX nFeePay) :
    Proceeds env vecSend useIX nFeePay nFeeRet
      (createPass env vecSend coinControl coinType useIX (feeToPay useIX nFeePay)
        (vecSend.map Prod.snd).sum pass nFeeRet) := by
  rcases @createPass_cases env vecSend coinControl coinType useIX (feeToPay useIX nFeePay)
      (vecSend.map Prod.snd).sum pass nFeeRet
    with ⟨outcome, hnot, hpass⟩ | ⟨payees, nFee, txNew, hbuilds, hpass⟩
  · rw [hpass]
    exact fun c hc => absurd hc (hnot c)
  · rcases h.balanced_of_builds hne hfee hbound hbuilds with ⟨hmore, hbalanced⟩
    rw [hpass]
    rcases @checkFee_cases env (feeToPay useIX nFeePay) pass nFee
        (selection env coinControl coinType useIX (vecSend.map Prod.snd).sum pass
          nFeeRet).setCoinsRet txNew
      with ⟨outcome, hcheck, hcreated⟩ | ⟨nFeeNeeded, hcheck, hless, hmax⟩
    · rw [hcheck]
      exact fun c hc => hcreated c hc ▸ hbalanced
    · rw [hcheck]
      exact ⟨lt_of_le_of_lt hmore hless, hmax.trans (le_max_right _ _)⟩

variable (pass) in
/-- The fee is raised by each pass which does not end the loop, and it is bounded. -/
theorem SendInRange.createLoop_ends
    (h : SendInRange env vecSend coinControl coinType useIX nFeePay) (hne : vecSend ≠ []) (n : Nat)
    (hfee : 0 ≤ nFeeRet) (hbound : nFeeRet ≤ feeBound env useIX nFeePay)
    (hn : feeBound env useIX nFeePay - nFeeRet < n) :
    exists outcome,
      (forall fuel, n ≤ fuel ->
        createLoop env vecSend coinControl coinType useIX (feeToPay useIX nFeePay)
          (vecSend.map Prod.snd).sum fuel pass nFeeRet = some outcome) ∧
      forall c, outcome = Outcome.created c -> Balanced env vecSend c := by
  induction n generalizing pass nFeeRet with
  | zero => omega
  | succ n ih =>
      have hproceeds := h.proceeds_createPass pass hne hfee hbound
      cases hpass : createPass env vecSend coinControl coinType useIX (feeToPay useIX nFeePay)
          (vecSend.map Prod.snd).sum pass nFeeRet with
      | done outcome =>
          rw [hpass] at hproceeds
          refine ⟨outcome, ?_, hproceeds⟩
          intro fuel hfuel
          obtain ⟨fuel, rfl⟩ := Nat.exists_eq_add_of_le' hfuel
          rw [← Nat.add_assoc, createLoop, hpass]
      | again nFeeNeeded =>
          rw [hpass] at hproceeds
          have hraised := hproceeds.1
          rcases ih (pass + 1) (by omega) hproceeds.2 (by omega) with ⟨outcome, hloop, hcreated⟩
          refine ⟨outcome, ?_, hcreated⟩
          intro fuel hfuel
          obtain ⟨fuel, rfl⟩ := Nat.exists_eq_add_of_le' hfuel
          rw [← Nat.add_assoc, createLoop, hpass]
          exact hloop (fuel + n) (Nat.le_add_left n fuel)

/--
The loop ends, and what is created then is balanced, where amounts, fees and coins are in range.
-/
theorem created_balances
    (h : SendInRange env vecSend coinControl coinType useIX nFeePay) :
    exists outcome turns,
      (forall fuel, turns ≤ fuel ->
        createTransaction env vecSend coinControl coinType useIX nFeePay fuel = some outcome) ∧
      forall c, outcome = Outcome.created c -> Balanced env vecSend c := by
  have hsum := sum_amounts_nonneg h.positive
  have hbound : 0 ≤ feeBound env useIX nFeePay := le_max_left _ _
  have hcent : (0 : Int) ≤ CENT := by decide
  have htotal := h.total_lt
  have hamounts := sumAmounts_eq (le_refl 0) h.positive (by omega)
  rw [Int.zero_add] at hamounts
  cases hvec : vecSend with
  | nil =>
      refine ⟨_, 0, fun fuel _ => rfl, ?_⟩
      intro c hc
      cases hc
  | cons s rest =>
      have hne : vecSend ≠ [] := hvec ▸ List.cons_ne_nil s rest
      rw [← hvec]
      have hstart : 0 ≤ (if feeToPay useIX nFeePay > 0 then feeToPay useIX nFeePay else 0) ∧
          (if feeToPay useIX nFeePay > 0 then feeToPay useIX nFeePay else 0) ≤
            feeBound env useIX nFeePay := by
        split
        · case isTrue hpos =>
            exact ⟨Int.le_of_lt hpos, (le_max_left _ _).trans (le_max_right _ _)⟩
        · exact ⟨le_refl 0, hbound⟩
      rcases h.createLoop_ends 0 hne ((feeBound env useIX nFeePay).toNat + 1) hstart.1
        hstart.2 (by omega) with ⟨outcome, hloop, hcreated⟩
      refine ⟨outcome, (feeBound env useIX nFeePay).toNat + 1, ?_, hcreated⟩
      intro fuel hfuel
      have hempty : vecSend.isEmpty = false := by
        rw [hvec]
        rfl
      unfold createTransaction
      rw [hamounts]
      dsimp only
      rw [hempty, decide_eq_false (Int.not_lt.mpr hsum)]
      exact hloop fuel hfuel

end Passes

namespace SendExample

theorem created_balances_cent :
    exists outcome turns,
      (forall fuel, turns ≤ fuel ->
        createTransaction env [([4], CENT)] none AvailableCoinsType.ALL_COINS false 0 fuel =
          some outcome) ∧
      forall c, outcome = Outcome.created c -> Balanced env [([4], CENT)] c :=
  created_balances ⟨by decide, by decide, by decide +kernel, by decide +kernel⟩

/-- A wallet with three outputs of one transaction, which are all selected by hand. -/
def largeEnv : SendEnv :=
  { env with wallet := [{ oneCoin with
      vout := List.replicate 3 (CTxOut.make 9223372036854775807 [1]) }] }

def selectedByHand : CCoinControl where
  scriptChange := none
  fSplitBlock := false
  nSplitBlock := 1
  fAllowOtherInputs := false
  setSelected := (List.range 3).map fun i => ⟨1, i⟩

/-- The target wraps, and nothing is spent. -/
def spentNothing : Created where
  txNew :=
    { vin := []
      vout := [CTxOut.make 9223372036854775189 [2], CTxOut.make 9223372036854775807 [4]] }
  nFeeRet := 620
  setCoins := ∅

/-- The value of the coins wraps, and the rest is lost. -/
def spentAll : Created where
  txNew :=
    { vin := (List.range 3).map fun i => ⟨⟨1, i⟩, [3], COutPoint.maxUInt32⟩
      vout := [CTxOut.make 9223372036754774245 [2], CTxOut.make COIN [4]] }
  nFeeRet := 1560
  setCoins := {(0, 2), (0, 1), (0, 0)}

/-- With the largest amount, or with coins that add up to more, the balance does not hold. -/
theorem created_unbalanced :
    (createTransaction env [([4], 9223372036854775807)] none AvailableCoinsType.ALL_COINS false 0
        2 = some (Outcome.created spentNothing) ∧
      ¬ Balanced env [([4], 9223372036854775807)] spentNothing) ∧
    createTransaction largeEnv [([4], COIN)] (some selectedByHand) AvailableCoinsType.ALL_COINS
        false 0 2 = some (Outcome.created spentAll) ∧
      ¬ Balanced largeEnv [([4], COIN)] spentAll := by
  refine ⟨⟨by decide +kernel, ?_⟩, by decide +kernel, ?_⟩
  · intro h
    exact absurd h.balance (by decide +kernel)
  · intro h
    exact absurd h.balance (by decide +kernel)

end SendExample

end CreateTransaction
end Hbcur
