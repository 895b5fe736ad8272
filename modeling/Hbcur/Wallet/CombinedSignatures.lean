import Hbcur.Script.BareMultiSig
import Hbcur.Wallet.Destinations

/-!
# Combining loses no signature

The signatures of two scripts are pooled and matched with the keys by trial.  Whichever of the
scripts comes first, a key has one in the end as soon as either script holds one for it.
-/

namespace Hbcur
namespace Script

open Foundation

/-!
# The pool
-/

theorem byteOrder_injective : Function.Injective byteOrder :=
  List.map_injective_iff.mpr fun _ _ => UInt8.toNat_inj.mp

theorem insertSigs_comm (sigs1 sigs2 : Stack) :
    insertSigs (insertSigs [] sigs1) sigs2 = insertSigs (insertSigs [] sigs2) sigs1 :=
  StdSet.insertAll_comm byteOrder_injective _ _

theorem mem_insertSigs_iff {sigs1 sigs2 : Stack} {sig : ValType} :
    sig ∈ insertSigs (insertSigs [] sigs1) sigs2 <-> sig ∈ sigs1 ++ sigs2 ∧ sig ≠ [] := by
  have hnonempty : forall sigs : Stack,
      sig ∈ sigs.reverse.filter (fun v => !List.isEmpty v) <-> sig ∈ sigs ∧ sig ≠ [] := by
    intro sigs
    rw [List.mem_filter, List.mem_reverse, Bool.not_eq_true', List.isEmpty_eq_false_iff]
  unfold insertSigs
  rw [StdSet.mem_insertAll_iff byteOrder_injective, StdSet.mem_insertAll_iff byteOrder_injective,
    hnonempty, hnonempty, List.mem_append, or_and_right, or_iff_right List.not_mem_nil]

/-!
# The script which is built
-/

/-- A dummy, some signatures, and as many empty pushes as are missing. -/
def paddedScript (nSigsRequired : Nat) (sigs : List ValType) : CScript :=
  ([] :: (sigs ++ List.replicate (nSigsRequired - sigs.length) [])).flatMap pushBytes

theorem pushSigs_eq (sigs : StdMap ValType ValType) (nSigsRequired : Nat)
    (pubkeys : List ValType) (nSigsHave : Nat) (result : CScript) :
    pushSigs sigs nSigsRequired pubkeys nSigsHave result =
      (result ++ ((pubkeys.filterMap sigs.lookup).take (nSigsRequired - nSigsHave)).flatMap
          pushBytes,
        nSigsHave + ((pubkeys.filterMap sigs.lookup).take (nSigsRequired - nSigsHave)).length) := by
  induction pubkeys generalizing nSigsHave result with
  | nil =>
      rw [pushSigs, List.filterMap_nil, List.take_nil, List.flatMap_nil, List.append_nil]
      rfl
  | cons pubkey pubkeys ih =>
      rw [pushSigs]
      split_ifs with hmore
      · cases hlookup : sigs.lookup pubkey with
        | none =>
            simp only
            rw [ih, @List.filterMap_cons_none _ _ (fun key => sigs.lookup key) _ _ hlookup]
        | some sig =>
            have hleft : nSigsRequired - nSigsHave = nSigsRequired - (nSigsHave + 1) + 1 := by
              omega
            simp only
            rw [ih, @List.filterMap_cons_some _ _ (fun key => sigs.lookup key) _ _ _ hlookup, hleft,
              List.take_succ_cons, List.flatMap_cons, List.append_assoc, List.length_cons]
            congr 1
            omega
      · rw [Nat.sub_eq_zero_of_le (Nat.not_lt.mp hmore), List.take_zero, List.flatMap_nil,
          List.append_nil]
        rfl

section Combined

variable (checker : TransactionSignatureChecker) (scriptPubKey : CScript)

def assigned (pubkeys : List ValType) (sigs1 sigs2 : Stack) : StdMap ValType ValType :=
  assignEach (fun sig pubkey => checker.checkSig sig pubkey scriptPubKey)
    (insertSigs (insertSigs [] sigs1) sigs2) pubkeys ∅

/-- The signatures which the combined script pushes. -/
def combinedSigs (nSigsRequired : Nat) (pubkeys : List ValType) (sigs1 sigs2 : Stack) :
    List ValType :=
  (pubkeys.filterMap (assigned checker scriptPubKey pubkeys sigs1 sigs2).lookup).take
    nSigsRequired

theorem combinedSigs_comm (nSigsRequired : Nat) (pubkeys : List ValType) (sigs1 sigs2 : Stack) :
    combinedSigs checker scriptPubKey nSigsRequired pubkeys sigs1 sigs2 =
      combinedSigs checker scriptPubKey nSigsRequired pubkeys sigs2 sigs1 := by
  unfold combinedSigs assigned
  rw [insertSigs_comm]

theorem combineMultisig_eq (m : UInt8) (pubkeys : List ValType) (last : ValType)
    (sigs1 sigs2 : Stack) :
    combineMultisig checker scriptPubKey ([m] :: pubkeys ++ [last]) sigs1 sigs2 =
      Except.ok (paddedScript m.toNat
        (combinedSigs checker scriptPubKey m.toNat pubkeys sigs1 sigs2)) := by
  have hmany : decide (([m] :: pubkeys ++ [last]).length > 1) = true := by
    rw [decide_eq_true_eq, List.length_append, List.length_cons, List.length_singleton]
    omega
  have hpubkeys : (([m] :: pubkeys ++ [last]).drop 1).take
      (([m] :: pubkeys ++ [last]).length - 2) = pubkeys := by
    have hcount : ([m] :: pubkeys ++ [last]).length - 2 = pubkeys.length := by
      rw [List.length_append, List.length_cons, List.length_singleton]
      omega
    rw [hcount]
    exact List.take_left
  have hpadding : forall n : Nat, List.replicate n (UInt8.ofNat OP_0) =
      (List.replicate n ([] : ValType)).flatMap pushBytes := by
    intro n
    induction n with
    | zero => rfl
    | succ n ih => rw [List.replicate_succ, ih, List.replicate_succ, List.flatMap_cons]; rfl
  unfold combineMultisig
  rw [hmany, hpubkeys]
  change Except.ok _ = _
  simp only [pushSigs_eq, Nat.zero_add, Nat.sub_zero]
  unfold paddedScript
  rw [hpadding, List.flatMap_cons, List.flatMap_append, ← List.append_assoc]
  rfl

/-!
# The signatures of the keys
-/

/-- For how many keys a stack holds a valid signature. -/
def signedKeys (pubkeys : List ValType) (stack : Stack) : Nat :=
  pubkeys.countP fun pubkey => stack.any fun sig => checker.checkSig sig pubkey scriptPubKey

variable {checker scriptPubKey} {pubkeys : List ValType} {sigs1 sigs2 : Stack}
  (hunique : forall sig, sig ∈ sigs1 ++ sigs2 -> forall pubkey, pubkey ∈ pubkeys ->
    forall other, other ∈ pubkeys -> checker.checkSig sig pubkey scriptPubKey = true ->
      checker.checkSig sig other scriptPubKey = true -> pubkey = other)

include hunique

theorem lookup_assigned {pubkey : ValType} (hpubkey : pubkey ∈ pubkeys) :
    (assigned checker scriptPubKey pubkeys sigs1 sigs2).lookup pubkey =
      (insertSigs (insertSigs [] sigs1) sigs2).find? fun sig =>
        checker.checkSig sig pubkey scriptPubKey := by
  have hpool : forall sig, sig ∈ insertSigs (insertSigs [] sigs1) sigs2 ->
      forall y, y ∈ pubkeys -> forall y', y' ∈ pubkeys ->
        checker.checkSig sig y scriptPubKey = true ->
          checker.checkSig sig y' scriptPubKey = true -> y = y' :=
    fun sig hsig => hunique sig (mem_insertSigs_iff.mp hsig).1
  unfold assigned
  rw [lookup_assignEach hpool hpubkey, AList.lookup_empty, Option.none_or]

theorem of_lookup_assigned {pubkey sig : ValType} (hpubkey : pubkey ∈ pubkeys)
    (h : (assigned checker scriptPubKey pubkeys sigs1 sigs2).lookup pubkey = some sig) :
    sig ∈ sigs1 ++ sigs2 ∧ checker.checkSig sig pubkey scriptPubKey = true := by
  rw [lookup_assigned hunique hpubkey] at h
  have hvalid := List.find?_some h
  exact ⟨(mem_insertSigs_iff.mp (List.mem_of_find?_eq_some h)).1, hvalid⟩

/-- A key is given a signature as soon as there is one in the pool. -/
theorem isSome_lookup_assigned {pubkey : ValType} (hpubkey : pubkey ∈ pubkeys) :
    ((assigned checker scriptPubKey pubkeys sigs1 sigs2).lookup pubkey).isSome =
      (sigs1 ++ sigs2).any fun sig => checker.checkSig sig pubkey scriptPubKey := by
  rw [lookup_assigned hunique hpubkey, Bool.eq_iff_iff, List.find?_isSome, List.any_eq_true]
  constructor
  · intro h
    rcases h with ⟨sig, hmem, hvalid⟩
    exact ⟨sig, (mem_insertSigs_iff.mp hmem).1, hvalid⟩
  · intro h
    rcases h with ⟨sig, hmem, hvalid⟩
    refine ⟨sig, mem_insertSigs_iff.mpr ⟨hmem, ?_⟩, hvalid⟩
    rintro rfl
    rw [checker.checkSig_nil] at hvalid
    cases hvalid

theorem mem_combinedSigs {nSigsRequired : Nat} {sig : ValType}
    (h : sig ∈ combinedSigs checker scriptPubKey nSigsRequired pubkeys sigs1 sigs2) :
    sig ∈ sigs1 ++ sigs2 ∧
      exists pubkey, pubkey ∈ pubkeys ∧ checker.checkSig sig pubkey scriptPubKey = true := by
  rcases List.mem_filterMap.mp (List.mem_of_mem_take h) with ⟨pubkey, hpubkey, hlookup⟩
  rcases of_lookup_assigned hunique hpubkey hlookup with ⟨hmem, hvalid⟩
  exact ⟨hmem, pubkey, hpubkey, hvalid⟩

/-- The signatures are valid, in the order of their keys. -/
theorem combinedSigs_inOrder (nSigsRequired : Nat) :
    List.SublistForall₂ (fun sig pubkey => checker.checkSig sig pubkey scriptPubKey = true)
      (combinedSigs checker scriptPubKey nSigsRequired pubkeys sigs1 sigs2) pubkeys :=
  sublistForall₂_take nSigsRequired (sublistForall₂_filterMap fun _ hpubkey _ hlookup =>
    (of_lookup_assigned hunique hpubkey hlookup).2)

theorem length_combinedSigs (nSigsRequired : Nat) :
    (combinedSigs checker scriptPubKey nSigsRequired pubkeys sigs1 sigs2).length =
      min nSigsRequired (signedKeys checker scriptPubKey pubkeys (sigs1 ++ sigs2)) := by
  unfold combinedSigs signedKeys
  rw [List.length_take, List.length_filterMap_eq_countP]
  congr 1
  apply List.countP_congr
  intro pubkey hpubkey
  rw [isSome_lookup_assigned hunique hpubkey]

end Combined

/-!
# Verifying the script
-/

section Verifying

variable {checker : TransactionSignatureChecker} {scriptPubKey : CScript}

/-- An empty push is a signature for no key. -/
theorem padding_inOrder_iff {pubkeys sigs : List ValType}
    (h : List.SublistForall₂
      (fun sig pubkey => checker.checkSig sig pubkey scriptPubKey = true) sigs pubkeys) (n : Nat) :
    List.SublistForall₂ (fun sig pubkey => checker.checkSig sig pubkey scriptPubKey = true)
      (sigs ++ List.replicate n []) pubkeys <-> n = 0 := by
  constructor
  · intro hpadded
    by_contra hn
    have hmem : [] ∈ sigs ++ List.replicate n ([] : ValType) :=
      List.mem_append_right _ (List.mem_replicate.mpr ⟨hn, rfl⟩)
    rcases exists_of_sublistForall₂ hpadded hmem with ⟨pubkey, _, hvalid⟩
    rw [checker.checkSig_nil] at hvalid
    cases hvalid
  · rintro rfl
    rw [List.replicate_zero, List.append_nil]
    exact h

theorem smallElements_of_evalScript {env : ScriptEnv} {flags : ScriptVerifyFlags}
    {script : CScript} {stack : Stack} (h : evalScript env flags script [] = Except.ok stack) :
    SmallElements stack := by
  rcases (evalScript_eq_ok_iff env flags).mp h with ⟨m, hm, _, rfl⟩
  have hbody := @ensures_evalBody env flags [] script SmallElements.nil (Nat.zero_le 1000)
  exact (hbody.of_ok hm).1.stackSmall

theorem verifyScript_paddedScript_iff {env : ScriptEnv} {flags : ScriptVerifyFlags}
    {form : BareMultiSig} {sigs : List ValType} (hfew : sigs.length ≤ form.m)
    (hsmall : SmallElements sigs)
    (hunpushed : forall sig, sig ∈ sigs -> forall op, op ∈ operations form.script ->
      op.bytes ≠ pushBytes sig)
    (hinOrder : List.SublistForall₂
      (fun sig pubkey => checker.checkSig sig pubkey form.script = true) sigs form.pubkeys)
    (hflags : hasAny flags ENCODING_FLAGS = false) :
    verifyScript (checker.scriptEnv env) flags (paddedScript form.m sigs) form.script =
      Except.ok () <-> form.m ≤ sigs.length := by
  have hvalues : (sigs ++ List.replicate (form.m - sigs.length) ([] : ValType)).length =
      form.m := by
    rw [List.length_append, List.length_replicate]
    omega
  have hpadding : forall value,
      value ∈ sigs ++ List.replicate (form.m - sigs.length) ([] : ValType) ->
        value ∈ sigs ∨ value = [] := by
    intro value hmem
    rcases List.mem_append.mp hmem with hsig | hempty
    · exact Or.inl hsig
    · exact Or.inr (List.eq_of_mem_replicate hempty)
  have hallSmall : SmallElements
      (sigs ++ List.replicate (form.m - sigs.length) ([] : ValType)) := by
    intro value hmem
    rcases hpadding value hmem with hsig | rfl
    · exact hsmall value hsig
    · exact Nat.zero_le _
  have habsent : forall sig,
      sig ∈ sigs ++ List.replicate (form.m - sigs.length) ([] : ValType) ->
        findAndDelete form.script (pushBytes sig) = Except.ok (form.script, 0) := by
    intro sig hmem
    apply findAndDelete_push (hallSmall sig hmem)
    rcases hpadding sig hmem with hsig | rfl
    · exact hunpushed sig hsig
    · exact form.bytes_ne_pushBytes_nil
  have hverify := @BareMultiSig.verifyScript_script_iff form (checker.scriptEnv env) flags _
    hflags hvalues habsent hallSmall
  unfold paddedScript
  rw [hverify]
  change List.SublistForall₂ (fun sig pubkey =>
    checker.checkSig sig pubkey form.script = true) _ _ <-> _
  rw [padding_inOrder_iff hinOrder]
  omega

end Verifying

/-- A multisignature which `Solver` recognizes, with its solutions taken apart. -/
theorem exists_bareMultiSig {scriptPubKey : CScript} {m : UInt8} {pubkeys : List ValType}
    {last : ValType}
    (h : solver scriptPubKey = some (TxnOutType.multiSig, [m] :: pubkeys ++ [last])) :
    exists form : BareMultiSig, scriptPubKey = form.script ∧ pubkeys = form.pubkeys ∧
      m.toNat = form.m := by
  have hform := solver_iff_standardForm.mp h
  generalize hsolutions : [m] :: pubkeys ++ [last] = vSolutions at hform
  cases hform with
  | @multiSig n keys hpos hle hmax hkeys =>
      rw [List.cons_append, List.cons_append, List.cons.injEq, List.cons.injEq] at hsolutions
      rcases hsolutions with ⟨⟨rfl, _⟩, htail⟩
      rcases List.append_inj' htail rfl with ⟨rfl, _⟩
      exact ⟨⟨n, keys, hpos, hle, hmax, hkeys⟩, rfl, rfl,
        toNat_byte ((hle.trans hmax).trans (by decide))⟩

theorem combineSignatures_eq {checker : TransactionSignatureChecker} {env : ScriptEnv}
    {scriptPubKey scriptSig1 scriptSig2 : CScript} {m : UInt8} {pubkeys : List ValType}
    {last : ValType} {stack1 stack2 : Stack}
    (hsolver : solver scriptPubKey = some (TxnOutType.multiSig, [m] :: pubkeys ++ [last]))
    (heval1 : evalScript (baseEnv env) SCRIPT_VERIFY_STRICTENC scriptSig1 [] = Except.ok stack1)
    (heval2 : evalScript (baseEnv env) SCRIPT_VERIFY_STRICTENC scriptSig2 [] =
      Except.ok stack2) :
    combineSignatures checker env scriptPubKey scriptSig1 scriptSig2 =
      Except.ok (paddedScript m.toNat
        (combinedSigs checker scriptPubKey m.toNat pubkeys stack1 stack2)) := by
  have hresults : solverResults scriptPubKey =
      (TxnOutType.multiSig, [m] :: pubkeys ++ [last]) := by
    unfold solverResults
    rw [hsolver]
  unfold combineSignatures
  rw [hresults]
  simp only
  rw [heval1, heval2, ok_bind, ok_bind]
  cases stack1 <;> exact combineMultisig_eq checker scriptPubKey m pubkeys last _ stack2

/--
The combined script does not depend on the order of the scripts.  It pushes valid signatures of
theirs in the order of the keys, one for each key which has any until there are enough, and
succeeds exactly if there are enough.
-/
theorem combineSignatures_losesNothing (checker : TransactionSignatureChecker) (env : ScriptEnv)
    {scriptPubKey scriptSig1 scriptSig2 : CScript} {m : UInt8} {pubkeys : List ValType}
    {last : ValType} {stack1 stack2 : Stack}
    (hsolver : solver scriptPubKey = some (TxnOutType.multiSig, [m] :: pubkeys ++ [last]))
    (heval1 : evalScript (baseEnv env) SCRIPT_VERIFY_STRICTENC scriptSig1 [] = Except.ok stack1)
    (heval2 : evalScript (baseEnv env) SCRIPT_VERIFY_STRICTENC scriptSig2 [] = Except.ok stack2)
    (hunique : forall sig, sig ∈ stack1 ++ stack2 -> forall pubkey, pubkey ∈ pubkeys ->
      forall other, other ∈ pubkeys -> checker.checkSig sig pubkey scriptPubKey = true ->
        checker.checkSig sig other scriptPubKey = true -> pubkey = other)
    (hunpushed : forall sig, sig ∈ stack1 ++ stack2 ->
      (exists pubkey, pubkey ∈ pubkeys ∧ checker.checkSig sig pubkey scriptPubKey = true) ->
      forall op, op ∈ operations scriptPubKey -> op.bytes ≠ pushBytes sig) :
    exists result sigs,
      combineSignatures checker env scriptPubKey scriptSig1 scriptSig2 = Except.ok result ∧
      combineSignatures checker env scriptPubKey scriptSig2 scriptSig1 = Except.ok result ∧
      result = paddedScript m.toNat sigs ∧
      (forall sig, sig ∈ sigs -> sig ∈ stack1 ++ stack2) ∧
      List.SublistForall₂ (fun sig pubkey => checker.checkSig sig pubkey scriptPubKey = true)
        sigs pubkeys ∧
      sigs.length = min m.toNat (signedKeys checker scriptPubKey pubkeys (stack1 ++ stack2)) ∧
      forall flags, hasAny flags ENCODING_FLAGS = false ->
        (verifyScript (checker.scriptEnv env) flags result scriptPubKey = Except.ok () <->
          signedKeys checker scriptPubKey pubkeys (stack1 ++ stack2) ≥ m.toNat) := by
  have hsmall : forall sig, sig ∈ stack1 ++ stack2 -> sig.length ≤ MAX_SCRIPT_ELEMENT_SIZE := by
    intro sig hmem
    rcases List.mem_append.mp hmem with hfirst | hsecond
    · exact smallElements_of_evalScript heval1 sig hfirst
    · exact smallElements_of_evalScript heval2 sig hsecond
  have hlength := length_combinedSigs hunique m.toNat
  have hinOrder := combinedSigs_inOrder hunique m.toNat
  have hmem : forall sig, sig ∈ combinedSigs checker scriptPubKey m.toNat pubkeys stack1 stack2 ->
      sig ∈ stack1 ++ stack2 ∧
        exists pubkey, pubkey ∈ pubkeys ∧ checker.checkSig sig pubkey scriptPubKey = true :=
    fun _ h => mem_combinedSigs hunique h
  refine ⟨_, _, combineSignatures_eq hsolver heval1 heval2, ?_, rfl, fun sig h => (hmem sig h).1,
    hinOrder, hlength, fun flags hflags => ?_⟩
  · rw [combineSignatures_eq hsolver heval2 heval1, combinedSigs_comm]
  · rcases exists_bareMultiSig hsolver with ⟨form, rfl, rfl, hm⟩
    rw [hm] at hlength hinOrder hmem ⊢
    rw [verifyScript_paddedScript_iff (by rw [hlength]; exact Nat.min_le_left _ _)
      (fun sig h => hsmall sig (hmem sig h).1)
      (fun sig h => hunpushed sig (hmem sig h).1 (hmem sig h).2) hinOrder hflags, hlength]
    omega

def keyEndingIn (byte : UInt8) : ValType := 2 :: (List.replicate 31 0 ++ [byte])

/-- A checker for which the last byte of a key is the only signature under it. -/
def lastByteChecker : TransactionSignatureChecker where
  ecdsaVerify := fun pubkey _ vchSig => vchSig == pubkey.vch.drop 32
  getHash := fun _ => 7
  txTo := twoInputs
  nIn := 0

def twoOfThree : CScript :=
  [0x52] ++ [1, 3, 5].flatMap (fun byte => pushBytes (keyEndingIn byte)) ++ [0x53, 0xae]

theorem solver_twoOfThree : solver twoOfThree =
    some (TxnOutType.multiSig, [2] :: [1, 3, 5].map keyEndingIn ++ [[3]]) := by decide +kernel

/-- The one script holds a signature for the third key, the other one for the first key. -/
theorem combineSignatures_twoOfThree :
    exists result sigs,
      combineSignatures lastByteChecker zeroEnv twoOfThree [0, 2, 5, 1] [2, 1, 1, 0] =
          Except.ok result ∧
      combineSignatures lastByteChecker zeroEnv twoOfThree [2, 1, 1, 0] [0, 2, 5, 1] =
          Except.ok result ∧
      result = paddedScript 2 sigs ∧
      (forall sig, sig ∈ sigs -> sig ∈ ([[5, 1], [], [], [1, 1]] : Stack)) ∧
      List.SublistForall₂
        (fun sig pubkey => lastByteChecker.checkSig sig pubkey twoOfThree = true) sigs
        ([1, 3, 5].map keyEndingIn) ∧
      sigs.length = min 2 (signedKeys lastByteChecker twoOfThree ([1, 3, 5].map keyEndingIn)
        [[5, 1], [], [], [1, 1]]) ∧
      forall flags, hasAny flags ENCODING_FLAGS = false ->
        (verifyScript (lastByteChecker.scriptEnv zeroEnv) flags result twoOfThree =
            Except.ok () <->
          signedKeys lastByteChecker twoOfThree ([1, 3, 5].map keyEndingIn)
            [[5, 1], [], [], [1, 1]] ≥ 2) :=
  @combineSignatures_losesNothing lastByteChecker zeroEnv twoOfThree [0, 2, 5, 1] [2, 1, 1, 0] 2
    ([1, 3, 5].map keyEndingIn) [3] [[5, 1], []] [[], [1, 1]] solver_twoOfThree
    (by decide +kernel) (by decide +kernel) (by decide +kernel) (by decide +kernel)

end Script
end Hbcur
