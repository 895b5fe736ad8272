import Hbcur.Foundation.Matching
import Hbcur.Script.Safety

/-!
# Checking several signatures

The loop of `OP_CHECKMULTISIG` walks the keys and the signatures from the top of the stack
down.  It matches greedily, so that it succeeds whenever any increasing assignment of the
signatures to the keys is valid.
-/

namespace Hbcur
namespace Script

open Foundation

/-!
# Runs of elements on a stack
-/

section Runs

variable {stack : Stack} {vch : ValType} {run : List ValType} {i : Nat}

theorem stacktop_of_run (h : vch :: run <+: stack.drop i) :
    stacktop stack (i + 1) = Except.ok vch := by
  rcases h with ⟨below, hbelow⟩
  have hget : stack[i]? = some vch := by
    rw [← List.head?_drop, ← hbelow]
    rfl
  unfold stacktop
  rw [Nat.add_sub_cancel, hget]
  rfl

theorem run_tail (h : vch :: run <+: stack.drop i) : run <+: stack.drop (i + 1) := by
  rcases h with ⟨below, hbelow⟩
  exists below
  rw [← List.drop_drop, ← hbelow]
  rfl

theorem needs_of_le {n : Nat} (h : n ≤ stack.length) : needs stack n = Except.ok () := by
  unfold needs
  rw [decide_eq_false (Nat.not_lt.mpr h)]
  rfl

/-- A test which does not apply. -/
theorem require_not {failure : Type} {cond : Bool} {err : failure} (h : cond = false) :
    require (!cond) err = Except.ok () := by
  rw [h]
  rfl

theorem getInt_of_le {n : Nat} (h : n ≤ 20) : getInt n = n := by
  unfold getInt
  rw [if_neg (by omega), if_neg (by omega)]

theorem popTimes_append (taken rest : Stack) :
    popTimes taken.length (taken ++ rest) = Except.ok rest := by
  induction taken with
  | nil => rfl
  | cons vch taken ih => exact ih

end Runs

section Loop

variable (env : ScriptEnv) (flags : ScriptVerifyFlags)

/-!
# The loop
-/

/-- One round, where the encodings are accepted. -/
theorem multiSigLoop_round {scriptCode : CScript} {stack : Stack} {vchSig vchPubKey : ValType}
    {nKeysCount nSigsCount ikey isig : Nat}
    (hsig : stacktop stack isig = Except.ok vchSig)
    (hkey : stacktop stack ikey = Except.ok vchPubKey)
    (hencoding : checkEncodings flags vchSig vchPubKey = Except.ok ()) :
    multiSigLoop env flags scriptCode stack (nKeysCount + 1) (nSigsCount + 1) ikey isig =
      if env.checkSig vchSig vchPubKey scriptCode then
        if nKeysCount < nSigsCount then Except.ok false
        else multiSigLoop env flags scriptCode stack nKeysCount nSigsCount (ikey + 1) (isig + 1)
      else
        if nKeysCount < nSigsCount + 1 then Except.ok false
        else multiSigLoop env flags scriptCode stack nKeysCount (nSigsCount + 1) (ikey + 1)
          isig := by
  rw [multiSigLoop, if_neg (Nat.succ_ne_zero _), hsig, hkey]
  change (checkEncodings flags vchSig vchPubKey >>= _) = _
  rw [hencoding]
  cases env.checkSig vchSig vchPubKey scriptCode <;> rfl

/-- The keys and signatures which are left are matched greedily. -/
theorem multiSigLoop_eq (scriptCode : CScript) {stack : Stack} {keys : List ValType}
    (hkeys : forall key, key ∈ keys -> checkPubKeyEncoding key flags = Except.ok ()) :
    forall {sigs : List ValType} {ikey isig : Nat}, sigs.length ≤ keys.length ->
      (forall sig, sig ∈ sigs -> checkSignatureEncoding sig flags = Except.ok ()) ->
      keys <+: stack.drop ikey -> sigs <+: stack.drop isig ->
      multiSigLoop env flags scriptCode stack keys.length sigs.length (ikey + 1) (isig + 1) =
        Except.ok (matchGreedily (fun sig key => env.checkSig sig key scriptCode) sigs keys) := by
  induction keys with
  | nil =>
      intro sigs ikey isig hcount _ _ _
      rw [List.length_eq_zero_iff.mp (Nat.le_zero.mp hcount)]
      unfold multiSigLoop
      rfl
  | cons key keys ih =>
      intro sigs ikey isig hcount hsigs hkeyrun hsigrun
      cases sigs with
      | nil =>
          unfold multiSigLoop
          rfl
      | cons sig sigs =>
          have hencoding : checkEncodings flags sig key = Except.ok () := by
            unfold checkEncodings
            rw [hsigs sig List.mem_cons_self]
            exact hkeys key List.mem_cons_self
          have hothers : forall other, other ∈ keys ->
              checkPubKeyEncoding other flags = Except.ok () :=
            fun other hmem => hkeys other (List.mem_cons_of_mem _ hmem)
          simp only [List.length_cons] at hcount
          rw [List.length_cons, List.length_cons,
            multiSigLoop_round env flags (stacktop_of_run hsigrun) (stacktop_of_run hkeyrun)
              hencoding, matchGreedily_cons]
          cases hfits : env.checkSig sig key scriptCode with
          | true =>
              rw [if_pos rfl, if_pos rfl, if_neg (by omega)]
              exact ih hothers (by omega)
                (fun other hmem => hsigs other (List.mem_cons_of_mem _ hmem))
                (run_tail hkeyrun) (run_tail hsigrun)
          | false =>
              rw [if_neg Bool.false_ne_true, if_neg Bool.false_ne_true]
              by_cases hmore : keys.length < sigs.length + 1
              · -- the loop stops here, and the remaining keys are too few
                rw [if_pos hmore, matchGreedily_of_length_lt hmore]
              · rw [if_neg hmore]
                exact ih hothers (by rw [List.length_cons]; omega) hsigs (run_tail hkeyrun) hsigrun

/-!
# The whole operation
-/

/-- What the operation finds: numbers, keys and signatures which were pushed in this order. -/
def multiSigStack (bnKeys bnSigs : ValType) (keys sigs : List ValType) (rest : Stack) : Stack :=
  bnKeys :: (keys.reverse ++ bnSigs :: (sigs.reverse ++ rest))

variable {bnKeys bnSigs : ValType} {keys sigs : List ValType} {rest : Stack}

theorem keys_run : keys.reverse <+: (multiSigStack bnKeys bnSigs keys sigs rest).drop 1 :=
  List.prefix_append _ _

theorem sigs_run :
    sigs.reverse <+: (multiSigStack bnKeys bnSigs keys sigs rest).drop (keys.length + 2) := by
  have hdrop : (multiSigStack bnKeys bnSigs keys sigs rest).drop (keys.length + 2) =
      sigs.reverse ++ rest := by
    unfold multiSigStack
    rw [List.drop_succ_cons, ← List.length_reverse, List.drop_append,
      List.drop_eq_nil_of_le (Nat.le_succ _), List.nil_append, Nat.add_sub_cancel_left]
    rfl
  rw [hdrop]
  exact List.prefix_append _ _

theorem length_multiSigStack (bnKeys bnSigs : ValType) (keys sigs : List ValType) (rest : Stack) :
    (multiSigStack bnKeys bnSigs keys sigs rest).length =
      keys.length + sigs.length + 2 + rest.length := by
  unfold multiSigStack
  rw [List.length_cons, List.length_append, List.length_reverse, List.length_cons,
    List.length_append, List.length_reverse]
  omega

theorem numberAt_keys (fRequireMinimal : Bool) :
    numberAt fRequireMinimal (multiSigStack bnKeys bnSigs keys sigs rest) 1 =
      scriptNum bnKeys fRequireMinimal := rfl

theorem numberAt_sigs (fRequireMinimal : Bool) :
    numberAt fRequireMinimal (multiSigStack bnKeys bnSigs keys sigs rest) (keys.length + 2) =
      scriptNum bnSigs fRequireMinimal := by
  have hdrop : (multiSigStack bnKeys bnSigs keys sigs rest).drop (keys.length + 1) =
      bnSigs :: (sigs.reverse ++ rest) := by
    unfold multiSigStack
    rw [List.drop_succ_cons, ← List.length_reverse, List.drop_left]
  have hrun : bnSigs :: (sigs.reverse ++ rest) <+:
      (multiSigStack bnKeys bnSigs keys sigs rest).drop (keys.length + 1) :=
    hdrop ▸ List.prefix_refl _
  unfold numberAt
  rw [stacktop_of_run hrun]
  rfl

theorem popTimes_multiSigStack :
    popTimes (keys.length + 2 + 1 + sigs.length - 1) (multiSigStack bnKeys bnSigs keys sigs rest) =
      Except.ok rest := by
  have hpop := popTimes_append (bnKeys :: (keys.reverse ++ bnSigs :: sigs.reverse)) rest
  have hlength : (bnKeys :: (keys.reverse ++ bnSigs :: sigs.reverse)).length =
      keys.length + 2 + 1 + sigs.length - 1 := by
    rw [List.length_cons, List.length_append, List.length_reverse, List.length_cons,
      List.length_reverse]
    omega
  rw [hlength] at hpop
  unfold multiSigStack
  rw [← hpop, List.cons_append, List.append_assoc, List.cons_append]

theorem multiSigLoop_iff_increasing {scriptCode : CScript}
    (hcount : sigs.length ≤ keys.length)
    (hkeys : forall key, key ∈ keys -> checkPubKeyEncoding key flags = Except.ok ())
    (hsigs : forall sig, sig ∈ sigs -> checkSignatureEncoding sig flags = Except.ok ()) :
    exists fSuccess,
      multiSigLoop env flags scriptCode (multiSigStack bnKeys bnSigs keys sigs rest)
        keys.length sigs.length 2 (keys.length + 3) = Except.ok fSuccess ∧
      (fSuccess = true <-> exists assign : Fin sigs.length -> Fin keys.length,
        StrictMono assign ∧
          forall i, env.checkSig (sigs.get i) (keys.get (assign i)) scriptCode = true) := by
  have hkeyrun : keys.reverse <+: (multiSigStack bnKeys bnSigs keys sigs rest).drop 1 :=
    keys_run
  have hloop := multiSigLoop_eq env flags scriptCode
    (fun key hmem => hkeys key (List.mem_reverse.mp hmem))
    (by rw [List.length_reverse, List.length_reverse]; exact hcount)
    (fun sig hmem => hsigs sig (List.mem_reverse.mp hmem)) hkeyrun sigs_run
  rw [List.length_reverse, List.length_reverse] at hloop
  refine ⟨_, hloop, ?_⟩
  rw [matchGreedily_iff, sublistForall₂_reverse_iff, sublistForall₂_iff_exists_strictMono]

/-- A checker for which a key is the only signature under itself. -/
def equalEnv : ScriptEnv :=
  { zeroEnv with checkSig := fun vchSig vchPubKey _ => vchSig == vchPubKey }

theorem multiSigLoop_twoOfThree :
    exists fSuccess,
      multiSigLoop equalEnv SCRIPT_VERIFY_NONE []
        (multiSigStack [3] [2] [[1], [2], [3]] [[1], [3]] [[]]) 3 2 2 6 = Except.ok fSuccess ∧
      (fSuccess = true <-> exists assign : Fin 2 -> Fin 3,
        StrictMono assign ∧
          forall i,
            equalEnv.checkSig ([[1], [3]].get i) ([[1], [2], [3]].get (assign i)) [] = true) :=
  multiSigLoop_iff_increasing equalEnv SCRIPT_VERIFY_NONE (by decide) (by decide) (by decide)

/-- The operation leaves the result of the matching in place of its arguments. -/
theorem execCheckMultiSig_eq {script code scriptCode : CScript} {pbegincodehash nOpCount : Nat}
    {vchDummy : ValType}
    (hnKeys : scriptNum bnKeys (hasAny flags SCRIPT_VERIFY_MINIMALDATA) =
      Except.ok (keys.length : Int))
    (hnSigs : scriptNum bnSigs (hasAny flags SCRIPT_VERIFY_MINIMALDATA) =
      Except.ok (sigs.length : Int))
    (hcount : sigs.length ≤ keys.length) (hfew : keys.length ≤ 20)
    (hops : nOpCount + keys.length ≤ 201)
    (hcode : scriptFrom script pbegincodehash = Except.ok code)
    (hdrop : dropSignatures (multiSigStack bnKeys bnSigs keys sigs (vchDummy :: rest))
      sigs.length (keys.length + 3) code = Except.ok scriptCode)
    (hkeys : forall key, key ∈ keys -> checkPubKeyEncoding key flags = Except.ok ())
    (hsigs : forall sig, sig ∈ sigs -> checkSignatureEncoding sig flags = Except.ok ())
    (hdummy : (hasAny flags SCRIPT_VERIFY_NULLDUMMY && !vchDummy.isEmpty) = false) :
    execCheckMultiSig env flags false script pbegincodehash nOpCount
        (multiSigStack bnKeys bnSigs keys sigs (vchDummy :: rest)) =
      Except.ok
        (boolBytes (matchGreedily (fun sig key => env.checkSig sig key scriptCode)
          sigs.reverse keys.reverse) :: rest, nOpCount + keys.length) := by
  have hlength := length_multiSigStack bnKeys bnSigs keys sigs (vchDummy :: rest)
  rw [List.length_cons] at hlength
  have hkeyrun : keys.reverse <+: (multiSigStack bnKeys bnSigs keys sigs
      (vchDummy :: rest)).drop 1 := keys_run
  have hloop := multiSigLoop_eq env flags scriptCode
    (fun key hmem => hkeys key (List.mem_reverse.mp hmem))
    (by rw [List.length_reverse, List.length_reverse]; exact hcount)
    (fun sig hmem => hsigs sig (List.mem_reverse.mp hmem)) hkeyrun sigs_run
  rw [List.length_reverse, List.length_reverse] at hloop
  have hfewSigs : sigs.length ≤ 20 := hcount.trans hfew
  unfold execCheckMultiSig
  -- the number of keys
  rw [needs_of_le (by omega), ok_bind, numberAt_keys, hnKeys, ok_bind]
  simp only [getInt_of_le hfew]
  rw [require_not (by simp only [Bool.or_eq_false_iff, decide_eq_false_iff_not]; omega),
    ok_bind, require_not (by simp only [decide_eq_false_iff_not]; omega), ok_bind]
  simp only [Int.toNat_natCast]
  -- the number of signatures
  rw [needs_of_le (by omega), ok_bind, Nat.add_comm 2 keys.length, numberAt_sigs, hnSigs, ok_bind]
  simp only [getInt_of_le hfewSigs]
  rw [require_not (by simp only [Bool.or_eq_false_iff, decide_eq_false_iff_not]; omega), ok_bind]
  simp only [Int.toNat_natCast]
  rw [needs_of_le (by omega), ok_bind, hcode, ok_bind, hdrop, ok_bind, hloop, ok_bind]
  -- the arguments go, and the dummy with them
  rw [popTimes_multiSigStack, ok_bind, needs_of_le (by rw [List.length_cons]; omega), ok_bind]
  change (require _ _ >>= _) = _
  rw [require_not hdummy]
  rfl

end Loop

end Script
end Hbcur
