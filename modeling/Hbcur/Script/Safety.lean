import Hbcur.Script.Interpreter

/-!
# The interpreter is safe

Every access to the stacks and to the script is guarded, so that the only things which are
caught are the errors of `CScriptNum`.  Each operation keeps the elements small, and the
limits are tested after each instruction.
-/

namespace Hbcur
namespace Script

open Foundation

/-!
# Small elements
-/

def SmallElements (stack : Stack) : Prop :=
  forall vch, vch ∈ stack -> vch.length ≤ MAX_SCRIPT_ELEMENT_SIZE

section Stacks

variable {stack : Stack}

theorem SmallElements.nil : SmallElements [] := nofun

theorem SmallElements.cons {vch : ValType} (hvch : vch.length ≤ MAX_SCRIPT_ELEMENT_SIZE)
    (h : SmallElements stack) : SmallElements (vch :: stack) := by
  intro other hother
  rcases List.mem_cons.mp hother with rfl | hmem
  · exact hvch
  · exact h other hmem

theorem SmallElements.push {vch : ValType} (h : SmallElements stack) (hvch : vch ∈ stack) :
    SmallElements (vch :: stack) := SmallElements.cons (h vch hvch) h

theorem SmallElements.subset {stack' : Stack} (h : SmallElements stack)
    (hsubset : stack' ⊆ stack) : SmallElements stack' :=
  fun vch hvch => h vch (hsubset hvch)

theorem length_boolBytes (b : Bool) : (boolBytes b).length ≤ MAX_SCRIPT_ELEMENT_SIZE := by
  cases b <;> decide

theorem length_number (value : Int) : (serialize value).length ≤ MAX_SCRIPT_ELEMENT_SIZE :=
  (length_serialize value).trans (by decide)

/-!
# Accesses to the stack
-/

theorem ensures_needs {n : Nat} :
    Ensures Stop.Expected (fun _ => n ≤ stack.length) (needs stack n) := by
  refine (ensures_require trivial).mono (fun _ h => ?_)
  rw [Bool.not_eq_true', decide_eq_false_iff_not, Nat.not_lt] at h
  exact h

/-- An operation which starts with a test of the depth. -/
theorem ensures_needs_bind {n : Nat} {result : Type} {returns : result -> Prop}
    {f : Unit -> Except Stop result}
    (h : n ≤ stack.length -> Ensures Stop.Expected returns (f ())) :
    Ensures Stop.Expected returns (needs stack n >>= f) :=
  ensures_bind ensures_needs (fun _ hn => h hn)

theorem ensures_stacktop {i : Nat} (hpos : 0 < i) (hle : i ≤ stack.length) :
    Ensures Stop.Expected (fun vch => vch ∈ stack) (stacktop stack i) := by
  have hlt : i - 1 < stack.length := by omega
  exact ensures_expect (List.getElem?_eq_getElem hlt) (List.getElem_mem hlt)

theorem ensures_popstack (h : 0 < stack.length) :
    Ensures Stop.Expected (fun rest => rest ⊆ stack ∧ rest.length + 1 = stack.length)
      (popstack stack) := by
  cases stack with
  | nil => exact absurd h (Nat.lt_irrefl 0)
  | cons vch rest => exact ⟨List.subset_cons_self vch rest, rfl⟩

theorem ensures_popTimes {n : Nat} (h : n ≤ stack.length) :
    Ensures Stop.Expected (fun rest => rest ⊆ stack ∧ rest.length + n = stack.length)
      (popTimes n stack) := by
  induction n generalizing stack with
  | zero => exact ⟨List.Subset.refl _, rfl⟩
  | succ n ih =>
      rw [popTimes]
      refine ensures_bind (ensures_popstack (Nat.zero_lt_of_lt h)) ?_
      rintro rest ⟨hsubset, hlength⟩
      refine (ih (by omega)).mono ?_
      rintro rest' ⟨hsubset', hlength'⟩
      exact ⟨fun _ hvch => hsubset (hsubset' hvch), by omega⟩

theorem subset_of_mem_set {vch vch' : ValType} {i : Nat} (hvch' : vch' ∈ stack)
    (h : vch ∈ stack.set i vch') : vch ∈ stack := by
  rcases List.mem_or_eq_of_mem_set h with hmem | rfl
  · exact hmem
  · exact hvch'

theorem ensures_swapTop {i j : Nat} (hi : 0 < i) (hj : 0 < j) (hile : i ≤ stack.length)
    (hjle : j ≤ stack.length) :
    Ensures Stop.Expected (fun stack' => stack' ⊆ stack ∧ stack'.length = stack.length)
      (swapTop stack i j) := by
  unfold swapTop
  refine ensures_bind (ensures_stacktop hi hile) (fun vch1 h1 => ?_)
  refine ensures_bind (ensures_stacktop hj hjle) (fun vch2 h2 => ?_)
  refine ensures_ok ⟨fun vch hvch => ?_, by rw [List.length_set, List.length_set]⟩
  rcases List.mem_or_eq_of_mem_set hvch with hmem | rfl
  · exact subset_of_mem_set h2 hmem
  · exact h1

theorem ensures_eraseTop {i : Nat} (hi : 0 < i) (hile : i ≤ stack.length) :
    Ensures Stop.Expected (fun rest => rest ⊆ stack ∧ rest.length + 1 = stack.length)
      (eraseTop stack i) := by
  unfold eraseTop
  refine ensures_bind (ensures_stacktop hi hile) (fun _ _ => ?_)
  refine ensures_ok ⟨List.eraseIdx_subset, ?_⟩
  rw [List.length_eraseIdx_of_lt (by omega)]
  omega

theorem ensures_insertTop {i : Nat} {vch : ValType} (hvch : vch ∈ stack)
    (hile : i ≤ stack.length) :
    Ensures Stop.Expected (fun stack' => stack' ⊆ stack) (insertTop stack i vch) := by
  unfold insertTop
  rw [decide_eq_true hile]
  intro other hother
  rcases (List.mem_insertIdx hile).mp hother with rfl | hmem
  · exact hvch
  · exact hmem

/-!
# The operations on the stack
-/

theorem ensures_verifyIf {fVerify fSuccess : Bool} {e : ScriptError} (h : SmallElements stack)
    (hpos : 0 < stack.length) :
    Ensures Stop.Expected SmallElements (verifyIf fVerify fSuccess e stack) := by
  unfold verifyIf verifyTop
  refine ensures_ite (fun _ => ensures_ite (fun _ => ?_) (fun _ => trivial)) (fun _ => h)
  exact (ensures_popstack hpos).mono (fun _ hrest => h.subset hrest.1)

/-- The results of comparisons and checks are pushed after the operands are popped. -/
theorem ensures_verifyIf_bool {fVerify fSuccess b : Bool} {e : ScriptError} {rest : Stack}
    (h : SmallElements stack) (hrest : rest ⊆ stack) :
    Ensures Stop.Expected SmallElements
      (verifyIf fVerify fSuccess e (boolBytes b :: rest)) :=
  ensures_verifyIf (SmallElements.cons (length_boolBytes b) (h.subset hrest))
    (Nat.succ_pos _)

theorem ensures_execEqual (h : SmallElements stack) (fVerify : Bool) :
    Ensures Stop.Expected SmallElements (execEqual fVerify stack) := by
  unfold execEqual
  refine ensures_needs_bind (fun hn => ?_)
  refine ensures_bind (ensures_stacktop (by decide) hn) (fun vch1 _ => ?_)
  refine ensures_bind (ensures_stacktop (by decide) (by omega)) (fun vch2 _ => ?_)
  refine ensures_bind (ensures_popTimes hn) (fun rest hrest => ?_)
  exact ensures_verifyIf_bool h hrest.1

theorem ensures_execStack (h : SmallElements stack) (op : StackOp) :
    Ensures Stop.Expected SmallElements (execStack stack op) := by
  cases op with
  | drop2 =>
      refine ensures_needs_bind (fun hn => ?_)
      exact (ensures_popTimes hn).mono (fun _ hrest => h.subset hrest.1)
  | dup2 =>
      refine ensures_needs_bind (fun hn => ?_)
      refine ensures_bind (ensures_stacktop (by decide) hn) (fun vch1 h1 => ?_)
      refine ensures_bind (ensures_stacktop (by decide) (by omega)) (fun vch2 h2 => ?_)
      exact (h.push h1).push (List.mem_cons_of_mem _ h2)
  | dup3 =>
      refine ensures_needs_bind (fun hn => ?_)
      refine ensures_bind (ensures_stacktop (by decide) hn) (fun vch1 h1 => ?_)
      refine ensures_bind (ensures_stacktop (by decide) (by omega)) (fun vch2 h2 => ?_)
      refine ensures_bind (ensures_stacktop (by decide) (by omega)) (fun vch3 h3 => ?_)
      exact SmallElements.cons (h vch3 h3) (SmallElements.cons (h vch2 h2) (h.push h1))
  | over2 =>
      refine ensures_needs_bind (fun hn => ?_)
      refine ensures_bind (ensures_stacktop (by decide) hn) (fun vch1 h1 => ?_)
      refine ensures_bind (ensures_stacktop (by decide) (by omega)) (fun vch2 h2 => ?_)
      exact SmallElements.cons (h vch2 h2) (h.push h1)
  | rot2 =>
      refine ensures_needs_bind (fun hn => ?_)
      refine ensures_bind (ensures_stacktop (by decide) hn) (fun vch1 h1 => ?_)
      refine ensures_bind (ensures_stacktop (by decide) (by omega)) (fun vch2 h2 => ?_)
      refine ensures_bind (ensures_eraseTop (by decide) hn) ?_
      rintro rest ⟨hrest, hlength⟩
      refine ensures_bind (ensures_eraseTop (by decide) (by omega)) ?_
      rintro rest' ⟨hrest', -⟩
      have hsmall := (h.subset hrest).subset hrest'
      exact SmallElements.cons (h vch2 h2) (SmallElements.cons (h vch1 h1) hsmall)
  | swap2 =>
      refine ensures_needs_bind (fun hn => ?_)
      refine ensures_bind (ensures_swapTop (by decide) (by decide) hn (by omega)) ?_
      rintro stack' ⟨hsubset, hlength⟩
      refine (ensures_swapTop (by decide) (by decide) (by omega) (by omega)).mono ?_
      exact fun _ hsubset' => (h.subset hsubset).subset hsubset'.1
  | ifDup =>
      refine ensures_needs_bind (fun hn => ?_)
      refine ensures_bind (ensures_stacktop (by decide) hn) (fun vch hvch => ?_)
      refine ensures_ok ?_
      split_ifs
      · exact h.push hvch
      · exact h
  | depth => exact SmallElements.cons (length_number _) h
  | drop =>
      refine ensures_needs_bind (fun hn => ?_)
      exact (ensures_popstack hn).mono (fun _ hrest => h.subset hrest.1)
  | dup =>
      refine ensures_needs_bind (fun hn => ?_)
      exact ensures_bind (ensures_stacktop (by decide) hn) (fun vch hvch => h.push hvch)
  | nip =>
      refine ensures_needs_bind (fun hn => ?_)
      exact (ensures_eraseTop (by decide) hn).mono (fun _ hrest => h.subset hrest.1)
  | «over» =>
      refine ensures_needs_bind (fun hn => ?_)
      exact ensures_bind (ensures_stacktop (by decide) hn) (fun vch hvch => h.push hvch)
  | rot =>
      refine ensures_needs_bind (fun hn => ?_)
      refine ensures_bind (ensures_swapTop (by decide) (by decide) hn (by omega)) ?_
      rintro stack' ⟨hsubset, hlength⟩
      refine (ensures_swapTop (by decide) (by decide) (by omega) (by omega)).mono ?_
      exact fun _ hsubset' => (h.subset hsubset).subset hsubset'.1
  | swap =>
      refine ensures_needs_bind (fun hn => ?_)
      refine (ensures_swapTop (by decide) (by decide) hn (by omega)).mono ?_
      exact fun _ hsubset => h.subset hsubset.1
  | tuck =>
      refine ensures_needs_bind (fun hn => ?_)
      refine ensures_bind (ensures_stacktop (by decide) (by omega)) (fun vch hvch => ?_)
      exact (ensures_insertTop hvch hn).mono (fun _ hsubset => h.subset hsubset)
  | size =>
      refine ensures_needs_bind (fun hn => ?_)
      refine ensures_bind (ensures_stacktop (by decide) hn) (fun vch _ => ?_)
      exact SmallElements.cons (length_number _) h
  | equal => exact ensures_execEqual h false
  | equalVerify => exact ensures_execEqual h true

/-!
# Numbers
-/

variable {fRequireMinimal : Bool}

theorem ensures_numberAt {i : Nat} (hpos : 0 < i) (hle : i ≤ stack.length) :
    Ensures Stop.Expected IsOperand (numberAt fRequireMinimal stack i) :=
  ensures_bind (ensures_stacktop hpos hle) (fun vch _ => ensures_scriptNum vch fRequireMinimal)

theorem ensures_takeOut {fRoll : Bool} {i : Nat} (hpos : 0 < i) (hle : i ≤ stack.length) :
    Ensures Stop.Expected (fun rest => rest ⊆ stack) (takeOut fRoll stack i) := by
  unfold takeOut
  refine ensures_ite (fun _ => ?_) (fun _ => ensures_ok (List.Subset.refl stack))
  exact (ensures_eraseTop hpos hle).mono (fun _ hrest => hrest.1)

theorem ensures_execPick (h : SmallElements stack) (fRoll : Bool) :
    Ensures Stop.Expected SmallElements (execPick fRequireMinimal fRoll stack) := by
  unfold execPick
  refine ensures_needs_bind (fun hn => ?_)
  refine ensures_bind (ensures_numberAt (by decide) (by omega)) (fun bn _ => ?_)
  refine ensures_bind (ensures_popstack (by omega)) ?_
  rintro rest ⟨hrest, -⟩
  refine ensures_require_bind trivial (fun hrange => ?_)
  simp only [Bool.not_eq_true', Bool.or_eq_false_iff, decide_eq_false_iff_not, not_lt,
    ge_iff_le, not_le] at hrange
  have hdepth : (getInt bn).toNat + 1 ≤ rest.length := by omega
  refine ensures_bind (ensures_stacktop (Nat.succ_pos _) hdepth) (fun vch hvch => ?_)
  refine ensures_bind (ensures_takeOut (Nat.succ_pos _) hdepth) (fun rest' hrest' => ?_)
  exact SmallElements.cons (h vch (hrest hvch)) ((h.subset hrest).subset hrest')

theorem natAbs_ofBool_le (b : Bool) : (ofBool b).natAbs ≤ 1 := by
  cases b <;> decide

/-- On operands no assertion fails. -/
theorem exists_applyUnary {bn : Int} (h : IsOperand bn) (op : UnaryOp) :
    exists r, applyUnary bn op = Except.ok r ∧ r.natAbs ≤ bn.natAbs + 1 := by
  have hone : IsOperand 1 := ⟨by decide, by decide⟩
  cases op with
  | add1 => exact ⟨bn + 1, addAssign_eq h hone, Int.natAbs_add_le bn 1⟩
  | sub1 => exact ⟨bn - 1, subAssign_eq h hone, Int.natAbs_sub_le bn 1⟩
  | negate => exact ⟨-bn, negate_eq h, by omega⟩
  | abs =>
      unfold applyUnary
      split_ifs
      · exact ⟨-bn, negate_eq h, by omega⟩
      · exact ⟨bn, rfl, Nat.le_succ _⟩
  | not => exact ⟨_, rfl, (natAbs_ofBool_le _).trans (Nat.le_add_left _ _)⟩
  | notEqual0 => exact ⟨_, rfl, (natAbs_ofBool_le _).trans (Nat.le_add_left _ _)⟩

theorem ensures_applyUnary {bn : Int} (h : IsOperand bn) (op : UnaryOp) :
    Ensures Stop.Expected (fun _ => True) (applyUnary bn op) := by
  rcases exists_applyUnary h op with ⟨r, hr, -⟩
  rw [hr]
  exact trivial

theorem ensures_execUnary (h : SmallElements stack) (op : UnaryOp) :
    Ensures Stop.Expected SmallElements (execUnary fRequireMinimal op stack) := by
  unfold execUnary
  refine ensures_needs_bind (fun hn => ?_)
  refine ensures_bind (ensures_numberAt (by decide) hn) (fun bn hbn => ?_)
  refine ensures_bind (ensures_applyUnary hbn op) (fun result _ => ?_)
  refine ensures_bind (ensures_popstack hn) (fun rest hrest => ?_)
  exact SmallElements.cons (length_number _) (h.subset hrest.1)

theorem ensures_execBinary (h : SmallElements stack) (op : BinaryOp) :
    Ensures Stop.Expected SmallElements (execBinary fRequireMinimal op stack) := by
  unfold execBinary
  refine ensures_needs_bind (fun hn => ?_)
  refine ensures_bind (ensures_numberAt (by decide) hn) (fun bn1 _ => ?_)
  refine ensures_bind (ensures_numberAt (by decide) (by omega)) (fun bn2 _ => ?_)
  refine ensures_bind (ensures_popTimes hn) (fun rest hrest => ?_)
  exact ensures_verifyIf (SmallElements.cons (length_number _) (h.subset hrest.1))
    (Nat.succ_pos _)

theorem ensures_execWithin (h : SmallElements stack) :
    Ensures Stop.Expected SmallElements (execWithin fRequireMinimal stack) := by
  unfold execWithin
  refine ensures_needs_bind (fun hn => ?_)
  refine ensures_bind (ensures_numberAt (by decide) hn) (fun bn1 _ => ?_)
  refine ensures_bind (ensures_numberAt (by decide) (by omega)) (fun bn2 _ => ?_)
  refine ensures_bind (ensures_numberAt (by decide) (by omega)) (fun bn3 _ => ?_)
  refine ensures_bind (ensures_popTimes hn) (fun rest hrest => ?_)
  exact SmallElements.cons (length_boolBytes _) (h.subset hrest.1)

end Stacks

/-!
# Hashes and signatures
-/

section Exec

variable (env : ScriptEnv) (flags : ScriptVerifyFlags) {stack : Stack}

theorem length_hashOf (vch : ValType) (op : HashOp) :
    (hashOf env vch op).length ≤ MAX_SCRIPT_ELEMENT_SIZE := by
  have hbound : forall {size : Nat} (digest : Digest size), size ≤ MAX_SCRIPT_ELEMENT_SIZE ->
      digest.val.length ≤ MAX_SCRIPT_ELEMENT_SIZE := by
    intro size digest hsize
    rw [digest.property]
    exact hsize
  cases op with
  | ripemd160 => exact hbound (env.ripemd160 vch) (by decide)
  | sha1 => exact hbound (env.sha1 vch) (by decide)
  | sha256 => exact hbound (env.sha256 vch) (by decide)
  | hash160 => exact hbound (env.hash160 vch) (by decide)
  | hash256 => exact hbound (env.hash256 vch) (by decide)

theorem ensures_execHash (h : SmallElements stack) (op : HashOp) :
    Ensures Stop.Expected SmallElements (execHash env op stack) := by
  unfold execHash
  refine ensures_needs_bind (fun hn => ?_)
  refine ensures_bind (ensures_stacktop (by decide) hn) (fun vch _ => ?_)
  refine ensures_bind (ensures_popstack hn) (fun rest hrest => ?_)
  exact SmallElements.cons (length_hashOf env vch op) (h.subset hrest.1)

theorem ensures_checkEncodings (vchSig vchPubKey : ValType) :
    Ensures Stop.Expected (fun _ => True) (checkEncodings flags vchSig vchPubKey) :=
  ensures_bind (ensures_checkSignatureEncoding vchSig flags)
    (fun _ _ => ensures_checkPubKeyEncoding vchPubKey flags)

theorem ensures_scriptFrom {script : CScript} {pbegincodehash : Nat}
    (h : pbegincodehash ≤ script.length) :
    Ensures Stop.Expected (fun _ => True) (scriptFrom script pbegincodehash) := by
  unfold scriptFrom
  rw [if_pos h]
  exact trivial

theorem ensures_deleteSignature (scriptCode : CScript) (vchSig : ValType) :
    Ensures Stop.Expected (fun _ => True) (findAndDelete scriptCode (pushBytes vchSig)) :=
  ensures_findAndDelete.imp_fails Never.elim

theorem ensures_execCheckSig (h : SmallElements stack) (fVerify : Bool) {script : CScript}
    {pbegincodehash : Nat} (hcode : pbegincodehash ≤ script.length) :
    Ensures Stop.Expected SmallElements
      (execCheckSig env flags fVerify script pbegincodehash stack) := by
  unfold execCheckSig
  refine ensures_needs_bind (fun hn => ?_)
  refine ensures_bind (ensures_stacktop (by decide) hn) (fun vchSig _ => ?_)
  refine ensures_bind (ensures_stacktop (by decide) (by omega)) (fun vchPubKey _ => ?_)
  refine ensures_bind (ensures_scriptFrom hcode) (fun scriptCode _ => ?_)
  refine ensures_bind (ensures_deleteSignature scriptCode vchSig) (fun _ _ => ?_)
  refine ensures_bind (ensures_checkEncodings flags vchSig vchPubKey) (fun _ _ => ?_)
  refine ensures_bind (ensures_popTimes hn) (fun rest hrest => ?_)
  exact ensures_verifyIf_bool h hrest.1

theorem ensures_dropSignatures {left isig : Nat} (hpos : 0 < isig)
    (hle : isig + left ≤ stack.length + 1) (scriptCode : CScript) :
    Ensures Stop.Expected (fun _ => True) (dropSignatures stack left isig scriptCode) := by
  induction left generalizing isig scriptCode with
  | zero => exact trivial
  | succ left ih =>
      rw [dropSignatures]
      refine ensures_bind (ensures_stacktop hpos (by omega)) (fun vchSig _ => ?_)
      refine ensures_bind (ensures_deleteSignature scriptCode vchSig) (fun rest _ => ?_)
      exact ih (Nat.succ_pos _) (by omega) rest.1

/-- There are as many keys left as signatures at least, and both lie on the stack. -/
theorem ensures_multiSigLoop (scriptCode : CScript) (nKeysCount : Nat) :
    forall {nSigsCount ikey isig : Nat}, nSigsCount ≤ nKeysCount -> 0 < ikey -> 0 < isig ->
      ikey + nKeysCount ≤ stack.length + 1 -> isig + nSigsCount ≤ stack.length + 1 ->
      Ensures Stop.Expected (fun _ => True)
        (multiSigLoop env flags scriptCode stack nKeysCount nSigsCount ikey isig) := by
  induction nKeysCount with
  | zero =>
      intro nSigsCount ikey isig hcount _ _ _ _
      unfold multiSigLoop
      rw [if_pos (Nat.le_zero.mp hcount)]
      exact trivial
  | succ nKeysCount ih =>
      intro nSigsCount ikey isig hcount hkeypos hsigpos hkey hsig
      unfold multiSigLoop
      refine ensures_ite (fun _ => trivial) (fun hsome => ?_)
      refine ensures_bind (ensures_stacktop hsigpos (by omega)) (fun vchSig _ => ?_)
      refine ensures_bind (ensures_stacktop hkeypos (by omega)) (fun vchPubKey _ => ?_)
      refine ensures_bind (ensures_checkEncodings flags vchSig vchPubKey) (fun _ _ => ?_)
      refine ensures_ite (fun _ => trivial) (fun hleft => ?_)
      refine ih (Nat.not_lt.mp hleft) (Nat.succ_pos _) ?_ (by omega) ?_
      · split_ifs <;> omega
      · split_ifs <;> omega

theorem ensures_execCheckMultiSig (h : SmallElements stack) (fVerify : Bool)
    {script : CScript} {pbegincodehash : Nat} (hcode : pbegincodehash ≤ script.length)
    (nOpCount : Nat) :
    Ensures Stop.Expected (fun r : Stack × Nat => SmallElements r.1 ∧ r.2 ≤ 201)
      (execCheckMultiSig env flags fVerify script pbegincodehash nOpCount stack) := by
  unfold execCheckMultiSig
  refine ensures_needs_bind (fun hn => ?_)
  refine ensures_bind (ensures_numberAt (by decide) hn) (fun bnKeys _ => ?_)
  refine ensures_require_bind trivial (fun hkeys => ?_)
  refine ensures_require_bind trivial (fun hops => ?_)
  refine ensures_needs_bind (fun hnkeys => ?_)
  refine ensures_bind (ensures_numberAt (by omega) hnkeys) (fun bnSigs _ => ?_)
  refine ensures_require_bind trivial (fun hsigs => ?_)
  refine ensures_needs_bind (fun hnsigs => ?_)
  simp only [Bool.not_eq_true', Bool.or_eq_false_iff, decide_eq_false_iff_not, not_lt,
    gt_iff_lt] at hkeys hops hsigs
  refine ensures_bind (ensures_scriptFrom hcode) (fun scriptCode _ => ?_)
  refine ensures_bind (ensures_dropSignatures (by omega) (by omega) scriptCode) ?_
  intro scriptCode' _
  refine ensures_bind (ensures_multiSigLoop env flags scriptCode' _ (by omega) (by decide)
    (by omega) (by omega) (by omega)) (fun fSuccess _ => ?_)
  refine ensures_bind (ensures_popTimes (by omega)) ?_
  rintro rest ⟨hrest, -⟩
  refine ensures_needs_bind (fun hdummy => ?_)
  refine ensures_bind (ensures_stacktop (by decide) hdummy) (fun vchDummy _ => ?_)
  refine ensures_require_bind trivial (fun _ => ?_)
  refine ensures_bind (ensures_popstack hdummy) ?_
  rintro rest' ⟨hrest', -⟩
  refine ensures_bind (ensures_verifyIf_bool (h.subset hrest) hrest') (fun result hresult => ?_)
  exact ensures_ok ⟨hresult, hops⟩

/-!
# Instructions
-/

/-- What holds after every instruction, before the size of the stacks is tested. -/
structure Machine.Safe (script : CScript) (m : Machine) : Prop where
  stackSmall : SmallElements m.stack
  altstackSmall : SmallElements m.altstack
  pbegincodehash_le : m.pbegincodehash ≤ script.length
  nOpCount_le : m.nOpCount ≤ 201

variable {script : CScript} {m : Machine}

theorem Machine.Safe.onStack (h : m.Safe script) {result : Except Stop Stack}
    (hresult : Ensures Stop.Expected SmallElements result) :
    Ensures Stop.Expected (Machine.Safe script) (onStack m result) :=
  ensures_bind hresult (fun _ hsmall => { h with stackSmall := hsmall })

theorem ensures_execIf (h : m.Safe script) (fNot fExec : Bool) :
    Ensures Stop.Expected (Machine.Safe script) (execIf fNot fExec m) := by
  unfold execIf
  refine ensures_ite (fun _ => ?_) (fun _ => { h with })
  refine ensures_require_bind trivial (fun hsize => ?_)
  rw [Bool.not_eq_true', decide_eq_false_iff_not, Nat.not_lt] at hsize
  refine ensures_bind (ensures_stacktop (by decide) hsize) (fun vch _ => ?_)
  refine ensures_bind (ensures_popstack hsize) (fun rest hrest => ?_)
  exact { h with stackSmall := h.stackSmall.subset hrest.1 }

theorem ensures_execElse (h : m.Safe script) :
    Ensures Stop.Expected (Machine.Safe script) (execElse m) := by
  unfold execElse
  cases m.vfExec with
  | nil => exact trivial
  | cons fValue rest => exact { h with }

theorem ensures_execEndIf (h : m.Safe script) :
    Ensures Stop.Expected (Machine.Safe script) (execEndIf m) := by
  unfold execEndIf
  cases m.vfExec with
  | nil => exact trivial
  | cons fValue rest => exact { h with }

theorem ensures_execVerify (h : SmallElements stack) :
    Ensures Stop.Expected SmallElements (execVerify stack) := by
  unfold execVerify verifyTop
  refine ensures_needs_bind (fun hn => ?_)
  refine ensures_bind (ensures_stacktop (by decide) hn) (fun vch _ => ?_)
  refine ensures_ite (fun _ => ?_) (fun _ => trivial)
  exact (ensures_popstack hn).mono (fun _ hrest => h.subset hrest.1)

theorem ensures_execToAltStack (h : m.Safe script) :
    Ensures Stop.Expected (Machine.Safe script) (execToAltStack m) := by
  unfold execToAltStack
  refine ensures_needs_bind (fun hn => ?_)
  refine ensures_bind (ensures_stacktop (by decide) hn) (fun vch hvch => ?_)
  refine ensures_bind (ensures_popstack hn) (fun rest hrest => ?_)
  exact { h with
    stackSmall := h.stackSmall.subset hrest.1
    altstackSmall := SmallElements.cons (h.stackSmall vch hvch) h.altstackSmall }

theorem ensures_execFromAltStack (h : m.Safe script) :
    Ensures Stop.Expected (Machine.Safe script) (execFromAltStack m) := by
  unfold execFromAltStack
  refine ensures_require_bind trivial (fun hsize => ?_)
  rw [Bool.not_eq_true', decide_eq_false_iff_not, Nat.not_lt] at hsize
  refine ensures_bind (ensures_stacktop (by decide) hsize) (fun vch hvch => ?_)
  refine ensures_bind (ensures_popstack hsize) (fun rest hrest => ?_)
  exact { h with
    stackSmall := SmallElements.cons (h.altstackSmall vch hvch) h.stackSmall
    altstackSmall := h.altstackSmall.subset hrest.1 }

theorem ensures_checkMultiSigOp (h : m.Safe script) (fVerify : Bool) :
    Ensures Stop.Expected (Machine.Safe script) (do
      let (stack, nOpCount) ←
        execCheckMultiSig env flags fVerify script m.pbegincodehash m.nOpCount m.stack
      Except.ok { m with stack := stack, nOpCount := nOpCount }) :=
  ensures_bind
    (ensures_execCheckMultiSig env flags h.stackSmall fVerify h.pbegincodehash_le m.nOpCount)
    (fun _ hr => { h with stackSmall := hr.1, nOpCount_le := hr.2 })

theorem ensures_execOp (h : m.Safe script) {pc : Nat} (hpc : pc ≤ script.length)
    (fExec : Bool) (opcode : Opcode) :
    Ensures Stop.Expected (Machine.Safe script)
      (execOp env flags script pc fExec m opcode) := by
  cases opcode with
  | number n => exact { h with stackSmall := SmallElements.cons (length_number n) h.stackSmall }
  | nop => exact h
  | upgradableNop => exact ensures_require_bind trivial (fun _ => h)
  | opIf => exact ensures_execIf h false fExec
  | opNotIf => exact ensures_execIf h true fExec
  | opElse => exact ensures_execElse h
  | opEndIf => exact ensures_execEndIf h
  | verify => exact h.onStack (ensures_execVerify h.stackSmall)
  | opReturn => exact trivial
  | toAltStack => exact ensures_execToAltStack h
  | fromAltStack => exact ensures_execFromAltStack h
  | stack op => exact h.onStack (ensures_execStack h.stackSmall op)
  | pick => exact h.onStack (ensures_execPick h.stackSmall false)
  | roll => exact h.onStack (ensures_execPick h.stackSmall true)
  | unary op => exact h.onStack (ensures_execUnary h.stackSmall op)
  | binary op => exact h.onStack (ensures_execBinary h.stackSmall op)
  | within => exact h.onStack (ensures_execWithin h.stackSmall)
  | hash op => exact h.onStack (ensures_execHash env h.stackSmall op)
  | codeSeparator => exact { h with pbegincodehash_le := hpc }
  | checkSig =>
      exact h.onStack (ensures_execCheckSig env flags h.stackSmall false h.pbegincodehash_le)
  | checkSigVerify =>
      exact h.onStack (ensures_execCheckSig env flags h.stackSmall true h.pbegincodehash_le)
  | checkMultiSig => exact ensures_checkMultiSigOp env flags h false
  | checkMultiSigVerify => exact ensures_checkMultiSigOp env flags h true
  | unknown => exact trivial

theorem ensures_execInstruction (h : m.Safe script) {instruction : Instruction}
    (hpush : instruction.vch.length ≤ MAX_SCRIPT_ELEMENT_SIZE)
    (hpc : instruction.pc ≤ script.length) :
    Ensures Stop.Expected (Machine.Safe script)
      (execInstruction env flags script instruction m) := by
  unfold execInstruction
  refine ensures_ite (fun _ => ?_) (fun _ => ensures_ite (fun _ => ?_) (fun _ => h))
  · refine ensures_require_bind trivial (fun _ => ?_)
    exact { h with stackSmall := SmallElements.cons hpush h.stackSmall }
  · exact ensures_execOp env flags h hpc _ _

/-!
# The loop
-/

def Machine.WithinLimit (m : Machine) : Prop := m.stack.length + m.altstack.length ≤ 1000

theorem countOp_le {nOpCount opcode : Nat} (h : nOpCount ≤ 201)
    (hcheck : (!(decide (opcode > CScript.OP_16) &&
      decide (countOp nOpCount opcode > 201))) = true) :
    countOp nOpCount opcode ≤ 201 := by
  unfold countOp at hcheck ⊢
  by_cases hop : opcode > CScript.OP_16
  · rw [if_pos hop] at hcheck ⊢
    simp only [hop, decide_true, Bool.true_and, Bool.not_eq_true', decide_eq_false_iff_not,
      not_lt, gt_iff_lt] at hcheck
    exact hcheck
  · rw [if_neg hop]
    exact h

/-- An instruction ends within the script, in a machine which is safe and within the limits. -/
theorem ensures_evalStep (h : m.Safe script) (pc : Nat) :
    Ensures Stop.Expected (fun next : Nat × Machine =>
        pc < next.1 ∧ next.2.Safe script ∧ next.2.WithinLimit)
      (evalStep env flags script pc m) := by
  unfold evalStep
  refine ensures_bind (ensures_getOp2.imp_fails Never.elim) (fun found hfound => ?_)
  cases found with
  | none => exact trivial
  | some instruction =>
      rcases hfound instruction rfl with ⟨hafter, hend⟩
      refine ensures_require_bind trivial (fun hsize => ?_)
      refine ensures_require_bind trivial (fun hcount => ?_)
      refine ensures_require_bind trivial (fun _ => ?_)
      rw [Bool.not_eq_true', decide_eq_false_iff_not, Nat.not_lt] at hsize
      have hsafe : ({ m with nOpCount := countOp m.nOpCount instruction.opcode } :
          Machine).Safe script := { h with nOpCount_le := countOp_le h.nOpCount_le hcount }
      refine ensures_bind (ensures_execInstruction env flags hsafe hsize hend) ?_
      intro m' hsafe'
      refine ensures_require_bind trivial (fun hlimit => ?_)
      rw [Bool.not_eq_true', decide_eq_false_iff_not, Nat.not_lt] at hlimit
      exact ensures_ok ⟨hafter, hsafe', hlimit⟩

/-- Each instruction is longer than nothing, so that the rounds suffice. -/
theorem ensures_evalLoop (rounds : Nat) :
    forall {pc : Nat} {m : Machine}, script.length - pc ≤ rounds -> m.Safe script ->
      m.WithinLimit ->
      Ensures Stop.Expected (fun m' => m'.Safe script ∧ m'.WithinLimit)
        (evalLoop env flags script rounds pc m) := by
  induction rounds with
  | zero =>
      intro pc m hrounds hsafe hlimit
      rw [evalLoop, if_neg (by omega)]
      exact ensures_ok ⟨hsafe, hlimit⟩
  | succ rounds ih =>
      intro pc m hrounds hsafe hlimit
      rw [evalLoop]
      refine ensures_ite (fun _ => ?_) (fun _ => ensures_ok ⟨hsafe, hlimit⟩)
      refine ensures_bind (ensures_evalStep env flags hsafe pc) ?_
      rintro ⟨pc', m'⟩ ⟨hafter, hsafe', hlimit'⟩
      exact ih (by simp only at hafter; omega) hsafe' hlimit'

theorem ensures_evalBody (h : SmallElements stack) (hlimit : stack.length ≤ 1000) :
    Ensures Stop.Expected (fun m' => m'.Safe script ∧ m'.WithinLimit)
      (evalBody env flags script stack) := by
  have hsafe : (Machine.initial stack).Safe script :=
    { stackSmall := h
      altstackSmall := SmallElements.nil
      pbegincodehash_le := Nat.zero_le _
      nOpCount_le := Nat.zero_le _ }
  exact ensures_require_bind trivial
    (fun _ => ensures_evalLoop env flags script.length (Nat.sub_le _ _) hsafe hlimit)

theorem evalScript_eq_ok_iff {stack' : Stack} :
    evalScript env flags script stack = Except.ok stack' <->
      exists m, evalBody env flags script stack = Except.ok m ∧ m.vfExec = [] ∧
        m.stack = stack' := by
  unfold evalScript
  rw [bind_eq_ok_iff]
  refine exists_congr (fun m => and_congr catchAll_eq_ok_iff ?_)
  rw [then_eq_ok_iff, require_eq_ok_iff, List.isEmpty_iff, Except.ok.injEq]

theorem ensures_catchAll {x : Except Stop Machine}
    (h : Ensures Stop.Expected (fun _ => True) x) :
    Ensures (fun stop => exists serror, stop = Stop.error serror) (fun _ => True)
      (catchAll x) := by
  cases x with
  | ok m => exact trivial
  | error stop =>
      cases stop with
      | error serror => exact ⟨serror, rfl⟩
      | scriptNum what => exact ⟨ScriptError.unknownError, rfl⟩
      | outOfRange => exact h.elim
      | aborted => exact h.elim
      | unfinished => exact h.elim

/--
`EvalScript` on a stack of at most 1000 small elements: the loop ends, all accesses are in
bounds, nothing but an error of `CScriptNum` is caught, and on success the stacks and the
number of counted operations are within their limits.
-/
theorem evalScript_safe (script : CScript) (flags : ScriptVerifyFlags) (env : ScriptEnv)
    (stack : Stack) (hlimit : stack.length ≤ 1000) (hsmall : SmallElements stack) :
    (forall stop, evalBody env flags script stack = Except.error stop ->
      (exists serror, stop = Stop.error serror) ∨ exists what, stop = Stop.scriptNum what) ∧
    (forall stop, evalScript env flags script stack = Except.error stop ->
      exists serror, stop = Stop.error serror) ∧
    forall stack', evalScript env flags script stack = Except.ok stack' ->
      exists m, evalBody env flags script stack = Except.ok m ∧ m.stack = stack' ∧
        m.stack.length + m.altstack.length ≤ 1000 ∧
        (forall vch, vch ∈ m.stack ++ m.altstack -> vch.length ≤ MAX_SCRIPT_ELEMENT_SIZE) ∧
        m.nOpCount ≤ 201 := by
  have hbody : Ensures Stop.Expected (fun m' => m'.Safe script ∧ m'.WithinLimit)
      (evalBody env flags script stack) := ensures_evalBody env flags hsmall hlimit
  refine ⟨?_, ?_, ?_⟩
  · intro stop hstop
    have hexpected := hbody.of_error hstop
    cases stop with
    | error serror => exact Or.inl ⟨serror, rfl⟩
    | scriptNum what => exact Or.inr ⟨what, rfl⟩
    | outOfRange => exact hexpected.elim
    | aborted => exact hexpected.elim
    | unfinished => exact hexpected.elim
  · intro stop hstop
    have hcaught := ensures_catchAll (hbody.mono (fun _ _ => trivial))
    have hscript : Ensures (fun stop => exists serror, stop = Stop.error serror)
        (fun _ => True) (evalScript env flags script stack) := by
      refine ensures_bind hcaught (fun m _ => ?_)
      exact ensures_require_bind ⟨_, rfl⟩ (fun _ => trivial)
    exact hscript.of_error hstop
  · intro stack' hstack'
    rcases (evalScript_eq_ok_iff env flags).mp hstack' with ⟨m, hm, -, hresult⟩
    rcases hbody.of_ok hm with ⟨hsafe, hwithin⟩
    refine ⟨m, hm, hresult, hwithin, ?_, hsafe.nOpCount_le⟩
    intro vch hvch
    rcases List.mem_append.mp hvch with hmem | hmem
    · exact hsafe.stackSmall vch hmem
    · exact hsafe.altstackSmall vch hmem

end Exec

/-- Three numbers are pushed, two of them are added and the third is picked. -/
theorem evalScript_safe_pick :
    exists m, evalBody zeroEnv STANDARD_SCRIPT_VERIFY_FLAGS [0x52, 0x53, 0x93, 0x51, 0x79] [[7]] =
        Except.ok m ∧ m.stack = [[7], [5], [7]] ∧ m.stack.length + m.altstack.length ≤ 1000 ∧
        (forall vch, vch ∈ m.stack ++ m.altstack -> vch.length ≤ MAX_SCRIPT_ELEMENT_SIZE) ∧
        m.nOpCount ≤ 201 :=
  (evalScript_safe _ _ _ _ (by decide) (fun _ h => by
    rw [List.mem_singleton.mp h]
    decide)).2.2 _ (by decide +kernel)

end Script
end Hbcur
