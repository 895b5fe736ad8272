import Hbcur.Script.SigOps

/-!
# Classifying scripts

`Solver` of `script/standard.cpp`: the type of an output script and the public keys or hashes
in it.
-/

namespace Hbcur

def CScript.isPushOnly (script : CScript) : Bool :=
  (CScript.lastPush script.length [] script).isSome

namespace Script

open CScript

inductive TxnOutType where
  | nonstandard
  | pubKey
  | pubKeyHash
  | scriptHash
  | multiSig
  | nullData
  deriving DecidableEq, Repr

/-!
# Templates
-/

def OP_DUP : Nat := 0x76
def OP_EQUALVERIFY : Nat := 0x88

-- The opcodes which only occur in templates.
def OP_SMALLINTEGER : Nat := 0xfa
def OP_PUBKEYS : Nat := 0xfb
def OP_PUBKEYHASH : Nat := 0xfd
def OP_PUBKEY : Nat := 0xfe

/-- In the order of the types; every instruction of a template is a single opcode. -/
def mTemplates : List (TxnOutType × List Nat) :=
  [(TxnOutType.pubKey, [OP_PUBKEY, OP_CHECKSIG]),
    (TxnOutType.pubKeyHash,
      [OP_DUP, CScript.OP_HASH160.toNat, OP_PUBKEYHASH, OP_EQUALVERIFY, OP_CHECKSIG]),
    (TxnOutType.multiSig, [OP_SMALLINTEGER, OP_PUBKEYS, OP_SMALLINTEGER, OP_CHECKMULTISIG])]

def isPubKeySize (vch : List UInt8) : Bool :=
  decide (33 ≤ vch.length) && decide (vch.length ≤ 65)

def isSmallInteger (opcode : Nat) : Bool :=
  decide (opcode = 0) || decide (OP_1 ≤ opcode) && decide (opcode ≤ OP_16)

def decodeOpN (opcode : Nat) : Nat :=
  if opcode = 0 then 0 else opcode - (OP_1 - 1)

/-- One instruction against one of a template: what is added to the solutions. -/
def matchOp (opcode2 opcode1 : Nat) (vch1 : List UInt8) : Option (List (List UInt8)) :=
  if opcode2 = OP_PUBKEY then
    if isPubKeySize vch1 then some [vch1] else none
  else if opcode2 = OP_PUBKEYHASH then
    if vch1.length = 20 then some [vch1] else none
  else if opcode2 = OP_SMALLINTEGER then
    if isSmallInteger opcode1 then some [[UInt8.ofNat (decodeOpN opcode1)]] else none
  else if opcode1 = opcode2 ∧ vch1 = [] then some []
  else none

/-- The loop at `OP_PUBKEYS`: the keys, and the instruction after them with the rest. -/
def takePubKeys : Nat -> Nat -> List UInt8 -> CScript ->
    List (List UInt8) × Nat × List UInt8 × CScript
  | 0, opcode1, vch1, pc1 => ([], opcode1, vch1, pc1)
  | rounds + 1, opcode1, vch1, pc1 =>
      if isPubKeySize vch1 then
        match getOp pc1 with
        -- No template goes on with an invalid opcode.
        | none => ([vch1], OP_INVALIDOPCODE, [], [])
        | some (opcode1', vch1', pc1') =>
            let taken := takePubKeys rounds opcode1' vch1' pc1'
            (vch1 :: taken.1, taken.2)
      else ([], opcode1, vch1, pc1)

def matchTemplate : List Nat -> CScript -> Option (List (List UInt8))
  | [], [] => some []
  | [], _ :: _ => none
  | opcode2 :: template, script1 =>
      match getOp script1 with
      | none => none
      | some (opcode1, vch1, pc1) =>
          if opcode2 = OP_PUBKEYS then
            match template with
            | [] => none
            | opcode2' :: template' =>
                let taken := takePubKeys (pc1.length + 1) opcode1 vch1 pc1
                match matchOp opcode2' taken.2.1 taken.2.2.1 with
                | none => none
                | some pushed =>
                    (matchTemplate template' taken.2.2.2).map fun rest =>
                      taken.1 ++ pushed ++ rest
          else
            match matchOp opcode2 opcode1 vch1 with
            | none => none
            | some pushed => (matchTemplate template pc1).map fun rest => pushed ++ rest

/-!
# The solver
-/

/-- The additional checks of a script with several keys. -/
def multiSigFits (vSolutions : List (List UInt8)) : Bool :=
  match vSolutions.head?.bind List.head?, vSolutions.getLast?.bind List.head? with
  | some m, some n =>
      decide (1 ≤ m.toNat) && decide (1 ≤ n.toNat) && decide (m.toNat ≤ n.toNat) &&
        decide (vSolutions.length = n.toNat + 2)
  | _, _ => false

/-- The scan over the templates; the first one which matches decides. -/
def scanTemplates (scriptPubKey : CScript) :
    List (TxnOutType × List Nat) -> Option (TxnOutType × List (List UInt8))
  | [] => none
  | (type, template) :: rest =>
      match matchTemplate template scriptPubKey with
      | none => scanTemplates scriptPubKey rest
      | some vSolutions =>
          if type = TxnOutType.multiSig && !multiSigFits vSolutions then none
          else some (type, vSolutions)

/-- `Solver` with an empty vector for the solutions; nothing where it returns false. -/
def solver (scriptPubKey : CScript) : Option (TxnOutType × List (List UInt8)) :=
  if isPayToScriptHash scriptPubKey then
    some (TxnOutType.scriptHash, [(scriptPubKey.drop 2).take 20])
  else
    match scriptPubKey with
    | [] => scanTemplates [] mTemplates
    | opcode :: rest =>
        if opcode = CScript.OP_RETURN && CScript.isPushOnly rest then some (TxnOutType.nullData, [])
        else scanTemplates (opcode :: rest) mTemplates

/-!
# Keys and hashes
-/

theorem matchTemplate_cons {opcode2 : Nat} {template : List Nat} {script1 : CScript}
    {vSolutions : List (List UInt8)} (hop : opcode2 ≠ OP_PUBKEYS)
    (h : matchTemplate (opcode2 :: template) script1 = some vSolutions) :
    exists opcode1 vch1 pc1 pushed rest, getOp script1 = some (opcode1, vch1, pc1) ∧
      matchOp opcode2 opcode1 vch1 = some pushed ∧ matchTemplate template pc1 = some rest ∧
      vSolutions = pushed ++ rest := by
  unfold matchTemplate at h
  split at h
  · cases h
  · rename_i opcode1 vch1 pc1 hget
    rw [if_neg hop] at h
    split at h
    · cases h
    · rename_i pushed hmatch
      rcases Option.map_eq_some_iff.mp h with ⟨rest, hrest, rfl⟩
      exact ⟨opcode1, vch1, pc1, pushed, rest, hget, hmatch, hrest, rfl⟩

theorem matchTemplate_nil {script1 : CScript} {vSolutions : List (List UInt8)}
    (h : matchTemplate [] script1 = some vSolutions) : vSolutions = [] := by
  cases script1 with
  | nil =>
      cases h
      rfl
  | cons byte rest => cases h

/-- An opcode which stands for itself adds nothing to the solutions. -/
theorem eq_nil_of_matchOp {opcode2 opcode1 : Nat} {vch1 : List UInt8}
    {pushed : List (List UInt8)} (hkey : opcode2 ≠ OP_PUBKEY) (hhash : opcode2 ≠ OP_PUBKEYHASH)
    (hint : opcode2 ≠ OP_SMALLINTEGER) (h : matchOp opcode2 opcode1 vch1 = some pushed) :
    pushed = [] := by
  unfold matchOp at h
  rw [if_neg hkey, if_neg hhash, if_neg hint] at h
  split_ifs at h
  cases h
  rfl

theorem matchTemplate_pubKey {script1 : CScript} {vSolutions : List (List UInt8)}
    (h : matchTemplate [OP_PUBKEY, OP_CHECKSIG] script1 = some vSolutions) :
    exists vch, vSolutions = [vch] ∧ isPubKeySize vch = true := by
  rcases matchTemplate_cons (by decide) h with ⟨_, vch1, _, _, _, _, hkey, h1, rfl⟩
  rcases matchTemplate_cons (by decide) h1 with ⟨_, _, _, _, _, _, hsig, h2, rfl⟩
  rw [matchTemplate_nil h2, eq_nil_of_matchOp (by decide) (by decide) (by decide) hsig]
  unfold matchOp at hkey
  rw [if_pos rfl] at hkey
  split_ifs at hkey with hsize
  cases hkey
  exact ⟨vch1, rfl, hsize⟩

theorem matchTemplate_pubKeyHash {script1 : CScript} {vSolutions : List (List UInt8)}
    (h : matchTemplate
      [OP_DUP, CScript.OP_HASH160.toNat, OP_PUBKEYHASH, OP_EQUALVERIFY, OP_CHECKSIG]
      script1 = some vSolutions) :
    exists vch, vSolutions = [vch] ∧ vch.length = 20 := by
  rcases matchTemplate_cons (by decide) h with ⟨_, _, _, _, _, _, hdup, h1, rfl⟩
  rcases matchTemplate_cons (by decide) h1 with ⟨_, _, _, _, _, _, hhash, h2, rfl⟩
  rcases matchTemplate_cons (by decide) h2 with ⟨_, vch, _, _, _, _, hkey, h3, rfl⟩
  rcases matchTemplate_cons (by decide) h3 with ⟨_, _, _, _, _, _, hequal, h4, rfl⟩
  rcases matchTemplate_cons (by decide) h4 with ⟨_, _, _, _, _, _, hsig, h5, rfl⟩
  rw [matchTemplate_nil h5, eq_nil_of_matchOp (by decide) (by decide) (by decide) hdup,
    eq_nil_of_matchOp (by decide) (by decide) (by decide) hhash,
    eq_nil_of_matchOp (by decide) (by decide) (by decide) hequal,
    eq_nil_of_matchOp (by decide) (by decide) (by decide) hsig]
  unfold matchOp at hkey
  rw [if_neg (by decide), if_pos rfl] at hkey
  split_ifs at hkey with hsize
  cases hkey
  exact ⟨vch, rfl, hsize⟩

/-- The scan returns what one of the templates gives. -/
theorem exists_of_scanTemplates {scriptPubKey : CScript} {type : TxnOutType}
    {vSolutions : List (List UInt8)} {templates : List (TxnOutType × List Nat)}
    (h : scanTemplates scriptPubKey templates = some (type, vSolutions)) :
    exists template, (type, template) ∈ templates ∧
      matchTemplate template scriptPubKey = some vSolutions := by
  induction templates with
  | nil => cases h
  | cons first rest ih =>
      rcases first with ⟨type', template⟩
      unfold scanTemplates at h
      split at h
      · rcases ih h with ⟨template', hmem, hmatch⟩
        exact ⟨template', List.mem_cons_of_mem _ hmem, hmatch⟩
      · rename_i found hmatch
        split_ifs at h
        cases h
        exact ⟨template, List.mem_cons_self, hmatch⟩

theorem scanTemplates_of_solver {scriptPubKey : CScript} {type : TxnOutType}
    {vSolutions : List (List UInt8)} (hhash : type ≠ TxnOutType.scriptHash)
    (hdata : type ≠ TxnOutType.nullData)
    (h : solver scriptPubKey = some (type, vSolutions)) :
    scanTemplates scriptPubKey mTemplates = some (type, vSolutions) := by
  unfold solver at h
  split_ifs at h
  · cases h
    exact absurd rfl hhash
  · split at h
    · exact h
    · split_ifs at h
      · cases h
        exact absurd rfl hdata
      · exact h

theorem solver_pubKey {scriptPubKey : CScript} {vSolutions : List (List UInt8)}
    (h : solver scriptPubKey = some (TxnOutType.pubKey, vSolutions)) :
    exists vch, vSolutions = [vch] ∧ isPubKeySize vch = true := by
  rcases exists_of_scanTemplates (scanTemplates_of_solver (by decide) (by decide) h) with
    ⟨template, hmem, hmatch⟩
  simp only [mTemplates, List.mem_cons, Prod.mk.injEq, reduceCtorEq, false_and, or_false,
    true_and, List.not_mem_nil] at hmem
  rw [hmem] at hmatch
  exact matchTemplate_pubKey hmatch

theorem solver_pubKeyHash {scriptPubKey : CScript} {vSolutions : List (List UInt8)}
    (h : solver scriptPubKey = some (TxnOutType.pubKeyHash, vSolutions)) :
    exists vch, vSolutions = [vch] ∧ vch.length = 20 := by
  rcases exists_of_scanTemplates (scanTemplates_of_solver (by decide) (by decide) h) with
    ⟨template, hmem, hmatch⟩
  simp only [mTemplates, List.mem_cons, Prod.mk.injEq, reduceCtorEq, false_and, or_false,
    false_or, true_and, List.not_mem_nil] at hmem
  rw [hmem] at hmatch
  exact matchTemplate_pubKeyHash hmatch

end Script
end Hbcur
