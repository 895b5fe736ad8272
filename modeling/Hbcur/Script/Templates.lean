import Hbcur.Script.Building
import Hbcur.Script.Solver

/-!
# Standard scripts

The forms of output scripts which `Solver` accepts, stated without templates: what the
operations of such a script are, and what is read off them.
-/

namespace Hbcur
namespace Script

open CScript

/-!
# Opcodes for themselves
-/

/-- An opcode behind the pushes, as an operation. -/
def literal (opcode : Nat) (hlow : OP_PUSHDATA4 < opcode) (hhigh : opcode ≤ 0xff) :
    Operation where
  bytes := [UInt8.ofNat opcode]
  opcode := opcode
  vch := []
  reads := getOp_singleton hlow hhigh

/-- `EncodeOP_N` -/
def encodeOpN (n : Nat) : Nat := if n = 0 then 0 else OP_1 + n - 1

/-- A number up to sixteen, as an operation. -/
def smallNumber (n : Nat) (h : n ≤ 16) : Operation where
  bytes := [UInt8.ofNat (encodeOpN n)]
  opcode := encodeOpN n
  vch := []
  reads := by
    unfold encodeOpN
    split_ifs with hzero
    · exact getOp_pushBytes (b := []) (by decide)
    · apply getOp_singleton
      · unfold OP_PUSHDATA4 OP_1
        omega
      · unfold OP_1
        omega

theorem isSmallInteger_iff {opcode : Nat} :
    isSmallInteger opcode = true <-> exists n, n ≤ 16 ∧ opcode = encodeOpN n := by
  unfold isSmallInteger encodeOpN OP_1 OP_16
  rw [Bool.or_eq_true, Bool.and_eq_true, decide_eq_true_eq, decide_eq_true_eq,
    decide_eq_true_eq]
  constructor
  · intro h
    rcases h with hzero | hrange
    · exact ⟨0, by omega, hzero⟩
    · exists opcode - 0x50
      constructor
      · omega
      · rw [if_neg (by omega)]
        omega
  · intro h
    rcases h with ⟨n, hn, rfl⟩
    split_ifs with hzero
    · exact Or.inl rfl
    · exact Or.inr (by omega)

theorem decodeOpN_encodeOpN (n : Nat) : decodeOpN (encodeOpN n) = n := by
  unfold decodeOpN encodeOpN OP_1
  split_ifs <;> omega

/-!
# The forms
-/

/-- A push of the size of a public key, in whichever encoding. -/
def Operation.IsPubKey (op : Operation) : Prop := 33 ≤ op.vch.length ∧ op.vch.length ≤ 65

inductive StandardForm : CScript -> TxnOutType -> List (List UInt8) -> Prop where
  | scriptHash {hash : List UInt8} (hlength : hash.length = 20) :
      StandardForm ([0xa9, 0x14] ++ hash ++ [0x87]) TxnOutType.scriptHash [hash]
  | nullData {pushes : List Operation}
      (hpushes : forall op, op ∈ pushes -> op.opcode ≤ OP_16) :
      StandardForm (0x6a :: bytesOf pushes) TxnOutType.nullData []
  | pubKey {key : Operation} (hkey : key.IsPubKey) :
      StandardForm (key.bytes ++ [0xac]) TxnOutType.pubKey [key.vch]
  | pubKeyHash {hash : Operation} (hlength : hash.vch.length = 20) :
      StandardForm ([0x76, 0xa9] ++ hash.bytes ++ [0x88, 0xac]) TxnOutType.pubKeyHash [hash.vch]
  | multiSig {m : Nat} {keys : List Operation} (hpos : 1 ≤ m) (hle : m ≤ keys.length)
      (hmax : keys.length ≤ 16) (hkeys : forall key, key ∈ keys -> key.IsPubKey) :
      StandardForm
        ([UInt8.ofNat (0x50 + m)] ++ bytesOf keys ++ [UInt8.ofNat (0x50 + keys.length), 0xae])
        TxnOutType.multiSig
        ([UInt8.ofNat m] :: keys.map Operation.vch ++ [[UInt8.ofNat keys.length]])

/-!
# One instruction of a template
-/

theorem isPubKeySize_iff {vch : List UInt8} :
    isPubKeySize vch = true <-> 33 ≤ vch.length ∧ vch.length ≤ 65 := by
  unfold isPubKeySize
  rw [Bool.and_eq_true, decide_eq_true_eq, decide_eq_true_eq]

/-- A script which starts with an operation, against an instruction of a template. -/
theorem matchTemplate_operation {opcode2 : Nat} {template : List Nat}
    (hop : opcode2 ≠ OP_PUBKEYS) (op : Operation) (rest : CScript) :
    matchTemplate (opcode2 :: template) (op.bytes ++ rest) =
      (matchOp opcode2 op.opcode op.vch).bind fun pushed =>
        (matchTemplate template rest).map fun vSolutions => pushed ++ vSolutions := by
  rw [matchTemplate, op.reads rest]
  simp only
  rw [if_neg hop]
  cases matchOp opcode2 op.opcode op.vch with
  | none => rfl
  | some pushed => rfl

theorem matchTemplate_cons_iff {opcode2 : Nat} {template : List Nat} {script : CScript}
    {vSolutions : List (List UInt8)} (hop : opcode2 ≠ OP_PUBKEYS) :
    matchTemplate (opcode2 :: template) script = some vSolutions <->
      exists (op : Operation) (rest : CScript) (pushed others : List (List UInt8)),
        script = op.bytes ++ rest ∧ matchOp opcode2 op.opcode op.vch = some pushed ∧
          matchTemplate template rest = some others ∧ vSolutions = pushed ++ others := by
  constructor
  · intro h
    rcases matchTemplate_cons hop h with
      ⟨opcode1, vch1, rest, pushed, others, hget, hmatch, hothers, heq⟩
    rcases reads_of_getOp hget with ⟨bytes, hbytes, hreads⟩
    exact ⟨⟨bytes, opcode1, vch1, hreads⟩, rest, pushed, others, hbytes, hmatch, hothers, heq⟩
  · intro h
    rcases h with ⟨op, rest, pushed, others, rfl, hmatch, hothers, rfl⟩
    rw [matchTemplate_operation hop, hmatch, Option.bind_some, hothers]
    rfl

/-- The opcodes of templates which stand for themselves. -/
def IsLiteral (opcode : Nat) : Prop :=
  OP_PUSHDATA4 < opcode ∧ opcode ≤ 0xff ∧ opcode ≠ OP_PUBKEYS ∧ opcode ≠ OP_PUBKEY ∧
    opcode ≠ OP_PUBKEYHASH ∧ opcode ≠ OP_SMALLINTEGER

instance (opcode : Nat) : Decidable (IsLiteral opcode) :=
  inferInstanceAs (Decidable (_ ∧ _))

theorem matchOp_literal {opcode2 opcode1 : Nat} {vch1 : List UInt8}
    {pushed : List (List UInt8)} (h : IsLiteral opcode2) :
    matchOp opcode2 opcode1 vch1 = some pushed <->
      opcode1 = opcode2 ∧ vch1 = [] ∧ pushed = [] := by
  rcases h with ⟨_, _, _, hkey, hhash, hint⟩
  unfold matchOp
  rw [if_neg hkey, if_neg hhash, if_neg hint]
  split_ifs with heq
  · rw [Option.some.injEq]
    constructor
    · intro hnil
      exact ⟨heq.1, heq.2, hnil.symm⟩
    · intro hall
      exact hall.2.2.symm
  · constructor
    · intro hnone
      cases hnone
    · intro hall
      exact absurd ⟨hall.1, hall.2.1⟩ heq

theorem matchTemplate_literal {opcode2 : Nat} {template : List Nat} {script : CScript}
    {vSolutions : List (List UInt8)} (h : IsLiteral opcode2) :
    matchTemplate (opcode2 :: template) script = some vSolutions <->
      exists rest, script = UInt8.ofNat opcode2 :: rest ∧
        matchTemplate template rest = some vSolutions := by
  rw [matchTemplate_cons_iff h.2.2.1]
  constructor
  · intro hall
    rcases hall with ⟨op, rest, pushed, others, rfl, hmatch, hothers, rfl⟩
    rcases (matchOp_literal h).mp hmatch with ⟨hopcode, _, rfl⟩
    have hsingle : op = literal opcode2 h.1 h.2.1 := Operation.eq_of_single rfl hopcode
    rw [hsingle]
    exact ⟨rest, rfl, hothers⟩
  · intro hall
    rcases hall with ⟨rest, rfl, hothers⟩
    exact ⟨literal opcode2 h.1 h.2.1, rest, [], vSolutions, rfl,
      (matchOp_literal h).mpr ⟨rfl, rfl, rfl⟩, hothers, rfl⟩

theorem matchTemplate_nil_iff {script : CScript} {vSolutions : List (List UInt8)} :
    matchTemplate [] script = some vSolutions <-> script = [] ∧ vSolutions = [] := by
  cases script with
  | nil =>
      rw [matchTemplate, Option.some.injEq]
      constructor
      · intro h
        exact ⟨rfl, h.symm⟩
      · intro h
        exact h.2.symm
  | cons byte rest =>
      constructor
      · intro h
        cases h
      · intro h
        cases h.1

/-- A wildcard for data of some size. -/
theorem matchTemplate_data {opcode2 : Nat} (fits : List UInt8 -> Prop) [DecidablePred fits]
    {template : List Nat} {script : CScript} {vSolutions : List (List UInt8)}
    (hop : opcode2 ≠ OP_PUBKEYS)
    (hmatch : forall opcode1 vch1, matchOp opcode2 opcode1 vch1 =
      if fits vch1 then some [vch1] else none) :
    matchTemplate (opcode2 :: template) script = some vSolutions <->
      exists (op : Operation) (rest : CScript) (others : List (List UInt8)),
        script = op.bytes ++ rest ∧ fits op.vch ∧
          matchTemplate template rest = some others ∧ vSolutions = op.vch :: others := by
  rw [matchTemplate_cons_iff hop]
  constructor
  · intro hall
    rcases hall with ⟨op, rest, pushed, others, hscript, hpushed, hothers, heq⟩
    rw [hmatch] at hpushed
    split_ifs at hpushed with hfits
    cases hpushed
    exact ⟨op, rest, others, hscript, hfits, hothers, heq⟩
  · intro hall
    rcases hall with ⟨op, rest, others, hscript, hfits, hothers, heq⟩
    exact ⟨op, rest, [op.vch], others, hscript, (hmatch _ _).trans (if_pos hfits), hothers, heq⟩

theorem matchOp_smallInteger {opcode1 : Nat} {vch1 : List UInt8}
    {pushed : List (List UInt8)} :
    matchOp OP_SMALLINTEGER opcode1 vch1 = some pushed <->
      exists n, n ≤ 16 ∧ opcode1 = encodeOpN n ∧ pushed = [[UInt8.ofNat n]] := by
  unfold matchOp
  rw [if_neg (by decide), if_neg (by decide), if_pos rfl]
  constructor
  · intro h
    split_ifs at h with hint
    rcases isSmallInteger_iff.mp hint with ⟨n, hn, rfl⟩
    rw [decodeOpN_encodeOpN, Option.some.injEq] at h
    exact ⟨n, hn, rfl, h.symm⟩
  · intro h
    rcases h with ⟨n, hn, rfl, rfl⟩
    rw [if_pos (isSmallInteger_iff.mpr ⟨n, hn, rfl⟩), decodeOpN_encodeOpN]

theorem matchTemplate_smallInteger {template : List Nat} {script : CScript}
    {vSolutions : List (List UInt8)} :
    matchTemplate (OP_SMALLINTEGER :: template) script = some vSolutions <->
      exists n rest others, n ≤ 16 ∧ script = UInt8.ofNat (encodeOpN n) :: rest ∧
        matchTemplate template rest = some others ∧ vSolutions = [UInt8.ofNat n] :: others := by
  rw [matchTemplate_cons_iff (by decide)]
  constructor
  · intro hall
    rcases hall with ⟨op, rest, pushed, others, rfl, hmatch, hothers, rfl⟩
    rcases matchOp_smallInteger.mp hmatch with ⟨n, hn, hopcode, rfl⟩
    have hsingle : op = smallNumber n hn := Operation.eq_of_single rfl hopcode
    rw [hsingle]
    exact ⟨n, rest, others, hn, rfl, hothers, rfl⟩
  · intro hall
    rcases hall with ⟨n, rest, others, hn, rfl, hothers, rfl⟩
    exact ⟨smallNumber n hn, rest, [[UInt8.ofNat n]], others, rfl,
      matchOp_smallInteger.mpr ⟨n, hn, rfl, rfl⟩, hothers, rfl⟩

/-!
# The wildcard for several keys
-/

theorem isPubKey_iff {op : Operation} : isPubKeySize op.vch = true <-> op.IsPubKey :=
  isPubKeySize_iff

/-- The first operation of a run of keys and what ends it. -/
theorem exists_first (keys : List Operation) (op : Operation) (rest : CScript) :
    exists (first : Operation) (pc1 : CScript),
      bytesOf keys ++ (op.bytes ++ rest) = first.bytes ++ pc1 := by
  cases keys with
  | nil => exact ⟨op, rest, rfl⟩
  | cons key keys =>
      exists key, bytesOf keys ++ (op.bytes ++ rest)
      rw [bytesOf_cons, List.append_assoc]

/-- The wildcard takes the keys up to the first operation which is none. -/
theorem takePubKeys_eq {op : Operation} (hop : ¬ op.IsPubKey) {rest : CScript} :
    forall {keys : List Operation} {first : Operation} {pc1 : CScript} {rounds : Nat},
      (forall key, key ∈ keys -> key.IsPubKey) ->
      bytesOf keys ++ (op.bytes ++ rest) = first.bytes ++ pc1 -> pc1.length < rounds ->
      takePubKeys rounds first.opcode first.vch pc1 =
        (keys.map Operation.vch, op.opcode, op.vch, rest) := by
  intro keys
  induction keys with
  | nil =>
      intro first pc1 rounds _ heq hrounds
      have hfirst : op = first := Operation.eq_of_append_eq heq
      subst hfirst
      have hrest : rest = pc1 := List.append_cancel_left heq
      subst hrest
      cases rounds with
      | zero => exact absurd hrounds (Nat.not_lt_zero _)
      | succ rounds =>
          rw [takePubKeys, if_neg (fun hsize => hop (isPubKey_iff.mp hsize))]
          rfl
  | cons key keys ih =>
      intro first pc1 rounds hkeys heq hrounds
      rw [bytesOf_cons, List.append_assoc] at heq
      have hfirst : key = first := Operation.eq_of_append_eq heq
      subst hfirst
      have hrest : bytesOf keys ++ (op.bytes ++ rest) = pc1 := List.append_cancel_left heq
      rcases exists_first keys op rest with ⟨next, pc1', hnext⟩
      rw [← hrest, hnext, List.length_append] at hrounds
      have hpos := next.length_pos
      cases rounds with
      | zero => exact absurd hrounds (Nat.not_lt_zero _)
      | succ rounds =>
          rw [takePubKeys, if_pos (isPubKey_iff.mpr (hkeys key List.mem_cons_self)), ← hrest,
            hnext, next.reads pc1']
          simp only
          rw [ih (fun other hmem => hkeys other (List.mem_cons_of_mem _ hmem)) hnext (by omega)]
          rfl

/-- A run of keys ends at an operation which is none, or at the end of what can be read. -/
theorem exists_keys : forall {rounds : Nat} (first : Operation) (pc1 : CScript),
    pc1.length < rounds ->
      (exists (keys : List Operation) (op : Operation) (rest : CScript),
        (forall key, key ∈ keys -> key.IsPubKey) ∧ ¬ op.IsPubKey ∧
          bytesOf keys ++ (op.bytes ++ rest) = first.bytes ++ pc1) ∨
        (takePubKeys rounds first.opcode first.vch pc1).2.1 = OP_INVALIDOPCODE := by
  intro rounds
  induction rounds with
  | zero =>
      intro first pc1 h
      exact absurd h (Nat.not_lt_zero _)
  | succ rounds ih =>
      intro first pc1 hrounds
      by_cases hfirst : first.IsPubKey
      · rw [takePubKeys, if_pos (isPubKey_iff.mpr hfirst)]
        cases hget : getOp pc1 with
        | none => exact Or.inr rfl
        | some read =>
            rcases read with ⟨opcode, vch, pc1'⟩
            have hlt := length_of_getOp hget
            rcases reads_of_getOp hget with ⟨bytes, rfl, hreads⟩
            rcases ih ⟨bytes, opcode, vch, hreads⟩ pc1' (by omega) with hkeys | hinvalid
            · rcases hkeys with ⟨keys, op, rest, hkeys, hop, heq⟩
              apply Or.inl
              refine ⟨first :: keys, op, rest, List.forall_mem_cons.mpr ⟨hfirst, hkeys⟩, hop, ?_⟩
              rw [bytesOf_cons, List.append_assoc, heq]
            · exact Or.inr hinvalid
      · exact Or.inl ⟨[], first, pc1, nofun, hfirst, rfl⟩

theorem encodeOpN_ne_invalid {n : Nat} (h : n ≤ 16) : OP_INVALIDOPCODE ≠ encodeOpN n := by
  unfold OP_INVALIDOPCODE encodeOpN OP_1
  split_ifs <;> omega

theorem not_isPubKey_smallNumber (n : Nat) (h : n ≤ 16) : ¬ (smallNumber n h).IsPubKey := by
  intro hkey
  exact Nat.not_succ_le_zero 32 hkey.1

/-- A script which starts with an operation, where the template goes on with the wildcard. -/
theorem matchTemplate_run {template : List Nat} (first : Operation) (pc1 : CScript)
    {taken : List (List UInt8) × Nat × List UInt8 × CScript}
    (htaken : takePubKeys (pc1.length + 1) first.opcode first.vch pc1 = taken) :
    matchTemplate (OP_PUBKEYS :: OP_SMALLINTEGER :: template) (first.bytes ++ pc1) =
      (matchOp OP_SMALLINTEGER taken.2.1 taken.2.2.1).bind fun pushed =>
        (matchTemplate template taken.2.2.2).map fun rest => taken.1 ++ pushed ++ rest := by
  rw [matchTemplate, first.reads pc1]
  change (if OP_PUBKEYS = OP_PUBKEYS then _ else _) = _
  rw [if_pos rfl, htaken]
  rcases taken with ⟨keys, opcode, vch, pc⟩
  dsimp only
  cases matchOp OP_SMALLINTEGER opcode vch with
  | none => rfl
  | some pushed => rfl

theorem matchTemplate_pubKeys {template : List Nat} {script : CScript}
    {vSolutions : List (List UInt8)} :
    matchTemplate (OP_PUBKEYS :: OP_SMALLINTEGER :: template) script = some vSolutions <->
      exists (keys : List Operation) (n : Nat) (rest : CScript) (others : List (List UInt8)),
        (forall key, key ∈ keys -> key.IsPubKey) ∧ n ≤ 16 ∧
          script = bytesOf keys ++ UInt8.ofNat (encodeOpN n) :: rest ∧
          matchTemplate template rest = some others ∧
          vSolutions = keys.map Operation.vch ++ [UInt8.ofNat n] :: others := by
  constructor
  · intro h
    cases hget : getOp script with
    | none =>
        rw [matchTemplate, hget] at h
        cases h
    | some read =>
        rcases read with ⟨opcode, vch, pc1⟩
        rcases reads_of_getOp hget with ⟨bytes, rfl, hreads⟩
        have hrun := @matchTemplate_run template ⟨bytes, opcode, vch, hreads⟩ pc1 _ rfl
        rw [hrun, Option.bind_eq_some_iff] at h
        rcases h with ⟨pushed, hmatch, hrest⟩
        rcases matchOp_smallInteger.mp hmatch with ⟨n, hn, hopcode, rfl⟩
        rcases exists_keys ⟨bytes, opcode, vch, hreads⟩ pc1 (Nat.lt_succ_self _) with
          hkeys | hinvalid
        · rcases hkeys with ⟨keys, op, rest, hkeys, hop, heq⟩
          rw [takePubKeys_eq hop hkeys heq (Nat.lt_succ_self _)] at hopcode hrest
          rcases Option.map_eq_some_iff.mp hrest with ⟨others, hothers, hsolutions⟩
          have hsingle : op = smallNumber n hn := Operation.eq_of_single rfl hopcode
          subst hsingle
          refine ⟨keys, n, rest, others, hkeys, hn, heq.symm, hothers, ?_⟩
          rw [← hsolutions, List.append_assoc]
          rfl
        · rw [hinvalid] at hopcode
          exact absurd hopcode (encodeOpN_ne_invalid hn)
  · intro h
    rcases h with ⟨keys, n, rest, others, hkeys, hn, rfl, hothers, rfl⟩
    have hop := not_isPubKey_smallNumber n hn
    rcases exists_first keys (smallNumber n hn) rest with ⟨first, pc1, hfirst⟩
    have hscript : bytesOf keys ++ UInt8.ofNat (encodeOpN n) :: rest = first.bytes ++ pc1 :=
      hfirst
    have hmatch : matchOp OP_SMALLINTEGER (smallNumber n hn).opcode (smallNumber n hn).vch =
        some [[UInt8.ofNat n]] := matchOp_smallInteger.mpr ⟨n, hn, rfl, rfl⟩
    rw [hscript, matchTemplate_run first pc1
      (takePubKeys_eq hop hkeys hfirst (Nat.lt_succ_self _))]
    change (matchOp OP_SMALLINTEGER (smallNumber n hn).opcode (smallNumber n hn).vch).bind _ = _
    rw [hmatch, Option.bind_some, hothers, Option.map_some, List.append_assoc]
    rfl

/-!
# The templates
-/

theorem isLiteral_checkSig : IsLiteral OP_CHECKSIG := by decide

theorem matchTemplate_pubKey_iff {script : CScript} {vSolutions : List (List UInt8)} :
    matchTemplate [OP_PUBKEY, OP_CHECKSIG] script = some vSolutions <->
      exists key : Operation, key.IsPubKey ∧ script = key.bytes ++ [0xac] ∧
        vSolutions = [key.vch] := by
  rw [matchTemplate_data (fun vch => isPubKeySize vch = true) (by decide)
    (fun _ _ => if_pos rfl)]
  constructor
  · intro h
    rcases h with ⟨key, rest, others, rfl, hkey, hothers, rfl⟩
    rcases (matchTemplate_literal isLiteral_checkSig).mp hothers with ⟨last, rfl, hlast⟩
    rcases matchTemplate_nil_iff.mp hlast with ⟨rfl, rfl⟩
    exact ⟨key, isPubKey_iff.mp hkey, rfl, rfl⟩
  · intro h
    rcases h with ⟨key, hkey, rfl, rfl⟩
    exact ⟨key, [0xac], [], rfl, isPubKey_iff.mpr hkey,
      (matchTemplate_literal isLiteral_checkSig).mpr ⟨[], rfl, rfl⟩, rfl⟩

theorem matchTemplate_pubKeyHash_iff {script : CScript} {vSolutions : List (List UInt8)} :
    matchTemplate [OP_DUP, OP_HASH160.toNat, OP_PUBKEYHASH, OP_EQUALVERIFY, OP_CHECKSIG] script =
        some vSolutions <->
      exists hash : Operation, hash.vch.length = 20 ∧
        script = [0x76, 0xa9] ++ hash.bytes ++ [0x88, 0xac] ∧ vSolutions = [hash.vch] := by
  have hdup : IsLiteral OP_DUP := by decide
  have hhash : IsLiteral OP_HASH160.toNat := by decide
  have hequal : IsLiteral OP_EQUALVERIFY := by decide
  have hdata : forall {template : List Nat} {script : CScript} {vSolutions : List (List UInt8)},
      matchTemplate (OP_PUBKEYHASH :: template) script = some vSolutions <->
        exists (op : Operation) (rest : CScript) (others : List (List UInt8)),
          script = op.bytes ++ rest ∧ op.vch.length = 20 ∧
            matchTemplate template rest = some others ∧ vSolutions = op.vch :: others :=
    matchTemplate_data (fun vch => vch.length = 20) (by decide)
      (fun _ _ => (if_neg (by decide)).trans (if_pos rfl))
  constructor
  · intro h
    rcases (matchTemplate_literal hdup).mp h with ⟨rest1, rfl, h1⟩
    rcases (matchTemplate_literal hhash).mp h1 with ⟨rest2, rfl, h2⟩
    rcases hdata.mp h2 with ⟨hash, rest3, others, rfl, hlength, h3, rfl⟩
    rcases (matchTemplate_literal hequal).mp h3 with ⟨rest4, rfl, h4⟩
    rcases (matchTemplate_literal isLiteral_checkSig).mp h4 with ⟨rest5, rfl, h5⟩
    rcases matchTemplate_nil_iff.mp h5 with ⟨rfl, rfl⟩
    exact ⟨hash, hlength, rfl, rfl⟩
  · intro h
    rcases h with ⟨hash, hlength, rfl, rfl⟩
    refine (matchTemplate_literal hdup).mpr ⟨_, rfl, ?_⟩
    refine (matchTemplate_literal hhash).mpr ⟨_, rfl, ?_⟩
    refine hdata.mpr ⟨hash, [0x88, 0xac], [], rfl, hlength, ?_, rfl⟩
    refine (matchTemplate_literal hequal).mpr ⟨_, rfl, ?_⟩
    exact (matchTemplate_literal isLiteral_checkSig).mpr ⟨[], rfl, rfl⟩

theorem matchTemplate_multiSig_iff {script : CScript} {vSolutions : List (List UInt8)} :
    matchTemplate [OP_SMALLINTEGER, OP_PUBKEYS, OP_SMALLINTEGER, OP_CHECKMULTISIG] script =
        some vSolutions <->
      exists (m n : Nat) (keys : List Operation), m ≤ 16 ∧ n ≤ 16 ∧
        (forall key, key ∈ keys -> key.IsPubKey) ∧
        script = [UInt8.ofNat (encodeOpN m)] ++ bytesOf keys ++
          [UInt8.ofNat (encodeOpN n), 0xae] ∧
        vSolutions = [UInt8.ofNat m] :: keys.map Operation.vch ++ [[UInt8.ofNat n]] := by
  have hmulti : IsLiteral OP_CHECKMULTISIG := by decide
  constructor
  · intro h
    rcases matchTemplate_smallInteger.mp h with ⟨m, rest1, others1, hm, rfl, h1, rfl⟩
    rcases matchTemplate_pubKeys.mp h1 with
      ⟨keys, n, rest2, others2, hkeys, hn, rfl, h2, rfl⟩
    rcases (matchTemplate_literal hmulti).mp h2 with ⟨rest3, rfl, h3⟩
    rcases matchTemplate_nil_iff.mp h3 with ⟨rfl, rfl⟩
    exact ⟨m, n, keys, hm, hn, hkeys, rfl, rfl⟩
  · intro h
    rcases h with ⟨m, n, keys, hm, hn, hkeys, rfl, rfl⟩
    refine matchTemplate_smallInteger.mpr ⟨m, _, _, hm, rfl, ?_, rfl⟩
    refine matchTemplate_pubKeys.mpr ⟨keys, n, [0xae], [], hkeys, hn, rfl, ?_, rfl⟩
    exact (matchTemplate_literal hmulti).mpr ⟨[], rfl, rfl⟩

theorem multiSigFits_iff {m n : Nat} (hm : m ≤ 16) (hn : n ≤ 16) (keys : List (List UInt8)) :
    multiSigFits ([UInt8.ofNat m] :: keys ++ [[UInt8.ofNat n]]) = true <->
      1 ≤ m ∧ m ≤ n ∧ keys.length = n := by
  have hbyte : forall k : Nat, k ≤ 16 -> (UInt8.ofNat k).toNat = k :=
    fun k hk => toNat_byte (hk.trans (by decide))
  have hlast : ([UInt8.ofNat m] :: keys ++ [[UInt8.ofNat n]]).getLast? =
      some [UInt8.ofNat n] := List.getLast?_append_cons _ _ _
  unfold multiSigFits
  rw [hlast]
  simp only [List.cons_append, List.head?_cons, Option.bind_some, hbyte m hm, hbyte n hn,
    List.length_cons, List.length_append, List.length_nil, Bool.and_eq_true, decide_eq_true_eq]
  omega

/-!
# The first operation
-/

/-- The opcode and the operand with which a script starts. -/
def firstOp (script : CScript) : Option (Nat × List UInt8) :=
  (getOp script).map fun read => (read.1, read.2.1)

theorem firstOp_append (op : Operation) (rest : CScript) :
    firstOp (op.bytes ++ rest) = some (op.opcode, op.vch) := by
  unfold firstOp
  rw [op.reads rest]
  rfl

theorem firstOp_literal (opcode : Nat) (hlow : OP_PUSHDATA4 < opcode) (hhigh : opcode ≤ 0xff)
    (rest : CScript) : firstOp (UInt8.ofNat opcode :: rest) = some (opcode, []) :=
  firstOp_append (literal opcode hlow hhigh) rest

theorem firstOp_pubKey {script : CScript} {vSolutions : List (List UInt8)}
    (h : matchTemplate [OP_PUBKEY, OP_CHECKSIG] script = some vSolutions) :
    forall opcode, firstOp script ≠ some (opcode, []) := by
  intro opcode heq
  rcases matchTemplate_pubKey_iff.mp h with ⟨key, hkey, rfl, _⟩
  rw [firstOp_append, Option.some.injEq, Prod.mk.injEq] at heq
  have hlow := hkey.1
  rw [heq.2] at hlow
  exact Nat.not_succ_le_zero 32 hlow

theorem firstOp_pubKeyHash {script : CScript} {vSolutions : List (List UInt8)}
    (h : matchTemplate
      [OP_DUP, OP_HASH160.toNat, OP_PUBKEYHASH, OP_EQUALVERIFY, OP_CHECKSIG] script =
        some vSolutions) : firstOp script = some (0x76, []) := by
  rcases matchTemplate_pubKeyHash_iff.mp h with ⟨hash, _, rfl, _⟩
  exact firstOp_literal 0x76 (by decide) (by decide) _

theorem firstOp_multiSig {script : CScript} {vSolutions : List (List UInt8)}
    (h : matchTemplate [OP_SMALLINTEGER, OP_PUBKEYS, OP_SMALLINTEGER, OP_CHECKMULTISIG] script =
      some vSolutions) :
    exists m, m ≤ 16 ∧ firstOp script = some (encodeOpN m, []) := by
  rcases matchTemplate_multiSig_iff.mp h with ⟨m, n, keys, hm, _, _, rfl, _⟩
  exact ⟨m, hm, firstOp_append (smallNumber m hm) _⟩

theorem encodeOpN_le {n : Nat} (h : n ≤ 16) : encodeOpN n ≤ 0x60 := by
  unfold encodeOpN OP_1
  split_ifs <;> omega

/-!
# The scan
-/

/-- At the last template the additional checks decide. -/
theorem scanTemplates_multiSig {script : CScript} {type : TxnOutType}
    {vSolutions : List (List UInt8)} :
    scanTemplates script [(TxnOutType.multiSig,
        [OP_SMALLINTEGER, OP_PUBKEYS, OP_SMALLINTEGER, OP_CHECKMULTISIG])] =
          some (type, vSolutions) <->
      type = TxnOutType.multiSig ∧
        matchTemplate [OP_SMALLINTEGER, OP_PUBKEYS, OP_SMALLINTEGER, OP_CHECKMULTISIG]
          script = some vSolutions ∧ multiSigFits vSolutions = true := by
  unfold scanTemplates
  cases matchTemplate [OP_SMALLINTEGER, OP_PUBKEYS, OP_SMALLINTEGER, OP_CHECKMULTISIG] script with
  | none =>
      constructor
      · intro h
        cases h
      · rintro ⟨_, hmatch, _⟩
        cases hmatch
  | some found =>
      simp only [decide_true, Bool.true_and]
      cases hfits : multiSigFits found with
      | true =>
          rw [Bool.not_true, if_neg Bool.false_ne_true]
          constructor
          · intro h
            cases h
            exact ⟨rfl, rfl, hfits⟩
          · rintro ⟨rfl, heq, _⟩
            cases heq
            rfl
      | false =>
          rw [Bool.not_false, if_pos rfl]
          constructor
          · intro h
            cases h
          · rintro ⟨_, heq, htrue⟩
            cases heq
            exact absurd (hfits.symm.trans htrue) Bool.false_ne_true

/-- No script matches two templates, so that their order does not matter. -/
theorem scanTemplates_iff {script : CScript} {type : TxnOutType}
    {vSolutions : List (List UInt8)} :
    scanTemplates script mTemplates = some (type, vSolutions) <->
      (type = TxnOutType.pubKey ∧
          matchTemplate [OP_PUBKEY, OP_CHECKSIG] script = some vSolutions) ∨
        (type = TxnOutType.pubKeyHash ∧
          matchTemplate [OP_DUP, OP_HASH160.toNat, OP_PUBKEYHASH, OP_EQUALVERIFY, OP_CHECKSIG]
            script = some vSolutions) ∨
        (type = TxnOutType.multiSig ∧
          matchTemplate [OP_SMALLINTEGER, OP_PUBKEYS, OP_SMALLINTEGER, OP_CHECKMULTISIG]
            script = some vSolutions ∧ multiSigFits vSolutions = true) := by
  unfold mTemplates
  simp only [scanTemplates]
  cases hkey : matchTemplate [OP_PUBKEY, OP_CHECKSIG] script with
  | some found =>
      have hfirst := firstOp_pubKey hkey
      constructor
      · intro h
        cases h
        exact Or.inl ⟨rfl, rfl⟩
      · intro h
        rcases h with ⟨rfl, heq⟩ | ⟨rfl, hhash⟩ | ⟨rfl, hmulti, _⟩
        · cases heq
          rfl
        · exact absurd (firstOp_pubKeyHash hhash) (hfirst _)
        · rcases firstOp_multiSig hmulti with ⟨m, _, hm⟩
          exact absurd hm (hfirst _)
  | none =>
      simp only [reduceCtorEq, and_false, false_or]
      cases hhash : matchTemplate
          [OP_DUP, OP_HASH160.toNat, OP_PUBKEYHASH, OP_EQUALVERIFY, OP_CHECKSIG] script with
      | some found =>
          have hfirst := firstOp_pubKeyHash hhash
          constructor
          · intro h
            cases h
            exact Or.inl ⟨rfl, rfl⟩
          · intro h
            rcases h with ⟨rfl, heq⟩ | ⟨rfl, hmulti, _⟩
            · cases heq
              rfl
            · rcases firstOp_multiSig hmulti with ⟨m, hle, hm⟩
              have hbound := encodeOpN_le hle
              rw [hfirst, Option.some.injEq, Prod.mk.injEq] at hm
              omega
      | none =>
          simp only [reduceCtorEq, and_false, false_or]
          exact scanTemplates_multiSig

/-!
# Script hashes and data
-/

theorem isPayToScriptHash_iff {script : CScript} :
    isPayToScriptHash script = true <->
      exists hash : List UInt8, hash.length = 20 ∧ script = [0xa9, 0x14] ++ hash ++ [0x87] := by
  unfold isPayToScriptHash
  rw [Bool.and_eq_true, Bool.and_eq_true, Bool.and_eq_true, beq_iff_eq, beq_iff_eq, beq_iff_eq,
    beq_iff_eq]
  constructor
  · intro h
    rcases h with ⟨⟨⟨hlength, hzero⟩, hone⟩, hlast⟩
    match script with
    | [] => cases hlength
    | [byte] => cases hlength
    | first :: second :: rest =>
        cases hzero
        cases hone
        simp only [List.length_cons] at hlength
        have hrest : rest[20]? = some OP_EQUAL := hlast
        exists rest.take 20
        constructor
        · rw [List.length_take]
          omega
        · have hdrop : rest.drop 20 = [OP_EQUAL] := by
            rw [List.drop_eq_getElem_cons (by omega), List.drop_eq_nil_of_le (by omega)]
            rw [List.getElem?_eq_getElem (by omega), Option.some.injEq] at hrest
            rw [hrest]
          rw [List.append_assoc]
          change _ = [0xa9, 0x14] ++ (rest.take 20 ++ [OP_EQUAL])
          rw [← hdrop, List.take_append_drop]
          rfl
  · intro h
    rcases h with ⟨hash, hlength, rfl⟩
    refine ⟨⟨⟨?_, rfl⟩, rfl⟩, ?_⟩
    · simp only [List.length_append, List.length_cons, List.length_nil, hlength]
    · have hindex : ([0xa9, 0x14] ++ hash).length = 22 := by
        rw [List.length_append, hlength]
        rfl
      rw [← hindex, List.getElem?_concat_length]
      rfl

theorem isPushOnly_iff {script : CScript} :
    CScript.isPushOnly script = true <->
      exists pushes : List Operation, (forall op, op ∈ pushes -> op.opcode ≤ OP_16) ∧
        script = bytesOf pushes := by
  unfold CScript.isPushOnly
  constructor
  · intro h
    rcases Option.isSome_iff_exists.mp h with ⟨last, hlast⟩
    exact exists_pushes_of_lastPush hlast
  · intro h
    rcases h with ⟨pushes, hpushes, rfl⟩
    rw [lastPush_bytesOf [] hpushes (Nat.le_refl _)]
    rfl

/-!
# The solver
-/

theorem solver_eq_scanTemplates {script : CScript} (hhash : isPayToScriptHash script = false)
    (hdata : firstOp script ≠ some (0x6a, [])) :
    solver script = scanTemplates script mTemplates := by
  unfold solver
  rw [if_neg (by rw [hhash]; exact Bool.false_ne_true)]
  cases script with
  | nil => rfl
  | cons opcode rest =>
      have hreturn : ¬ opcode = OP_RETURN := by
        intro heq
        apply hdata
        rw [heq]
        exact firstOp_literal 0x6a (by decide) (by decide) rest
      simp only
      rw [decide_eq_false hreturn, Bool.false_and, if_neg Bool.false_ne_true]

theorem isPayToScriptHash_of_firstOp {script : CScript}
    (h : firstOp script ≠ some (0xa9, [])) : isPayToScriptHash script = false := by
  rw [← Bool.not_eq_true, isPayToScriptHash_iff]
  intro hform
  rcases hform with ⟨hash, _, rfl⟩
  exact h (firstOp_literal 0xa9 (by decide) (by decide) _)

theorem exists_of_firstOp_return {script : CScript} (h : firstOp script = some (0x6a, [])) :
    exists rest, script = 0x6a :: rest := by
  unfold firstOp at h
  rcases Option.map_eq_some_iff.mp h with ⟨⟨opcode, vch, rest⟩, hget, heq⟩
  rcases reads_of_getOp hget with ⟨bytes, rfl, hreads⟩
  rw [Prod.mk.injEq] at heq
  exists rest
  have hlow : OP_PUSHDATA4 < 0x6a := by decide
  have hsingle : (⟨bytes, opcode, vch, hreads⟩ : Operation) = literal 0x6a hlow (by decide) :=
    Operation.eq_of_single rfl heq.1
  have hbytes : bytes = [0x6a] := congrArg Operation.bytes hsingle
  rw [hbytes]
  rfl

/-- A script which starts with `OP_RETURN` matches no template. -/
theorem solver_return (rest : CScript) :
    solver (0x6a :: rest) =
      if CScript.isPushOnly rest then some (TxnOutType.nullData, []) else none := by
  have hfirst : firstOp (0x6a :: rest) = some (0x6a, []) :=
    firstOp_literal 0x6a (by decide) (by decide) rest
  have hhash : isPayToScriptHash (0x6a :: rest) = false := by
    apply isPayToScriptHash_of_firstOp
    rw [hfirst]
    decide
  unfold solver
  rw [if_neg (by rw [hhash]; exact Bool.false_ne_true)]
  simp only
  rw [decide_eq_true (show (0x6a : UInt8) = OP_RETURN from rfl), Bool.true_and]
  split_ifs with hpush
  · rfl
  · apply Option.eq_none_iff_forall_ne_some.mpr
    intro found h
    rcases found with ⟨type, vSolutions⟩
    rcases scanTemplates_iff.mp h with ⟨_, hmatch⟩ | ⟨_, hmatch⟩ | ⟨_, hmatch, _⟩
    · exact firstOp_pubKey hmatch _ hfirst
    · rw [firstOp_pubKeyHash hmatch] at hfirst
      cases hfirst
    · rcases firstOp_multiSig hmatch with ⟨m, hle, hm⟩
      have hbound := encodeOpN_le hle
      rw [hfirst, Option.some.injEq, Prod.mk.injEq] at hm
      omega

theorem encodeOpN_of_pos {n : Nat} (h : 1 ≤ n) : encodeOpN n = 0x50 + n := by
  unfold encodeOpN OP_1
  rw [if_neg (by omega)]
  omega

/-- `Solver` returns true exactly for the standard forms, with what they consist of. -/
theorem solver_iff_standardForm {script : CScript} {type : TxnOutType}
    {vSolutions : List (List UInt8)} :
    solver script = some (type, vSolutions) <-> StandardForm script type vSolutions := by
  constructor
  · intro h
    by_cases hhash : isPayToScriptHash script = true
    · rcases isPayToScriptHash_iff.mp hhash with ⟨hash, hlength, rfl⟩
      unfold solver at h
      rw [if_pos hhash, Option.some.injEq, Prod.mk.injEq] at h
      rcases h with ⟨rfl, rfl⟩
      have htake : (([0xa9, 0x14] ++ hash ++ [0x87] : CScript).drop 2).take 20 = hash := by
        rw [List.append_assoc]
        exact List.take_left' hlength
      rw [htake]
      exact StandardForm.scriptHash hlength
    · rw [Bool.not_eq_true] at hhash
      by_cases hdata : firstOp script = some (0x6a, [])
      · rcases exists_of_firstOp_return hdata with ⟨rest, rfl⟩
        rw [solver_return] at h
        split_ifs at h with hpush
        cases h
        rcases isPushOnly_iff.mp hpush with ⟨pushes, hpushes, rfl⟩
        exact StandardForm.nullData hpushes
      · rw [solver_eq_scanTemplates hhash hdata] at h
        rcases scanTemplates_iff.mp h with ⟨rfl, hmatch⟩ | ⟨rfl, hmatch⟩ | ⟨rfl, hmatch, hfits⟩
        · rcases matchTemplate_pubKey_iff.mp hmatch with ⟨key, hkey, rfl, rfl⟩
          exact StandardForm.pubKey hkey
        · rcases matchTemplate_pubKeyHash_iff.mp hmatch with ⟨hash, hlength, rfl, rfl⟩
          exact StandardForm.pubKeyHash hlength
        · rcases matchTemplate_multiSig_iff.mp hmatch with
            ⟨m, n, keys, hm, hn, hkeys, rfl, rfl⟩
          rcases (multiSigFits_iff hm hn _).mp hfits with ⟨hpos, hle, hcount⟩
          rw [List.length_map] at hcount
          subst hcount
          rw [encodeOpN_of_pos hpos, encodeOpN_of_pos (hpos.trans hle)]
          exact StandardForm.multiSig hpos hle hn hkeys
  · intro h
    cases h with
    | @scriptHash hash hlength =>
        have hhash : isPayToScriptHash ([0xa9, 0x14] ++ hash ++ [0x87]) = true :=
          isPayToScriptHash_iff.mpr ⟨hash, hlength, rfl⟩
        have htake : (([0xa9, 0x14] ++ hash ++ [0x87] : CScript).drop 2).take 20 = hash := by
          rw [List.append_assoc]
          exact List.take_left' hlength
        unfold solver
        rw [if_pos hhash, htake]
    | @nullData pushes hpushes =>
        rw [solver_return, if_pos (isPushOnly_iff.mpr ⟨pushes, hpushes, rfl⟩)]
    | @pubKey key hkey =>
        have hmatch := matchTemplate_pubKey_iff.mpr ⟨key, hkey, rfl, rfl⟩
        have hfirst := firstOp_pubKey hmatch
        rw [solver_eq_scanTemplates (isPayToScriptHash_of_firstOp (hfirst _)) (hfirst _)]
        exact scanTemplates_iff.mpr (Or.inl ⟨rfl, hmatch⟩)
    | @pubKeyHash hash hlength =>
        have hmatch := matchTemplate_pubKeyHash_iff.mpr ⟨hash, hlength, rfl, rfl⟩
        have hfirst := firstOp_pubKeyHash hmatch
        rw [solver_eq_scanTemplates (isPayToScriptHash_of_firstOp (by rw [hfirst]; decide))
          (by rw [hfirst]; decide)]
        exact scanTemplates_iff.mpr (Or.inr (Or.inl ⟨rfl, hmatch⟩))
    | @multiSig m keys hpos hle hmax hkeys =>
        have hm := hle.trans hmax
        have hmatch := matchTemplate_multiSig_iff.mpr
          ⟨m, keys.length, keys, hm, hmax, hkeys, rfl, rfl⟩
        have hfits := (multiSigFits_iff hm hmax (keys.map Operation.vch)).mpr
          ⟨hpos, hle, List.length_map _⟩
        rw [encodeOpN_of_pos hpos, encodeOpN_of_pos (hpos.trans hle)] at hmatch
        rcases firstOp_multiSig hmatch with ⟨k, hk, hfirst⟩
        have hbound := encodeOpN_le hk
        have hother : forall opcode, 0x60 < opcode -> firstOp
            ([UInt8.ofNat (0x50 + m)] ++ bytesOf keys ++
              [UInt8.ofNat (0x50 + keys.length), 0xae]) ≠ some (opcode, []) := by
          intro opcode hlarge heq
          rw [hfirst, Option.some.injEq, Prod.mk.injEq] at heq
          omega
        rw [solver_eq_scanTemplates (isPayToScriptHash_of_firstOp (hother _ (by decide)))
          (hother _ (by decide))]
        exact scanTemplates_iff.mpr (Or.inr (Or.inr ⟨rfl, hmatch, hfits⟩))

end Script
end Hbcur
