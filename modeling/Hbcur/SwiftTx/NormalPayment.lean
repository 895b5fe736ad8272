import Hbcur.Script.Templates
import Hbcur.SwiftTx.State

/-!
# Normal payment scripts

The loop of `IsNormalPaymentScript` in `script/script.cpp` as it runs over a script, reads which
fail included, against the scripts which `Solver` calls a payment to the hash of a public key.
-/

namespace Hbcur

open Script

/-!
# The loop
-/

namespace CScript

/-- `GetOp` without regard to its result: the opcode, and the place where it has stopped. -/
def advance : CScript -> Nat × CScript
  | [] => (OP_INVALIDOPCODE, [])
  | byte :: pc =>
      if byte.toNat ≤ OP_PUSHDATA4 then
        match pushSize byte.toNat pc with
        | none => (OP_INVALIDOPCODE, pc)
        | some (nSize, pc') =>
            if pc'.length < nSize then (OP_INVALIDOPCODE, pc')
            else (byte.toNat, pc'.drop nSize)
      else (byte.toNat, pc)

/-- The loop for a number of rounds; nothing when they do not suffice. -/
def normalLoop : Nat -> Nat -> CScript -> Option Bool
  | _, _, [] => some true
  | 0, _, _ :: _ => none
  | rounds + 1, i, byte :: pc =>
      let read := advance (byte :: pc)
      if normalAt i read.1 then normalLoop rounds (i + 1) read.2 else some false

/-- `IsNormalPaymentScript`. -/
def scanNormalPayment (script : CScript) : Option Bool :=
  if script.length ≠ 25 then some false else normalLoop script.length 0 script

/-!
# One read
-/

/-- A read which fails has taken the opcode of a push and at most four bytes of its length. -/
structure Failed (byte : UInt8) (pc : CScript) (found : Nat × CScript) : Prop where
  getOp_eq : getOp (byte :: pc) = none
  isPush : byte.toNat ≤ OP_PUSHDATA4
  opcode : found.1 = OP_INVALIDOPCODE
  length_le : found.2.length ≤ pc.length
  length_ge : pc.length ≤ found.2.length + 4

theorem advance_cases (byte : UInt8) (pc : CScript) :
    (exists vch, getOp (byte :: pc) =
        some ((advance (byte :: pc)).1, vch, (advance (byte :: pc)).2)) ∨
      Failed byte pc (advance (byte :: pc)) := by
  rw [advance]
  split_ifs with hpush
  · cases hsize : pushSize byte.toNat pc with
    | none =>
        refine Or.inr ⟨?_, hpush, rfl, Nat.le_refl _, Nat.le_add_right _ _⟩
        rw [getOp, if_pos hpush, hsize]
    | some found =>
        rcases found with ⟨nSize, pc'⟩
        simp only
        split_ifs with hshort
        · refine Or.inr ⟨?_, hpush, rfl, length_of_pushSize hsize, length_le_of_pushSize hsize⟩
          rw [getOp, if_pos hpush, hsize]
          exact if_pos hshort
        · refine Or.inl ⟨pc'.take nSize, ?_⟩
          rw [getOp, if_pos hpush, hsize]
          exact if_neg hshort
  · refine Or.inl ⟨[], ?_⟩
    rw [getOp, if_neg hpush]

theorem advance_of_getOp {pc rest : CScript} {opcode : Nat} {vch : List UInt8}
    (h : getOp pc = some (opcode, vch, rest)) : advance pc = (opcode, rest) := by
  cases pc with
  | nil => cases h
  | cons byte pc =>
      rcases advance_cases byte pc with ⟨vch', hread⟩ | hfailed
      · rw [h, Option.some.injEq, Prod.mk.injEq, Prod.mk.injEq] at hread
        rw [hread.1, hread.2.2]
      · rw [hfailed.getOp_eq] at h
        cases h

theorem length_advance_lt (byte : UInt8) (pc : CScript) :
    (advance (byte :: pc)).2.length < (byte :: pc).length := by
  rcases advance_cases byte pc with ⟨vch, hread⟩ | hfailed
  · exact length_of_getOp hread
  · exact Nat.lt_succ_of_le hfailed.length_le

/-- Only the opcode itself is read as an opcode behind the pushes. -/
theorem advance_opcode_iff {opcode : UInt8} (hlow : OP_PUSHDATA4 < opcode.toNat)
    (hhigh : opcode.toNat ≠ OP_INVALIDOPCODE) (byte : UInt8) (pc : CScript) :
    (advance (byte :: pc)).1 = opcode.toNat <-> byte = opcode := by
  rcases advance_cases byte pc with ⟨vch, hread⟩ | hfailed
  · rw [(suffix_of_getOp hread).1, UInt8.toNat_inj]
  · rw [hfailed.opcode]
    have hpush := hfailed.isPush
    constructor
    · intro h
      exact absurd h.symm hhigh
    · rintro rfl
      omega

theorem advance_single {byte : UInt8} (h : OP_PUSHDATA4 < byte.toNat) (pc : CScript) :
    advance (byte :: pc) = (byte.toNat, pc) := by
  rw [advance, if_neg (Nat.not_le.mpr h)]

/-!
# Where the loop ends
-/

/-- Every round takes a byte. -/
theorem exists_normalLoop :
    forall (rounds i : Nat) (pc : CScript), pc.length ≤ rounds ->
      exists b, normalLoop rounds i pc = some b := by
  intro rounds
  induction rounds with
  | zero =>
      intro i pc h
      rw [List.eq_nil_of_length_eq_zero (Nat.le_zero.mp h)]
      exact ⟨true, rfl⟩
  | succ rounds ih =>
      intro i pc h
      cases pc with
      | nil => exact ⟨true, rfl⟩
      | cons byte pc =>
          rw [normalLoop]
          split_ifs
          · apply ih
            exact Nat.le_of_lt_succ ((length_advance_lt byte pc).trans_le h)
          · exact ⟨false, rfl⟩

/-- A position where one opcode behind the pushes is asked for. -/
def AsksFor (i : Nat) (expected : UInt8) : Prop :=
  OP_PUSHDATA4 < expected.toNat ∧ expected.toNat ≠ OP_INVALIDOPCODE ∧
    forall opcode, normalAt i opcode = (opcode == expected.toNat)

theorem normalLoop_asks {i : Nat} {expected : UInt8} (h : AsksFor i expected) (rounds : Nat)
    (byte : UInt8) (pc : CScript) :
    normalLoop (rounds + 1) i (byte :: pc) =
      if byte = expected then normalLoop rounds (i + 1) pc else some false := by
  rw [normalLoop, h.2.2]
  by_cases heq : byte = expected
  · subst heq
    rw [advance_single h.1, if_pos rfl, if_pos (beq_self_eq_true _)]
  · rw [if_neg heq, if_neg]
    rw [beq_iff_eq, advance_opcode_iff h.1 h.2.1]
    exact heq

theorem asksFor_dup : AsksFor 0 0x76 := ⟨by decide, by decide, fun _ => rfl⟩

theorem asksFor_hash160 : AsksFor 1 0xa9 := ⟨by decide, by decide, fun _ => rfl⟩

theorem asksFor_equalVerify : AsksFor 3 0x88 := ⟨by decide, by decide, fun _ => rfl⟩

theorem asksFor_checkSig : AsksFor 4 0xac := ⟨by decide, by decide, fun _ => rfl⟩

/-- What is accepted behind the third operation: the two opcodes, of which the script may also
leave out the last or both. -/
def IsEnding (pc : CScript) : Prop := pc = [] ∨ pc = [0x88] ∨ pc = [0x88, 0xac]

theorem normalLoop_ending {pc : CScript} {rounds : Nat} (hrounds : pc.length ≤ rounds) :
    normalLoop rounds 3 pc = some true <-> IsEnding pc := by
  unfold IsEnding
  match pc, rounds, hrounds with
  | [], _, _ => exact iff_of_true (by rw [normalLoop]) (Or.inl rfl)
  | [first], rounds + 1, _ =>
      rw [normalLoop_asks asksFor_equalVerify, normalLoop]
      by_cases hfirst : first = 0x88
      · rw [if_pos hfirst, hfirst]
        exact iff_of_true rfl (Or.inr (Or.inl rfl))
      · rw [if_neg hfirst]
        exact iff_of_false (by decide) (by simp [hfirst])
  | first :: second :: rest, rounds + 2, _ =>
      rw [normalLoop_asks asksFor_equalVerify, normalLoop_asks asksFor_checkSig]
      by_cases hfirst : first = 0x88
      · by_cases hsecond : second = 0xac
        · rw [if_pos hfirst, if_pos hsecond, hfirst, hsecond]
          cases rest with
          | nil => exact iff_of_true (by rw [normalLoop]) (Or.inr (Or.inr rfl))
          | cons third rest =>
              refine iff_of_false ?_ (by simp)
              intro h
              cases rounds with
              | zero => cases h
              | succ rounds =>
                  rw [normalLoop] at h
                  exact absurd h (by simp [normalAt])
        · rw [if_pos hfirst, if_neg hsecond]
          exact iff_of_false (by decide) (by simp [hsecond])
      · rw [if_neg hfirst]
        exact iff_of_false (by decide) (by simp [hfirst])

theorem IsEnding.length_le {pc : CScript} (h : IsEnding pc) : pc.length ≤ 2 := by
  rcases h with rfl | rfl | rfl
  · exact Nat.zero_le 2
  · exact Nat.le_succ 1
  · exact Nat.le_refl 2

/-- The third operation may be any; where it cannot be read, too much is left behind it. -/
theorem normalLoop_third {pc : CScript} {rounds : Nat} (hrounds : pc.length ≤ rounds)
    (hlong : 7 < pc.length) :
    normalLoop rounds 2 pc = some true <->
      exists (op : Operation) (rest : CScript), pc = op.bytes ++ rest ∧ IsEnding rest := by
  cases pc with
  | nil => cases hlong
  | cons byte pc =>
      obtain ⟨rounds, rfl⟩ := Nat.exists_eq_add_of_lt (Nat.zero_lt_of_lt hrounds)
      rw [Nat.zero_add] at hrounds ⊢
      rw [normalLoop]
      change normalLoop rounds 3 (advance (byte :: pc)).2 = some true <-> _
      have hlt := length_advance_lt byte pc
      rw [normalLoop_ending (by omega)]
      constructor
      · intro hending
        rcases advance_cases byte pc with ⟨vch, hread⟩ | hfailed
        · rcases reads_of_getOp hread with ⟨bytes, hbytes, hreads⟩
          exact ⟨⟨bytes, _, vch, hreads⟩, _, hbytes, hending⟩
        · have hle := hending.length_le
          have hge := hfailed.length_ge
          rw [List.length_cons] at hlong
          omega
      · rintro ⟨op, rest, hbytes, hending⟩
        rw [hbytes, advance_of_getOp (op.reads rest)]
        exact hending

theorem scanNormalPayment_iff {script : CScript} :
    scanNormalPayment script = some true <->
      script.length = 25 ∧ exists (op : Operation) (rest : CScript),
        script = [0x76, 0xa9] ++ op.bytes ++ rest ∧ IsEnding rest := by
  unfold scanNormalPayment
  split_ifs with hlength
  · exact iff_of_false (by decide) fun h => hlength h.1
  · rw [not_not] at hlength
    rw [and_iff_right hlength]
    match script, hlength with
    | first :: second :: pc, hlength =>
        rw [List.length_cons, List.length_cons] at hlength
        have hpc : pc.length = 23 := by omega
        simp only [List.length_cons]
        rw [normalLoop_asks asksFor_dup, normalLoop_asks asksFor_hash160]
        by_cases hfirst : first = 0x76
        · by_cases hsecond : second = 0xa9
          · rw [if_pos hfirst, if_pos hsecond, normalLoop_third (Nat.le_refl _) (by omega),
              hfirst, hsecond]
            simp
          · rw [if_pos hfirst, if_neg hsecond]
            exact iff_of_false (by decide) (by simp [hsecond])
        · rw [if_neg hfirst]
          exact iff_of_false (by decide) (by simp [hfirst])

/-!
# Reads which fail
-/

theorem normalFrom_operation (rounds i : Nat) (op : Operation) (rest : CScript) :
    normalFrom (rounds + 1) i (op.bytes ++ rest) =
      (normalAt i op.opcode && normalFrom rounds (i + 1) rest) := by
  rcases op.exists_bytes_eq with ⟨byte, operand, hbytes, -⟩
  have hread := op.reads rest
  rw [hbytes, List.cons_append] at hread ⊢
  rw [normalFrom, hread]
  exact nofun

/-- Where no read fails, the loop is the one which stops there. -/
theorem normalLoop_of_normalFrom :
    forall {rounds i : Nat} {pc : CScript}, normalFrom rounds i pc = true ->
      normalLoop rounds i pc = some true := by
  intro rounds
  induction rounds with
  | zero =>
      intro i pc h
      cases pc with
      | nil => rfl
      | cons byte pc => cases h
  | succ rounds ih =>
      intro i pc h
      cases pc with
      | nil => rfl
      | cons byte pc =>
          rw [normalFrom] at h
          · split at h
            · cases h
            · rename_i opcode vch rest hread
              rw [Bool.and_eq_true] at h
              rw [normalLoop, advance_of_getOp hread]
              simp only
              rw [if_pos h.1]
              exact ih h.2
          · exact nofun

theorem normalFrom_ending {pc : CScript} (h : IsEnding pc) (rounds : Nat) :
    normalFrom (rounds + 2) 3 pc = true := by
  have hequal := normalFrom_operation (rounds + 1) 3 (literal 0x88 (by decide) (by decide))
  have hcheck := normalFrom_operation rounds 4 (literal 0xac (by decide) (by decide))
  rcases h with rfl | rfl | rfl
  · rw [normalFrom]
  · refine (hequal []).trans ?_
    rw [normalFrom]
    rfl
  · refine (hequal [0xac]).trans ((congrArg (normalAt 3 0x88 && ·) (hcheck [])).trans ?_)
    rw [normalFrom]
    rfl

/-- In 25 bytes the reads which fail make no difference. -/
theorem scanNormalPayment_eq (script : CScript) :
    scanNormalPayment script = some (isNormalPaymentScript script) := by
  have hsome : exists b, scanNormalPayment script = some b := by
    unfold scanNormalPayment
    split_ifs
    · exact ⟨false, rfl⟩
    · exact exists_normalLoop _ 0 script (Nat.le_refl _)
  rcases hsome with ⟨b, hb⟩
  have hiff : b = true <-> isNormalPaymentScript script = true := by
    unfold isNormalPaymentScript
    rw [Bool.and_eq_true, beq_iff_eq]
    constructor
    · rintro rfl
      rcases scanNormalPayment_iff.mp hb with ⟨hlength, op, rest, hscript, hending⟩
      refine ⟨hlength, ?_⟩
      rw [hlength, hscript, List.append_assoc]
      have hdup := normalFrom_operation 24 0 (literal 0x76 (by decide) (by decide))
        (0xa9 :: (op.bytes ++ rest))
      have hhash := normalFrom_operation 23 1 (literal 0xa9 (by decide) (by decide))
        (op.bytes ++ rest)
      have hthird := normalFrom_operation 22 2 op rest
      rw [normalFrom_ending hending 20] at hthird
      refine hdup.trans ((congrArg (normalAt 0 0x76 && ·) hhash).trans ?_)
      rw [hthird]
      rfl
    · rintro ⟨hlength, hfrom⟩
      have hscan : scanNormalPayment script = some true := by
        unfold scanNormalPayment
        rw [if_neg (not_not.mpr hlength)]
        exact normalLoop_of_normalFrom hfrom
      rw [hb, Option.some.injEq] at hscan
      exact hscan
  rw [hb, Bool.eq_iff_iff.mpr hiff]

end CScript

/-!
# Payments to the hash of a public key
-/

namespace Script

open CScript

def IsPayToPubKeyHash (script : CScript) : Prop :=
  script.length = 25 ∧ exists vSolutions, solver script = some (TxnOutType.pubKeyHash, vSolutions)

theorem length_lt_of_readLE {width n : Nat} {bytes rest : List UInt8}
    (h : Serialize.readLE (width + 1) bytes = some (n, rest)) : rest.length < bytes.length := by
  unfold Serialize.readLE Foundation.readExactly at h
  split_ifs at h with hwidth
  · cases h
    rw [List.length_drop]
    omega

/-- Only a direct push has a single byte in front of its operand. -/
theorem Operation.bytes_eq_push {op : Operation} (hne : op.vch ≠ [])
    (h : op.bytes.length = op.vch.length + 1) :
    op.bytes = UInt8.ofNat op.vch.length :: op.vch := by
  rcases op.exists_bytes_eq with ⟨byte, operand, hbytes, -⟩
  have hread := op.reads []
  rw [List.append_nil, hbytes, getOp] at hread
  rw [hbytes, List.length_cons] at h
  split_ifs at hread with hpush
  · cases hsize : pushSize byte.toNat operand with
    | none =>
        rw [hsize] at hread
        cases hread
    | some found =>
        rcases found with ⟨nSize, pc⟩
        rw [hsize] at hread
        simp only at hread
        split_ifs at hread with hshort
        rw [Option.some.injEq, Prod.mk.injEq, Prod.mk.injEq] at hread
        rcases hread with ⟨-, htake, hdrop⟩
        have hle : pc.length ≤ nSize := List.drop_eq_nil_iff.mp hdrop
        have hpc : pc = op.vch := by rw [← htake, List.take_of_length_le hle]
        rw [hpc] at hsize hshort hle
        unfold pushSize at hsize
        split_ifs at hsize
        · rw [Option.some.injEq, Prod.mk.injEq] at hsize
          have hcount : op.vch.length = byte.toNat := by omega
          rw [hbytes, hcount, UInt8.ofNat_toNat, hsize.2]
        · have hlt := length_lt_of_readLE hsize
          omega
        · have hlt := length_lt_of_readLE hsize
          omega
        · have hlt := length_lt_of_readLE hsize
          omega
  · rw [Option.some.injEq, Prod.mk.injEq, Prod.mk.injEq] at hread
    exact absurd hread.2.1.symm hne

theorem solver_pubKeyHash_iff {script : CScript} :
    (exists vSolutions, solver script = some (TxnOutType.pubKeyHash, vSolutions)) <->
      exists hash : Operation, hash.vch.length = 20 ∧
        script = [0x76, 0xa9] ++ hash.bytes ++ [0x88, 0xac] := by
  constructor
  · rintro ⟨vSolutions, hsolver⟩
    cases solver_iff_standardForm.mp hsolver with
    | pubKeyHash hlength => exact ⟨_, hlength, rfl⟩
  · rintro ⟨hash, hlength, rfl⟩
    exact ⟨_, solver_iff_standardForm.mpr (StandardForm.pubKeyHash hlength)⟩

/-- A push of twenty bytes, between two opcodes and two more. -/
theorem isPayToPubKeyHash_iff {script : CScript} :
    IsPayToPubKeyHash script <->
      exists hash : List UInt8, hash.length = 20 ∧
        script = [0x76, 0xa9, 0x14] ++ hash ++ [0x88, 0xac] := by
  unfold IsPayToPubKeyHash
  rw [solver_pubKeyHash_iff]
  constructor
  · rintro ⟨hsize, hash, hlength, rfl⟩
    simp only [List.length_append, List.length_cons, List.length_nil] at hsize
    have hne : hash.vch ≠ [] := by
      intro hnil
      rw [hnil] at hlength
      cases hlength
    refine ⟨hash.vch, hlength, ?_⟩
    rw [Operation.bytes_eq_push hne (by omega), hlength]
    rfl
  · rintro ⟨hash, hlength, rfl⟩
    constructor
    · simp only [List.length_append, List.length_cons, List.length_nil, hlength]
    · have hshort : hash.length < OP_PUSHDATA1 := by
        rw [hlength]
        decide
      refine ⟨⟨UInt8.ofNat hash.length :: hash, hash.length, hash,
        fun rest => getOp_pushBytes hshort rest⟩, hlength, ?_⟩
      change _ = [0x76, 0xa9] ++ (UInt8.ofNat hash.length :: hash) ++ [0x88, 0xac]
      rw [hlength]
      rfl

/-- The loop comes to the end of the script before it has asked for everything, or with another
push than one of twenty bytes. -/
def Misread (script : CScript) : Prop :=
  script.length = 25 ∧ exists (op : Operation) (rest : CScript),
    script = [0x76, 0xa9] ++ op.bytes ++ rest ∧
      (rest = [] ∨ rest = [0x88] ∨ rest = [0x88, 0xac] ∧ op.vch.length ≠ 20)

theorem not_payToPubKeyHash_of_misread {script : CScript} (h : Misread script) :
    ¬ IsPayToPubKeyHash script := by
  rcases h with ⟨-, op, rest, hscript, hrest⟩
  rintro ⟨-, hsolver⟩
  rcases solver_pubKeyHash_iff.mp hsolver with ⟨hash, hlength, hform⟩
  have happend : op.bytes ++ rest = hash.bytes ++ [0x88, 0xac] := by
    rw [hform, List.append_assoc, List.append_assoc] at hscript
    exact (List.append_cancel_left hscript).symm
  have hop := Operation.eq_of_append_eq happend
  rw [hop] at happend hrest
  rw [List.append_cancel_left happend] at hrest
  rcases hrest with h | h | h
  · cases h
  · cases h
  · exact h.2 hlength

/--
The loop comes to an end on every script.  It picks out the payments to the hash of a public key
among all scripts but those which it misreads.
-/
theorem isNormalPaymentScript_iff (script : CScript) :
    scanNormalPayment script = some (isNormalPaymentScript script) ∧
    (IsPayToPubKeyHash script <->
      exists hash : List UInt8, hash.length = 20 ∧
        script = [0x76, 0xa9, 0x14] ++ hash ++ [0x88, 0xac]) ∧
    ((isNormalPaymentScript script = true <-> IsPayToPubKeyHash script) <-> ¬ Misread script) := by
  have hnormal : isNormalPaymentScript script = true <->
      script.length = 25 ∧ exists (op : Operation) (rest : CScript),
        script = [0x76, 0xa9] ++ op.bytes ++ rest ∧ IsEnding rest := by
    rw [← scanNormalPayment_iff, scanNormalPayment_eq, Option.some.injEq]
  refine ⟨scanNormalPayment_eq script, isPayToPubKeyHash_iff, ?_⟩
  constructor
  · intro hiff hmisread
    apply not_payToPubKeyHash_of_misread hmisread
    rcases hmisread with ⟨hlength, op, rest, hscript, hrest⟩
    exact hiff.mp (hnormal.mpr ⟨hlength, op, rest, hscript, hrest.imp id (Or.imp id And.left)⟩)
  · intro hmisread
    constructor
    · intro h
      rcases hnormal.mp h with ⟨hlength, op, rest, hscript, hending⟩
      refine ⟨hlength, solver_pubKeyHash_iff.mpr ?_⟩
      rcases hending with hrest | hrest | hrest
      · exact absurd ⟨hlength, op, rest, hscript, Or.inl hrest⟩ hmisread
      · exact absurd ⟨hlength, op, rest, hscript, Or.inr (Or.inl hrest)⟩ hmisread
      · refine ⟨op, ?_, hrest ▸ hscript⟩
        by_contra hother
        exact hmisread ⟨hlength, op, rest, hscript, Or.inr (Or.inr ⟨hrest, hother⟩)⟩
    · rintro ⟨hlength, hsolver⟩
      rcases solver_pubKeyHash_iff.mp hsolver with ⟨hash, -, hform⟩
      exact hnormal.mpr ⟨hlength, hash, _, hform, Or.inr (Or.inr rfl)⟩

/-- A push of 22 bytes with nothing behind it. -/
def pushToEnd : CScript := [0x76, 0xa9, 0x16] ++ List.replicate 22 0

theorem pushToEnd_isNormal :
    scanNormalPayment pushToEnd = some true ∧ isNormalPaymentScript pushToEnd = true ∧
      solver pushToEnd = none ∧ ¬ IsPayToPubKeyHash pushToEnd := by
  have hsolver : solver pushToEnd = none := by decide +kernel
  refine ⟨by decide +kernel, by decide +kernel, hsolver, ?_⟩
  rintro ⟨-, vSolutions, h⟩
  rw [hsolver] at h
  cases h

end Script
end Hbcur
