import Mathlib.Data.Finset.Max
import Hbcur.Foundation.Run
import Hbcur.Wallet.Destinations

/-!
# The signature cache

`script/sigcache.cpp`: the threads which check scripts share a set of signatures which have been
found valid.  A thread looks into the set, checks the signature and puts it into the set in
three steps, between which the other threads take theirs.  The checker of one transaction stands
for all of them: what `VerifySignature` does depends on the curve alone.
-/

namespace Hbcur
namespace Script

open Foundation

structure SigData where
  hash : UInt256
  vchSig : List UInt8
  pubKey : CPubKey

namespace CSignatureCache

section Cache

variable [LinearOrder SigData]

/-- What `lower_bound` finds, or else the first element, is erased. -/
def evict (setValid : Finset SigData) (drawn : SigData) : Finset SigData :=
  match (setValid.filter fun k => drawn ≤ k).min with
  | some it => setValid.erase it
  | none =>
      match setValid.min with
      | some it => setValid.erase it
      | none => setValid

theorem card_evict {setValid : Finset SigData} (h : setValid.Nonempty) (drawn : SigData) :
    (evict setValid drawn).card + 1 = setValid.card := by
  unfold evict
  split
  · rename_i it hit
    have hmem := Finset.mem_of_min hit
    exact Finset.card_erase_add_one (Finset.mem_of_mem_filter it hmem)
  · split
    · rename_i it hit
      exact Finset.card_erase_add_one (Finset.mem_of_min hit)
    · rename_i hnone
      rw [Finset.min_eq_top.mp hnone] at h
      exact absurd h Finset.not_nonempty_empty

theorem evict_subset (setValid : Finset SigData) (drawn : SigData) :
    evict setValid drawn ⊆ setValid := by
  unfold evict
  split
  · exact Finset.erase_subset _ _
  · split
    · exact Finset.erase_subset _ _
    · exact Finset.Subset.refl _

/-- The loop of `Set`, with the elements which are drawn in turn. -/
def evictLoop (nMaxCacheSize : Nat) (draws : Nat -> SigData) (round : Nat)
    (setValid : Finset SigData) : Finset SigData :=
  if nMaxCacheSize < setValid.card then
    evictLoop nMaxCacheSize draws (round + 1) (evict setValid (draws round))
  else setValid
termination_by setValid.card
decreasing_by
  rename_i hsize
  have hcard := card_evict (Finset.card_pos.mp (Nat.zero_lt_of_lt hsize)) (draws round)
  omega

def get (setValid : Finset SigData) (k : SigData) : Bool :=
  decide (k ∈ setValid)

def set (nMaxCacheSize : Int) (draws : Nat -> SigData) (setValid : Finset SigData) (k : SigData) :
    Finset SigData :=
  if nMaxCacheSize ≤ 0 then setValid
  else insert k (evictLoop nMaxCacheSize.toNat draws 0 setValid)

theorem evictLoop_spec (nMaxCacheSize : Nat) (draws : Nat -> SigData) (round : Nat)
    (setValid : Finset SigData) :
    evictLoop nMaxCacheSize draws round setValid ⊆ setValid ∧
      (evictLoop nMaxCacheSize draws round setValid).card ≤ nMaxCacheSize := by
  induction round, setValid using evictLoop.induct nMaxCacheSize draws with
  | case1 round setValid hsize ih =>
      rw [evictLoop, if_pos hsize]
      exact ⟨ih.1.trans (evict_subset setValid (draws round)), ih.2⟩
  | case2 round setValid hsize =>
      rw [evictLoop, if_neg hsize]
      exact ⟨Finset.Subset.refl _, Nat.not_lt.mp hsize⟩

end Cache

end CSignatureCache

/-!
# The threads
-/

/-- Where a thread is in `CachingTransactionSignatureChecker::VerifySignature`. -/
inductive Phase where
  | idle
  | missed (k : SigData) (store : Bool)
  | verified (k : SigData)

/-- The cache with the threads and the answers which they have been given. -/
structure Checking where
  setValid : Finset SigData := ∅
  threads : Nat -> Phase := fun _ => Phase.idle
  answers : List (SigData × Bool) := []

inductive Checks where
  | get (thread : Nat) (k : SigData) (store : Bool)
  | verify (thread : Nat)
  | set (thread : Nat) (draws : Nat -> SigData)

namespace Checking

variable [LinearOrder SigData] (checker : TransactionSignatureChecker) (nMaxCacheSize : Int)

def goes (s : Checking) (thread : Nat) (phase : Phase) : Checking :=
  { s with threads := Function.update s.threads thread phase }

def answer (s : Checking) (thread : Nat) (k : SigData) (result : Bool) : Checking :=
  { s.goes thread Phase.idle with answers := s.answers ++ [(k, result)] }

/-- A step of a thread, which does nothing where the thread is somewhere else. -/
def next (s : Checking) : Checks -> Checking
  | Checks.get thread k store =>
      match s.threads thread with
      | Phase.idle =>
          if CSignatureCache.get s.setValid k then s.answer thread k true
          else s.goes thread (Phase.missed k store)
      | _ => s
  | Checks.verify thread =>
      match s.threads thread with
      | Phase.missed k store =>
          if !checker.verifySignature k.vchSig k.pubKey k.hash then s.answer thread k false
          else if store then s.goes thread (Phase.verified k)
          else s.answer thread k true
      | _ => s
  | Checks.set thread draws =>
      match s.threads thread with
      | Phase.verified k =>
          { s.answer thread k true with
            setValid := CSignatureCache.set nMaxCacheSize draws s.setValid k }
      | _ => s

/-- The cache holds valid signatures, and the answers are those without a cache. -/
structure Agrees (s : Checking) : Prop where
  answers : forall k result, (k, result) ∈ s.answers ->
    result = checker.verifySignature k.vchSig k.pubKey k.hash
  valid : forall k, k ∈ s.setValid -> checker.verifySignature k.vchSig k.pubKey k.hash = true
  verified : forall thread k, s.threads thread = Phase.verified k ->
    checker.verifySignature k.vchSig k.pubKey k.hash = true
  size : s.setValid = ∅ ∨ 0 < nMaxCacheSize ∧ s.setValid.card ≤ nMaxCacheSize + 1

variable {checker} {nMaxCacheSize} {s : Checking}

omit [LinearOrder SigData] in
theorem Agrees.goes (h : s.Agrees checker nMaxCacheSize) (thread : Nat) {phase : Phase}
    (hphase : forall k, phase = Phase.verified k ->
      checker.verifySignature k.vchSig k.pubKey k.hash = true) :
    (s.goes thread phase).Agrees checker nMaxCacheSize := by
  refine ⟨h.answers, h.valid, ?_, h.size⟩
  intro other k hk
  change Function.update s.threads thread phase other = _ at hk
  rcases eq_or_ne other thread with rfl | hne
  · rw [Function.update_self] at hk
    exact hphase k hk
  · rw [Function.update_of_ne hne] at hk
    exact h.verified other k hk

omit [LinearOrder SigData] in
theorem Agrees.answer (h : s.Agrees checker nMaxCacheSize) (thread : Nat) {k : SigData}
    {result : Bool} (hresult : result = checker.verifySignature k.vchSig k.pubKey k.hash) :
    (s.answer thread k result).Agrees checker nMaxCacheSize := by
  have hidle : (s.goes thread Phase.idle).Agrees checker nMaxCacheSize :=
    h.goes thread fun k hk => by cases hk
  refine ⟨?_, hidle.valid, hidle.verified, hidle.size⟩
  intro other found hmem
  rcases List.mem_append.mp hmem with hold | hnew
  · exact h.answers other found hold
  · cases List.mem_singleton.mp hnew
    exact hresult

theorem Agrees.set (h : s.Agrees checker nMaxCacheSize) (draws : Nat -> SigData) {k : SigData}
    (hk : checker.verifySignature k.vchSig k.pubKey k.hash = true) :
    Agrees checker nMaxCacheSize
      { s with setValid := CSignatureCache.set nMaxCacheSize draws s.setValid k } := by
  unfold CSignatureCache.set
  split_ifs with hsize
  · exact h
  · rcases CSignatureCache.evictLoop_spec nMaxCacheSize.toNat draws 0 s.setValid with
      ⟨hsub, hcard⟩
    refine ⟨h.answers, ?_, h.verified, Or.inr ⟨not_le.mp hsize, ?_⟩⟩
    · intro other hmem
      rcases Finset.mem_insert.mp hmem with rfl | hold
      · exact hk
      · exact h.valid other (hsub hold)
    · have hinsert := Finset.card_insert_le k
        (CSignatureCache.evictLoop nMaxCacheSize.toNat draws 0 s.setValid)
      simp only
      omega

theorem Agrees.next (h : s.Agrees checker nMaxCacheSize) (step : Checks) :
    (s.next checker nMaxCacheSize step).Agrees checker nMaxCacheSize := by
  cases step with
  | get thread k store =>
      unfold Checking.next
      simp only
      split
      · split_ifs with hfound
        · exact h.answer thread (h.valid k (of_decide_eq_true hfound)).symm
        · exact h.goes thread fun k hk => by cases hk
      · exact h
  | verify thread =>
      unfold Checking.next
      simp only
      split
      · rename_i k store hphase
        cases hgood : checker.verifySignature k.vchSig k.pubKey k.hash with
        | false => exact h.answer thread hgood.symm
        | true =>
            cases store with
            | false => exact h.answer thread hgood.symm
            | true =>
                apply h.goes thread
                intro other heq
                cases heq
                exact hgood
      · exact h
  | set thread draws =>
      unfold Checking.next
      simp only
      split
      · rename_i k hphase
        have hk := h.verified thread k hphase
        exact (h.answer thread hk.symm).set draws hk
      · exact h

/--
However the steps of the threads and the evictions are interleaved, every signature is accepted or
refused as it would be without the cache, which never holds more than one entry beyond its limit.
-/
theorem agrees_along (checker : TransactionSignatureChecker) (nMaxCacheSize : Int)
    (steps : List Checks) :
    StatesSatisfy (next checker nMaxCacheSize) (Agrees checker nMaxCacheSize) {} steps := by
  have hnext : forall (s : Checking) step, s.Agrees checker nMaxCacheSize ->
      (s.next checker nMaxCacheSize step).Agrees checker nMaxCacheSize :=
    fun _ step h => h.next step
  apply statesSatisfy_of_invariant hnext steps {}
  refine ⟨?_, ?_, ?_, Or.inl rfl⟩
  · intro k result hmem
    cases hmem
  · intro k hmem
    cases hmem
  · intro thread k hk
    cases hk

end Checking

end Script
end Hbcur
