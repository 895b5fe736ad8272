import Hbcur.Primitives.Transaction
import Hbcur.Serialize.Integers
import Mathlib.Data.Finset.Basic
import Hbcur.Foundation.Tables

/-!
# Sporks

`spork.cpp`: the switches which the network's key sets by signed messages.  Hashing and the
check of a signature against the spork key are functions of the node.
-/

namespace Hbcur

open Foundation Serialize

structure CSporkMessage where
  vchSig : List UInt8
  nSporkID : Int
  nValue : Int
  nTimeSigned : Int
  deriving DecidableEq, Repr

/-- The sporks a node has seen, and for each number the one in force. -/
structure SporkState where
  mapSporks : StdMap UInt256 CSporkMessage := ∅
  mapSporksActive : StdMap Int CSporkMessage := ∅

structure SporkEnv where
  fLiteMode : Bool
  /-- Whether the active chain has a tip. -/
  hasTip : Bool
  /-- The hash of a number, a value and a time. -/
  hashSpork : Int -> Int -> Int -> UInt256
  verifyMessage : List UInt8 -> String -> Bool
  /-- Signing with `strMasterPrivKey`, if the node has it. -/
  signMessage : String -> Option (List UInt8)

namespace CSporkMessage

/-- The text that is signed. -/
def strMessage (spork : CSporkMessage) : String :=
  toString spork.nSporkID ++ toString spork.nValue ++ toString spork.nTimeSigned

def getHash (env : SporkEnv) (spork : CSporkMessage) : UInt256 :=
  env.hashSpork spork.nSporkID spork.nValue spork.nTimeSigned

end CSporkMessage

def SPORK_11_RESET_BUDGET : Int := 10010
def SPORK_12_RECONSIDER_BLOCKS : Int := 10011

/-- The values for sporks which have not been set, by their numbers. -/
def sporkDefaults : List (Int × Int) :=
  [(10001, 978307200), (10002, 1424217600), (10004, 1000), (10006, 978307200),
    (10007, 1519306890), (10008, 4070908800), (10009, 4070908800), (10010, 0), (10011, 0),
    (10012, 4070908800), (10013, 4070908800), (10014, 4070908800), (10015, 8000)]

/-- What a node does when a spork takes effect. -/
inductive SporkTask where
  | clearBudget
  | reprocessBlocks (nBlocks : Int)
  deriving DecidableEq, Repr

/-- What becomes of a message. -/
inductive SporkAnswer where
  | ignored
  | misbehaving (howmuch : Int)
  | relayed (tasks : List SporkTask)
  deriving DecidableEq, Repr

namespace SporkState

def executeSpork (nSporkID nValue : Int) : List SporkTask :=
  (if nSporkID = SPORK_11_RESET_BUDGET ∧ nValue = 1 then [SporkTask.clearBudget] else []) ++
    if nSporkID = SPORK_12_RECONSIDER_BLOCKS ∧ nValue > 0 then
      [SporkTask.reprocessBlocks nValue]
    else []

def checkSignature (env : SporkEnv) (spork : CSporkMessage) : Bool :=
  env.verifyMessage spork.vchSig spork.strMessage

/-- Whether a message is not later than the one in force. -/
def isOld (s : SporkState) (spork : CSporkMessage) : Bool :=
  match s.mapSporksActive.lookup spork.nSporkID with
  | none => false
  | some active => decide (active.nTimeSigned ≥ spork.nTimeSigned)

/-- Put a message into both maps. -/
def activate (env : SporkEnv) (s : SporkState) (spork : CSporkMessage) : SporkState where
  mapSporks := s.mapSporks.insert (spork.getHash env) spork
  mapSporksActive := s.mapSporksActive.insert spork.nSporkID spork

/-- A `spork` message. -/
def processSpork (env : SporkEnv) (s : SporkState) (spork : CSporkMessage) :
    SporkAnswer × SporkState :=
  if env.fLiteMode then (SporkAnswer.ignored, s)
  else if !env.hasTip then (SporkAnswer.ignored, s)
  else if s.isOld spork then (SporkAnswer.ignored, s)
  else if !checkSignature env spork then (SporkAnswer.misbehaving 100, s)
  else
    -- the value is passed on as an `int`
    (SporkAnswer.relayed (executeSpork spork.nSporkID (wrapInt32 spork.nValue)),
      s.activate env spork)

/-- A message which the node signs itself. -/
def signSpork (env : SporkEnv) (nSporkID nValue now : Int) : Option CSporkMessage :=
  let msg : CSporkMessage := { vchSig := [], nSporkID, nValue, nTimeSigned := now }
  match env.signMessage msg.strMessage with
  | none => none
  | some vchSig => some { msg with vchSig := vchSig }

/-- The node's own message takes effect whatever is in force. -/
def updateSpork (env : SporkEnv) (s : SporkState) (nSporkID nValue now : Int) :
    Bool × SporkState :=
  match signSpork env nSporkID nValue now with
  | none => (false, s)
  | some msg => (true, s.activate env msg)

def getSporkValue (s : SporkState) (nSporkID : Int) : Int :=
  match s.mapSporksActive.lookup nSporkID with
  | some active => active.nValue
  | none => (sporkDefaults.lookup nSporkID).getD (-1)

/-- Whether the time of a spork has passed; without a value it lies in the year 2099. -/
def isSporkActive (s : SporkState) (nSporkID now : Int) : Bool :=
  let r := s.getSporkValue nSporkID
  decide ((if r = -1 then 4070908800 else r) < now)

end SporkState

end Hbcur

/-!
# The text that is signed for a spork

`CheckSignature` and `Sign` of `spork.cpp` write the three numbers of a message one after the
other in decimal.
-/

namespace Hbcur
namespace CSporkMessage

open Foundation

/-- What a message says. -/
def triple (spork : CSporkMessage) : Int × Int × Int :=
  (spork.nSporkID, spork.nValue, spork.nTimeSigned)

/-- The signed text with the places where the numbers end. -/
def cut (spork : CSporkMessage) : Cut Char where
  first := decimal spork.nSporkID
  middle := decimal spork.nValue
  last := decimal spork.nTimeSigned

variable {spork other : CSporkMessage}

theorem joined_cut : spork.cut.joined = spork.strMessage.toList := by
  unfold strMessage
  rw [String.toList_append, String.toList_append]
  rfl

theorem strMessage_eq_iff :
    spork.strMessage = other.strMessage <-> spork.cut.joined = other.cut.joined := by
  rw [joined_cut, joined_cut, String.toList_inj]

theorem cut_eq_iff : spork.cut = other.cut <-> spork.triple = other.triple := by
  unfold cut triple
  rw [Cut.mk.injEq, decimal_inj, decimal_inj, decimal_inj, Prod.mk.injEq, Prod.mk.injEq]

/-- The texts of two different messages are different exactly when neither message is the other
with digits moved over the ends of its numbers. -/
theorem strMessage_ne_iff (spork other : CSporkMessage) :
    (spork.triple ≠ other.triple -> spork.strMessage ≠ other.strMessage) <->
      ¬ Cut.MovedOn spork.cut other.cut ∧ ¬ Cut.MovedOn other.cut spork.cut := by
  have hsplit := Cut.joined_eq_iff (p := spork.cut) (q := other.cut)
    (decimal_ne_nil spork.nValue) (decimal_ne_nil other.nValue)
  rw [Ne, Ne, strMessage_eq_iff, ← cut_eq_iff]
  constructor
  · intro h
    constructor
    · intro hmoved
      exact h hmoved.ne hmoved.joined_eq
    · intro hmoved
      exact h hmoved.ne.symm hmoved.joined_eq.symm
  · intro h hne hjoined
    rcases hsplit.mp hjoined with heq | hmoved | hmoved
    · exact hne heq
    · exact h.1 hmoved
    · exact h.2 hmoved

/-- Numbers and times of as many digits each keep different messages apart. -/
theorem strMessage_ne_of_length (hne : spork.triple ≠ other.triple)
    (hid : (decimal spork.nSporkID).length = (decimal other.nSporkID).length)
    (htime : (decimal spork.nTimeSigned).length = (decimal other.nTimeSigned).length) :
    spork.strMessage ≠ other.strMessage := by
  intro htext
  apply hne
  rw [← cut_eq_iff]
  exact Cut.eq_of_joined_eq_of_length (strMessage_eq_iff.mp htext) hid htime

/-!
# A signature for another time

The last digit of the value becomes the first one of the time, which is then later.
-/

namespace ReplayExample

def signed : CSporkMessage where
  vchSig := []
  nSporkID := 10007
  nValue := 12
  nTimeSigned := 1519306890

def replayed : CSporkMessage where
  vchSig := []
  nSporkID := 10007
  nValue := 1
  nTimeSigned := 21519306890

theorem same_text :
    ¬ forall spork other : CSporkMessage,
      spork.triple ≠ other.triple -> spork.strMessage ≠ other.strMessage := by
  intro h
  have hmoved : Cut.MovedOn replayed.cut signed.cut :=
    Cut.MovedOn.overlapping _ [] (decimal 1) ['2'] (decimal 1519306890) (List.cons_ne_nil _ _)
  exact h replayed signed (by decide) (strMessage_eq_iff.mpr hmoved.joined_eq)

end ReplayExample

end CSporkMessage
end Hbcur

/-!
# Sporks in any order

A node keeps the latest message for each spork.  Of two messages which were signed in the
same second it keeps the one that it has seen first.
-/

namespace Hbcur

open Foundation

namespace SporkState

/-- The sporks after several messages. -/
def receiveSporks (env : SporkEnv) (s : SporkState) (sporks : List CSporkMessage) : SporkState :=
  sporks.foldl (fun s spork => (s.processSpork env spork).2) s

/-- Whether a node takes part in sporks. -/
def listens (env : SporkEnv) : Bool :=
  !env.fLiteMode && env.hasTip

/-- The latest of several messages for a spork, by the time of signing. -/
abbrev IsLatestSpork (sporks : CSporkMessage -> Prop) :=
  IsLatest CSporkMessage.nSporkID CSporkMessage.nTimeSigned sporks

/-!
# What a node keeps
-/

theorem receiveSporks_deaf {env : SporkEnv} (h : listens env = false) (s : SporkState)
    (sporks : List CSporkMessage) : receiveSporks env s sporks = s := by
  have hone : forall spork, (s.processSpork env spork).2 = s := by
    intro spork
    unfold listens at h
    unfold processSpork
    cases hlite : env.fLiteMode with
    | true => rfl
    | false =>
        rw [hlite, Bool.not_false, Bool.true_and] at h
        rw [h]
        rfl
  unfold receiveSporks
  induction sporks with
  | nil => rfl
  | cons spork rest ih => rw [List.foldl_cons, hone, ih]

/-- A signed message is kept if it is the latest so far. -/
theorem mapSporksActive_processSpork {env : SporkEnv} (hlistens : listens env = true)
    (s : SporkState) {spork : CSporkMessage} (hsigned : checkSignature env spork = true) :
    (s.processSpork env spork).2.mapSporksActive =
      keepLatest CSporkMessage.nSporkID CSporkMessage.nTimeSigned s.mapSporksActive spork := by
  unfold listens at hlistens
  rw [Bool.and_eq_true, Bool.not_eq_true'] at hlistens
  unfold processSpork isOld keepLatest
  rw [hlistens.1, hlistens.2, hsigned]
  simp only [Bool.false_eq_true, if_false, Bool.not_true]
  cases s.mapSporksActive.lookup spork.nSporkID with
  | none => rfl
  | some active =>
      simp only [decide_eq_true_iff]
      split_ifs with hold
      · rfl
      · rfl

theorem mapSporksActive_receiveSporks {env : SporkEnv} (hlistens : listens env = true)
    (sporks : List CSporkMessage)
    (hsigned : forall spork, spork ∈ sporks -> checkSignature env spork = true)
    (s : SporkState) :
    (receiveSporks env s sporks).mapSporksActive =
      sporks.foldl (keepLatest CSporkMessage.nSporkID CSporkMessage.nTimeSigned)
        s.mapSporksActive := by
  induction sporks generalizing s with
  | nil => rfl
  | cons spork rest ih =>
      have hrest := ih (fun other hmem => hsigned other (List.mem_cons_of_mem spork hmem))
        (s.processSpork env spork).2
      rw [mapSporksActive_processSpork hlistens s (hsigned spork List.mem_cons_self)] at hrest
      exact hrest

/-!
# Whether the order matters
-/

/-- The order of the messages, and how often each comes, do not matter, and the latest wins. -/
def Converges (env : SporkEnv) (sporks : Finset CSporkMessage) : Prop :=
  (forall order order' : List CSporkMessage, order.toFinset = sporks ->
    order'.toFinset = sporks -> forall nSporkID,
      (receiveSporks env {} order).mapSporksActive.lookup nSporkID =
        (receiveSporks env {} order').mapSporksActive.lookup nSporkID) ∧
    forall order : List CSporkMessage, order.toFinset = sporks -> forall nSporkID,
      IsLatestSpork (fun spork => spork ∈ sporks) nSporkID
        ((receiveSporks env {} order).mapSporksActive.lookup nSporkID)

/-- The node listens, and no other message for a spork was signed when its latest one was. -/
def Settled (env : SporkEnv) (sporks : Finset CSporkMessage) : Prop :=
  forall spork, spork ∈ sporks ->
    (forall other, other ∈ sporks -> other.nSporkID = spork.nSporkID ->
      other.nTimeSigned ≤ spork.nTimeSigned) ->
    listens env = true ∧ forall other, other ∈ sporks -> other.nSporkID = spork.nSporkID ->
      other.nTimeSigned = spork.nTimeSigned -> other = spork

section Orders

variable {env : SporkEnv} {sporks : Finset CSporkMessage}
  (hsigned : forall spork, spork ∈ sporks -> checkSignature env spork = true)
include hsigned

theorem isLatest_receiveSporks (hlistens : listens env = true) {order : List CSporkMessage}
    (horder : order.toFinset = sporks) (nSporkID : Int) :
    IsLatestSpork (fun spork => spork ∈ sporks) nSporkID
      ((receiveSporks env {} order).mapSporksActive.lookup nSporkID) := by
  have hmem : forall spork, spork ∈ order <-> spork ∈ sporks := by
    intro spork
    rw [← horder, List.mem_toFinset]
  rw [mapSporksActive_receiveSporks hlistens order
    (fun spork h => hsigned spork ((hmem spork).mp h))]
  exact (isLatest_run _ _ order nSporkID).congr _ _ hmem

/-- A message which is the latest wins if it comes first. -/
theorem receiveSporks_first (hlistens : listens env = true) {spork : CSporkMessage}
    (hmem : spork ∈ sporks)
    (hlatest : forall other, other ∈ sporks -> other.nSporkID = spork.nSporkID ->
      other.nTimeSigned ≤ spork.nTimeSigned) :
    (receiveSporks env {} (spork :: sporks.toList)).mapSporksActive.lookup spork.nSporkID =
      some spork := by
  have hall : forall other, other ∈ spork :: sporks.toList -> other ∈ sporks := by
    intro other hother
    rcases List.mem_cons.mp hother with rfl | hrest
    · exact hmem
    · exact Finset.mem_toList.mp hrest
  rw [mapSporksActive_receiveSporks hlistens _ (fun other h => hsigned other (hall other h))]
  refine lookup_run_of_first _ _ sporks.toList ?_ ?_
  · exact AList.lookup_insert _
  · intro other hother
    exact hlatest other (Finset.mem_toList.mp hother)

end Orders

theorem toFinset_cons_toList {sporks : Finset CSporkMessage} {spork : CSporkMessage}
    (h : spork ∈ sporks) : (spork :: sporks.toList).toFinset = sporks := by
  rw [List.toFinset_cons, Finset.toList_toFinset, Finset.insert_eq_of_mem h]

section Settling

variable {env : SporkEnv} {sporks : Finset CSporkMessage}
  (hsigned : forall spork, spork ∈ sporks -> checkSignature env spork = true)
include hsigned

theorem settled_of_converges (h : Converges env sporks) : Settled env sporks := by
  intro spork hmem hlatest
  have hlistens : listens env = true := by
    by_contra hdeaf
    rw [Bool.not_eq_true] at hdeaf
    have hkept := h.2 sporks.toList (Finset.toList_toFinset sporks) spork.nSporkID
    rw [receiveSporks_deaf hdeaf] at hkept
    rcases hkept.latest spork hmem rfl with ⟨_, hnone, _⟩
    cases hnone
  constructor
  · exact hlistens
  · intro other hother hid htime
    have hlatest' : forall third, third ∈ sporks -> third.nSporkID = other.nSporkID ->
        third.nTimeSigned ≤ other.nTimeSigned := by
      intro third hthird hthirdId
      rw [htime]
      exact hlatest third hthird (hthirdId.trans hid)
    have hsame := h.1 _ _ (toFinset_cons_toList hother) (toFinset_cons_toList hmem) spork.nSporkID
    rw [receiveSporks_first hsigned hlistens hmem hlatest, ← hid,
      receiveSporks_first hsigned hlistens hother hlatest', Option.some.injEq] at hsame
    exact hsame

omit hsigned in
/-- A node which does not listen agrees only about no messages at all. -/
theorem not_mem_of_settled (h : Settled env sporks) (hlistens : listens env = false)
    (spork : CSporkMessage) : spork ∉ sporks := by
  intro hmem
  have hlatest := isLatest_run CSporkMessage.nSporkID CSporkMessage.nTimeSigned
    sporks.toList spork.nSporkID
  rcases hlatest.latest spork (Finset.mem_toList.mpr hmem) rfl with ⟨last, hlast, _⟩
  rcases hlatest.mem last hlast with ⟨hin, hid⟩
  have hgreatest : forall other, other ∈ sporks -> other.nSporkID = last.nSporkID ->
      other.nTimeSigned ≤ last.nTimeSigned := by
    intro other hother hotherId
    rcases hlatest.latest other (Finset.mem_toList.mpr hother) (hotherId.trans hid) with
      ⟨_, heq, hle⟩
    rw [hlast] at heq
    cases heq
    exact hle
  have hsettled := h last (Finset.mem_toList.mp hin) hgreatest
  rw [hlistens] at hsettled
  cases hsettled.1

theorem converges_of_settled (h : Settled env sporks) : Converges env sporks := by
  cases hlistens : listens env with
  | true =>
      constructor
      · intro order order' horder horder' nSporkID
        apply (isLatest_receiveSporks hsigned hlistens horder nSporkID).unique _ _
          (isLatest_receiveSporks hsigned hlistens horder' nSporkID)
        intro a b ha hb haId hbId htime hlatest
        have hgreatest : forall other, other ∈ sporks -> other.nSporkID = a.nSporkID ->
            other.nTimeSigned ≤ a.nTimeSigned :=
          fun other hother hid => hlatest other hother (hid.trans haId)
        exact ((h a ha hgreatest).2 b hb (hbId.trans haId.symm) htime.symm).symm
      · exact fun order horder nSporkID =>
          isLatest_receiveSporks hsigned hlistens horder nSporkID
  | false =>
      have hempty := not_mem_of_settled h hlistens
      constructor
      · intro order order' _ _ nSporkID
        rw [receiveSporks_deaf hlistens, receiveSporks_deaf hlistens]
      · intro order _ nSporkID
        rw [receiveSporks_deaf hlistens]
        constructor
        · intro spork heq
          cases heq
        · exact fun spork hmem _ => absurd hmem (hempty spork)

end Settling

theorem converges_iff_settled (env : SporkEnv) (sporks : Finset CSporkMessage)
    (hsigned : forall spork, spork ∈ sporks -> checkSignature env spork = true) :
    Converges env sporks <-> Settled env sporks := by
  constructor
  · exact settled_of_converges hsigned
  · exact converges_of_settled hsigned

/-- A node whose key signs everything alike. -/
def sporkNode : SporkEnv where
  fLiteMode := false
  hasTip := true
  hashSpork := fun nSporkID nValue nTimeSigned => BitVec.ofInt 256 (nSporkID + nValue + nTimeSigned)
  verifyMessage := fun vchSig _ => vchSig == [1]
  signMessage := fun _ => some [1]

/-- The payment of masternodes is enforced from some time on. -/
def enforcedFrom (nValue nTimeSigned : Int) : CSporkMessage :=
  { vchSig := [1], nSporkID := 10007, nValue, nTimeSigned }

theorem later_spork_converges :
    Converges sporkNode {enforcedFrom 0 1000, enforcedFrom 4070908800 1001} := by
  refine (converges_iff_settled _ _ ?_).mpr ?_
  · decide
  · unfold Settled
    decide

/-- Both messages are signed by the key in one second, and one of them turns the spork off. -/
theorem same_second_disagrees :
    (forall nValue, signSpork sporkNode 10007 nValue 1000 = some (enforcedFrom nValue 1000)) ∧
      ¬ Converges sporkNode {enforcedFrom 0 1000, enforcedFrom 4070908800 1000} := by
  constructor
  · exact fun _ => rfl
  · intro h
    have hsame := h.1 [enforcedFrom 0 1000, enforcedFrom 4070908800 1000]
      [enforcedFrom 4070908800 1000, enforcedFrom 0 1000] (by decide) (by decide) 10007
    exact absurd hsame (by decide)

end SporkState

end Hbcur
