import Hbcur.Foundation.Containers
import Hbcur.Foundation.Run
import Hbcur.Foundation.StdMap
import Hbcur.Net.Address

/-!
# Blocks in flight

The blocks asked for from peers and the counters over them: `InitializeNode`, `FinalizeNode`,
`MarkBlockAsReceived` and `MarkBlockAsInFlight` of `main.cpp`.
-/

namespace Hbcur
namespace Net

open Foundation

structure QueuedBlock where
  hash : UInt256
  pindex : Option Nat
  nTime : Int
  nValidatedQueuedBefore : Int
  fValidatedHeaders : Bool

structure CNodeState where
  name : String
  address : CService
  fCurrentlyConnected : Bool := false
  nMisbehavior : Int := 0
  fSyncStarted : Bool := false
  nStallingSince : Int := 0
  vBlocksInFlight : LinkedList QueuedBlock := LinkedList.empty
  nBlocksInFlight : Int := 0
  fPreferredDownload : Bool := false

structure NodeStates where
  mapNodeState : StdMap Int CNodeState := ∅
  /-- For each block the node and the iterator into its list. -/
  mapBlocksInFlight : StdMap UInt256 (Int × Nat) := ∅
  nQueuedValidatedHeaders : Int := 0
  nSyncStarted : Int := 0
  nPreferredDownload : Int := 0

/-- What `FinalizeNode` does elsewhere. -/
inductive FinalizeTask where
  | addressCurrentlyConnected (address : CService)
  | eraseOrphansFor (nodeid : Int)

namespace NodeStates

def initializeNode (s : NodeStates) (nodeid : Int) (addrName : String) (addr : CService) :
    NodeStates :=
  { s with
    mapNodeState := s.mapNodeState.insert nodeid
      (match s.mapNodeState.lookup nodeid with
        | none => { name := addrName, address := addr }
        | some state => { state with name := addrName, address := addr }) }

/-- Without a state for the node a null pointer is followed. -/
def finalizeNode (s : NodeStates) (nodeid : Int) : Option (List FinalizeTask × NodeStates) :=
  match s.mapNodeState.lookup nodeid with
  | none => none
  | some state =>
      some ((if state.nMisbehavior = 0 ∧ state.fCurrentlyConnected = true then
            [.addressCurrentlyConnected state.address] else []) ++ [.eraseOrphansFor nodeid],
        { s with
          mapNodeState := s.mapNodeState.erase nodeid
          mapBlocksInFlight := StdMap.eraseAll s.mapBlocksInFlight
            (state.vBlocksInFlight.toList.map QueuedBlock.hash)
          nSyncStarted := s.nSyncStarted - (if state.fSyncStarted then 1 else 0)
          nPreferredDownload :=
            s.nPreferredDownload - (if state.fPreferredDownload then 1 else 0) })

/-- An iterator which points at nothing in the node's list is followed into the void. -/
def markBlockAsReceived (s : NodeStates) (hash : UInt256) : Option NodeStates :=
  match s.mapBlocksInFlight.lookup hash with
  | none => some s
  | some (nodeid, it) =>
      match s.mapNodeState.lookup nodeid with
      | none => none
      | some state =>
          match state.vBlocksInFlight.deref it with
          | none => none
          | some entry =>
              some { s with
                nQueuedValidatedHeaders :=
                  s.nQueuedValidatedHeaders - (if entry.fValidatedHeaders then 1 else 0)
                mapNodeState := s.mapNodeState.insert nodeid
                  { state with
                    vBlocksInFlight := state.vBlocksInFlight.erase it
                    nBlocksInFlight := state.nBlocksInFlight - 1
                    nStallingSince := 0 }
                mapBlocksInFlight := s.mapBlocksInFlight.erase hash }

/-- The new entry at the end of the node's list.  The assertion fails without a state. -/
def enqueue (s : NodeStates) (nodeid : Int) (hash : UInt256) (pindex : Option Nat)
    (nTime : Int) : Option NodeStates :=
  match s.mapNodeState.lookup nodeid with
  | none => none
  | some state =>
      let newentry : QueuedBlock :=
        { hash := hash
          pindex := pindex
          nTime := nTime
          nValidatedQueuedBefore := s.nQueuedValidatedHeaders
          fValidatedHeaders := pindex.isSome }
      some { s with
        nQueuedValidatedHeaders :=
          s.nQueuedValidatedHeaders + (if newentry.fValidatedHeaders then 1 else 0)
        mapNodeState := s.mapNodeState.insert nodeid
          { state with
            vBlocksInFlight := (state.vBlocksInFlight.pushBack newentry).2
            nBlocksInFlight := state.nBlocksInFlight + 1 }
        mapBlocksInFlight := s.mapBlocksInFlight.insert hash
          (nodeid, (state.vBlocksInFlight.pushBack newentry).1) }

def markBlockAsInFlight (s : NodeStates) (nodeid : Int) (hash : UInt256) (pindex : Option Nat)
    (nTime : Int) : Option NodeStates :=
  if StdMap.contains s.mapNodeState nodeid then
    -- make sure it's not listed somewhere already
    match s.markBlockAsReceived hash with
    | none => none
    | some s' => s'.enqueue nodeid hash pindex nTime
  else none

end NodeStates

inductive NodeCall where
  | initializeNode (nodeid : Int) (addrName : String) (addr : CService)
  | finalizeNode (nodeid : Int)
  | markBlockAsInFlight (nodeid : Int) (hash : UInt256) (pindex : Option Nat) (nTime : Int)
  | markBlockAsReceived (hash : UInt256)

namespace NodeStates

/-- One call, if the program survives it. -/
def step (s : NodeStates) : NodeCall -> Option NodeStates
  | .initializeNode nodeid addrName addr => some (s.initializeNode nodeid addrName addr)
  | .finalizeNode nodeid => (s.finalizeNode nodeid).map Prod.snd
  | .markBlockAsInFlight nodeid hash pindex nTime => s.markBlockAsInFlight nodeid hash pindex nTime
  | .markBlockAsReceived hash => s.markBlockAsReceived hash

/-!
# What the books should say
-/

/-- The block which stands at a position of a node's list. -/
def queuedAt (s : NodeStates) (position : Int × Nat) : Option QueuedBlock :=
  (s.mapNodeState.lookup position.1).bind fun state => state.vBlocksInFlight.deref position.2

/-- The blocks with validated headers in the list of one node. -/
def validated (state : CNodeState) : Nat :=
  state.vBlocksInFlight.toList.countP QueuedBlock.fValidatedHeaders

def validatedInFlight (s : NodeStates) : Nat :=
  StdMap.sumValues s.mapNodeState validated

/-- The lists are counted, and the map has one entry for each block of them, which says where it
stands. -/
structure Listed (s : NodeStates) : Prop where
  counted : forall nodeid state, s.mapNodeState.lookup nodeid = some state ->
    state.nBlocksInFlight = state.vBlocksInFlight.size
  indexed : PointsAt (fun hash => s.mapBlocksInFlight.lookup hash)
    fun position => (s.queuedAt position).map QueuedBlock.hash

structure Accounted (s : NodeStates) : Prop extends Listed s where
  total : s.nQueuedValidatedHeaders = s.validatedInFlight

/-- Blocks which the counter has lost sight of. -/
def drift (s : NodeStates) : Int := s.nQueuedValidatedHeaders - s.validatedInFlight

/-- The blocks with validated headers which a call drops with the list of a node. -/
def dropped (s : NodeStates) : NodeCall -> Nat
  | .finalizeNode nodeid => ((s.mapNodeState.lookup nodeid).map validated).getD 0
  | _ => 0

variable {s s' : NodeStates} {nodeid : Int} {state state' : CNodeState}

theorem validated_empty (h : state.vBlocksInFlight = LinkedList.empty) : validated state = 0 := by
  unfold validated
  rw [h]
  rfl

/-!
# Another state of one node
-/

theorem queuedAt_of_insert (hmap : s'.mapNodeState = s.mapNodeState.insert nodeid state')
    (position : Int × Nat) :
    s'.queuedAt position =
      if position.1 = nodeid then state'.vBlocksInFlight.deref position.2
      else s.queuedAt position := by
  unfold queuedAt
  rw [hmap, StdMap.lookup_insert_eq]
  split <;> rfl

theorem counted_of_insert (h : s.Listed)
    (hmap : s'.mapNodeState = s.mapNodeState.insert nodeid state')
    (hstate : state'.nBlocksInFlight = state'.vBlocksInFlight.size) (nodeid' : Int)
    (state'' : CNodeState) (hlookup : s'.mapNodeState.lookup nodeid' = some state'') :
    state''.nBlocksInFlight = state''.vBlocksInFlight.size := by
  rw [hmap, StdMap.lookup_insert_eq] at hlookup
  split at hlookup
  · cases hlookup
    exact hstate
  · exact h.counted nodeid' state'' hlookup

theorem validatedInFlight_of_insert
    (hmap : s'.mapNodeState = s.mapNodeState.insert nodeid state')
    (hstate : s.mapNodeState.lookup nodeid = some state) :
    s'.validatedInFlight + validated state = s.validatedInFlight + validated state' := by
  unfold validatedInFlight
  rw [hmap]
  exact StdMap.sumValues_insert _ _ _ _ hstate

/-- A node whose list stays as it is, or comes empty. -/
theorem listed_of_same_list (h : s.Listed)
    (hmap : s'.mapNodeState = s.mapNodeState.insert nodeid state')
    (hblocks : s'.mapBlocksInFlight = s.mapBlocksInFlight)
    (hlist : forall it, state'.vBlocksInFlight.deref it = s.queuedAt (nodeid, it))
    (hcount : state'.nBlocksInFlight = state'.vBlocksInFlight.size) : s'.Listed := by
  constructor
  · exact counted_of_insert h hmap hcount
  · have hqueued : forall position, s'.queuedAt position = s.queuedAt position := by
      intro position
      rw [queuedAt_of_insert hmap]
      split_ifs with hnode
      · rw [hlist, ← hnode]
      · rfl
    intro hash position
    change s'.mapBlocksInFlight.lookup hash = some position <->
      (s'.queuedAt position).map QueuedBlock.hash = some hash
    rw [hblocks, hqueued]
    exact h.indexed hash position

/-!
# Each of the calls
-/

theorem initializeNode_spec (h : s.Listed) (nodeid : Int) (addrName : String) (addr : CService) :
    (s.initializeNode nodeid addrName addr).Listed ∧
      (s.initializeNode nodeid addrName addr).drift = s.drift := by
  cases hlookup : s.mapNodeState.lookup nodeid with
  | none =>
      have hmap : (s.initializeNode nodeid addrName addr).mapNodeState =
          s.mapNodeState.insert nodeid { name := addrName, address := addr } := by
        unfold initializeNode
        rw [hlookup]
      constructor
      · apply listed_of_same_list h hmap rfl
        · intro it
          unfold queuedAt
          rw [hlookup]
          rfl
        · rfl
      · have hsum : (s.initializeNode nodeid addrName addr).validatedInFlight =
            s.validatedInFlight := by
          unfold validatedInFlight
          rw [hmap, StdMap.sumValues_insert_new _ _ _ _
            ((StdMap.contains_eq_false_iff _ _).mpr hlookup), validated_empty rfl, Nat.add_zero]
        unfold drift
        rw [hsum]
        rfl
  | some state =>
      have hmap : (s.initializeNode nodeid addrName addr).mapNodeState =
          s.mapNodeState.insert nodeid { state with name := addrName, address := addr } := by
        unfold initializeNode
        rw [hlookup]
      constructor
      · apply listed_of_same_list h hmap rfl
        · intro it
          unfold queuedAt
          rw [hlookup]
          rfl
        · exact h.counted nodeid state hlookup
      · have hsum := validatedInFlight_of_insert hmap hlookup
        have hsame : validated { state with name := addrName, address := addr } =
            validated state := rfl
        have hqueued : (s.initializeNode nodeid addrName addr).nQueuedValidatedHeaders =
            s.nQueuedValidatedHeaders := rfl
        unfold drift
        omega

theorem finalizeNode_spec (h : s.Listed) (hstate : s.mapNodeState.lookup nodeid = some state)
    {tasks : List FinalizeTask} (hfinal : s.finalizeNode nodeid = some (tasks, s')) :
    s'.Listed ∧ s'.drift = s.drift + validated state := by
  unfold finalizeNode at hfinal
  rw [hstate] at hfinal
  cases hfinal
  constructor
  · constructor
    · intro nodeid' state' hlookup
      change (s.mapNodeState.erase nodeid).lookup nodeid' = some state' at hlookup
      rw [StdMap.lookup_erase_eq] at hlookup
      split at hlookup
      · cases hlookup
      · exact h.counted nodeid' state' hlookup
    · -- the hashes of its list are those which the map has for the node
      apply h.indexed.remove (state.vBlocksInFlight.toList.map QueuedBlock.hash)
        fun position => position.1 = nodeid
      · intro hash
        rw [List.mem_map]
        constructor
        · intro hin
          rcases hin with ⟨entry, hentry, hhash⟩
          rcases LinkedList.mem_toList_iff.mp hentry with ⟨it, hit⟩
          exists (nodeid, it)
          constructor
          · rfl
          · unfold queuedAt
            rw [hstate, Option.bind_some, hit, Option.map_some, hhash]
        · intro hat
          rcases hat with ⟨position, hnode, hat⟩
          unfold queuedAt at hat
          rw [hnode, hstate, Option.bind_some] at hat
          rcases Option.map_eq_some_iff.mp hat with ⟨entry, hentry, hhash⟩
          exact ⟨entry, LinkedList.mem_toList_iff.mpr ⟨position.2, hentry⟩, hhash⟩
      · intro hash
        exact StdMap.lookup_eraseAll _ _ _
      · intro position
        unfold queuedAt
        change (((s.mapNodeState.erase nodeid).lookup position.1).bind _).map _ = _
        rw [StdMap.lookup_erase_eq]
        split <;> rfl
  · have hsum := StdMap.sumValues_erase s.mapNodeState nodeid state validated hstate
    unfold drift validatedInFlight
    change s.nQueuedValidatedHeaders -
        ((StdMap.sumValues (s.mapNodeState.erase nodeid) validated : Nat) : Int) = _
    omega

/-- The books point at the block that has come, if it was asked for. -/
theorem exists_entry (h : s.Listed) {hash : UInt256} {it : Nat}
    (hlookup : s.mapBlocksInFlight.lookup hash = some (nodeid, it)) :
    exists state entry, s.mapNodeState.lookup nodeid = some state ∧
      state.vBlocksInFlight.deref it = some entry := by
  have hat := (h.indexed hash (nodeid, it)).mp hlookup
  rcases Option.map_eq_some_iff.mp hat with ⟨entry, hqueued, _⟩
  rcases Option.bind_eq_some_iff.mp hqueued with ⟨state, hstate, hentry⟩
  exact ⟨state, entry, hstate, hentry⟩

/-- The entry of a block is taken out of the list and out of the map. -/
theorem listed_of_taken (h : s.Listed) {hash : UInt256} {it : Nat} {entry : QueuedBlock}
    (hlookup : s.mapBlocksInFlight.lookup hash = some (nodeid, it))
    (hstate : s.mapNodeState.lookup nodeid = some state)
    (hentry : state.vBlocksInFlight.deref it = some entry)
    (hmap : s'.mapNodeState = s.mapNodeState.insert nodeid state')
    (hlist : state'.vBlocksInFlight = state.vBlocksInFlight.erase it)
    (hcount : state'.nBlocksInFlight = state.nBlocksInFlight - 1)
    (hblocks : s'.mapBlocksInFlight = s.mapBlocksInFlight.erase hash) : s'.Listed := by
  have hat : (s.queuedAt (nodeid, it)).map QueuedBlock.hash = some hash :=
    (h.indexed hash (nodeid, it)).mp hlookup
  constructor
  · apply counted_of_insert h hmap
    have hsize := LinkedList.size_erase hentry
    have hbefore := h.counted nodeid state hstate
    rw [hcount, hlist]
    omega
  · apply h.indexed.remove [hash] fun position => position = (nodeid, it)
    · intro hash'
      rw [List.mem_singleton]
      constructor
      · intro heq
        exists (nodeid, it)
        rw [heq]
        exact ⟨rfl, hat⟩
      · intro hother
        rcases hother with ⟨position, hposition, hother⟩
        rw [hposition] at hother
        exact Option.some.inj (hother.symm.trans hat)
    · intro hash'
      rw [hblocks, StdMap.lookup_erase_eq]
      simp only [List.mem_singleton]
    · intro position
      rcases position with ⟨nodeid', it'⟩
      rw [queuedAt_of_insert hmap, hlist, LinkedList.deref_erase]
      simp only [Prod.mk.injEq]
      by_cases hnode : nodeid' = nodeid
      · by_cases hit : it' = it
        · rw [if_pos hnode, if_pos hit, if_pos ⟨hnode, hit⟩]
          rfl
        · rw [if_pos hnode, if_neg hit, if_neg fun heq => hit heq.2]
          unfold queuedAt
          rw [hnode, hstate]
          rfl
      · rw [if_neg hnode, if_neg fun heq => hnode heq.1]

theorem drift_of_taken {it : Nat} {entry : QueuedBlock}
    (hstate : s.mapNodeState.lookup nodeid = some state)
    (hentry : state.vBlocksInFlight.deref it = some entry)
    (hmap : s'.mapNodeState = s.mapNodeState.insert nodeid state')
    (hlist : state'.vBlocksInFlight = state.vBlocksInFlight.erase it)
    (hcounter : s'.nQueuedValidatedHeaders =
      s.nQueuedValidatedHeaders - (if entry.fValidatedHeaders then 1 else 0)) :
    s'.drift = s.drift := by
  have hsum := validatedInFlight_of_insert hmap hstate
  have hcount := LinkedList.countP_erase QueuedBlock.fValidatedHeaders hentry
  rw [← hlist] at hcount
  change validated state' + _ = validated state at hcount
  unfold drift
  cases hvalidated : entry.fValidatedHeaders with
  | true =>
      rw [hvalidated, if_pos rfl] at hcount hcounter
      omega
  | false =>
      rw [hvalidated, if_neg Bool.false_ne_true] at hcount hcounter
      omega

/-- A block which comes leaves the list it is in, if it is in one. -/
theorem markBlockAsReceived_spec (h : s.Listed) (hash : UInt256) :
    exists s', s.markBlockAsReceived hash = some s' ∧ s'.Listed ∧ s'.drift = s.drift ∧
      s'.mapBlocksInFlight.lookup hash = none ∧
      forall nodeid, StdMap.contains s'.mapNodeState nodeid =
        StdMap.contains s.mapNodeState nodeid := by
  unfold markBlockAsReceived
  cases hlookup : s.mapBlocksInFlight.lookup hash with
  | none => exact ⟨s, rfl, h, rfl, hlookup, fun _ => rfl⟩
  | some position =>
      rcases position with ⟨nodeid, it⟩
      rcases exists_entry h hlookup with ⟨state, entry, hstate, hentry⟩
      simp only [hstate, hentry]
      apply Exists.intro
      constructor
      · rfl
      · constructor
        · exact listed_of_taken h hlookup hstate hentry rfl rfl rfl rfl
        · constructor
          · exact drift_of_taken hstate hentry rfl rfl rfl
          · constructor
            · exact AList.lookup_erase _ _
            · intro nodeid'
              rw [StdMap.contains_insert]
              by_cases hnode : nodeid' = nodeid
              · rw [hnode, (StdMap.contains_iff _ _).mpr ⟨state, hstate⟩, Bool.or_true]
              · rw [decide_eq_false hnode, Bool.false_or]

/-- A block which is in no list gets an entry at the end of one. -/
theorem listed_of_queued (h : s.Listed) {hash : UInt256} {entry : QueuedBlock}
    (hnew : s.mapBlocksInFlight.lookup hash = none)
    (hstate : s.mapNodeState.lookup nodeid = some state) (hhash : entry.hash = hash)
    (hmap : s'.mapNodeState = s.mapNodeState.insert nodeid state')
    (hlist : state'.vBlocksInFlight = (state.vBlocksInFlight.pushBack entry).2)
    (hcount : state'.nBlocksInFlight = state.nBlocksInFlight + 1)
    (hblocks : s'.mapBlocksInFlight =
      s.mapBlocksInFlight.insert hash (nodeid, state.vBlocksInFlight.next)) : s'.Listed := by
  constructor
  · apply counted_of_insert h hmap
    have hbefore := h.counted nodeid state hstate
    rw [LinkedList.size_eq_length_toList] at hbefore ⊢
    rw [hlist, hcount, LinkedList.toList_pushBack, List.length_append, List.length_singleton]
    omega
  · have hfree : (s.queuedAt (nodeid, state.vBlocksInFlight.next)).map QueuedBlock.hash =
        none := by
      unfold queuedAt
      rw [hstate, Option.bind_some, LinkedList.deref_next]
      rfl
    apply h.indexed.add hnew hfree
    · intro hash'
      rw [hblocks]
      exact StdMap.lookup_insert_eq _ _ _ _
    · intro position
      rcases position with ⟨nodeid', it'⟩
      rw [queuedAt_of_insert hmap, hlist, LinkedList.deref_pushBack]
      simp only [Prod.mk.injEq]
      by_cases hnode : nodeid' = nodeid
      · by_cases hit : it' = state.vBlocksInFlight.next
        · rw [if_pos hnode, if_pos hit, if_pos ⟨hnode, hit⟩, Option.map_some, hhash]
        · rw [if_pos hnode, if_neg hit, if_neg fun heq => hit heq.2]
          unfold queuedAt
          rw [hnode, hstate]
          rfl
      · rw [if_neg hnode, if_neg fun heq => hnode heq.1]

theorem drift_of_queued {entry : QueuedBlock}
    (hstate : s.mapNodeState.lookup nodeid = some state)
    (hmap : s'.mapNodeState = s.mapNodeState.insert nodeid state')
    (hlist : state'.vBlocksInFlight = (state.vBlocksInFlight.pushBack entry).2)
    (hcounter : s'.nQueuedValidatedHeaders =
      s.nQueuedValidatedHeaders + (if entry.fValidatedHeaders then 1 else 0)) :
    s'.drift = s.drift := by
  have hsum := validatedInFlight_of_insert hmap hstate
  have hcount : validated state' =
      validated state + (if entry.fValidatedHeaders then 1 else 0) := by
    unfold validated
    rw [hlist, LinkedList.toList_pushBack, List.countP_append, List.countP_singleton]
  unfold drift
  cases hvalidated : entry.fValidatedHeaders with
  | true =>
      rw [hvalidated, if_pos rfl] at hcount hcounter
      omega
  | false =>
      rw [hvalidated, if_neg Bool.false_ne_true] at hcount hcounter
      omega

theorem enqueue_spec (h : s.Listed) {hash : UInt256}
    (hnew : s.mapBlocksInFlight.lookup hash = none)
    (hstate : s.mapNodeState.lookup nodeid = some state) (pindex : Option Nat) (nTime : Int) :
    exists s', s.enqueue nodeid hash pindex nTime = some s' ∧ s'.Listed ∧ s'.drift = s.drift := by
  unfold enqueue
  simp only [hstate]
  apply Exists.intro
  constructor
  · rfl
  · constructor
    · exact listed_of_queued h hnew hstate rfl rfl rfl rfl rfl
    · exact drift_of_queued hstate rfl rfl rfl

theorem markBlockAsInFlight_spec (h : s.Listed) (hash : UInt256) (pindex : Option Nat)
    (nTime : Int) (hnode : StdMap.contains s.mapNodeState nodeid = true) :
    exists s', s.markBlockAsInFlight nodeid hash pindex nTime = some s' ∧ s'.Listed ∧
      s'.drift = s.drift := by
  rcases markBlockAsReceived_spec h hash with ⟨s1, hmark, hlisted, hdrift, hnew, hnodes⟩
  rw [← hnodes] at hnode
  rcases (StdMap.contains_iff _ _).mp hnode with ⟨state, hstate⟩
  rcases enqueue_spec hlisted hnew hstate pindex nTime with ⟨s2, henqueue, hlisted2, hdrift2⟩
  exists s2
  unfold markBlockAsInFlight
  rw [hnodes] at hnode
  rw [if_pos hnode, hmark, ← hdrift]
  exact ⟨henqueue, hlisted2, hdrift2⟩

/-!
# Runs
-/

/-- A call for a node which has a state, where it has to have one. -/
def Survives (s : NodeStates) : NodeCall -> Prop
  | .finalizeNode nodeid => StdMap.contains s.mapNodeState nodeid = true
  | .markBlockAsInFlight nodeid _ _ _ => StdMap.contains s.mapNodeState nodeid = true
  | _ => True

/-- The lists stay in order, and only the end of a node makes the counter drift. -/
theorem step_spec (h : s.Listed) {call : NodeCall} (hstep : s.step call = some s') :
    s'.Listed ∧ s'.drift = s.drift + s.dropped call := by
  cases call with
  | initializeNode nodeid addrName addr =>
      cases hstep
      have hspec := initializeNode_spec h nodeid addrName addr
      exact ⟨hspec.1, hspec.2.trans (Int.add_zero _).symm⟩
  | finalizeNode nodeid =>
      change (s.finalizeNode nodeid).map Prod.snd = some s' at hstep
      rcases Option.map_eq_some_iff.mp hstep with ⟨result, hfinal, hresult⟩
      cases hlookup : s.mapNodeState.lookup nodeid with
      | none =>
          unfold finalizeNode at hfinal
          rw [hlookup] at hfinal
          cases hfinal
      | some state =>
          rcases result with ⟨tasks, s1⟩
          cases hresult
          have hdropped : s.dropped (.finalizeNode nodeid) = validated state := by
            change ((s.mapNodeState.lookup nodeid).map validated).getD 0 = validated state
            rw [hlookup]
            rfl
          rw [hdropped]
          exact finalizeNode_spec h hlookup hfinal
  | markBlockAsInFlight nodeid hash pindex nTime =>
      change s.markBlockAsInFlight nodeid hash pindex nTime = some s' at hstep
      by_cases hnode : StdMap.contains s.mapNodeState nodeid = true
      · rcases markBlockAsInFlight_spec h hash pindex nTime hnode with
          ⟨s1, hmark, hlisted, hdrift⟩
        rw [hmark] at hstep
        cases hstep
        exact ⟨hlisted, hdrift.trans (Int.add_zero _).symm⟩
      · unfold markBlockAsInFlight at hstep
        rw [if_neg hnode] at hstep
        cases hstep
  | markBlockAsReceived hash =>
      change s.markBlockAsReceived hash = some s' at hstep
      rcases markBlockAsReceived_spec h hash with ⟨s1, hmark, hlisted, hdrift, _⟩
      rw [hmark] at hstep
      cases hstep
      exact ⟨hlisted, hdrift.trans (Int.add_zero _).symm⟩

/-- While the lists are in order, no iterator points into the void. -/
theorem step_isSome_iff (h : s.Listed) (call : NodeCall) :
    (s.step call).isSome = true <-> s.Survives call := by
  cases call with
  | initializeNode nodeid addrName addr => exact iff_of_true rfl trivial
  | finalizeNode nodeid =>
      change ((s.finalizeNode nodeid).map Prod.snd).isSome = true <->
        StdMap.contains s.mapNodeState nodeid = true
      unfold finalizeNode StdMap.contains
      cases s.mapNodeState.lookup nodeid <;> exact Iff.rfl
  | markBlockAsInFlight nodeid hash pindex nTime =>
      change (s.markBlockAsInFlight nodeid hash pindex nTime).isSome = true <->
        StdMap.contains s.mapNodeState nodeid = true
      constructor
      · intro hsome
        unfold markBlockAsInFlight at hsome
        split at hsome
        · assumption
        · cases hsome
      · intro hnode
        rcases markBlockAsInFlight_spec h hash pindex nTime hnode with ⟨s1, hmark, _⟩
        rw [hmark]
        rfl
  | markBlockAsReceived hash =>
      rcases markBlockAsReceived_spec h hash with ⟨s1, hmark, _⟩
      apply iff_of_true _ trivial
      change (s.markBlockAsReceived hash).isSome = true
      rw [hmark]
      rfl

/-- The next state of a run, which ends where the program does. -/
def advance (s : Option NodeStates) (call : NodeCall) : Option NodeStates :=
  s.bind fun s => s.step call

/-- What holds of a state if the run has come so far. -/
def WhileRunning (P : NodeStates -> Prop) (s : Option NodeStates) : Prop :=
  forall s', s = some s' -> P s'

/-- If the call ends a node, then the node has no block with validated headers in flight. -/
def KeepsValidated (s : NodeStates) : NodeCall -> Prop
  | .finalizeNode nodeid => forall state entry, s.mapNodeState.lookup nodeid = some state ->
      entry ∈ state.vBlocksInFlight.toList -> entry.fValidatedHeaders = false
  | _ => True

theorem dropped_eq_zero_iff (call : NodeCall) : s.dropped call = 0 <-> s.KeepsValidated call := by
  cases call with
  | finalizeNode nodeid =>
      unfold KeepsValidated
      change ((s.mapNodeState.lookup nodeid).map validated).getD 0 = 0 <-> _
      cases hlookup : s.mapNodeState.lookup nodeid with
      | none =>
          apply iff_of_true rfl
          intro state entry hstate
          rw [hlookup] at hstate
          cases hstate
      | some state =>
          change state.vBlocksInFlight.toList.countP _ = 0 <-> _
          rw [List.countP_eq_zero]
          constructor
          · intro h state' entry hstate hentry
            rw [hlookup] at hstate
            cases hstate
            exact Bool.eq_false_iff.mpr (h entry hentry)
          · intro h entry hentry
            rw [h state entry hlookup hentry]
            exact Bool.false_ne_true
  | initializeNode nodeid addrName addr => exact iff_of_true rfl trivial
  | markBlockAsInFlight nodeid hash pindex nTime => exact iff_of_true rfl trivial
  | markBlockAsReceived hash => exact iff_of_true rfl trivial

theorem dropped_of_step_eq_none (h : s.Listed) {call : NodeCall} (hstep : s.step call = none) :
    s.dropped call = 0 := by
  have hnot : ¬ s.Survives call := by
    rw [← step_isSome_iff h, hstep]
    exact Bool.false_ne_true
  cases call with
  | finalizeNode nodeid =>
      have hlookup := (StdMap.contains_eq_false_iff _ _).mp (Bool.eq_false_iff.mpr hnot)
      change ((s.mapNodeState.lookup nodeid).map validated).getD 0 = 0
      rw [hlookup]
      rfl
  | initializeNode nodeid addrName addr => rfl
  | markBlockAsInFlight nodeid hash pindex nTime => rfl
  | markBlockAsReceived hash => rfl

theorem accounted_iff : s.Accounted <-> s.Listed ∧ s.drift = 0 := by
  constructor
  · intro h
    have htotal := h.total
    constructor
    · exact h.toListed
    · unfold drift
      omega
  · intro h
    have hdrift := h.2
    unfold drift at hdrift
    constructor
    · exact h.1
    · omega

theorem listed_start : ({} : NodeStates).Listed := by
  constructor
  · intro nodeid state hlookup
    cases hlookup
  · intro hash position
    apply iff_of_false
    · intro hlookup
      cases hlookup
    · intro hat
      cases hat

theorem whileRunning_advance {s : Option NodeStates} {call : NodeCall}
    {P : NodeStates -> Prop} :
    WhileRunning P (advance s call) <->
      forall s1 s2, s = some s1 -> s1.step call = some s2 -> P s2 := by
  unfold WhileRunning advance
  constructor
  · intro h s1 s2 hs hstep
    apply h s2
    rw [hs]
    exact hstep
  · intro h s2 hs2
    rcases Option.bind_eq_some_iff.mp hs2 with ⟨s1, hs, hstep⟩
    exact h s1 s2 hs hstep

/-- The books are right all along a run exactly when no node comes to its end with a block with
validated headers in flight. -/
theorem accounted_run_iff (calls : List NodeCall) :
    StatesSatisfy advance (WhileRunning Accounted) (some {}) calls <->
      StepsSatisfy advance (fun s call => WhileRunning (fun s' => s'.KeepsValidated call) s)
        (some {}) calls := by
  apply statesSatisfy_iff_steps (WhileRunning Accounted)
  · exact fun _ h => h
  · intro s call h hkeeps
    rw [whileRunning_advance]
    intro s1 s2 hs hstep
    have hbefore := accounted_iff.mp (h s1 hs)
    rcases step_spec hbefore.1 hstep with ⟨hlisted, hdrift⟩
    rw [(dropped_eq_zero_iff call).mpr (hkeeps s1 hs), hbefore.2] at hdrift
    exact accounted_iff.mpr ⟨hlisted, hdrift⟩
  · intro s call h hafter
    rw [whileRunning_advance] at hafter
    intro s1 hs
    have hbefore := accounted_iff.mp (h s1 hs)
    apply (dropped_eq_zero_iff call).mp
    cases hstep : s1.step call with
    | none => exact dropped_of_step_eq_none hbefore.1 hstep
    | some s2 =>
        have hdrift := (step_spec hbefore.1 hstep).2
        rw [(accounted_iff.mp (hafter s1 s2 hs hstep)).2, hbefore.2] at hdrift
        omega
  · intro s hs
    cases hs
    exact accounted_iff.mpr ⟨listed_start, rfl⟩

/-!
# A peer which vanishes
-/

namespace VanishedPeer

def peerAddress : CService where
  ip := fun _ => 1
  port := 8333

/-- One block is asked for with its header known, and the peer goes. -/
def calls : List NodeCall :=
  [.initializeNode 1 "peer" peerAddress, .markBlockAsInFlight 1 5 (some 3) 0, .finalizeNode 1]

theorem counter_stays :
    ¬ forall calls : List NodeCall,
      StatesSatisfy advance (WhileRunning Accounted) (some {}) calls := by
  intro h
  have hone : (calls.foldl advance (some {})).map drift = some 1 := rfl
  rcases Option.map_eq_some_iff.mp hone with ⟨s, hend, hdrift⟩
  have hzero := (accounted_iff.mp ((h calls).foldl s hend)).2
  rw [hdrift] at hzero
  cases hzero

end VanishedPeer

end NodeStates

end Net
end Hbcur
