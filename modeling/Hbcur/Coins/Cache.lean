import Hbcur.Foundation.StdMap
import Hbcur.Coins.Entry

/-!
# Coins view caches

`CCoinsViewCache` of `coins.cpp`.  A cache holds modified and fetched entries
on top of another view; caches can be stacked to any depth over a base view.
Entries carry two flags: an entry is dirty when it may differ from the view
below, and fresh when the view below has no unspent entry for its key.
-/

namespace Hbcur

structure CCoinsCacheEntry where
  coins : CCoins
  dirty : Bool := false
  fresh : Bool := false
  deriving DecidableEq

abbrev CCoinsMap := AList (fun _ : UInt256 => CCoinsCacheEntry)

/-- The interface `CCoinsView` which a cache expects of the view below it. -/
class CCoinsView (base : Type) where
  getCoins : base -> UInt256 -> Option CCoins
  getBestBlock : base -> UInt256
  batchWrite : base -> CCoinsMap -> UInt256 -> base

structure CCoinsViewCache where
  hashBlock : UInt256 := 0
  cacheCoins : CCoinsMap := ∅

/-!
# Reading through a stack

The list holds the caches from the top one down.  Reading fills every cache
between the top and the level where the entry was found.
-/

namespace CacheStack

variable {base : Type} [CCoinsView base]

/--
`FetchCoins` and `GetCoins`: the entry, if any, and the caches after it has been
pulled in.  An entry whose lower version is pruned is considered fresh.
-/
def fetchCoins (b : base) (txid : UInt256) :
    List CCoinsViewCache -> Option CCoins × List CCoinsViewCache
  | [] => (CCoinsView.getCoins b txid, [])
  | cache :: rest =>
      match cache.cacheCoins.lookup txid with
      | some entry => (some entry.coins, cache :: rest)
      | none =>
          match fetchCoins b txid rest with
          | (none, rest') => (none, cache :: rest')
          | (some coins, rest') =>
              let entry : CCoinsCacheEntry := { coins := coins, fresh := coins.isPruned }
              (some coins,
                { cache with cacheCoins := cache.cacheCoins.insert txid entry } :: rest')

/-- `GetBestBlock`, which remembers the answer of the view below. -/
def getBestBlock (b : base) :
    List CCoinsViewCache -> UInt256 × List CCoinsViewCache
  | [] => (CCoinsView.getBestBlock b, [])
  | cache :: rest =>
      if cache.hashBlock = 0 then
        match getBestBlock b rest with
        | (hash, rest') => (hash, { cache with hashBlock := hash } :: rest')
      else (cache.hashBlock, cache :: rest)

/--
The entry which `ModifyCoins` hands out, already marked dirty, and the caches
below after the fetch.
-/
def modifiedEntry (b : base) (txid : UInt256) (cache : CCoinsViewCache)
    (rest : List CCoinsViewCache) : CCoinsCacheEntry × List CCoinsViewCache :=
  match cache.cacheCoins.lookup txid with
  | some entry => ({ entry with dirty := true }, rest)
  | none =>
      match fetchCoins b txid rest with
      | (none, rest') => ({ coins := CCoins.empty, dirty := true, fresh := true }, rest')
      | (some coins, rest') =>
          ({ coins := coins, dirty := true, fresh := coins.isPruned }, rest')

/-- The destructor of `CCoinsModifier`, run on the entry as it was left. -/
def closeModifier (txid : UInt256) (entry : CCoinsCacheEntry) (cache : CCoinsViewCache) :
    CCoinsViewCache :=
  if entry.fresh && entry.coins.cleanup.isPruned then
    { cache with cacheCoins := cache.cacheCoins.erase txid }
  else
    { cache with
      cacheCoins :=
        cache.cacheCoins.insert txid { entry with coins := entry.coins.cleanup } }

/-- `ModifyCoins` on the top cache followed by an assignment. -/
def modifyCoins (b : base) (txid : UInt256) (coins : CCoins) :
    List CCoinsViewCache -> Option (List CCoinsViewCache)
  | [] => none
  | cache :: rest =>
      match modifiedEntry b txid cache rest with
      | (entry, rest') =>
          some (closeModifier txid { entry with coins := coins } cache :: rest')

/-!
# Writing a cache down

`BatchWrite` of a cache goes through the entries of its child.  It returns
nothing when the assertion that an unspent entry which is missing here is fresh
in the child fails.
-/

def batchWriteEntry (parent : CCoinsMap) (txid : UInt256) (entry : CCoinsCacheEntry) :
    Option CCoinsMap :=
  if entry.dirty then
    match parent.lookup txid with
    | none =>
        if entry.coins.isPruned then some parent
        else if entry.fresh then
          some (parent.insert txid { coins := entry.coins, dirty := true, fresh := true })
        else none
    | some ours =>
        if ours.fresh && entry.coins.isPruned then some (parent.erase txid)
        else some (parent.insert txid { ours with coins := entry.coins, dirty := true })
  else some parent

def batchWriteEntries :
    CCoinsMap -> List (Sigma fun _ : UInt256 => CCoinsCacheEntry) -> Option CCoinsMap :=
  Foundation.keyedLoop batchWriteEntry

def batchWrite (child : CCoinsMap) (hashBlock : UInt256) (cache : CCoinsViewCache) :
    Option CCoinsViewCache :=
  match batchWriteEntries cache.cacheCoins child.entries with
  | none => none
  | some cacheCoins => some { hashBlock := hashBlock, cacheCoins := cacheCoins }

end CacheStack

/-!
# Operations on a stack of caches
-/

structure CacheStack (base : Type) where
  view : base
  caches : List CCoinsViewCache := []

inductive CacheOp where
  | getCoins (txid : UInt256)
  | accessCoins (txid : UInt256)
  | haveCoins (txid : UInt256)
  | modifyCoins (txid : UInt256) (coins : CCoins)
  | getBestBlock
  | setBestBlock (hash : UInt256)
  | flushAndPop
  | push

inductive CacheAnswer where
  | coins (found : Option CCoins)
  | haveCoins (found : Bool)
  | bestBlock (hash : UInt256)
  | done
  deriving DecidableEq

namespace CacheStack

variable {base : Type} [CCoinsView base]

/-- `Flush` of the top cache into whatever is below it. -/
def flushAndPop (s : CacheStack base) : Option (CacheStack base) :=
  match s.caches with
  | [] => none
  | [top] => some { view := CCoinsView.batchWrite s.view top.cacheCoins top.hashBlock }
  | top :: next :: rest =>
      match batchWrite top.cacheCoins top.hashBlock next with
      | none => none
      | some next' => some { s with caches := next' :: rest }

/--
One operation.  There is no result when the operation needs a top cache and
there is none, or when an assertion of the source fails.
-/
def step (s : CacheStack base) : CacheOp -> Option (CacheAnswer × CacheStack base)
  | CacheOp.getCoins txid | CacheOp.accessCoins txid =>
      match s.caches with
      | [] => none
      | _ :: _ =>
          match fetchCoins s.view txid s.caches with
          | (found, caches') => some (CacheAnswer.coins found, { s with caches := caches' })
  | CacheOp.haveCoins txid =>
      match s.caches with
      | [] => none
      | _ :: _ =>
          match fetchCoins s.view txid s.caches with
          | (found, caches') =>
              some (CacheAnswer.haveCoins (found.any fun coins => !coins.vout.isEmpty),
                { s with caches := caches' })
  | CacheOp.modifyCoins txid coins =>
      match modifyCoins s.view txid coins s.caches with
      | none => none
      | some caches' => some (CacheAnswer.done, { s with caches := caches' })
  | CacheOp.getBestBlock =>
      match s.caches with
      | [] => none
      | _ :: _ =>
          match getBestBlock s.view s.caches with
          | (hash, caches') => some (CacheAnswer.bestBlock hash, { s with caches := caches' })
  | CacheOp.setBestBlock hash =>
      match s.caches with
      | [] => none
      | top :: rest =>
          some (CacheAnswer.done, { s with caches := { top with hashBlock := hash } :: rest })
  | CacheOp.flushAndPop =>
      match flushAndPop s with
      | none => none
      | some s' => some (CacheAnswer.done, s')
  | CacheOp.push => some (CacheAnswer.done, { s with caches := {} :: s.caches })

end CacheStack

end Hbcur

/-!
# The invariant of a cache stack

The invariant relates each cache to the view below it: clean entries agree with
that view, fresh entries have no unspent entry there, and an entry which is not
fresh is also held by the cache below.  Fetching, reading the best block and
modifying an entry keep it.
-/

namespace Hbcur

namespace CacheStack

/-- Forget a pruned entry. -/
def unspent (found : Option CCoins) : Option CCoins :=
  found.filter fun coins => !coins.isPruned

/-!
# Base views

What a base view must do: hand out entries without trailing spent outputs, and
take over the dirty entries and the best block of a batch of such entries.
Entries which are not dirty may be written as well as long as they agree with the
base, and a null best block may leave the old one in place.
-/

class LawfulCCoinsView (base : Type) [CCoinsView base] : Prop where
  clean : forall (b : base) (txid : UInt256) (coins : CCoins),
    CCoinsView.getCoins b txid = some coins -> coins.cleanup = coins
  getCoins_batchWrite : forall (b : base) (batch : CCoinsMap) (hash txid : UInt256),
    (forall entry, batch.lookup txid = some entry ->
      entry.coins.cleanup = entry.coins) ->
    (forall entry, batch.lookup txid = some entry -> entry.dirty = false ->
      unspent (some entry.coins) = unspent (CCoinsView.getCoins b txid)) ->
    unspent (CCoinsView.getCoins (CCoinsView.batchWrite b batch hash) txid) =
      match batch.lookup txid with
      | some entry =>
          if entry.dirty then unspent (some entry.coins)
          else unspent (CCoinsView.getCoins b txid)
      | none => unspent (CCoinsView.getCoins b txid)
  getBestBlock_batchWrite : forall (b : base) (batch : CCoinsMap) (hash : UInt256),
    CCoinsView.getBestBlock (CCoinsView.batchWrite b batch hash) = hash ∨
      hash = 0 ∧ CCoinsView.getBestBlock (CCoinsView.batchWrite b batch hash) =
        CCoinsView.getBestBlock b

/-!
# What a stack holds
-/

variable {base : Type} [CCoinsView base]

def content (b : base) : List CCoinsViewCache -> UInt256 -> Option CCoins
  | [], txid => CCoinsView.getCoins b txid
  | cache :: rest, txid =>
      match cache.cacheCoins.lookup txid with
      | some entry => some entry.coins
      | none => content b rest txid

def bestBlock (b : base) : List CCoinsViewCache -> UInt256
  | [] => CCoinsView.getBestBlock b
  | cache :: rest => if cache.hashBlock = 0 then bestBlock b rest else cache.hashBlock

/-- The top cache, if there is one, holds an entry for the key. -/
def HeldByTop (txid : UInt256) : List CCoinsViewCache -> Prop
  | [] => True
  | cache :: _ => (cache.cacheCoins.lookup txid).isSome = true

structure EntryOk (b : base) (rest : List CCoinsViewCache) (txid : UInt256)
    (entry : CCoinsCacheEntry) : Prop where
  clean : entry.coins.cleanup = entry.coins
  copied : entry.dirty = false ->
    unspent (some entry.coins) = unspent (content b rest txid)
  fresh : entry.fresh = true -> unspent (content b rest txid) = none
  held : entry.fresh = false -> HeldByTop txid rest

def StackOk (b : base) : List CCoinsViewCache -> Prop
  | [] => True
  | cache :: rest =>
      (forall txid entry, cache.cacheCoins.lookup txid = some entry ->
        EntryOk b rest txid entry) ∧
      StackOk b rest

theorem unspent_some_of_isPruned {coins : CCoins} (h : coins.isPruned = true) :
    unspent (some coins) = none := by
  simp [unspent, Option.filter_some, h]

theorem unspent_some_of_not_isPruned {coins : CCoins} (h : coins.isPruned = false) :
    unspent (some coins) = some coins := by
  simp [unspent, Option.filter_some, h]

theorem isSome_unspent_of_clean {coins : CCoins} (h : coins.cleanup = coins) :
    (unspent (some coins)).isSome = !coins.vout.isEmpty := by
  have hvout : coins.isPruned = coins.vout.isEmpty := by
    rw [Bool.eq_iff_iff, CCoins.isPruned_iff_cleanup_vout, h, List.isEmpty_iff]
  cases hpruned : coins.isPruned with
  | true =>
      rw [unspent_some_of_isPruned hpruned, ← hvout, hpruned]
      rfl
  | false =>
      rw [unspent_some_of_not_isPruned hpruned, ← hvout, hpruned]
      rfl

/-!
# Fetching changes nothing that can be seen
-/

theorem fetchCoins_fst (b : base) (txid : UInt256) (caches : List CCoinsViewCache) :
    (fetchCoins b txid caches).1 = content b caches txid := by
  induction caches with
  | nil => rfl
  | cons cache rest ih =>
      unfold fetchCoins content
      cases hlookup : cache.cacheCoins.lookup txid with
      | some entry => rfl
      | none =>
          rw [← ih]
          rcases fetchCoins b txid rest with ⟨found, rest'⟩
          cases found <;> rfl

/-- The caches after a fetch: each one is as before or has gained the entry. -/
theorem content_fetchCoins (b : base) (txid other : UInt256)
    (caches : List CCoinsViewCache) :
    content b (fetchCoins b txid caches).2 other = content b caches other := by
  induction caches with
  | nil => rfl
  | cons cache rest ih =>
      have hfst := fetchCoins_fst b txid rest
      unfold fetchCoins
      cases hlookup : cache.cacheCoins.lookup txid with
      | some entry => rfl
      | none =>
          rcases hfetch : fetchCoins b txid rest with ⟨found, rest'⟩
          rw [hfetch] at ih hfst
          cases found with
          | none =>
              simp only [content]
              cases cache.cacheCoins.lookup other with
              | some entry => rfl
              | none => exact ih
          | some coins =>
              simp only [content]
              by_cases hother : other = txid
              · subst hother
                rw [AList.lookup_insert, hlookup]
                exact hfst
              · rw [AList.lookup_insert_ne hother]
                cases cache.cacheCoins.lookup other with
                | some entry => rfl
                | none => exact ih

theorem heldByTop_fetchCoins (b : base) (txid other : UInt256)
    (caches : List CCoinsViewCache) (h : HeldByTop other caches) :
    HeldByTop other (fetchCoins b txid caches).2 := by
  cases caches with
  | nil => exact h
  | cons cache rest =>
      unfold fetchCoins
      cases hlookup : cache.cacheCoins.lookup txid with
      | some entry => exact h
      | none =>
          rcases fetchCoins b txid rest with ⟨found, rest'⟩
          cases found with
          | none => exact h
          | some coins =>
              simp only [HeldByTop] at h ⊢
              by_cases hother : other = txid
              · subst hother
                rw [AList.lookup_insert]
                rfl
              · rw [AList.lookup_insert_ne hother]
                exact h

theorem heldByTop_of_fetchCoins_some {b : base} {txid : UInt256}
    {caches : List CCoinsViewCache} {coins : CCoins}
    (h : (fetchCoins b txid caches).1 = some coins) :
    HeldByTop txid (fetchCoins b txid caches).2 := by
  cases caches with
  | nil => exact trivial
  | cons cache rest =>
      unfold fetchCoins at h ⊢
      cases hlookup : cache.cacheCoins.lookup txid with
      | some entry =>
          simp only [HeldByTop, hlookup]
          rfl
      | none =>
          rw [hlookup] at h
          rcases hfetch : fetchCoins b txid rest with ⟨found, rest'⟩
          rw [hfetch] at h
          cases found with
          | none => cases h
          | some found =>
              simp only [HeldByTop, AList.lookup_insert]
              rfl

theorem bestBlock_fetchCoins (b : base) (txid : UInt256)
    (caches : List CCoinsViewCache) :
    bestBlock b (fetchCoins b txid caches).2 = bestBlock b caches := by
  induction caches with
  | nil => rfl
  | cons cache rest ih =>
      unfold fetchCoins
      cases hlookup : cache.cacheCoins.lookup txid with
      | some entry => rfl
      | none =>
          rcases hfetch : fetchCoins b txid rest with ⟨found, rest'⟩
          rw [hfetch] at ih
          cases found <;> simp only [bestBlock, ih]

theorem length_fetchCoins (b : base) (txid : UInt256) (caches : List CCoinsViewCache) :
    (fetchCoins b txid caches).2.length = caches.length := by
  induction caches with
  | nil => rfl
  | cons cache rest ih =>
      unfold fetchCoins
      cases hlookup : cache.cacheCoins.lookup txid with
      | some entry => rfl
      | none =>
          rcases hfetch : fetchCoins b txid rest with ⟨found, rest'⟩
          rw [hfetch] at ih
          cases found <;> simpa using ih

theorem entryOk_fetchCoins {b : base} {rest : List CCoinsViewCache} (txid : UInt256)
    {other : UInt256} {entry : CCoinsCacheEntry} (h : EntryOk b rest other entry) :
    EntryOk b (fetchCoins b txid rest).2 other entry where
  clean := h.clean
  copied := by
    rw [content_fetchCoins]
    exact h.copied
  fresh := by
    rw [content_fetchCoins]
    exact h.fresh
  held := fun hfresh => heldByTop_fetchCoins b txid other rest (h.held hfresh)

theorem content_clean [LawfulCCoinsView base] {b : base} {caches : List CCoinsViewCache}
    (h : StackOk b caches) {txid : UInt256} {coins : CCoins}
    (hcontent : content b caches txid = some coins) : coins.cleanup = coins := by
  induction caches with
  | nil => exact LawfulCCoinsView.clean b txid coins hcontent
  | cons cache rest ih =>
      unfold content at hcontent
      cases hlookup : cache.cacheCoins.lookup txid with
      | some entry =>
          rw [hlookup] at hcontent
          cases hcontent
          exact (h.1 txid entry hlookup).clean
      | none =>
          rw [hlookup] at hcontent
          exact ih h.2 hcontent

/-- The entry which a fetch leaves behind in a cache that did not have it. -/
theorem entryOk_of_fetched [LawfulCCoinsView base] {b : base}
    {rest : List CCoinsViewCache} {txid : UInt256} {coins : CCoins}
    (hrest : StackOk b rest) (hfetch : (fetchCoins b txid rest).1 = some coins) :
    EntryOk b (fetchCoins b txid rest).2 txid
      { coins := coins, fresh := coins.isPruned } := by
  have hcontent : content b rest txid = some coins := by
    rw [← fetchCoins_fst]
    exact hfetch
  constructor
  · exact content_clean hrest hcontent
  · intro _
    rw [content_fetchCoins, hcontent]
  · intro hfresh
    rw [content_fetchCoins, hcontent]
    exact unspent_some_of_isPruned hfresh
  · intro _
    exact heldByTop_of_fetchCoins_some hfetch

theorem stackOk_fetchCoins [LawfulCCoinsView base] {b : base} (txid : UInt256)
    {caches : List CCoinsViewCache} (h : StackOk b caches) :
    StackOk b (fetchCoins b txid caches).2 := by
  induction caches with
  | nil => exact trivial
  | cons cache rest ih =>
      have hrest := ih h.2
      have hold : forall other entry, cache.cacheCoins.lookup other = some entry ->
          EntryOk b (fetchCoins b txid rest).2 other entry := by
        intro other entry hother
        exact entryOk_fetchCoins txid (h.1 other entry hother)
      unfold fetchCoins
      cases hlookup : cache.cacheCoins.lookup txid with
      | some entry => exact h
      | none =>
          have hnew : forall coins, (fetchCoins b txid rest).1 = some coins ->
              EntryOk b (fetchCoins b txid rest).2 txid
                { coins := coins, fresh := coins.isPruned } :=
            fun coins => entryOk_of_fetched h.2
          rcases hfetch : fetchCoins b txid rest with ⟨found, rest'⟩
          rw [hfetch] at hrest hold hnew
          cases found with
          | none => exact ⟨hold, hrest⟩
          | some coins =>
              refine ⟨?_, hrest⟩
              intro other entry hother
              by_cases heq : other = txid
              · subst heq
                rw [AList.lookup_insert] at hother
                cases hother
                exact hnew coins rfl
              · rw [AList.lookup_insert_ne heq] at hother
                exact hold other entry hother

/-!
# Memo changes

Fetching and reading the best block only fill in memos.  What a stack holds, its
best block and its invariant stay as they were.
-/

structure Unchanged (b : base) (caches caches' : List CCoinsViewCache) : Prop where
  content_eq : forall txid, content b caches' txid = content b caches txid
  bestBlock_eq : bestBlock b caches' = bestBlock b caches
  length_eq : caches'.length = caches.length
  held : forall txid, HeldByTop txid caches -> HeldByTop txid caches'
  ok : StackOk b caches -> StackOk b caches'

theorem unchanged_refl (b : base) (caches : List CCoinsViewCache) :
    Unchanged b caches caches :=
  ⟨fun _ => rfl, rfl, rfl, fun _ h => h, fun h => h⟩

theorem unchanged_fetchCoins [LawfulCCoinsView base] (b : base) (txid : UInt256)
    (caches : List CCoinsViewCache) : Unchanged b caches (fetchCoins b txid caches).2 :=
  ⟨fun other => content_fetchCoins b txid other caches, bestBlock_fetchCoins b txid caches,
    length_fetchCoins b txid caches, fun other => heldByTop_fetchCoins b txid other caches,
    stackOk_fetchCoins txid⟩

theorem entryOk_of_unchanged {b : base} {rest rest' : List CCoinsViewCache}
    (hun : Unchanged b rest rest') {txid : UInt256} {entry : CCoinsCacheEntry}
    (h : EntryOk b rest txid entry) : EntryOk b rest' txid entry where
  clean := h.clean
  copied := by
    rw [hun.content_eq]
    exact h.copied
  fresh := by
    rw [hun.content_eq]
    exact h.fresh
  held := fun hfresh => hun.held txid (h.held hfresh)

theorem getBestBlock_fst (b : base) (caches : List CCoinsViewCache) :
    (getBestBlock b caches).1 = bestBlock b caches := by
  induction caches with
  | nil => rfl
  | cons cache rest ih =>
      unfold getBestBlock bestBlock
      by_cases hnull : cache.hashBlock = 0
      · rw [if_pos hnull, if_pos hnull]
        exact ih
      · rw [if_neg hnull, if_neg hnull]

/-- Setting the best block of the top cache to what it reads anyway. -/
theorem unchanged_getBestBlock (b : base) (caches : List CCoinsViewCache) :
    Unchanged b caches (getBestBlock b caches).2 := by
  induction caches with
  | nil => exact unchanged_refl b []
  | cons cache rest ih =>
      unfold getBestBlock
      by_cases hnull : cache.hashBlock = 0
      · have hfst := getBestBlock_fst b rest
        rw [if_pos hnull]
        rcases hbest : getBestBlock b rest with ⟨hash, rest'⟩
        rw [hbest] at ih hfst
        constructor
        · intro txid
          simp only [content, ih.content_eq]
        · simp only [bestBlock, if_pos hnull, ih.bestBlock_eq]
          split
          · rfl
          · exact hfst
        · simp only [List.length_cons, ih.length_eq]
        · intro txid hheld
          exact hheld
        · rintro ⟨htop, hrest⟩
          refine ⟨?_, ih.ok hrest⟩
          intro txid entry hlookup
          exact entryOk_of_unchanged ih (htop txid entry hlookup)
      · rw [if_neg hnull]
        exact unchanged_refl b _

theorem getBestBlock_known (b : base) (cache : CCoinsViewCache)
    (rest : List CCoinsViewCache) :
    exists cache' rest', (getBestBlock b (cache :: rest)).2 = cache' :: rest' ∧
      (cache'.hashBlock ≠ 0 ∨ bestBlock b rest' = 0) := by
  unfold getBestBlock
  by_cases hnull : cache.hashBlock = 0
  · have hfst := getBestBlock_fst b rest
    have hun := unchanged_getBestBlock b rest
    rw [if_pos hnull]
    rcases hbest : getBestBlock b rest with ⟨hash, rest'⟩
    rw [hbest] at hfst hun
    refine ⟨_, rest', rfl, ?_⟩
    by_cases hhash : hash = 0
    · exact Or.inr (by rw [hun.bestBlock_eq, ← hfst]; exact hhash)
    · exact Or.inl hhash
  · rw [if_neg hnull]
    exact ⟨cache, rest, rfl, Or.inl hnull⟩

/-!
# Modifying an entry
-/

/-- What `ModifyCoins` finds or creates, before the caller assigns to it. -/
theorem modifiedEntry_spec [LawfulCCoinsView base] {b : base} {cache : CCoinsViewCache}
    {rest : List CCoinsViewCache} (txid : UInt256) (h : StackOk b (cache :: rest)) :
    Unchanged b rest (modifiedEntry b txid cache rest).2 ∧
      (modifiedEntry b txid cache rest).1.dirty = true ∧
      ((modifiedEntry b txid cache rest).1.fresh = true ->
        unspent (content b (modifiedEntry b txid cache rest).2 txid) = none) ∧
      ((modifiedEntry b txid cache rest).1.fresh = false ->
        HeldByTop txid (modifiedEntry b txid cache rest).2) := by
  unfold modifiedEntry
  cases hlookup : cache.cacheCoins.lookup txid with
  | some entry =>
      have hentry := h.1 txid entry hlookup
      exact ⟨unchanged_refl b rest, rfl, hentry.fresh, hentry.held⟩
  | none =>
      have hun := unchanged_fetchCoins b txid rest
      have hfst := fetchCoins_fst b txid rest
      have hheld := fun coins => @heldByTop_of_fetchCoins_some base _ b txid rest coins
      rcases hfetch : fetchCoins b txid rest with ⟨found, rest'⟩
      rw [hfetch] at hun hfst hheld
      have hcontent : content b rest' txid = found := by
        rw [hun.content_eq]
        exact hfst.symm
      cases found with
      | none =>
          refine ⟨hun, rfl, ?_, ?_⟩
          · intro _
            show unspent (content b rest' txid) = none
            rw [hcontent]
            rfl
          · intro hfresh
            cases hfresh
      | some coins =>
          refine ⟨hun, rfl, ?_, ?_⟩
          · intro hfresh
            show unspent (content b rest' txid) = none
            rw [hcontent]
            exact unspent_some_of_isPruned hfresh
          · intro _
            exact hheld coins rfl

theorem cleanup_cleanup (coins : CCoins) : coins.cleanup.cleanup = coins.cleanup := by
  simp only [CCoins.cleanup, List.rdropWhile_idempotent]

/--
The destructor of a modifier leaves the invariant intact and the assigned entry
in place, up to pruned entries.
-/
theorem closeModifier_spec {b : base} {cache : CCoinsViewCache}
    {rest : List CCoinsViewCache} {txid : UInt256} {entry : CCoinsCacheEntry}
    (hothers : forall other old, cache.cacheCoins.lookup other = some old ->
      EntryOk b rest other old)
    (hrest : StackOk b rest) (hdirty : entry.dirty = true)
    (hfresh : entry.fresh = true -> unspent (content b rest txid) = none)
    (hheld : entry.fresh = false -> HeldByTop txid rest) :
    StackOk b (closeModifier txid entry cache :: rest) ∧
      forall other, unspent (content b (closeModifier txid entry cache :: rest) other) =
        if other = txid then unspent (some entry.coins.cleanup)
        else unspent (content b (cache :: rest) other) := by
  unfold closeModifier
  split
  · rename_i hdrop
    rcases Bool.and_eq_true_iff.mp hdrop with ⟨hf, hpruned⟩
    constructor
    · refine ⟨?_, hrest⟩
      intro other old hlookup
      by_cases heq : other = txid
      · subst heq
        rw [AList.lookup_erase] at hlookup
        cases hlookup
      · rw [AList.lookup_erase_ne heq] at hlookup
        exact hothers other old hlookup
    · intro other
      by_cases heq : other = txid
      · subst heq
        rw [if_pos rfl, unspent_some_of_isPruned hpruned]
        simp only [content, AList.lookup_erase]
        exact hfresh hf
      · rw [if_neg heq]
        simp only [content, AList.lookup_erase_ne heq]
  · constructor
    · refine ⟨?_, hrest⟩
      intro other old hlookup
      by_cases heq : other = txid
      · subst heq
        rw [AList.lookup_insert] at hlookup
        cases hlookup
        refine ⟨cleanup_cleanup entry.coins, ?_, hfresh, hheld⟩
        intro hclean
        change entry.dirty = false at hclean
        rw [hdirty] at hclean
        cases hclean
      · rw [AList.lookup_insert_ne heq] at hlookup
        exact hothers other old hlookup
    · intro other
      by_cases heq : other = txid
      · subst heq
        rw [if_pos rfl]
        simp only [content, AList.lookup_insert]
      · rw [if_neg heq]
        simp only [content, AList.lookup_insert_ne heq]

theorem hashBlock_closeModifier (txid : UInt256) (entry : CCoinsCacheEntry)
    (cache : CCoinsViewCache) :
    (closeModifier txid entry cache).hashBlock = cache.hashBlock := by
  unfold closeModifier
  split <;> rfl

theorem modifyCoins_spec [LawfulCCoinsView base] {b : base} {cache : CCoinsViewCache}
    {rest : List CCoinsViewCache} (txid : UInt256) (coins : CCoins)
    (h : StackOk b (cache :: rest)) :
    exists cache' rest', modifyCoins b txid coins (cache :: rest) = some (cache' :: rest') ∧
      Unchanged b rest rest' ∧ cache'.hashBlock = cache.hashBlock ∧
      StackOk b (cache' :: rest') ∧
      forall other, unspent (content b (cache' :: rest') other) =
        if other = txid then unspent (some coins.cleanup)
        else unspent (content b (cache :: rest) other) := by
  rcases modifiedEntry_spec txid h with ⟨hun, hdirty, hfresh, hheld⟩
  rcases hmod : modifiedEntry b txid cache rest with ⟨entry, rest'⟩
  rw [hmod] at hun hdirty hfresh hheld
  have hothers : forall other old, cache.cacheCoins.lookup other = some old ->
      EntryOk b rest' other old := fun other old hlookup =>
    entryOk_of_unchanged hun (h.1 other old hlookup)
  have hspec := @closeModifier_spec base _ b cache rest' txid
    { entry with coins := coins } hothers (hun.ok h.2) hdirty hfresh hheld
  refine ⟨_, rest', ?_, hun, hashBlock_closeModifier _ _ _, hspec.1, ?_⟩
  · simp only [modifyCoins, hmod]
  intro other
  rw [hspec.2 other]
  simp only [content, hun.content_eq]

end CacheStack

end Hbcur
