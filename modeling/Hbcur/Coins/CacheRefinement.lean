import Hbcur.Foundation.Run
import Hbcur.Coins.Database

/-!
# The cache stack refines a plain map

A stack of caches over a base view answers every query like one map from
transaction ids to entries, where a pruned entry means absent.
-/

namespace Hbcur

namespace CacheStack

/-!
# The plain map
-/

structure PlainCoins where
  coins : UInt256 -> Option CCoins
  bestBlock : UInt256

namespace PlainCoins

def step (m : PlainCoins) : CacheOp -> CacheAnswer × PlainCoins
  | CacheOp.getCoins txid => (CacheAnswer.coins (m.coins txid), m)
  | CacheOp.accessCoins txid => (CacheAnswer.coins (m.coins txid), m)
  | CacheOp.haveCoins txid => (CacheAnswer.haveCoins (m.coins txid).isSome, m)
  | CacheOp.modifyCoins txid coins =>
      (CacheAnswer.done,
        { m with coins := Function.update m.coins txid (unspent (some coins.cleanup)) })
  | CacheOp.getBestBlock => (CacheAnswer.bestBlock m.bestBlock, m)
  | CacheOp.setBestBlock hash => (CacheAnswer.done, { m with bestBlock := hash })
  | CacheOp.flushAndPop => (CacheAnswer.done, m)
  | CacheOp.push => (CacheAnswer.done, m)

end PlainCoins

/-- An answer of the stack is the plain one once pruned entries are forgotten. -/
def AnswerMatches : CacheAnswer -> CacheAnswer -> Prop
  | CacheAnswer.coins found, CacheAnswer.coins expected => unspent found = expected
  | answer, expected => answer = expected

/-!
# Permitted operations

The guard keeps one flag for each cache, from the top one down: whether its best
block has been read or set.  A cache may be flushed once the flag is set, and a
flush sets the best block of the cache which receives it.
-/

def permit (flags : List Bool) : CacheOp -> Option (List Bool)
  | CacheOp.push => some (false :: flags)
  | CacheOp.flushAndPop =>
      match flags with
      | true :: _ :: rest => some (true :: rest)
      | [true] => some []
      | _ => none
  | CacheOp.getBestBlock =>
      match flags with
      | [] => none
      | _ :: rest => some (true :: rest)
  | CacheOp.setBestBlock hash =>
      match flags with
      | [] => none
      | _ :: rest => if hash = 0 then none else some (true :: rest)
  | _ =>
      match flags with
      | [] => none
      | _ :: _ => some flags

/-!
# Writing a cache into the one below
-/

variable {base : Type} [CCoinsView base]

/-- What `BatchWrite` makes of the entry held by the parent. -/
def mergedEntry (ours : Option CCoinsCacheEntry) (entry : CCoinsCacheEntry) :
    Option CCoinsCacheEntry :=
  if entry.dirty then
    match ours with
    | none =>
        if entry.coins.isPruned then none
        else some { coins := entry.coins, dirty := true, fresh := true }
    | some ours =>
        if ours.fresh && entry.coins.isPruned then none
        else some { ours with coins := entry.coins, dirty := true }
  else ours

/-- The assertion of `BatchWrite` holds for an entry which the parent lacks. -/
def MayMerge (ours : Option CCoinsCacheEntry) (entry : CCoinsCacheEntry) : Prop :=
  ours = none -> entry.fresh = true

theorem keyedBody_batchWriteEntry :
    Foundation.KeyedBody batchWriteEntry
      (fun (parent : CCoinsMap) (txid : UInt256) => parent.lookup txid)
      MayMerge mergedEntry := by
  intro parent txid entry h
  beta_reduce at h ⊢
  unfold batchWriteEntry mergedEntry
  cases hdirty : entry.dirty with
  | false => exact ⟨parent, rfl, rfl, fun _ _ => rfl⟩
  | true =>
      cases hours : parent.lookup txid with
      | none =>
          have hfresh := h hours
          cases hpruned : entry.coins.isPruned with
          | true => exact ⟨parent, rfl, hours, fun _ _ => rfl⟩
          | false =>
              refine ⟨_, if_pos hfresh, AList.lookup_insert _, ?_⟩
              intro other hne
              exact AList.lookup_insert_ne hne
      | some ours =>
          cases hdrop : ours.fresh && entry.coins.isPruned with
          | true =>
              refine ⟨parent.erase txid, ?_, ?_, ?_⟩
              · simp only [hdrop, if_true]
              · simp only [hdrop, if_true, AList.lookup_erase]
              · intro other hne
                exact AList.lookup_erase_ne hne
          | false =>
              refine ⟨parent.insert txid { ours with coins := entry.coins, dirty := true },
                ?_, ?_, ?_⟩
              · simp only [hdrop, if_true, if_false, Bool.false_eq_true]
              · simp only [hdrop, if_true, if_false, Bool.false_eq_true, AList.lookup_insert]
              · intro other hne
                exact AList.lookup_insert_ne hne

theorem batchWrite_spec {child : CCoinsMap} (hash : UInt256) {cache : CCoinsViewCache}
    (hmay : forall txid entry, child.lookup txid = some entry ->
      MayMerge (cache.cacheCoins.lookup txid) entry) :
    exists cache', batchWrite child hash cache = some cache' ∧ cache'.hashBlock = hash ∧
      forall txid, cache'.cacheCoins.lookup txid =
        match child.lookup txid with
        | none => cache.cacheCoins.lookup txid
        | some entry => mergedEntry (cache.cacheCoins.lookup txid) entry := by
  have hmem : forall txid entry, ⟨txid, entry⟩ ∈ child.entries ->
      MayMerge (cache.cacheCoins.lookup txid) entry := by
    intro txid entry hentry
    exact hmay txid entry (AList.mem_lookup_iff.mpr hentry)
  rcases Foundation.keyedLoop_spec keyedBody_batchWriteEntry child.entries
      cache.cacheCoins child.nodupKeys hmem with ⟨merged, hwrite, hlookup⟩
  refine ⟨{ hashBlock := hash, cacheCoins := merged }, ?_, rfl, ?_⟩
  · simp only [batchWrite, batchWriteEntries, hwrite]
  · intro txid
    have hmerged := hlookup txid
    cases hchild : child.lookup txid with
    | none =>
        unfold AList.lookup at hchild
        rw [hchild] at hmerged
        exact hmerged
    | some entry =>
        unfold AList.lookup at hchild
        rw [hchild] at hmerged
        exact hmerged

/-!
# Flushing keeps the invariant and the contents
-/

/-- The merged entry satisfies the invariant of the parent's level. -/
theorem entryOk_mergedEntry {b : base} {next : CCoinsViewCache}
    {rest : List CCoinsViewCache} {txid : UInt256} {entry merged : CCoinsCacheEntry}
    (hours : forall ours, next.cacheCoins.lookup txid = some ours ->
      EntryOk b rest txid ours)
    (hentry : EntryOk b (next :: rest) txid entry)
    (hmerged : mergedEntry (next.cacheCoins.lookup txid) entry = some merged) :
    EntryOk b rest txid merged := by
  unfold mergedEntry at hmerged
  cases hdirty : entry.dirty with
  | false =>
      rw [hdirty] at hmerged
      exact hours merged hmerged
  | true =>
      rw [hdirty] at hmerged
      cases hlookup : next.cacheCoins.lookup txid with
      | none =>
          simp only [hlookup, if_true] at hmerged
          split at hmerged
          · cases hmerged
          · cases hmerged
            have hfresh : entry.fresh = true := by
              cases hfresh : entry.fresh with
              | true => rfl
              | false =>
                  have hheld := hentry.held hfresh
                  simp [HeldByTop, hlookup] at hheld
            have habsent := hentry.fresh hfresh
            simp only [content, hlookup] at habsent
            refine ⟨hentry.clean, ?_, fun _ => habsent, ?_⟩
            · intro hfalse
              cases hfalse
            · intro hfalse
              cases hfalse
      | some ours =>
          have hoursOk := hours ours hlookup
          simp only [hlookup, if_true] at hmerged
          split at hmerged
          · cases hmerged
          · cases hmerged
            refine ⟨hentry.clean, ?_, hoursOk.fresh, hoursOk.held⟩
            intro hfalse
            cases hfalse

/-- After the merge the key still reads as it did through the child. -/
theorem unspent_mergedEntry {b : base} {next : CCoinsViewCache}
    {rest : List CCoinsViewCache} {txid : UInt256} {entry : CCoinsCacheEntry}
    (hours : forall ours, next.cacheCoins.lookup txid = some ours ->
      EntryOk b rest txid ours)
    (hentry : EntryOk b (next :: rest) txid entry) :
    unspent (match mergedEntry (next.cacheCoins.lookup txid) entry with
      | some merged => some merged.coins
      | none => content b rest txid) = unspent (some entry.coins) := by
  unfold mergedEntry
  cases hdirty : entry.dirty with
  | false =>
      have hcopied := hentry.copied hdirty
      simp only [content] at hcopied
      exact hcopied.symm
  | true =>
      cases hlookup : next.cacheCoins.lookup txid with
      | none =>
          cases hpruned : entry.coins.isPruned with
          | false => simp
          | true =>
              rw [unspent_some_of_isPruned hpruned]
              cases hfresh : entry.fresh with
              | true =>
                  have habsent := hentry.fresh hfresh
                  simpa [content, hlookup] using habsent
              | false =>
                  have hheld := hentry.held hfresh
                  simp [HeldByTop, hlookup] at hheld
      | some ours =>
          cases hdrop : ours.fresh && entry.coins.isPruned with
          | false => simp [hdrop]
          | true =>
              rcases Bool.and_eq_true_iff.mp hdrop with ⟨hfresh, hpruned⟩
              rw [unspent_some_of_isPruned hpruned]
              simpa [hdrop] using (hours ours hlookup).fresh hfresh

/-- Flushing into another cache: the assertion holds and nothing visible changes. -/
theorem flush_cons_spec {b : base} {top next : CCoinsViewCache}
    {rest : List CCoinsViewCache} (h : StackOk b (top :: next :: rest)) :
    exists next', batchWrite top.cacheCoins top.hashBlock next = some next' ∧
      next'.hashBlock = top.hashBlock ∧ StackOk b (next' :: rest) ∧
      forall txid, unspent (content b (next' :: rest) txid) =
        unspent (content b (top :: next :: rest) txid) := by
  rcases h with ⟨htop, hnext, hrest⟩
  have hmay : forall txid entry, top.cacheCoins.lookup txid = some entry ->
      MayMerge (next.cacheCoins.lookup txid) entry := by
    intro txid entry hlookup hnone
    cases hfresh : entry.fresh with
    | true => rfl
    | false =>
        have hheld := (htop txid entry hlookup).held hfresh
        simp [HeldByTop, hnone] at hheld
  rcases batchWrite_spec top.hashBlock hmay with ⟨next', hwrite, hhash, hlookup⟩
  refine ⟨next', hwrite, hhash, ⟨?_, hrest⟩, ?_⟩
  · intro txid merged hmerged
    rw [hlookup txid] at hmerged
    cases hchild : top.cacheCoins.lookup txid with
    | none =>
        rw [hchild] at hmerged
        exact hnext txid merged hmerged
    | some entry =>
        rw [hchild] at hmerged
        exact entryOk_mergedEntry (hnext txid) (htop txid entry hchild) hmerged
  · intro txid
    cases hchild : top.cacheCoins.lookup txid with
    | none => simp only [content, hlookup txid, hchild]
    | some entry =>
        have hsame := unspent_mergedEntry (hnext txid) (htop txid entry hchild)
        simp only [content, hlookup txid, hchild]
        exact hsame

theorem flush_base_spec [LawfulCCoinsView base] {b : base} {top : CCoinsViewCache}
    (h : StackOk b [top]) (txid : UInt256) :
    unspent (CCoinsView.getCoins
        (CCoinsView.batchWrite b top.cacheCoins top.hashBlock) txid) =
      unspent (content b [top] txid) := by
  have hclean : forall entry, top.cacheCoins.lookup txid = some entry ->
      entry.coins.cleanup = entry.coins := by
    intro entry hlookup
    exact (h.1 txid entry hlookup).clean
  have hcopied : forall entry, top.cacheCoins.lookup txid = some entry ->
      entry.dirty = false ->
      unspent (some entry.coins) = unspent (CCoinsView.getCoins b txid) := by
    intro entry hlookup hnotDirty
    exact (h.1 txid entry hlookup).copied hnotDirty
  rw [LawfulCCoinsView.getCoins_batchWrite b top.cacheCoins top.hashBlock txid hclean
    hcopied]
  cases hlookup : top.cacheCoins.lookup txid with
  | none => simp only [content, hlookup]
  | some entry =>
      simp only [content, hlookup]
      cases hdirty : entry.dirty with
      | true => rfl
      | false => exact (hcopied entry hlookup hdirty).symm

/-!
# Simulation
-/

/--
The best block of the top cache is fixed: flushing it hands down the best block
which the stack shows.
-/
def BestBlockKnown (b : base) : List CCoinsViewCache -> Prop
  | [] => True
  | cache :: rest => cache.hashBlock ≠ 0 ∨ bestBlock b rest = 0

structure Represents (s : CacheStack base) (flags : List Bool) (m : PlainCoins) :
    Prop where
  ok : StackOk s.view s.caches
  coins : forall txid, unspent (content s.view s.caches txid) = m.coins txid
  best : bestBlock s.view s.caches = m.bestBlock
  depth : s.caches.length = flags.length
  known : flags.head? = some true -> BestBlockKnown s.view s.caches

theorem represents_of_unchanged {s : CacheStack base} {flags : List Bool}
    {m : PlainCoins} (h : Represents s flags m) {caches' : List CCoinsViewCache}
    (hun : Unchanged s.view s.caches caches')
    (hknown : flags.head? = some true -> BestBlockKnown s.view caches') :
    Represents { s with caches := caches' } flags m where
  ok := hun.ok h.ok
  coins := fun txid => by
    rw [← h.coins txid]
    exact congrArg unspent (hun.content_eq txid)
  best := hun.bestBlock_eq.trans h.best
  depth := hun.length_eq.trans h.depth
  known := hknown

theorem bestBlockKnown_fetchCoins [LawfulCCoinsView base] {b : base} (txid : UInt256)
    {caches : List CCoinsViewCache} (h : BestBlockKnown b caches) :
    BestBlockKnown b (fetchCoins b txid caches).2 := by
  cases caches with
  | nil => exact h
  | cons cache rest =>
      have hbest := bestBlock_fetchCoins b txid rest
      unfold fetchCoins
      cases hlookup : cache.cacheCoins.lookup txid with
      | some entry => exact h
      | none =>
          rcases hfetch : fetchCoins b txid rest with ⟨found, rest'⟩
          rw [hfetch] at hbest
          cases found <;> simpa only [BestBlockKnown, hbest] using h

theorem represents_fetchCoins [LawfulCCoinsView base] {s : CacheStack base}
    {flags : List Bool} {m : PlainCoins} (h : Represents s flags m) (txid : UInt256) :
    Represents { s with caches := (fetchCoins s.view txid s.caches).2 } flags m :=
  represents_of_unchanged h (unchanged_fetchCoins s.view txid s.caches)
    (fun hflag => bestBlockKnown_fetchCoins txid (h.known hflag))

theorem represents_modifyCoins [LawfulCCoinsView base] {s : CacheStack base}
    {flags : List Bool} {m : PlainCoins} (h : Represents s flags m)
    (hdepth : s.caches ≠ []) (txid : UInt256) (coins : CCoins) :
    exists caches', modifyCoins s.view txid coins s.caches = some caches' ∧
      Represents { s with caches := caches' } flags
        { m with coins := Function.update m.coins txid (unspent (some coins.cleanup)) } := by
  rcases List.exists_cons_of_ne_nil hdepth with ⟨cache, rest, hcaches⟩
  have hok := h.ok
  rw [hcaches] at hok
  rcases modifyCoins_spec txid coins hok with ⟨cache', rest', hmod, hun, hhash, hok', hcontent⟩
  refine ⟨cache' :: rest', ?_, hok', ?_, ?_, ?_, ?_⟩
  · rw [hcaches]
    exact hmod
  · intro other
    show unspent (content s.view (cache' :: rest') other) =
      Function.update m.coins txid (unspent (some coins.cleanup)) other
    rw [hcontent other, ← hcaches, h.coins other]
    by_cases heq : other = txid
    · rw [if_pos heq, heq, Function.update_self]
    · rw [if_neg heq, Function.update_of_ne heq]
  · have hbest := h.best
    rw [hcaches] at hbest
    show bestBlock s.view (cache' :: rest') = m.bestBlock
    simp only [bestBlock, hhash, hun.bestBlock_eq] at hbest ⊢
    exact hbest
  · have hlength := h.depth
    rw [hcaches] at hlength
    show (cache' :: rest').length = flags.length
    rw [List.length_cons, hun.length_eq]
    exact hlength
  · intro hflag
    have hknown := h.known hflag
    rw [hcaches] at hknown
    show BestBlockKnown s.view (cache' :: rest')
    simpa only [BestBlockKnown, hhash, hun.bestBlock_eq] using hknown

/-- A flush into the cache below, whose best block then counts as set. -/
theorem represents_flush_cons {s : CacheStack base} {flag : Bool} {flags : List Bool}
    {m : PlainCoins} (h : Represents s (true :: flag :: flags) m) :
    exists s', flushAndPop s = some s' ∧ Represents s' (true :: flags) m := by
  have hlength := h.depth
  have hok := h.ok
  have hknown := h.known rfl
  have hcoins := h.coins
  have hbest := h.best
  unfold flushAndPop
  rcases s with ⟨b, caches⟩
  match caches with
  | [] => simp at hlength
  | [_] => simp at hlength
  | top :: next :: rest =>
      rcases flush_cons_spec hok with ⟨next', hwrite, hhash, hok', hcontent⟩
      refine ⟨{ view := b, caches := next' :: rest }, ?_, hok', ?_, ?_, ?_, ?_⟩
      · simp only [hwrite]
      · intro txid
        exact (hcontent txid).trans (hcoins txid)
      · rw [← hbest]
        simp only [bestBlock, hhash]
        -- a null best block was read as null through the levels below
        by_cases hnull : top.hashBlock = 0
        · rw [if_pos hnull, if_pos hnull]
          have hbelow : bestBlock b (next :: rest) = 0 :=
            hknown.resolve_left (fun hne => hne hnull)
          simp only [bestBlock] at hbelow
          split
          · rfl
          · rename_i hne
            rw [if_neg hne] at hbelow
            exact absurd hbelow hne
        · rw [if_neg hnull, if_neg hnull]
      · simp only [List.length_cons] at hlength ⊢
        omega
      · intro _
        show next'.hashBlock ≠ 0 ∨ bestBlock b rest = 0
        rw [hhash]
        rcases hknown with hne | hbelow
        · exact Or.inl hne
        · right
          simp only [bestBlock] at hbelow
          split at hbelow
          · exact hbelow
          · rename_i hne
            exact absurd hbelow hne

/-- A flush of the last cache into the base view. -/
theorem represents_flush_base [LawfulCCoinsView base] {s : CacheStack base}
    {m : PlainCoins} (h : Represents s [true] m) :
    exists s', flushAndPop s = some s' ∧ Represents s' [] m := by
  have hlength := h.depth
  have hok := h.ok
  have hknown := h.known rfl
  have hcoins := h.coins
  have hbest := h.best
  unfold flushAndPop
  rcases s with ⟨b, caches⟩
  match caches with
  | [] => simp at hlength
  | _ :: _ :: _ => simp at hlength
  | [top] =>
      refine ⟨_, rfl, trivial, ?_, ?_, rfl, ?_⟩
      · intro txid
        exact (flush_base_spec hok txid).trans (hcoins txid)
      · rw [← hbest]
        simp only [bestBlock]
        have hwritten :=
          LawfulCCoinsView.getBestBlock_batchWrite b top.cacheCoins top.hashBlock
        by_cases hnull : top.hashBlock = 0
        · have hbelow : CCoinsView.getBestBlock b = 0 :=
            hknown.resolve_left (fun hne => hne hnull)
          rw [if_pos hnull]
          rcases hwritten with hset | hkept
          · rw [hset, hnull, hbelow]
          · exact hkept.2
        · rw [if_neg hnull]
          exact hwritten.resolve_right (fun hkept => hnull hkept.1)
      · intro hflag
        cases hflag

/-- One permitted operation, whatever it is. -/
theorem represents_step [LawfulCCoinsView base] (s : CacheStack base)
    (flags : List Bool) (m : PlainCoins) (o : CacheOp) (flags' : List Bool)
    (h : Represents s flags m) (hpermit : permit flags o = some flags') :
    exists answer s', step s o = some (answer, s') ∧
      AnswerMatches answer (PlainCoins.step m o).1 ∧
      Represents s' flags' (PlainCoins.step m o).2 := by
  have hfound : forall txid, (fetchCoins s.view txid s.caches).1 =
      content s.view s.caches txid := fun txid => fetchCoins_fst s.view txid s.caches
  -- every operation but a push needs a top cache, and the guard has one flag for each
  have htop : flags ≠ [] -> exists cache rest, s.caches = cache :: rest := by
    intro hflags
    apply List.exists_cons_of_ne_nil
    intro hnil
    have hlength := h.depth
    rw [hnil] at hlength
    exact hflags (List.length_eq_zero_iff.mp hlength.symm)
  cases o with
  | getCoins txid =>
      cases flags with
      | nil => cases hpermit
      | cons flag flags =>
          cases hpermit
          rcases htop (List.cons_ne_nil _ _) with ⟨cache, rest, hcaches⟩
          refine ⟨CacheAnswer.coins (fetchCoins s.view txid s.caches).1, _, ?_, ?_,
            represents_fetchCoins h txid⟩
          · simp only [step, hcaches]
          · show unspent (fetchCoins s.view txid s.caches).1 = m.coins txid
            rw [hfound txid, h.coins txid]
  | accessCoins txid =>
      cases flags with
      | nil => cases hpermit
      | cons flag flags =>
          cases hpermit
          rcases htop (List.cons_ne_nil _ _) with ⟨cache, rest, hcaches⟩
          refine ⟨CacheAnswer.coins (fetchCoins s.view txid s.caches).1, _, ?_, ?_,
            represents_fetchCoins h txid⟩
          · simp only [step, hcaches]
          · show unspent (fetchCoins s.view txid s.caches).1 = m.coins txid
            rw [hfound txid, h.coins txid]
  | haveCoins txid =>
      cases flags with
      | nil => cases hpermit
      | cons flag flags =>
          cases hpermit
          rcases htop (List.cons_ne_nil _ _) with ⟨cache, rest, hcaches⟩
          refine ⟨CacheAnswer.haveCoins
            ((fetchCoins s.view txid s.caches).1.any fun coins => !coins.vout.isEmpty),
            _, ?_, ?_, represents_fetchCoins h txid⟩
          · simp only [step, hcaches]
          · show CacheAnswer.haveCoins _ = CacheAnswer.haveCoins (m.coins txid).isSome
            rw [hfound txid, ← h.coins txid]
            cases hcontent : content s.view s.caches txid with
            | none => rfl
            | some coins =>
                rw [isSome_unspent_of_clean (content_clean h.ok hcontent)]
                rfl
  | modifyCoins txid coins =>
      cases flags with
      | nil => cases hpermit
      | cons flag flags =>
          cases hpermit
          rcases htop (List.cons_ne_nil _ _) with ⟨cache, rest, hcaches⟩
          have hne : s.caches ≠ [] := by
            rw [hcaches]
            exact List.cons_ne_nil _ _
          rcases represents_modifyCoins h hne txid coins with ⟨caches', hmod, hrep⟩
          refine ⟨CacheAnswer.done, _, ?_, rfl, hrep⟩
          simp only [step, hmod]
  | getBestBlock =>
      cases flags with
      | nil => cases hpermit
      | cons flag flags =>
          cases hpermit
          rcases htop (List.cons_ne_nil _ _) with ⟨cache, rest, hcaches⟩
          have hknown : BestBlockKnown s.view (getBestBlock s.view s.caches).2 := by
            rcases getBestBlock_known s.view cache rest with ⟨cache', rest', heq, hknown⟩
            rw [hcaches, heq]
            exact hknown
          have hun := unchanged_getBestBlock s.view s.caches
          refine ⟨CacheAnswer.bestBlock (getBestBlock s.view s.caches).1,
            { s with caches := (getBestBlock s.view s.caches).2 }, ?_, ?_, ?_⟩
          · simp only [step, hcaches]
          · show CacheAnswer.bestBlock _ = CacheAnswer.bestBlock m.bestBlock
            rw [getBestBlock_fst, h.best]
          · exact ⟨hun.ok h.ok, fun txid => by rw [hun.content_eq]; exact h.coins txid,
              hun.bestBlock_eq.trans h.best, hun.length_eq.trans h.depth,
              fun _ => hknown⟩
  | setBestBlock hash =>
      cases flags with
      | nil => cases hpermit
      | cons flag flags =>
          simp only [permit] at hpermit
          split at hpermit
          · cases hpermit
          · rename_i hne
            cases hpermit
            rcases htop (List.cons_ne_nil _ _) with ⟨cache, rest, hcaches⟩
            have hok := h.ok
            have hcoins := h.coins
            have hdepth := h.depth
            rw [hcaches] at hok hcoins hdepth
            refine ⟨CacheAnswer.done,
              { s with caches := { cache with hashBlock := hash } :: rest }, ?_, rfl, ?_⟩
            · simp only [step, hcaches]
            · exact ⟨hok, hcoins, if_neg hne, hdepth, fun _ => Or.inl hne⟩
  | flushAndPop =>
      match flags, hpermit with
      | [true], hpermit =>
          cases hpermit
          rcases represents_flush_base h with ⟨s', hflush, hrep⟩
          refine ⟨CacheAnswer.done, s', ?_, rfl, hrep⟩
          simp only [step, hflush]
      | true :: flag :: flags, hpermit =>
          cases hpermit
          rcases represents_flush_cons h with ⟨s', hflush, hrep⟩
          refine ⟨CacheAnswer.done, s', ?_, rfl, hrep⟩
          simp only [step, hflush]
  | push =>
      cases hpermit
      refine ⟨CacheAnswer.done, { s with caches := {} :: s.caches }, rfl, rfl, ?_⟩
      refine ⟨⟨?_, h.ok⟩, ?_, ?_, ?_, ?_⟩
      · intro txid entry hlookup
        rw [AList.lookup_empty] at hlookup
        cases hlookup
      · intro txid
        show unspent (content s.view ({} :: s.caches) txid) = m.coins txid
        simp only [content, AList.lookup_empty]
        exact h.coins txid
      · exact h.best
      · show s.caches.length + 1 = flags.length + 1
        rw [h.depth]
      · intro hflag
        cases hflag

/-- The plain map which a base view stands for. -/
def PlainCoins.ofBase (b : base) : PlainCoins where
  coins := fun txid => unspent (CCoinsView.getCoins b txid)
  bestBlock := CCoinsView.getBestBlock b

theorem represents_base (b : base) :
    Represents { view := b } [] (PlainCoins.ofBase b) := by
  refine ⟨trivial, fun _ => rfl, rfl, rfl, ?_⟩
  intro hflag
  cases hflag

/--
Every permitted run over a lawful base goes through (so no assertion fails),
answers like the plain map, and once all levels are flushed the base holds that
map and its best block.
-/
theorem cacheStack_refines_plainCoins [LawfulCCoinsView base] (b : base)
    (ops : List CacheOp) (flags : List Bool)
    (hpermit : Foundation.guardRun permit [] ops = some flags) :
    exists answers s', Foundation.run step { view := b } ops = some (answers, s') ∧
      List.Forall₂ AnswerMatches answers
        (Foundation.abstractRun PlainCoins.step (PlainCoins.ofBase b) ops).1 ∧
      (s'.caches = [] ->
        PlainCoins.ofBase s'.view =
          (Foundation.abstractRun PlainCoins.step (PlainCoins.ofBase b) ops).2) := by
  rcases Foundation.run_simulates represents_step ops { view := b } []
      (PlainCoins.ofBase b) flags (represents_base b) hpermit with
    ⟨answers, s', hrun, hanswers, hrep⟩
  refine ⟨answers, s', hrun, hanswers, ?_⟩
  intro hflushed
  have hcoins := hrep.coins
  have hbest := hrep.best
  rw [hflushed] at hcoins hbest
  cases hm : (Foundation.abstractRun PlainCoins.step (PlainCoins.ofBase b) ops).2 with
  | mk coins best =>
      rw [hm] at hcoins hbest
      simp only [PlainCoins.ofBase, PlainCoins.mk.injEq]
      exact ⟨funext hcoins, hbest⟩

/--
Two levels over the database: an entry is written through the upper one, both are
flushed and the entry is read back through a new cache.
-/
theorem cacheStack_refines_plainCoins_two_levels :
    exists answers s',
      Foundation.run step ({ view := {} } : CacheStack CCoinsViewDB)
        [CacheOp.push, CacheOp.push,
          CacheOp.modifyCoins 7 { vout := [CTxOut.make 5 []], nHeight := 3 },
          CacheOp.setBestBlock 9, CacheOp.flushAndPop, CacheOp.getCoins 7,
          CacheOp.getBestBlock, CacheOp.flushAndPop] = some (answers, s') ∧
      List.Forall₂ AnswerMatches answers
        (Foundation.abstractRun PlainCoins.step (PlainCoins.ofBase ({} : CCoinsViewDB))
          [CacheOp.push, CacheOp.push,
            CacheOp.modifyCoins 7 { vout := [CTxOut.make 5 []], nHeight := 3 },
            CacheOp.setBestBlock 9, CacheOp.flushAndPop, CacheOp.getCoins 7,
            CacheOp.getBestBlock, CacheOp.flushAndPop]).1 ∧
      (s'.caches = [] ->
        PlainCoins.ofBase s'.view =
          (Foundation.abstractRun PlainCoins.step (PlainCoins.ofBase ({} : CCoinsViewDB))
            [CacheOp.push, CacheOp.push,
              CacheOp.modifyCoins 7 { vout := [CTxOut.make 5 []], nHeight := 3 },
              CacheOp.setBestBlock 9, CacheOp.flushAndPop, CacheOp.getCoins 7,
              CacheOp.getBestBlock, CacheOp.flushAndPop]).2) :=
  cacheStack_refines_plainCoins _ _ [] (by decide)

/--
A null hash means that a cache has no best block of its own.  Setting it and
flushing leaves the best block of the database as it was.
-/
theorem setBestBlock_null_lost :
    exists answers s',
      Foundation.run step
        ({ view := { hashBestChain := some 5 } } : CacheStack CCoinsViewDB)
        [CacheOp.push, CacheOp.setBestBlock 0, CacheOp.flushAndPop] =
          some (answers, s') ∧
      s'.caches = [] ∧
      (PlainCoins.ofBase s'.view).bestBlock ≠
        (Foundation.abstractRun PlainCoins.step
          (PlainCoins.ofBase ({ hashBestChain := some 5 } : CCoinsViewDB))
          [CacheOp.push, CacheOp.setBestBlock 0, CacheOp.flushAndPop]).2.bestBlock := by
  refine ⟨_, _, rfl, rfl, ?_⟩
  decide

end CacheStack

end Hbcur
