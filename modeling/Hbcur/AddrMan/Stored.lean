import Hbcur.AddrMan.Disk

/-!
# What is stored

The stream which `Serialize` writes for a manager that passes the check, and what is read from it:
new entries are numbered from zero in the order of their ids.
-/

namespace Hbcur
namespace AddrMan

open Foundation Serialize Net

namespace CAddrMan

variable (s : CAddrMan) {Hash : List UInt8 -> UInt256}

/-- The entries with references, in the order in which they are written. -/
def freshEntries : List Entry :=
  (StdMap.inOrder s.mapInfo).filter fun e => e.2.nRefCount ≠ 0

def triedEntries : List Entry :=
  (StdMap.inOrder s.mapInfo).filter fun e => e.2.fInTried

/-- The number of an id in the stream. -/
def numberOf (nId : Int) : Int := ((s.freshEntries.map Sigma.fst).idxOf nId : Nat)

def storedRecord (e : Entry) : Record := e.2.record.onDisk

def stored : Peers where
  nVersion := 1
  nKey := s.nKey
  nNew := s.nNew
  nTried := s.nTried
  nUBuckets := ADDRMAN_NEW_BUCKET_COUNT
  fresh := s.freshEntries.map storedRecord
  tried := s.triedEntries.map storedRecord
  bucketIndexes := (buckets ADDRMAN_NEW_BUCKET_COUNT).map fun bucket =>
    (s.bucketIds bucket).map s.numberOf

/-!
# The entries of a manager
-/

variable {s}

theorem Checked.refCount_ne_zero_iff (h : s.Checked Hash) {nId : Int} {info : CAddrInfo}
    (hinfo : s.mapInfo.lookup nId = some info) : info.nRefCount ≠ 0 <-> info.fInTried = false := by
  have hentry := h.entry nId info hinfo
  constructor
  · intro hne
    apply Bool.eq_false_iff.mpr
    exact fun htried => hne (hentry.tried htried).2
  · intro hfresh
    have hpos := (hentry.fresh hfresh).1
    omega

theorem Checked.mem_freshEntries_iff (h : s.Checked Hash) (nId : Int) (info : CAddrInfo) :
    ⟨nId, info⟩ ∈ s.freshEntries <->
      s.mapInfo.lookup nId = some info ∧ info.fInTried = false := by
  rw [freshEntries, List.mem_filter, StdMap.mem_inOrder_iff, decide_eq_true_iff]
  apply and_congr_right
  exact fun hinfo => h.refCount_ne_zero_iff hinfo

theorem mem_triedEntries_iff (nId : Int) (info : CAddrInfo) :
    ⟨nId, info⟩ ∈ s.triedEntries <->
      s.mapInfo.lookup nId = some info ∧ info.fInTried = true := by
  rw [triedEntries, List.mem_filter, StdMap.mem_inOrder_iff]

theorem nodup_freshIds : (s.freshEntries.map Sigma.fst).Nodup :=
  (StdMap.nodup_keys_inOrder s.mapInfo).sublist (List.filter_sublist.map Sigma.fst)

theorem nodup_triedIds : (s.triedEntries.map Sigma.fst).Nodup :=
  (StdMap.nodup_keys_inOrder s.mapInfo).sublist (List.filter_sublist.map Sigma.fst)

theorem Checked.length_freshEntries (h : s.Checked Hash) :
    (s.freshEntries.length : Int) = s.nNew := by
  rw [← h.countNew, freshEntries, ← List.countP_eq_length_filter]
  unfold StdMap.countValues
  rw [← (StdMap.perm_inOrder s.mapInfo).countP_eq]
  apply congrArg
  apply List.countP_congr
  intro e hmem
  have hinfo := (StdMap.mem_inOrder_iff s.mapInfo e.1 e.2).mp hmem
  rw [decide_eq_true_iff, h.refCount_ne_zero_iff hinfo, Bool.not_eq_true']

theorem Checked.length_triedEntries (h : s.Checked Hash) :
    (s.triedEntries.length : Int) = s.nTried := by
  rw [← h.countTried, triedEntries, ← List.countP_eq_length_filter]
  unfold StdMap.countValues
  rw [← (StdMap.perm_inOrder s.mapInfo).countP_eq]

/-- Different ids which all stand in some slot are not more than the slots. -/
theorem length_le_card {slot : Type} [Fintype slot] (table : slot -> Int) {ids : List Int}
    (hnodup : ids.Nodup) (hin : forall nId, nId ∈ ids -> exists s, table s = nId) :
    ids.length ≤ Fintype.card slot := by
  rw [← List.toFinset_card_of_nodup hnodup]
  have hsubset : ids.toFinset ⊆ Finset.univ.image table := by
    intro nId hmem
    rcases hin nId (List.mem_toFinset.mp hmem) with ⟨at', heq⟩
    exact Finset.mem_image.mpr ⟨at', Finset.mem_univ _, heq⟩
  exact (Finset.card_le_card hsubset).trans Finset.card_image_le

theorem Checked.nNew_bounds (h : s.Checked Hash) : 0 ≤ s.nNew ∧ s.nNew ≤ 65536 := by
  have hle : (s.freshEntries.map Sigma.fst).length ≤ Fintype.card NewSlot := by
    apply length_le_card s.vvNew nodup_freshIds
    intro nId hmem
    rcases List.mem_map.mp hmem with ⟨⟨n, info⟩, hentry, rfl⟩
    rcases (h.mem_freshEntries_iff n info).mp hentry with ⟨hinfo, hfresh⟩
    have hpos := ((h.entry n info hinfo).fresh hfresh).1
    have hcount := (h.tables.fresh n info hinfo hfresh).2
    have href : 0 < references s.vvNew n := by omega
    exact (references_pos_iff _ _).mp href
  have hcard : Fintype.card NewSlot = 65536 := by
    rw [Fintype.card_prod, Fintype.card_fin, Fintype.card_fin]
    rfl
  have hlen := h.length_freshEntries
  rw [List.length_map, hcard] at hle
  omega

theorem Checked.nTried_bounds (h : s.Checked Hash) : 0 ≤ s.nTried ∧ s.nTried ≤ 16384 := by
  have hle : (s.triedEntries.map Sigma.fst).length ≤ Fintype.card TriedSlot := by
    apply length_le_card s.vvTried nodup_triedIds
    intro nId hmem
    rcases List.mem_map.mp hmem with ⟨⟨n, info⟩, hentry, rfl⟩
    rcases (mem_triedEntries_iff n info).mp hentry with ⟨hinfo, htried⟩
    exact ⟨_, (h.tables.tried n info hinfo htried).2⟩
  have hcard : Fintype.card TriedSlot = 16384 := by
    rw [Fintype.card_prod, Fintype.card_fin, Fintype.card_fin]
    rfl
  have hlen := h.length_triedEntries
  rw [List.length_map, hcard] at hle
  omega

/-- The ids in the new table are those of new entries. -/
theorem Checked.mem_freshIds (h : s.Checked Hash) {slot : NewSlot} (hne : s.vvNew slot ≠ -1) :
    s.vvNew slot ∈ s.freshEntries.map Sigma.fst := by
  rcases h.tables.newSlot slot hne with ⟨info, hinfo, hfresh, _⟩
  exact List.mem_map.mpr ⟨⟨_, info⟩, (h.mem_freshEntries_iff _ info).mpr ⟨hinfo, hfresh⟩, rfl⟩

theorem mem_bucketIds {bucket : Fin ADDRMAN_NEW_BUCKET_COUNT} {nId : Int}
    (hmem : nId ∈ s.bucketIds bucket) : exists i, s.vvNew (bucket, i) = nId ∧ nId ≠ -1 := by
  rcases List.mem_filter.mp hmem with ⟨hin, hne⟩
  rcases List.mem_map.mp hin with ⟨i, _, heq⟩
  exact ⟨i, heq, by simpa using hne⟩

theorem Checked.numberOf_bounds (h : s.Checked Hash) {nId : Int}
    (hmem : nId ∈ s.freshEntries.map Sigma.fst) : 0 ≤ s.numberOf nId ∧ s.numberOf nId < s.nNew := by
  have hlt := List.idxOf_lt_length_of_mem hmem
  have hlen := h.length_freshEntries
  rw [List.length_map] at hlt
  unfold numberOf
  omega

/-!
# Writing
-/

theorem foldlM_writeFresh (nVersion : BitVec 32) :
    forall (L : List Entry) (m : StdMap Int Int) (nIds : Int)
      (out : List UInt8), (L.map Sigma.fst).Nodup ->
      nIds + ((L.filter fun e => e.2.nRefCount ≠ 0).length : Int) ≤ s.nNew ->
      exists m', L.foldlM (s.writeFresh nVersion) (m, nIds, out) =
          some (m', nIds + ((L.filter fun e => e.2.nRefCount ≠ 0).length : Int),
            out ++ (L.filter fun e => e.2.nRefCount ≠ 0).flatMap
              fun e => e.2.record.write nVersion) ∧
        (forall nId, nId ∉ L.map Sigma.fst -> m'.lookup nId = m.lookup nId) ∧
        forall nId, nId ∈ (L.filter fun e => e.2.nRefCount ≠ 0).map Sigma.fst ->
          m'.lookup nId = some (nIds +
            (((L.filter fun e => e.2.nRefCount ≠ 0).map Sigma.fst).idxOf nId : Nat)) := by
  intro L
  induction L with
  | nil =>
      intro m nIds out _ _
      refine ⟨m, ?_, fun _ _ => rfl, fun nId hmem => nomatch hmem⟩
      simp
  | cons e rest ih =>
      intro m nIds out hnodup hbound
      rw [List.map_cons, List.nodup_cons] at hnodup
      by_cases href : e.2.nRefCount ≠ 0
      · have hfilter : ((e :: rest).filter fun e => decide (e.2.nRefCount ≠ 0)) =
            e :: rest.filter fun e => decide (e.2.nRefCount ≠ 0) :=
          List.filter_cons_of_pos (by simpa using href)
        rw [hfilter, List.length_cons] at hbound
        have hne : nIds ≠ s.nNew := by omega
        rcases ih (m.insert e.1 nIds) (nIds + 1) (out ++ e.2.record.write nVersion) hnodup.2
          (by omega) with ⟨m', hrun, hother, hnumber⟩
        refine ⟨m', ?_, ?_, ?_⟩
        · have hstep : s.writeFresh nVersion (m, nIds, out) e =
              some (m.insert e.1 nIds, nIds + 1, out ++ e.2.record.write nVersion) := by
            unfold writeFresh
            dsimp only
            rw [if_pos href, if_pos hne]
          rw [List.foldlM_cons, hstep, hfilter, List.length_cons, List.flatMap_cons,
            ← List.append_assoc]
          change rest.foldlM (s.writeFresh nVersion) _ = _
          rw [hrun]
          congr 3
          omega
        · intro nId hnot
          rw [List.map_cons, List.mem_cons, not_or] at hnot
          rw [hother nId hnot.2, StdMap.lookup_insert_eq, if_neg hnot.1]
        · intro nId hmem
          rw [hfilter, List.map_cons] at hmem ⊢
          by_cases heq : nId = e.1
          · rw [heq, hother e.1 hnodup.1, AList.lookup_insert, List.idxOf_cons_self]
            simp
          · have hrest := (List.mem_cons.mp hmem).resolve_left heq
            rw [hnumber nId hrest, List.idxOf_cons_ne _ (Ne.symm heq)]
            congr 1
            push_cast
            omega
      · have hfilter : ((e :: rest).filter fun e => decide (e.2.nRefCount ≠ 0)) =
            rest.filter fun e => decide (e.2.nRefCount ≠ 0) :=
          List.filter_cons_of_neg (by simpa using href)
        rw [hfilter] at hbound ⊢
        rcases ih (m.insert e.1 nIds) nIds out hnodup.2 hbound with ⟨m', hrun, hother, hnumber⟩
        refine ⟨m', ?_, ?_, hnumber⟩
        · have hstep : s.writeFresh nVersion (m, nIds, out) e =
              some (m.insert e.1 nIds, nIds, out) := by
            unfold writeFresh
            dsimp only
            rw [if_neg href]
          rw [List.foldlM_cons, hstep]
          exact hrun
        · intro nId hnot
          rw [List.map_cons, List.mem_cons, not_or] at hnot
          rw [hother nId hnot.2, StdMap.lookup_insert_eq, if_neg hnot.1]

theorem foldlM_writeTried (nVersion : BitVec 32) :
    forall (L : List Entry) (nIds : Int) (out : List UInt8),
      nIds + ((L.filter fun e => e.2.fInTried).length : Int) ≤ s.nTried ->
      L.foldlM (s.writeTried nVersion) (nIds, out) =
        some (nIds + ((L.filter fun e => e.2.fInTried).length : Int),
          out ++ (L.filter fun e => e.2.fInTried).flatMap fun e => e.2.record.write nVersion) := by
  intro L
  induction L with
  | nil =>
      intro nIds out _
      simp
  | cons e rest ih =>
      intro nIds out hbound
      cases htried : e.2.fInTried with
      | true =>
          have hfilter : ((e :: rest).filter fun e => e.2.fInTried) =
              e :: rest.filter fun e => e.2.fInTried := List.filter_cons_of_pos htried
          rw [hfilter, List.length_cons] at hbound
          have hne : nIds ≠ s.nTried := by omega
          have hstep : s.writeTried nVersion (nIds, out) e =
              some (nIds + 1, out ++ e.2.record.write nVersion) := by
            unfold writeTried
            dsimp only
            rw [if_pos htried, if_pos hne]
          rw [List.foldlM_cons, hstep, hfilter, List.length_cons, List.flatMap_cons,
            ← List.append_assoc]
          change rest.foldlM (s.writeTried nVersion) _ = _
          rw [ih _ _ (by omega)]
          congr 2
          omega
      | false =>
          have hfilter : ((e :: rest).filter fun e => e.2.fInTried) =
              rest.filter fun e => e.2.fInTried :=
            List.filter_cons_of_neg (by simp [htried])
          rw [hfilter] at hbound ⊢
          have hstep : s.writeTried nVersion (nIds, out) e = some (nIds, out) := by
            unfold writeTried
            dsimp only
            rw [htried]
            rfl
          rw [List.foldlM_cons, hstep]
          exact ih nIds out hbound

/-- What is written, with the numbers of the ids. -/
def storedBytes (s : CAddrMan) (nVersion : BitVec 32) : List UInt8 :=
  writeWord 1 1 ++ (writeWord 1 32 ++ (writeUInt256 s.nKey ++ (writeInt 4 s.nNew ++
    (writeInt 4 s.nTried ++
      (writeWord 4 (BitVec.ofNat 32 ADDRMAN_NEW_BUCKET_COUNT ^^^ bucketCountMask) ++
        (s.freshEntries.flatMap (fun e => e.2.record.write nVersion) ++
          (s.triedEntries.flatMap (fun e => e.2.record.write nVersion) ++
            (buckets ADDRMAN_NEW_BUCKET_COUNT).flatMap fun bucket =>
              writeBucket ((s.bucketIds bucket).map s.numberOf))))))))

/-- No assertion of `Serialize` fails. -/
theorem Checked.serialize (h : s.Checked Hash) (nVersion : BitVec 32) :
    s.serialize nVersion = some (s.storedBytes nVersion) := by
  have hfresh := h.length_freshEntries
  have htried := h.length_triedEntries
  have hfreshBound : 0 + (s.freshEntries.length : Int) ≤ s.nNew := by omega
  have htriedBound : 0 + (s.triedEntries.length : Int) ≤ s.nTried := by omega
  rcases foldlM_writeFresh nVersion (StdMap.inOrder s.mapInfo) (∅ : StdMap Int Int) 0 []
    (StdMap.nodup_keys_inOrder s.mapInfo) hfreshBound with ⟨mapUnkIds, hrun, _, hnumber⟩
  have hrun' := foldlM_writeTried nVersion (StdMap.inOrder s.mapInfo) 0 [] htriedBound
  have hindexes : forall bucket, ((s.bucketIds bucket).map fun n => (mapUnkIds.lookup n).getD 0) =
      (s.bucketIds bucket).map s.numberOf := by
    intro bucket
    apply List.map_congr_left
    intro nId hmem
    rcases mem_bucketIds hmem with ⟨i, heq, hne⟩
    rw [← heq] at hne ⊢
    rw [hnumber _ (h.mem_freshIds hne), Option.getD_some, Int.zero_add]
    rfl
  unfold CAddrMan.serialize storedBytes
  rw [hrun, some_bind]
  dsimp only
  rw [hrun', some_bind]
  dsimp only
  rw [List.nil_append, List.nil_append]
  simp only [hindexes]
  rfl

/-!
# Reading back
-/

theorem reads_writeBucket {indexes : List Int} (hlen : indexes.length ≤ ADDRMAN_BUCKET_SIZE)
    (hbound : forall n, n ∈ indexes -> 0 ≤ n ∧ n < 2147483648) :
    Reads Peers.readBucket (writeBucket indexes) indexes := by
  have hsize : (indexes.length : Int) < 2147483648 := by
    unfold ADDRMAN_BUCKET_SIZE at hlen
    omega
  have hindexes : Reads (readMany readInt32 (indexes.length : Int).toNat)
      (indexes.flatMap (writeInt 4)) indexes := by
    have hread : forall n, n ∈ indexes -> Reads readInt32 (writeInt 4 n) (id n) :=
      fun n hn => reads_writeInt32 (hbound n hn).1 (hbound n hn).2
    have hmany := reads_readMany indexes hread
    rw [List.map_id] at hmany
    exact hmany
  exact reads_readThen (reads_writeInt32 (Int.natCast_nonneg _) hsize) hindexes

theorem length_bucketIds (s : CAddrMan) (bucket : Fin ADDRMAN_NEW_BUCKET_COUNT) :
    (s.bucketIds bucket).length ≤ ADDRMAN_BUCKET_SIZE := by
  have hle := List.length_filter_le (fun n : Int => decide (n ≠ -1))
    ((buckets ADDRMAN_BUCKET_SIZE).map fun i => s.vvNew (bucket, i))
  rw [List.length_map] at hle
  have hlen : (buckets ADDRMAN_BUCKET_SIZE).length = ADDRMAN_BUCKET_SIZE := by
    rw [buckets]
    exact List.length_finRange
  rw [hlen] at hle
  exact hle

theorem Checked.reads_bucketIndexes (h : s.Checked Hash) :
    Reads (readMany Peers.readBucket ADDRMAN_NEW_BUCKET_COUNT)
      ((buckets ADDRMAN_NEW_BUCKET_COUNT).flatMap fun bucket =>
        writeBucket ((s.bucketIds bucket).map s.numberOf)) s.stored.bucketIndexes := by
  have hlen : s.stored.bucketIndexes.length = ADDRMAN_NEW_BUCKET_COUNT := by
    change List.length (List.map _ _) = _
    rw [List.length_map, buckets]
    exact List.length_finRange
  have hword : ((buckets ADDRMAN_NEW_BUCKET_COUNT).flatMap fun bucket =>
      writeBucket ((s.bucketIds bucket).map s.numberOf)) =
      s.stored.bucketIndexes.flatMap writeBucket := by
    change _ = List.flatMap writeBucket (List.map _ _)
    rw [List.flatMap_map]
  have hbounds := h.nNew_bounds
  have hread : forall indexes, indexes ∈ s.stored.bucketIndexes ->
      Reads Peers.readBucket (writeBucket indexes) (id indexes) := by
    intro indexes hmem
    rcases List.mem_map.mp hmem with ⟨bucket, _, rfl⟩
    apply reads_writeBucket
    · rw [List.length_map]
      exact length_bucketIds s bucket
    · intro n hn
      rcases List.mem_map.mp hn with ⟨nId, hid, rfl⟩
      rcases mem_bucketIds hid with ⟨i, heq, hne⟩
      rw [← heq] at hne ⊢
      have hnumber := h.numberOf_bounds (h.mem_freshIds hne)
      omega
  have hmany := reads_readMany s.stored.bucketIndexes hread
  rw [List.map_id, hlen] at hmany
  rw [hword]
  exact hmany

theorem reads_records (nVersion : BitVec 32) (entries : List Entry) :
    Reads (readMany Record.read entries.length)
      (entries.flatMap fun e => e.2.record.write nVersion) (entries.map storedRecord) := by
  have hmany := reads_readMany (entries.map fun e => e.2.record)
    fun record _ => Record.reads_write nVersion record
  rw [List.length_map, List.flatMap_map, List.map_map] at hmany
  exact hmany

/-- The stream is read back. -/
theorem Checked.reads_storedBytes (h : s.Checked Hash) (nVersion : BitVec 32) :
    Reads Peers.read (s.storedBytes nVersion) s.stored := by
  have hnew := h.nNew_bounds
  have htried := h.nTried_bounds
  have hfresh : s.nNew.toNat = s.freshEntries.length := by
    have hlen := h.length_freshEntries
    omega
  have htriedLen : s.nTried.toNat = s.triedEntries.length := by
    have hlen := h.length_triedEntries
    omega
  have hrecords := reads_records nVersion s.freshEntries
  have hrecords' := reads_records nVersion s.triedEntries
  rw [← hfresh] at hrecords
  rw [← htriedLen] at hrecords'
  have hmask : (BitVec.ofNat 32 ADDRMAN_NEW_BUCKET_COUNT ^^^ bucketCountMask ^^^
      bucketCountMask).toInt = 1024 := by decide
  have hlast : Reads (readThen (readMany Peers.readBucket ADDRMAN_NEW_BUCKET_COUNT)
      fun bucketIndexes => readDone { s.stored with bucketIndexes })
      (((buckets ADDRMAN_NEW_BUCKET_COUNT).flatMap fun bucket =>
        writeBucket ((s.bucketIds bucket).map s.numberOf)) ++ []) s.stored := by
    apply reads_readThen h.reads_bucketIndexes
    exact reads_readDone _
  rw [List.append_nil] at hlast
  unfold Peers.read storedBytes
  apply reads_readThen (reads_writeWord 1 1)
  apply reads_readThen (reads_writeWord 1 32)
  rw [if_neg (by decide)]
  unfold Peers.readAfterKeySize
  apply reads_readThen (reads_writeUInt256 s.nKey)
  apply reads_readThen (reads_writeInt32 hnew.1 (by omega))
  apply reads_readThen (reads_writeInt32 htried.1 (by omega))
  apply reads_readThen (reads_writeWord 4 _)
  dsimp only
  rw [if_pos (by decide), hmask]
  apply reads_readThen hrecords
  apply reads_readThen hrecords'
  exact hlast

end CAddrMan

end AddrMan
end Hbcur
