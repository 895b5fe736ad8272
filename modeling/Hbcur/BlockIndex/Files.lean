import Mathlib.Data.Finset.Basic
import Mathlib.Order.CompletePartialOrder
import Mathlib.Order.Interval.Set.Disjoint
import Hbcur.BlockIndex.Disk

/-!
# Block and undo files

`CBlockFileInfo` of `main.h` with `FindBlockPos` and `FindUndoPos` of `main.cpp`, which give out
the places of blocks in the files `blk*.dat` and of undo data in the files `rev*.dat`.
-/

namespace Hbcur
namespace BlockIndex
namespace Disk

open Foundation

def MAX_BLOCKFILE_SIZE : BitVec 32 := 0x8000000#32

def BLOCKFILE_CHUNK_SIZE : BitVec 32 := 0x1000000#32

def UNDOFILE_CHUNK_SIZE : BitVec 32 := 0x100000#32

structure CBlockFileInfo where
  nBlocks : BitVec 32 := 0
  nSize : BitVec 32 := 0
  nUndoSize : BitVec 32 := 0
  nHeightFirst : BitVec 32 := 0
  nHeightLast : BitVec 32 := 0
  nTimeFirst : BitVec 64 := 0
  nTimeLast : BitVec 64 := 0

def CBlockFileInfo.init : CBlockFileInfo := {}

/-- `AddBlock`; it does not update `nSize`. -/
def CBlockFileInfo.addBlock (info : CBlockFileInfo) (nHeightIn : BitVec 32) (nTimeIn : BitVec 64) :
    CBlockFileInfo :=
  { info with
    nHeightFirst :=
      if info.nBlocks = 0 ∨ nHeightIn < info.nHeightFirst then nHeightIn else info.nHeightFirst
    nTimeFirst :=
      if info.nBlocks = 0 ∨ nTimeIn < info.nTimeFirst then nTimeIn else info.nTimeFirst
    nBlocks := info.nBlocks + 1
    nHeightLast := if info.nHeightLast < nHeightIn then nHeightIn else info.nHeightLast
    nTimeLast := if info.nTimeLast < nTimeIn then nTimeIn else info.nTimeLast }

structure BlockFiles where
  vinfoBlockFile : List CBlockFileInfo
  nLastBlockFile : Nat
  setDirtyFileInfo : Finset Nat

/-- What a call answers: the result, the position and the files afterwards. -/
structure FoundPos where
  ok : Bool
  pos : CDiskBlockPos
  files : BlockFiles

namespace BlockFiles

/-- The entry of a file, or that of a new one. -/
def info (vinfoBlockFile : List CBlockFileInfo) (nFile : Nat) : CBlockFileInfo :=
  vinfoBlockFile.getD nFile CBlockFileInfo.init

/-- `if (vinfoBlockFile.size() <= nFile) vinfoBlockFile.resize(nFile + 1)` -/
def atLeast (vinfoBlockFile : List CBlockFileInfo) (nFile : Nat) : List CBlockFileInfo :=
  vinfoBlockFile ++ List.replicate (nFile + 1 - vinfoBlockFile.length) CBlockFileInfo.init

/-- The loop over files which are too full, as far as the fuel lasts. -/
def leaveFullFiles (nAddSize : BitVec 32) :
    Nat -> List CBlockFileInfo -> Nat -> Option (List CBlockFileInfo × Nat)
  | 0, _, _ => none
  | fuel + 1, vinfoBlockFile, nFile =>
      if (info vinfoBlockFile nFile).nSize + nAddSize ≥ MAX_BLOCKFILE_SIZE then
        leaveFullFiles nAddSize fuel (atLeast vinfoBlockFile (nFile + 1)) (nFile + 1)
      else some (vinfoBlockFile, nFile)

/-- There is no new chunk to be allocated, or the disk has room for it. -/
def spaceForChunks (checkDiskSpace : BitVec 32 -> Bool) (chunk nPos nNewSize : BitVec 32) : Bool :=
  let nOldChunks := (nPos + chunk - 1) / chunk
  let nNewChunks := (nNewSize + chunk - 1) / chunk
  !decide (nNewChunks > nOldChunks) || checkDiskSpace (nNewChunks * chunk - nPos)

/-- The size of a file once a block was added: advanced, or raised to the end of the block. -/
def newSize (fKnown : Bool) (nPos nAddSize nSize : BitVec 32) : BitVec 32 :=
  if fKnown then if nPos + nAddSize < nSize then nSize else nPos + nAddSize
  else nSize + nAddSize

/-- The part of `FindBlockPos` which comes after the file and the position are chosen. -/
def addToFile (checkDiskSpace : BitVec 32 -> Bool) (s : BlockFiles)
    (vinfoBlockFile : List CBlockFileInfo) (nFile : Nat) (pos : CDiskBlockPos)
    (nAddSize nHeight : BitVec 32) (nTime : BitVec 64) (fKnown : Bool) : FoundPos :=
  let added := (info vinfoBlockFile nFile).addBlock nHeight nTime
  let nSize := newSize fKnown pos.nPos nAddSize added.nSize
  let ok := fKnown || spaceForChunks checkDiskSpace BLOCKFILE_CHUNK_SIZE pos.nPos nSize
  { ok := ok
    pos := pos
    files :=
      { vinfoBlockFile := vinfoBlockFile.set nFile { added with nSize := nSize }
        nLastBlockFile := nFile
        setDirtyFileInfo :=
          if ok then insert nFile s.setDirtyFileInfo else s.setDirtyFileInfo } }

def findBlockPos (fuel : Nat) (checkDiskSpace : BitVec 32 -> Bool) (s : BlockFiles)
    (pos : CDiskBlockPos) (nAddSize nHeight : BitVec 32) (nTime : BitVec 64) (fKnown : Bool) :
    Option FoundPos :=
  let nFile := if fKnown then pos.nFile.toNat else s.nLastBlockFile
  let vinfoBlockFile := atLeast s.vinfoBlockFile nFile
  if fKnown then
    some (s.addToFile checkDiskSpace vinfoBlockFile nFile pos nAddSize nHeight nTime fKnown)
  else
    match leaveFullFiles nAddSize fuel vinfoBlockFile nFile with
    | none => none
    | some (vinfoBlockFile, nFile) =>
        let pos : CDiskBlockPos := ⟨nFile, (info vinfoBlockFile nFile).nSize⟩
        some (s.addToFile checkDiskSpace vinfoBlockFile nFile pos nAddSize nHeight nTime fKnown)

def findUndoPos (checkDiskSpace : BitVec 32 -> Bool) (s : BlockFiles) (nFile : Nat)
    (nAddSize : BitVec 32) : FoundPos :=
  let pos : CDiskBlockPos := ⟨nFile, (info s.vinfoBlockFile nFile).nUndoSize⟩
  let nNewSize := (info s.vinfoBlockFile nFile).nUndoSize + nAddSize
  let s' : BlockFiles :=
    { s with
      vinfoBlockFile := s.vinfoBlockFile.set nFile
        { info s.vinfoBlockFile nFile with nUndoSize := nNewSize }
      setDirtyFileInfo := insert nFile s.setDirtyFileInfo }
  ⟨spaceForChunks checkDiskSpace UNDOFILE_CHUNK_SIZE pos.nPos nNewSize, pos, s'⟩

/-!
# Entries
-/

theorem info_atLeast (vinfoBlockFile : List CBlockFileInfo) (nFile f : Nat) :
    info (atLeast vinfoBlockFile nFile) f = info vinfoBlockFile f := by
  unfold info atLeast
  rcases Nat.lt_or_ge f vinfoBlockFile.length with hlt | hge
  · exact List.getD_append _ _ _ _ hlt
  · rw [List.getD_append_right _ _ _ _ hge, List.getD_eq_getElem?_getD,
      List.getElem?_getD_replicate_default_eq, List.getD_eq_default _ _ hge]

theorem lt_length_atLeast (vinfoBlockFile : List CBlockFileInfo) (nFile : Nat) :
    nFile < (atLeast vinfoBlockFile nFile).length := by
  unfold atLeast
  rw [List.length_append, List.length_replicate]
  omega

theorem info_set {vinfoBlockFile : List CBlockFileInfo} {nFile : Nat}
    (hlt : nFile < vinfoBlockFile.length) (entry : CBlockFileInfo) (f : Nat) :
    info (vinfoBlockFile.set nFile entry) f =
      if f = nFile then entry else info vinfoBlockFile f := by
  unfold info
  rw [List.getD_eq_getElem?_getD, List.getD_eq_getElem?_getD, List.getElem?_set]
  by_cases h : f = nFile
  · rw [if_pos h, if_pos h.symm, if_pos hlt, Option.getD_some]
  · rw [if_neg h, if_neg (Ne.symm h)]

/-!
# The loop over the files
-/

section Loop

variable {nAddSize : BitVec 32}

/-- The loop stops at a file with room, and only adds entries of new files. -/
theorem leaveFullFiles_spec {fuel : Nat} {v v' : List CBlockFileInfo} {nFile nFile' : Nat}
    (h : leaveFullFiles nAddSize fuel v nFile = some (v', nFile')) (hlt : nFile < v.length) :
    (forall f, info v' f = info v f) ∧ nFile' < v'.length ∧
      (info v nFile').nSize + nAddSize < MAX_BLOCKFILE_SIZE := by
  induction fuel generalizing v nFile with
  | zero => cases h
  | succ fuel ih =>
      unfold leaveFullFiles at h
      split at h
      · case isTrue =>
          have hnext := ih h (lt_length_atLeast v (nFile + 1))
          simp only [info_atLeast] at hnext
          exact hnext
      · case isFalse hroom =>
          cases h
          exact ⟨fun _ => rfl, hlt, BitVec.not_le.mp hroom⟩

/-- A size below the maximum fits into a new file. -/
theorem leaveFullFiles_terminates (hsize : nAddSize < MAX_BLOCKFILE_SIZE) {bound : Nat} :
    forall (fuel : Nat) (v : List CBlockFileInfo) (nFile : Nat),
      (forall f, bound ≤ f -> info v f = CBlockFileInfo.init) -> bound - nFile < fuel ->
      exists found, leaveFullFiles nAddSize fuel v nFile = some found := by
  intro fuel
  induction fuel with
  | zero => exact fun _ _ _ hfuel => absurd hfuel (Nat.not_lt_zero _)
  | succ fuel ih =>
      intro v nFile hnew hfuel
      unfold leaveFullFiles
      split
      · case isTrue hfull =>
          have hlt : nFile < bound := by
            by_contra hge
            rw [hnew nFile (Nat.le_of_not_lt hge)] at hfull
            change MAX_BLOCKFILE_SIZE ≤ 0#32 + nAddSize at hfull
            rw [BitVec.zero_add] at hfull
            exact absurd hsize (BitVec.not_lt.mpr hfull)
          apply ih
          · intro f hf
            rw [info_atLeast]
            exact hnew f hf
          · omega
      · case isFalse => exact ⟨_, rfl⟩

theorem leaveFullFiles_mono {fuel fuel' : Nat} (hle : fuel ≤ fuel') {v : List CBlockFileInfo}
    {nFile : Nat} {found : List CBlockFileInfo × Nat}
    (h : leaveFullFiles nAddSize fuel v nFile = some found) :
    leaveFullFiles nAddSize fuel' v nFile = some found := by
  induction fuel generalizing fuel' v nFile with
  | zero => cases h
  | succ fuel ih =>
      cases fuel' with
      | zero => exact absurd hle (Nat.not_succ_le_zero fuel)
      | succ fuel' =>
          unfold leaveFullFiles at h ⊢
          split at h
          · case isTrue hfull =>
              rw [if_pos hfull]
              exact ih (Nat.le_of_succ_le_succ hle) h
          · case isFalse hroom =>
              rw [if_neg hroom]
              exact h

end Loop

/-!
# One call
-/

/-- What `FindBlockPos` has done to the files when it answers. -/
structure Placed (s : BlockFiles) (pos : CDiskBlockPos) (nAddSize : BitVec 32) (fKnown : Bool)
    (found : FoundPos) (nFile : Nat) : Prop where
  nFile_eq : found.pos.nFile.toNat = nFile
  known : fKnown = true -> found.pos = pos
  fresh : fKnown = false -> found.pos.nPos = (info s.vinfoBlockFile nFile).nSize ∧
    (info s.vinfoBlockFile nFile).nSize + nAddSize < MAX_BLOCKFILE_SIZE
  nSize : (info found.files.vinfoBlockFile nFile).nSize =
    newSize fKnown found.pos.nPos nAddSize (info s.vinfoBlockFile nFile).nSize
  nSize_of_ne : forall f, f ≠ nFile ->
    (info found.files.vinfoBlockFile f).nSize = (info s.vinfoBlockFile f).nSize
  nUndoSize : forall f,
    (info found.files.vinfoBlockFile f).nUndoSize = (info s.vinfoBlockFile f).nUndoSize

section Calls

variable {checkDiskSpace : BitVec 32 -> Bool} {s : BlockFiles} {pos : CDiskBlockPos}
  {nAddSize nHeight : BitVec 32} {nTime : BitVec 64} {fKnown : Bool}

theorem vinfoBlockFile_addToFile (v : List CBlockFileInfo) (nFile : Nat) :
    (s.addToFile checkDiskSpace v nFile pos nAddSize nHeight nTime fKnown).files.vinfoBlockFile =
      v.set nFile
        { (info v nFile).addBlock nHeight nTime with
          nSize := newSize fKnown pos.nPos nAddSize (info v nFile).nSize } :=
  rfl

theorem placed_addToFile {v : List CBlockFileInfo} {nFile : Nat}
    (hsame : forall f, info v f = info s.vinfoBlockFile f) (hlt : nFile < v.length)
    (hfile : pos.nFile.toNat = nFile)
    (hfresh : fKnown = false -> pos.nPos = (info s.vinfoBlockFile nFile).nSize ∧
      (info s.vinfoBlockFile nFile).nSize + nAddSize < MAX_BLOCKFILE_SIZE) :
    s.Placed pos nAddSize fKnown
      (s.addToFile checkDiskSpace v nFile pos nAddSize nHeight nTime fKnown) nFile where
  nFile_eq := hfile
  known := fun _ => rfl
  fresh := hfresh
  nSize := by
    rw [vinfoBlockFile_addToFile, info_set hlt, if_pos rfl, hsame]
    rfl
  nSize_of_ne := by
    intro f hne
    rw [vinfoBlockFile_addToFile, info_set hlt, if_neg hne, hsame]
  nUndoSize := by
    intro f
    rw [vinfoBlockFile_addToFile, info_set hlt]
    split
    · case isTrue heq =>
        rw [heq, hsame]
        rfl
    · case isFalse => rw [hsame]

theorem findBlockPos_placed {fuel : Nat} {found : FoundPos}
    (h : s.findBlockPos fuel checkDiskSpace pos nAddSize nHeight nTime fKnown = some found) :
    exists nFile, s.Placed pos nAddSize fKnown found nFile := by
  unfold findBlockPos at h
  dsimp only at h
  cases hknown : fKnown with
  | true =>
      rw [hknown] at h
      cases h
      exact ⟨_, placed_addToFile (info_atLeast _ _) (lt_length_atLeast _ _) rfl
        fun h => absurd h.symm Bool.false_ne_true⟩
  | false =>
      rw [hknown, if_neg Bool.false_ne_true, if_neg Bool.false_ne_true] at h
      cases hloop : leaveFullFiles nAddSize fuel (atLeast s.vinfoBlockFile s.nLastBlockFile)
          s.nLastBlockFile with
      | none =>
          rw [hloop] at h
          cases h
      | some chosen =>
          rcases chosen with ⟨v, nFile⟩
          rw [hloop] at h
          cases h
          rcases leaveFullFiles_spec hloop (lt_length_atLeast _ _) with ⟨hsame, hlt, hroom⟩
          simp only [info_atLeast] at hsame hroom
          have hpos : (info v nFile).nSize = (info s.vinfoBlockFile nFile).nSize :=
            congrArg CBlockFileInfo.nSize (hsame nFile)
          have hplaced : s.Placed ⟨nFile, (info v nFile).nSize⟩ nAddSize false
              (s.addToFile checkDiskSpace v nFile ⟨nFile, (info v nFile).nSize⟩ nAddSize nHeight
                nTime false) nFile :=
            placed_addToFile hsame hlt (Int.toNat_natCast nFile) fun _ => ⟨hpos, hroom⟩
          exact ⟨nFile, { hplaced with known := fun h => absurd h Bool.false_ne_true }⟩

/-- With a size below the maximum the call answers, however much fuel there is to spare. -/
theorem findBlockPos_terminates (checkDiskSpace : BitVec 32 -> Bool) (s : BlockFiles)
    (pos : CDiskBlockPos) (nHeight : BitVec 32) (nTime : BitVec 64) (fKnown : Bool)
    (hsize : nAddSize < MAX_BLOCKFILE_SIZE) :
    exists found, forall fuel, s.vinfoBlockFile.length < fuel ->
      s.findBlockPos fuel checkDiskSpace pos nAddSize nHeight nTime fKnown = some found := by
  unfold findBlockPos
  dsimp only
  cases fKnown with
  | true => exact ⟨_, fun _ _ => rfl⟩
  | false =>
      have hnew : forall f, s.vinfoBlockFile.length ≤ f ->
          info (atLeast s.vinfoBlockFile s.nLastBlockFile) f = CBlockFileInfo.init := by
        intro f hf
        rw [info_atLeast]
        exact List.getD_eq_default _ _ hf
      rcases leaveFullFiles_terminates hsize (s.vinfoBlockFile.length + 1) _ s.nLastBlockFile
        hnew (by omega) with ⟨chosen, hchosen⟩
      refine ⟨s.addToFile checkDiskSpace chosen.1 chosen.2
        ⟨chosen.2, (info chosen.1 chosen.2).nSize⟩ nAddSize nHeight nTime false,
        fun fuel hfuel => ?_⟩
      rw [if_neg Bool.false_ne_true, if_neg Bool.false_ne_true,
        leaveFullFiles_mono hfuel hchosen]

theorem nSize_findUndoPos {nFile : Nat} (hlt : nFile < s.vinfoBlockFile.length) (f : Nat) :
    (info (s.findUndoPos checkDiskSpace nFile nAddSize).files.vinfoBlockFile f).nSize =
      (info s.vinfoBlockFile f).nSize := by
  unfold findUndoPos
  dsimp only
  rw [info_set hlt]
  split
  · case isTrue heq => rw [heq]
  · case isFalse => rfl

theorem nUndoSize_findUndoPos {nFile : Nat} (hlt : nFile < s.vinfoBlockFile.length) (f : Nat) :
    (info (s.findUndoPos checkDiskSpace nFile nAddSize).files.vinfoBlockFile f).nUndoSize =
      if f = nFile then (info s.vinfoBlockFile nFile).nUndoSize + nAddSize
      else (info s.vinfoBlockFile f).nUndoSize := by
  unfold findUndoPos
  dsimp only
  rw [info_set hlt]
  split <;> rfl

end Calls

end BlockFiles

/-!
# The ranges which were given out
-/

/-- The bytes given to a block or to undo data in the file of a number. -/
structure Extent where
  nFile : Nat
  nPos : Nat
  nAddSize : Nat
  fKnown : Bool

namespace Extent

def bytes (e : Extent) : Set Nat := Set.Ico e.nPos (e.nPos + e.nAddSize)

/-- No byte of a file belongs to both. -/
def Apart (e e' : Extent) : Prop := e.nFile = e'.nFile -> Disjoint e.bytes e'.bytes

theorem apart_of_le {e e' : Extent} (h : e.nFile = e'.nFile -> e'.nPos + e'.nAddSize ≤ e.nPos) :
    e.Apart e' := by
  intro hfile
  exact (Set.Ico_disjoint_Ico.mpr ((min_le_right _ _).trans ((h hfile).trans
    (le_max_left _ _))))

section Given

variable {given : Extent} {l : List Extent} (ok : Bool)

theorem pairwise_given (hnew : forall e, e ∈ l -> given.Apart e) (h : l.Pairwise Apart) :
    ((if ok then [given] else []) ++ l).Pairwise Apart := by
  cases ok with
  | false => exact h
  | true => exact List.pairwise_cons.mpr ⟨hnew, h⟩

theorem forall_given {P : Extent -> Prop} (hnew : P given) (h : forall e, e ∈ l -> P e) :
    forall e, e ∈ (if ok then [given] else []) ++ l -> P e := by
  cases ok with
  | false => exact h
  | true => exact List.forall_mem_cons.mpr ⟨hnew, h⟩

end Given

section Inside

variable {l : List Extent} (sizes sizes' : Nat -> Nat)

/-- A range which begins behind all that was given out in its file. -/
theorem apart_of_inside {given : Extent}
    (hinside : forall e, e ∈ l -> e.nPos + e.nAddSize ≤ sizes e.nFile)
    (hpos : sizes given.nFile ≤ given.nPos) : forall e, e ∈ l -> given.Apart e := by
  intro e he
  apply apart_of_le
  intro hfile
  have hold := hinside e he
  rw [← hfile] at hold
  exact hold.trans hpos

theorem inside_of_grown (hinside : forall e, e ∈ l -> e.nPos + e.nAddSize ≤ sizes e.nFile)
    (hgrow : forall f, sizes f ≤ sizes' f) :
    forall e, e ∈ l -> e.nPos + e.nAddSize ≤ sizes' e.nFile :=
  fun e he => (hinside e he).trans (hgrow e.nFile)

end Inside

end Extent

inductive FileCall where
  | findBlockPos (checkDiskSpace : BitVec 32 -> Bool) (pos : CDiskBlockPos)
      (nAddSize nHeight : BitVec 32) (nTime : BitVec 64) (fKnown : Bool)
  | findUndoPos (checkDiskSpace : BitVec 32 -> Bool) (nFile : Nat) (nAddSize : BitVec 32)

namespace FileCall

def answer (fuel : Nat) (s : BlockFiles) : FileCall -> Option FoundPos
  | findBlockPos checkDiskSpace pos nAddSize nHeight nTime fKnown =>
      s.findBlockPos fuel checkDiskSpace pos nAddSize nHeight nTime fKnown
  | findUndoPos checkDiskSpace nFile nAddSize =>
      some (s.findUndoPos checkDiskSpace nFile nAddSize)

def nAddSize : FileCall -> BitVec 32
  | findBlockPos _ _ nAddSize _ _ _ => nAddSize
  | findUndoPos _ _ nAddSize => nAddSize

def fKnown : FileCall -> Bool
  | findBlockPos _ _ _ _ _ fKnown => fKnown
  | findUndoPos _ _ _ => false

/-- The range at a position. -/
def extentAt (call : FileCall) (pos : CDiskBlockPos) : Extent :=
  ⟨pos.nFile.toNat, pos.nPos.toNat, call.nAddSize.toNat, call.fKnown⟩

end FileCall

/-- The files, and the ranges of the calls which succeeded. -/
structure ObservedFiles where
  files : BlockFiles
  blocks : List Extent
  undos : List Extent

namespace ObservedFiles

def record (o : ObservedFiles) (call : FileCall) (found : FoundPos) : ObservedFiles :=
  let given := if found.ok then [call.extentAt found.pos] else []
  match call with
  | FileCall.findBlockPos .. => ⟨found.files, given ++ o.blocks, o.undos⟩
  | FileCall.findUndoPos .. => ⟨found.files, o.blocks, given ++ o.undos⟩

def Next (o : ObservedFiles) (call : FileCall) (o' : ObservedFiles) : Prop :=
  exists fuel found, call.answer fuel o.files = some found ∧ o' = o.record call found

/-- The exact size of the file stays below `2 ^ 32`. -/
def Fits (o : ObservedFiles) (call : FileCall) : Prop :=
  forall fuel found, call.answer fuel o.files = some found ->
    found.pos.nPos.toNat + call.nAddSize.toNat < 2 ^ 32

def Admitted (o : ObservedFiles) : FileCall -> Prop
  | call@(FileCall.findBlockPos _ pos nAddSize _ _ fKnown) =>
      nAddSize < MAX_BLOCKFILE_SIZE ∧ o.Fits call ∧
        (fKnown = true -> 0 ≤ pos.nFile ∧
          forall e, e ∈ o.blocks -> (call.extentAt pos).Apart e)
  | call@(FileCall.findUndoPos _ nFile _) =>
      nFile < o.files.vinfoBlockFile.length ∧ o.Fits call

/-- The ranges are apart and inside their files, and new ones below the maximum. -/
structure Accounted (o : ObservedFiles) : Prop where
  blocksApart : o.blocks.Pairwise Extent.Apart
  blocksInside : forall e, e ∈ o.blocks ->
    e.nPos + e.nAddSize ≤ (BlockFiles.info o.files.vinfoBlockFile e.nFile).nSize.toNat
  fresh : forall e, e ∈ o.blocks -> e.fKnown = false ->
    e.nPos + e.nAddSize < MAX_BLOCKFILE_SIZE.toNat
  undosApart : o.undos.Pairwise Extent.Apart
  undosInside : forall e, e ∈ o.undos ->
    e.nPos + e.nAddSize ≤ (BlockFiles.info o.files.vinfoBlockFile e.nFile).nUndoSize.toNat

theorem toNat_add_of_fits {a b : BitVec 32} (h : a.toNat + b.toNat < 2 ^ 32) :
    (a + b).toNat = a.toNat + b.toNat := by
  rw [BitVec.toNat_add, Nat.mod_eq_of_lt h]

/-- The new size is the end of the range or, with a known position, the old size beyond it. -/
theorem le_newSize {fKnown : Bool} {nPos nAddSize nSize : BitVec 32}
    (hfits : nPos.toNat + nAddSize.toNat < 2 ^ 32) (hfresh : fKnown = false -> nPos = nSize) :
    nPos.toNat + nAddSize.toNat ≤ (BlockFiles.newSize fKnown nPos nAddSize nSize).toNat ∧
      nSize.toNat ≤ (BlockFiles.newSize fKnown nPos nAddSize nSize).toNat := by
  have hend := toNat_add_of_fits hfits
  unfold BlockFiles.newSize
  cases hknown : fKnown with
  | true =>
      rw [if_pos rfl]
      split
      · case isTrue hlt =>
          rw [BitVec.lt_def, hend] at hlt
          exact ⟨hlt.le, le_refl _⟩
      · case isFalse hge =>
          rw [BitVec.lt_def, hend] at hge
          rw [hend]
          exact ⟨le_refl _, not_lt.mp hge⟩
  | false =>
      rw [if_neg Bool.false_ne_true, ← hfresh hknown, hend]
      exact ⟨le_refl _, Nat.le_add_right _ _⟩

theorem Accounted.block {o : ObservedFiles} (h : o.Accounted) {checkDiskSpace : BitVec 32 -> Bool}
    {pos : CDiskBlockPos} {nAddSize nHeight : BitVec 32} {nTime : BitVec 64} {fKnown : Bool}
    {fuel : Nat} {found : FoundPos}
    (hadmitted : o.Admitted
      (FileCall.findBlockPos checkDiskSpace pos nAddSize nHeight nTime fKnown))
    (hanswer : o.files.findBlockPos fuel checkDiskSpace pos nAddSize nHeight nTime fKnown =
      some found) :
    (o.record (FileCall.findBlockPos checkDiskSpace pos nAddSize nHeight nTime fKnown)
      found).Accounted := by
  rcases hadmitted with ⟨_, hfits, hknown⟩
  have hend : found.pos.nPos.toNat + nAddSize.toNat < 2 ^ 32 := hfits fuel found hanswer
  rcases BlockFiles.findBlockPos_placed hanswer with ⟨nFile, hplaced⟩
  have hsize := le_newSize hend fun hfresh => (hplaced.fresh hfresh).1
  rw [← hplaced.nSize] at hsize
  -- no file gets smaller
  have hgrow : forall f, (BlockFiles.info o.files.vinfoBlockFile f).nSize.toNat ≤
      (BlockFiles.info found.files.vinfoBlockFile f).nSize.toNat := by
    intro f
    by_cases heq : f = nFile
    · rw [heq]
      exact hsize.2
    · rw [hplaced.nSize_of_ne f heq]
  exact
    { blocksApart := by
        apply Extent.pairwise_given found.ok _ h.blocksApart
        cases hcase : fKnown with
        | true =>
            rw [hplaced.known hcase, ← hcase]
            exact (hknown hcase).2
        | false =>
            apply Extent.apart_of_inside
              (fun f => (BlockFiles.info o.files.vinfoBlockFile f).nSize.toNat) h.blocksInside
            change (BlockFiles.info o.files.vinfoBlockFile found.pos.nFile.toNat).nSize.toNat ≤
              found.pos.nPos.toNat
            rw [(hplaced.fresh hcase).1, hplaced.nFile_eq]
      blocksInside := by
        apply Extent.forall_given found.ok _
          (Extent.inside_of_grown _
            (fun f => (BlockFiles.info found.files.vinfoBlockFile f).nSize.toNat)
            h.blocksInside hgrow)
        change found.pos.nPos.toNat + nAddSize.toNat ≤
          (BlockFiles.info found.files.vinfoBlockFile found.pos.nFile.toNat).nSize.toNat
        rw [hplaced.nFile_eq]
        exact hsize.1
      fresh := by
        refine Extent.forall_given found.ok (fun hfresh => ?_) h.fresh
        have hroom := (hplaced.fresh hfresh).2
        rw [← (hplaced.fresh hfresh).1, BitVec.lt_def, toNat_add_of_fits hend] at hroom
        exact hroom
      undosApart := h.undosApart
      undosInside := by
        intro e he
        change e.nPos + e.nAddSize ≤
          (BlockFiles.info found.files.vinfoBlockFile e.nFile).nUndoSize.toNat
        rw [hplaced.nUndoSize]
        exact h.undosInside e he }

theorem Accounted.undo {o : ObservedFiles} (h : o.Accounted) {checkDiskSpace : BitVec 32 -> Bool}
    {nFile : Nat} {nAddSize : BitVec 32}
    (hadmitted : o.Admitted (FileCall.findUndoPos checkDiskSpace nFile nAddSize)) :
    (o.record (FileCall.findUndoPos checkDiskSpace nFile nAddSize)
      (o.files.findUndoPos checkDiskSpace nFile nAddSize)).Accounted := by
  rcases hadmitted with ⟨hlt, hfits⟩
  have hend : (BlockFiles.info o.files.vinfoBlockFile nFile).nUndoSize.toNat +
      nAddSize.toNat < 2 ^ 32 := hfits 0 _ rfl
  have hundo : (BlockFiles.info (o.files.findUndoPos checkDiskSpace nFile
      nAddSize).files.vinfoBlockFile nFile).nUndoSize.toNat =
        (BlockFiles.info o.files.vinfoBlockFile nFile).nUndoSize.toNat + nAddSize.toNat := by
    rw [BlockFiles.nUndoSize_findUndoPos hlt, if_pos rfl]
    exact toNat_add_of_fits hend
  have hgrow : forall f, (BlockFiles.info o.files.vinfoBlockFile f).nUndoSize.toNat ≤
      (BlockFiles.info (o.files.findUndoPos checkDiskSpace nFile
        nAddSize).files.vinfoBlockFile f).nUndoSize.toNat := by
    intro f
    by_cases heq : f = nFile
    · rw [heq, hundo]
      exact Nat.le_add_right _ _
    · rw [BlockFiles.nUndoSize_findUndoPos hlt, if_neg heq]
  exact
    { blocksApart := h.blocksApart
      blocksInside := by
        intro e he
        change e.nPos + e.nAddSize ≤ (BlockFiles.info (o.files.findUndoPos checkDiskSpace nFile
          nAddSize).files.vinfoBlockFile e.nFile).nSize.toNat
        rw [BlockFiles.nSize_findUndoPos hlt]
        exact h.blocksInside e he
      fresh := h.fresh
      undosApart := by
        apply Extent.pairwise_given _ _ h.undosApart
        exact Extent.apart_of_inside
          (fun f => (BlockFiles.info o.files.vinfoBlockFile f).nUndoSize.toNat) h.undosInside
          (le_refl _)
      undosInside := by
        apply Extent.forall_given _ _
          (Extent.inside_of_grown _
            (fun f => (BlockFiles.info (o.files.findUndoPos checkDiskSpace nFile
              nAddSize).files.vinfoBlockFile f).nUndoSize.toNat)
            h.undosInside hgrow)
        change (BlockFiles.info o.files.vinfoBlockFile nFile).nUndoSize.toNat + nAddSize.toNat ≤
          (BlockFiles.info (o.files.findUndoPos checkDiskSpace nFile
            nAddSize).files.vinfoBlockFile nFile).nUndoSize.toNat
        rw [hundo] }

theorem Accounted.next {o o' : ObservedFiles} {call : FileCall} (h : o.Accounted)
    (hadmitted : o.Admitted call) (hnext : o.Next call o') : o'.Accounted := by
  rcases hnext with ⟨fuel, found, hanswer, rfl⟩
  cases call with
  | findBlockPos checkDiskSpace pos nAddSize nHeight nTime fKnown =>
      exact h.block hadmitted hanswer
  | findUndoPos checkDiskSpace nFile nAddSize =>
      cases hanswer
      exact h.undo hadmitted

/-- A call with a size below the maximum comes to an end. -/
theorem exists_answer (s : BlockFiles) {call : FileCall}
    (hsize : call.nAddSize < MAX_BLOCKFILE_SIZE) :
    exists found, forall fuel, s.vinfoBlockFile.length + 1 ≤ fuel ->
      call.answer fuel s = some found := by
  cases call with
  | findBlockPos checkDiskSpace pos nAddSize nHeight nTime fKnown =>
      exact BlockFiles.findBlockPos_terminates checkDiskSpace s pos nHeight nTime fKnown hsize
  | findUndoPos checkDiskSpace nFile nAddSize => exact ⟨_, fun _ _ => rfl⟩

/--
From any files on, all ranges given out in a block file or in an undo file are apart, those whose
place was not known end below the maximum, and every call comes to an end.
-/
theorem blockFiles_apart (s : BlockFiles) {o : ObservedFiles}
    (hreach : Reachable Next Admitted ⟨s, [], []⟩ o) :
    o.blocks.Pairwise Extent.Apart ∧ o.undos.Pairwise Extent.Apart ∧
      (forall e, e ∈ o.blocks -> e.fKnown = false ->
        e.nPos + e.nAddSize < MAX_BLOCKFILE_SIZE.toNat) ∧
      forall call : FileCall, call.nAddSize < MAX_BLOCKFILE_SIZE -> exists found, forall fuel,
        o.files.vinfoBlockFile.length + 1 ≤ fuel -> call.answer fuel o.files = some found := by
  have hinit : Accounted ⟨s, [], []⟩ :=
    { blocksApart := List.Pairwise.nil
      blocksInside := fun _ he => absurd he List.not_mem_nil
      fresh := fun _ he => absurd he List.not_mem_nil
      undosApart := List.Pairwise.nil
      undosInside := fun _ he => absurd he List.not_mem_nil }
  have hstep : forall (o : ObservedFiles) (call : FileCall) (o' : ObservedFiles),
      o.Accounted -> o.Admitted call -> o.Next call o' -> o'.Accounted :=
    fun _ _ _ h hadmitted hnext => h.next hadmitted hnext
  have h : o.Accounted := invariant_of_reachable hinit hstep hreach
  exact ⟨h.blocksApart, h.undosApart, h.fresh, fun _ => exists_answer o.files⟩

/-- A block of 300 bytes in the first file. -/
def freshCall : FileCall := FileCall.findBlockPos (fun _ => true) ⟨0, 0⟩ 300 7 1700000000 false

def observedFresh : ObservedFiles :=
  record ⟨⟨[], 0, ∅⟩, [], []⟩ freshCall
    ⟨true, ⟨0, 0⟩, ⟨[⟨1, 300, 0, 7, 7, 1700000000, 1700000000⟩], 0, {0}⟩⟩

/-- A block at a known place behind it. -/
def knownCall : FileCall := FileCall.findBlockPos (fun _ => true) ⟨0, 500⟩ 200 8 1700000060 true

def sampleObserved : ObservedFiles :=
  observedFresh.record knownCall
    ⟨true, ⟨0, 500⟩, ⟨[⟨2, 700, 0, 7, 8, 1700000000, 1700000060⟩], 0, {0}⟩⟩

theorem blockFiles_apart_sample :
    sampleObserved.blocks.Pairwise Extent.Apart ∧ sampleObserved.undos.Pairwise Extent.Apart ∧
      (forall e, e ∈ sampleObserved.blocks -> e.fKnown = false ->
        e.nPos + e.nAddSize < MAX_BLOCKFILE_SIZE.toNat) ∧
      forall call : FileCall, call.nAddSize < MAX_BLOCKFILE_SIZE -> exists found, forall fuel,
        sampleObserved.files.vinfoBlockFile.length + 1 ≤ fuel ->
          call.answer fuel sampleObserved.files = some found := by
  refine blockFiles_apart ⟨[], 0, ∅⟩ ?_
  have hfresh : Admitted ⟨⟨[], 0, ∅⟩, [], []⟩ freshCall := by
    refine ⟨by decide, ?_, fun h => absurd h (by decide)⟩
    intro fuel found hanswer
    cases fuel with
    | zero => cases hanswer
    | succ fuel =>
        cases hanswer
        decide
  have hknown : observedFresh.Admitted knownCall := by
    refine ⟨by decide, ?_, fun _ => ⟨by decide, ?_⟩⟩
    · intro fuel found hanswer
      cases hanswer
      decide
    · intro e he _
      rw [List.mem_singleton.mp he]
      exact Set.Ico_disjoint_Ico.mpr (by decide)
  exact (Reachable.start.step hfresh ⟨1, _, rfl, rfl⟩).step hknown ⟨0, _, rfl, rfl⟩

end ObservedFiles

end Disk
end BlockIndex
end Hbcur
