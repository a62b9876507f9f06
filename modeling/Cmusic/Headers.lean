import Cmusic.Pow

/-! The checks of a block header and its acceptance into the block index. -/
namespace Cmusic

open Fallible Std

/-- What header acceptance reads and writes. Blocks are named by their hashes, and each flag of a
block is the set of the blocks that carry it. -/
structure NodeState where
  mapBlockIndex : TreeMap UInt256 CBlockIndex
  failedValid : TreeSet UInt256 := ∅
  failedChild : TreeSet UInt256 := ∅
  validScripts : TreeSet UInt256 := ∅
  failedBlocks : List UInt256 := []
  tip : Option CBlockIndex
  -- `none` when there is no connection manager
  nodeCount : Option Int
  time : Int
  adjustedTime : Int
  areAssetsDeployed : Bool

def rejectObsolete : UInt8 := 0x11

def rejectCheckpoint : UInt8 := 0x43

def rejectMaxReorgDepth : UInt8 := 0x44

def maxFutureBlockTime : Int := 2 * 60 * 60

def maxFutureBlockTimeDGW : Int := maxFutureBlockTime / 10

def versionBitsTopBitsAssets : Int32 := 0x30000000

variable (params : ConsensusParams) (st : NodeState) (block : CBlockHeader)

namespace NodeState

/-- `nStatus & BLOCK_FAILED_MASK`. -/
def isFailed (index : CBlockIndex) : Bool :=
  st.failedValid.contains index.self.hash || st.failedChild.contains index.self.hash

/-- `IsValid(BLOCK_VALID_SCRIPTS)`. -/
def isValidScripts (index : CBlockIndex) : Bool :=
  !st.isFailed index && st.validScripts.contains index.self.hash

def chainHeight : Int := (st.tip.map CBlockIndex.nHeight).getD (-1)

/-- `GetLastCheckpoint`: the highest listed checkpoint that is in the index. -/
def getLastCheckpoint : Option CBlockIndex :=
  params.mapCheckpoints.reverse.findSome? fun (_, hash) => st.mapBlockIndex[hash]?

/-- The rule against deep reorganisations, for a header whose parent has height `prevHeight`. -/
def reorgTooDeep (prevHeight : Int) : Bool :=
  st.chainHeight - prevHeight ≥ params.nMaxReorgDepth &&
    match st.nodeCount, st.tip with
    | some nodeCount, some tip =>
      nodeCount ≥ params.nMinReorgPeers && st.time - tip.getBlockTime ≤ params.nMinReorgAge
    | _, _ => false

/-- The rule against forks below the last checkpoint. -/
def belowLastCheckpoint (nHeight : Int) : Bool :=
  params.fCheckpointsEnabled && (st.getLastCheckpoint params).any fun c => nHeight < c.nHeight

end NodeState

def kawpowHeaderHeightOk (expectedHeight : Int) : Bool :=
  !block.fKAWPOW params || expectedHeight < params.nHeightHeaderCheckActivation ||
    block.nHeight.toNat = expectedHeight % 2 ^ 32

def checkKAWPOWHeaderHeight (expectedHeight : Int) : Checked Unit :=
  rejectIf (!kawpowHeaderHeightOk params block expectedHeight) 100 (str "bad-blk-height")

/-- Whether the mix of the header is taken on trust because a checkpoint lies above it. -/
def isBelowCheckpoint (indexPrev : Option CBlockIndex) : Bool :=
  (st.getLastCheckpoint params).any fun c =>
    match indexPrev with
    | some prev => prev.nHeight + 1 ≤ c.nHeight
    | none => (block.nHeight.toNat : Int) ≤ c.nHeight % 2 ^ 32

/-- `CheckBlockHeader` with the check of the proof of work on. -/
def checkBlockHeader (indexPrev : Option CBlockIndex) : Checked Unit := do
  if block.fKAWPOW params then
    if let some prev := indexPrev then
      checkKAWPOWHeaderHeight params block (prev.nHeight + 1)
  if block.fKAWPOW params && isBelowCheckpoint params st block indexPrev then
    rejectIf (!checkProofOfWork params (block.getHash params) block.nBits) 50 (str "high-hash")
  else
    let (hash, mixHash) := block.getHashFull params
    rejectIf (!checkProofOfWork params hash block.nBits) 50 (str "high-hash")
    rejectIf (block.fKAWPOW params && mixHash ≠ block.mixHash) 50 (str "invalid-mix-hash")

/-- The text `bad-version(0x…)`. -/
def badVersion (nVersion : Int32) : Str :=
  let digit (i : Nat) : UInt8 :=
    let d := nVersion.toUInt32.toNat / 16 ^ i % 16
    (if d < 10 then 48 + d else 87 + d).toUInt8
  str "bad-version(0x" ++ (List.range 8).reverse.map digit ++ str ")"

/-- `ContextualCheckBlockHeader`. -/
def contextualCheckBlockHeader (prev : CBlockIndex) : Checked Unit := do
  let nHeight := prev.nHeight + 1
  failIf (st.reorgTooDeep params prev.nHeight)
    ⟨10, rejectMaxReorgDepth, str "bad-fork-prior-to-maxreorgdepth"⟩
  checkKAWPOWHeaderHeight params block nHeight
  rejectIf (getNextWorkRequired params prev block ≠ some block.nBits) 100 (str "bad-diffbits")
  failIf (st.belowLastCheckpoint params nHeight)
    ⟨100, rejectCheckpoint, str "bad-fork-prior-to-checkpoint"⟩
  rejectIf (block.getBlockTime ≤ prev.getMedianTimePast) 0 (str "time-too-old")
  let future := if isDGWActive params nHeight then maxFutureBlockTimeDGW else maxFutureBlockTime
  rejectIf (block.getBlockTime > st.adjustedTime + future) 0 (str "time-too-new")
  failIf (st.areAssetsDeployed && block.nVersion < versionBitsTopBitsAssets)
    ⟨0, rejectObsolete, badVersion block.nVersion⟩

/-- A block known to be invalid below `prev`, looked for unless `prev` is fully validated. -/
def failedAncestor (prev : CBlockIndex) : Option CBlockIndex :=
  if st.isValidScripts prev then none
  else st.failedBlocks.findSome? fun hash =>
    st.mapBlockIndex[hash]?.filter fun failed => prev.getAncestor failed.nHeight = some failed

/-- The blocks of a chain above a failed one get the flag of a failed child. -/
def markFailedChildren (prev failed : CBlockIndex) : NodeState :=
  let above := prev.chain.takeWhile (· ≠ failed.self)
  { st with failedChild := above.foldl (fun flagged r => flagged.insert r.hash) st.failedChild }

/-- The checks a header with a parent passes before it is looked up. -/
def checkExtension : Checked CBlockIndex := do
  let prev ← match st.mapBlockIndex[block.hashPrevBlock]? with
    | some prev => pure prev
    | none => throw ⟨10, 0, str "prev-blk-not-found"⟩
  rejectIf (st.isFailed prev) 100 (str "bad-prevblk")
  checkKAWPOWHeaderHeight params block (prev.nHeight + 1)
  checkBlockHeader params st block (some prev)
  contextualCheckBlockHeader params st block prev
  return prev

/-- `AddToBlockIndex` of a header whose hash is not in the index. -/
def addToBlockIndex : CBlockIndex × NodeState :=
  let hash := block.getHash params
  let index : CBlockIndex :=
    { self := ⟨block, hash⟩
      prevs := (st.mapBlockIndex[block.hashPrevBlock]?.map CBlockIndex.chain).getD [] }
  (index, { st with mapBlockIndex := st.mapBlockIndex.insert hash index })

/-- The lookup at the end of `AcceptBlockHeader`: a known header is returned, a new one added. -/
def findOrAddHeader : Checked CBlockIndex × NodeState :=
  match st.mapBlockIndex[block.getHash params]? with
  | some index =>
    if st.isFailed index then (.error ⟨0, 0, str "duplicate"⟩, st) else (.ok index, st)
  | none =>
    let (index, st) := addToBlockIndex params st block
    (.ok index, st)

/-- `AcceptBlockHeader`. A header without a parent goes straight to the lookup. -/
def acceptBlockHeader : Checked CBlockIndex × NodeState :=
  if block.hashPrevBlock = 0 then findOrAddHeader params st block
  else match checkExtension params st block with
    | .error e => (.error e, st)
    | .ok prev =>
      match failedAncestor st prev with
      | some failed =>
        (.error ⟨100, rejectInvalid, str "bad-prevblk"⟩, markFailedChildren st prev failed)
      | none => findOrAddHeader params st block

section

variable {params st block} {u : Unit} {prev : CBlockIndex}

theorem checkKAWPOWHeaderHeight_eq_ok {height : Int} :
    checkKAWPOWHeaderHeight params block height = .ok u ↔
      kawpowHeaderHeightOk params block height = true := by
  simp [checkKAWPOWHeaderHeight, rejectIf]

theorem contextualCheckBlockHeader_eq_ok : contextualCheckBlockHeader params st block prev = .ok u ↔
      st.reorgTooDeep params prev.nHeight = false ∧
      kawpowHeaderHeightOk params block (prev.nHeight + 1) = true ∧
      getNextWorkRequired params prev block = some block.nBits ∧
      st.belowLastCheckpoint params (prev.nHeight + 1) = false ∧
      prev.getMedianTimePast < block.getBlockTime ∧
      block.getBlockTime ≤ st.adjustedTime + (if isDGWActive params (prev.nHeight + 1) then
        maxFutureBlockTimeDGW else maxFutureBlockTime) ∧
      (st.areAssetsDeployed = true → versionBitsTopBitsAssets ≤ block.nVersion) := by
  simp only [contextualCheckBlockHeader, checkKAWPOWHeaderHeight, rejectIf, failIf_bind_eq_ok,
    failIf_eq_ok]
  simp [Int32.not_lt]

/-- With the parent known, a header passes when its work is proved by its own hash or in full. -/
theorem checkBlockHeader_eq_ok : checkBlockHeader params st block (some prev) = .ok u ↔
      (block.fKAWPOW params = true → kawpowHeaderHeightOk params block (prev.nHeight + 1) = true) ∧
      if block.fKAWPOW params && isBelowCheckpoint params st block (some prev) then
        checkProofOfWork params (block.getHash params) block.nBits = true
      else checkProofOfWork params (block.getHashFull params).1 block.nBits = true ∧
        (block.fKAWPOW params = true → (block.getHashFull params).2 = block.mixHash) := by
  cases hk : block.fKAWPOW params <;>
    cases hb : isBelowCheckpoint params st block (some prev) <;>
    simp [checkBlockHeader, hk, hb, rejectIf, bind_eq_ok, checkKAWPOWHeaderHeight_eq_ok]

theorem checkExtension_eq_ok : checkExtension params st block = .ok prev ↔
      st.mapBlockIndex[block.hashPrevBlock]? = some prev ∧ st.isFailed prev = false ∧
      kawpowHeaderHeightOk params block (prev.nHeight + 1) = true ∧
      checkBlockHeader params st block (some prev) = .ok () ∧
      contextualCheckBlockHeader params st block prev = .ok () := by
  cases hp : st.mapBlockIndex[block.hashPrevBlock]? with
  | none => simp [checkExtension, hp, bind_eq_ok]
  | some p =>
    simp only [checkExtension, hp, bind_eq_ok, rejectIf, failIf_eq_ok, pure_eq_ok,
      checkKAWPOWHeaderHeight_eq_ok, Option.some.injEq]
    constructor
    · rintro ⟨_, rfl, _, hf, _, hh, _, hhe, _, hc, rfl⟩
      exact ⟨rfl, hf, hh, hhe, hc⟩
    · rintro ⟨rfl, hf, hh, hhe, hc⟩
      exact ⟨_, rfl, (), hf, (), hh, (), hhe, (), hc, rfl⟩

/-- A header passes the checks of `CheckBlockHeader` only with the work its bits claim. -/
theorem checkProofOfWork_of_checkBlockHeader
    (h : checkBlockHeader params st block (some prev) = .ok u) :
    checkProofOfWork params (block.getHash params) block.nBits = true := by
  obtain ⟨-, hw⟩ := checkBlockHeader_eq_ok.1 h
  split at hw
  · exact hw
  · rw [CBlockHeader.getHash_eq_getHashFull params block hw.2]
    exact hw.1

end

end Cmusic
