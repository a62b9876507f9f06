import Cmusic.BlockIndex

/-! Compact targets, the work required of the next block, and the check of a proof of work. -/
namespace Cmusic

/-- A decoded compact number. -/
structure CompactTarget where
  target : UInt256
  fNegative : Bool
  fOverflow : Bool

/-- `SetCompact`: a mantissa of 23 bits, a sign bit and a base-256 exponent. -/
def setCompact (nCompact : UInt32) : CompactTarget :=
  let nSize := nCompact.toNat / 2 ^ 24
  let nWord := nCompact.toNat % 2 ^ 23
  let nWord := if nSize ≤ 3 then nWord / 2 ^ (8 * (3 - nSize)) else nWord
  { target := BitVec.ofNat 256 (if nSize ≤ 3 then nWord else nWord * 2 ^ (8 * (nSize - 3)))
    fNegative := nWord ≠ 0 && nCompact.toNat / 2 ^ 23 % 2 = 1
    fOverflow := nWord ≠ 0 && (nSize > 34 || (nWord > 0xff && nSize > 33) ||
      (nWord > 0xffff && nSize > 32)) }

/-- The number of bits up to the highest one that is set. -/
def bits (a : UInt256) : Nat := if a.toNat = 0 then 0 else a.toNat.log2 + 1

/-- `GetCompact` of a number that is not negative. -/
def getCompact (a : UInt256) : UInt32 :=
  let nSize := (bits a + 7) / 8
  let nCompact := if nSize ≤ 3 then a.toNat * 2 ^ (8 * (3 - nSize))
    else a.toNat / 2 ^ (8 * (nSize - 3))
  -- the sign bit must stay clear
  if nCompact / 2 ^ 23 % 2 = 1 then UInt32.ofNat (nCompact / 2 ^ 8 + (nSize + 1) * 2 ^ 24)
  else UInt32.ofNat (nCompact + nSize * 2 ^ 24)

variable (params : ConsensusParams)

def checkProofOfWork (hash : UInt256) (nBits : UInt32) : Bool :=
  let bnTarget := setCompact nBits
  !(bnTarget.fNegative || bnTarget.target = 0 || bnTarget.fOverflow ||
    bnTarget.target > params.powLimit) && !(hash > bnTarget.target)

def difficultyAdjustmentInterval : Int := params.nPowTargetTimespan / params.nPowTargetSpacing

def powLimitCompact : UInt32 := getCompact params.powLimit

/-- The last block that was not mined under the special minimum-difficulty rule. -/
def lastRegularBits (index : CBlockIndex) : List BlockRec → UInt32
  | [] => index.nBits
  | prev :: prevs =>
    if index.nHeight % difficultyAdjustmentInterval params ≠ 0 && index.nBits = powLimitCompact params
    then lastRegularBits ⟨prev, prevs⟩ prevs
    else index.nBits

/-- Multiplication by a time span, which is cut to 32 bits. -/
def scaleTarget (target : UInt256) (nActualTimespan nTargetTimespan : Int) : UInt256 :=
  target * BitVec.ofInt 256 (nActualTimespan % 2 ^ 32) / BitVec.ofInt 256 nTargetTimespan

/-- A time span kept within a factor of the target. -/
def clampTimespan (nActualTimespan low high : Int) : Int :=
  let nActualTimespan := if nActualTimespan < low then low else nActualTimespan
  if nActualTimespan > high then high else nActualTimespan

def limitTarget (target : UInt256) : UInt256 :=
  if target > params.powLimit then params.powLimit else target

def nPastBlocks : Nat := 10

/-- The weighted average of the targets of the past blocks, nearest first. -/
def pastTargetAvg : List BlockRec → UInt256
  | [] => 0
  | first :: rest =>
    (rest.zipIdx 2).foldl (fun avg (r, nCountBlocks) =>
      (avg * BitVec.ofNat 256 nCountBlocks + (setCompact r.header.nBits).target) /
        BitVec.ofNat 256 (nCountBlocks + 1)) (setCompact first.header.nBits).target

/-- `DarkGravityWave`; `none` where the source asserts that the chain is long enough. -/
def darkGravityWave (indexLast : CBlockIndex) (block : CBlockHeader) : Option UInt32 :=
  if indexLast.nHeight < nPastBlocks then some (powLimitCompact params)
  else if params.fPowAllowMinDifficultyBlocks && params.fPowNoRetargeting then
    if block.getBlockTime > indexLast.getBlockTime + params.nPowTargetSpacing * 2 then
      some (powLimitCompact params)
    else some (lastRegularBits params indexLast indexLast.prevs)
  else
    let past := indexLast.chain.take nPastBlocks
    if past.length < nPastBlocks then none
    else if block.fKAWPOW params &&
        !past.all fun r => r.header.nTime ≥ params.nKAWPOWActivationTime then
      some (getCompact params.kawpowLimit)
    else
      let first := past.getLastD indexLast.self
      let nTargetTimespan := nPastBlocks * params.nPowTargetSpacing
      let nActualTimespan := clampTimespan (indexLast.getBlockTime - first.header.getBlockTime)
        (nTargetTimespan / 3) (nTargetTimespan * 3)
      some (getCompact (limitTarget params
        (scaleTarget (pastTargetAvg past) nActualTimespan nTargetTimespan)))

def calculateNextWorkRequired (indexLast : CBlockIndex) (nFirstBlockTime : Int) : UInt32 :=
  if params.fPowNoRetargeting then indexLast.nBits
  else
    let nActualTimespan := clampTimespan (indexLast.getBlockTime - nFirstBlockTime)
      (params.nPowTargetTimespan / 4) (params.nPowTargetTimespan * 4)
    getCompact (limitTarget params
      (scaleTarget (setCompact indexLast.nBits).target nActualTimespan params.nPowTargetTimespan))

/-- `GetNextWorkRequiredBTC`; `none` where the first block of the interval is missing. -/
def getNextWorkRequiredBTC (indexLast : CBlockIndex) (block : CBlockHeader) : Option UInt32 :=
  if (indexLast.nHeight + 1) % difficultyAdjustmentInterval params ≠ 0 then
    if params.fPowAllowMinDifficultyBlocks then
      if block.getBlockTime > indexLast.getBlockTime + params.nPowTargetSpacing * 2 then
        some (powLimitCompact params)
      else some (lastRegularBits params indexLast indexLast.prevs)
    else some indexLast.nBits
  else
    let nHeightFirst := indexLast.nHeight - (difficultyAdjustmentInterval params - 1)
    if nHeightFirst < 0 then none
    else (indexLast.getAncestor nHeightFirst).map fun indexFirst =>
      calculateNextWorkRequired params indexLast indexFirst.getBlockTime

/-- `IsDGWActive` of a height, which is converted to an unsigned number. -/
def isDGWActive (nBlockNumber : Int) : Bool := nBlockNumber % 2 ^ 32 ≥ params.nDGWActivationBlock

def getNextWorkRequired (indexLast : CBlockIndex) (block : CBlockHeader) : Option UInt32 :=
  if isDGWActive params (indexLast.nHeight + 1) then darkGravityWave params indexLast block
  else getNextWorkRequiredBTC params indexLast block

end Cmusic
