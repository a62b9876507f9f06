import Cmusic.Basic
import Mathlib.Data.List.GetD

/-! Block headers, their hashes, and the entries of the block index. -/
namespace Cmusic

structure CBlockHeader where
  nVersion : Int32
  hashPrevBlock : UInt256
  hashMerkleRoot : UInt256
  nTime : UInt32
  nBits : UInt32
  nNonce : UInt32
  nHeight : UInt32
  nNonce64 : UInt64
  mixHash : UInt256
  deriving DecidableEq

def CBlockHeader.getBlockTime (block : CBlockHeader) : Int := block.nTime.toNat

/-- The hash functions of headers. A proof of work whose mix is the one in the header gives the
hash that is computed from the mix alone. -/
structure PowHashes where
  hashX16R : CBlockHeader → UInt256
  hashX16RV2 : CBlockHeader → UInt256
  kawpowHash : CBlockHeader → UInt256 × UInt256
  kawpowHashOnlyMix : CBlockHeader → UInt256
  onlyMix : ∀ block, (kawpowHash block).2 = block.mixHash →
    kawpowHashOnlyMix block = (kawpowHash block).1

/-- The consensus parameters of a network, and the start-up options that go with them. -/
structure ConsensusParams where
  hashes : PowHashes
  hashGenesisBlock : UInt256
  nX16RV2ActivationTime : UInt32
  nKAWPOWActivationTime : UInt32
  powLimit : UInt256
  kawpowLimit : UInt256
  nHeightHeaderCheckActivation : Int
  nPowTargetTimespan : Int
  nPowTargetSpacing : Int
  fPowAllowMinDifficultyBlocks : Bool
  fPowNoRetargeting : Bool
  nDGWActivationBlock : Nat
  mapCheckpoints : List (Nat × UInt256)
  checkpointsSorted : mapCheckpoints.Pairwise fun a b => a.1 < b.1
  fCheckpointsEnabled : Bool
  nMaxReorgDepth : Int
  nMinReorgPeers : Int
  nMinReorgAge : Int

def mainGenesisHash : UInt256 :=
  0x000000fcdb664de8b9cb710ef45ac5111d0061e5cc623d8e6582399ccb2df242#256

/-- The main network with the default options. -/
def mainConsensus (hashes : PowHashes) : ConsensusParams where
  hashes
  hashGenesisBlock := mainGenesisHash
  nX16RV2ActivationTime := 1569945600
  nKAWPOWActivationTime := 1710119893
  powLimit := 0x00ffffffffffffffffffffffffffffffffffffffffffffffffffffffffffffff#256
  kawpowLimit := 0x0000000fffffffffffffffffffffffffffffffffffffffffffffffffffffffff#256
  nHeightHeaderCheckActivation := 181153
  nPowTargetTimespan := 20 * 60
  nPowTargetSpacing := 1 * 60
  fPowAllowMinDifficultyBlocks := true
  fPowNoRetargeting := false
  nDGWActivationBlock := 1
  mapCheckpoints := [
    (0, mainGenesisHash),
    (63459, 0x000000000095ad9759911ad2d8bfc4c2d8271ae29e68384b97aa9f74efce85a9#256),
    (101454, 0x0000000000b05d18dced07d0ba510a581bb817eb2dbed673bd5152c9f6728c9c#256),
    (181152, 0x00000000000c634cd20a63603886e97e35e3d7eeca67ef5bb4437f7d45ad3f95#256)]
  checkpointsSorted := by decide
  fCheckpointsEnabled := true
  nMaxReorgDepth := 60
  nMinReorgPeers := 4
  nMinReorgAge := 60 * 60 * 12

/-- The regression-test network with the default options; its genesis hash is computed at start. -/
def regTestConsensus (hashes : PowHashes) (hashGenesisBlock : UInt256) : ConsensusParams where
  hashes
  hashGenesisBlock
  nX16RV2ActivationTime := 1569931200
  nKAWPOWActivationTime := 3582830167
  powLimit := 0x7fffffffffffffffffffffffffffffffffffffffffffffffffffffffffffffff#256
  kawpowLimit := 0x7fffffffffffffffffffffffffffffffffffffffffffffffffffffffffffffff#256
  nHeightHeaderCheckActivation := 0
  nPowTargetTimespan := 7 * 60
  nPowTargetSpacing := 1 * 60
  fPowAllowMinDifficultyBlocks := true
  fPowNoRetargeting := true
  nDGWActivationBlock := 200
  mapCheckpoints := []
  checkpointsSorted := List.Pairwise.nil
  fCheckpointsEnabled := true
  nMaxReorgDepth := 60
  nMinReorgPeers := 4
  nMinReorgAge := 60 * 60 * 12

/-- The header of the main-network genesis block. -/
def mainGenesis : CBlockHeader where
  nVersion := 4
  hashPrevBlock := 0
  hashMerkleRoot := 0x47557b9e05a5de51f1fc88170a6c2ea1bac6cc42a3d6d47cbbf473d0eaad5028#256
  nTime := 1710112797
  nBits := 0x1e00ffff
  nNonce := 12863774
  nHeight := 0
  nNonce64 := 0
  mixHash := 0

namespace CBlockHeader

variable (params : ConsensusParams) (block : CBlockHeader)

def fKAWPOW : Bool := block.nTime ≥ params.nKAWPOWActivationTime

def getHash : UInt256 :=
  if !block.fKAWPOW params then
    if block.nTime ≥ params.nX16RV2ActivationTime then params.hashes.hashX16RV2 block
    else params.hashes.hashX16R block
  else params.hashes.kawpowHashOnlyMix block

/-- `GetHashFull`; the mix is set for KAWPOW headers only. -/
def getHashFull : UInt256 × UInt256 :=
  if !block.fKAWPOW params then
    if block.nTime ≥ params.nX16RV2ActivationTime then (params.hashes.hashX16RV2 block, 0)
    else (params.hashes.hashX16R block, 0)
  else params.hashes.kawpowHash block

/-- A header that carries its own mix has the same hash either way. -/
theorem getHash_eq_getHashFull
    (h : block.fKAWPOW params = true → (block.getHashFull params).2 = block.mixHash) :
    block.getHash params = (block.getHashFull params).1 := by
  cases hk : block.fKAWPOW params with
  | false =>
    by_cases ht : block.nTime ≥ params.nX16RV2ActivationTime <;>
      simp [getHash, getHashFull, hk, ht]
  | true =>
    have hm := h hk
    simp only [getHashFull, hk, Bool.not_true, Bool.false_eq_true, if_false] at hm
    simp [getHash, getHashFull, hk, params.hashes.onlyMix block hm]

end CBlockHeader

/-- A block of a chain with the hash under which it is known. -/
structure BlockRec where
  header : CBlockHeader
  hash : UInt256
  deriving DecidableEq

/-- `CBlockIndex`: a block and the blocks below it, nearest first. -/
structure CBlockIndex where
  self : BlockRec
  prevs : List BlockRec := []
  deriving DecidableEq

namespace CBlockIndex

variable (index : CBlockIndex)

def chain : List BlockRec := index.self :: index.prevs

def pprev : Option CBlockIndex :=
  match index.prevs with
  | [] => none
  | prev :: prevs => some ⟨prev, prevs⟩

def nBits : UInt32 := index.self.header.nBits

def getBlockTime : Int := index.self.header.getBlockTime

/-- The lowest block of the chain; its height is the one its header declares. -/
def root : BlockRec := index.prevs.getLastD index.self

def nHeight : Int := index.root.header.nHeight.toInt32.toInt + index.prevs.length

/-- `GetAncestor`; `none` also where the source runs below the root of the chain. -/
def getAncestor (height : Int) : Option CBlockIndex :=
  if height > index.nHeight ∨ height < 0 then none
  else match index.chain.drop (index.nHeight - height).toNat with
    | [] => none
    | self :: prevs => some ⟨self, prevs⟩

def nMedianTimeSpan : Nat := 11

/-- The times of the last blocks, this one included. -/
def recentTimes : List Int :=
  (index.chain.take nMedianTimeSpan).map fun r => r.header.getBlockTime

def getMedianTimePast : Int :=
  let sorted := index.recentTimes.mergeSort
  sorted.getD (sorted.length / 2) 0

/-- The median is one of the times it is taken over. -/
theorem getMedianTimePast_mem : index.getMedianTimePast ∈ index.recentTimes := by
  have hl : index.recentTimes.mergeSort.length / 2 < index.recentTimes.mergeSort.length := by
    have hp : 0 < index.recentTimes.length := by simp [recentTimes, chain, nMedianTimeSpan]
    rw [List.length_mergeSort]
    omega
  rw [getMedianTimePast, List.getD_eq_getElem _ _ hl, ← List.mem_mergeSort]
  exact List.getElem_mem hl

end CBlockIndex

end Cmusic
