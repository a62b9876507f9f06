import Cmusic.Headers

/-! Which headers acceptance adds to the block index. -/
namespace Cmusic

open Std

variable (params : ConsensusParams) (st : NodeState) (block : CBlockHeader)

/-- The block a header extends; a null reference names none. -/
def parentOf : Option CBlockIndex :=
  if block.hashPrevBlock = 0 then none else st.mapBlockIndex[block.hashPrevBlock]?

/-- The header extends a sound block of the index, by the rules for the next block there. -/
structure ValidExtension (prev : CBlockIndex) : Prop where
  parent : parentOf st block = some prev
  notFailed : st.isFailed prev = false
  work : checkProofOfWork params (block.getHash params) block.nBits = true
  bits : getNextWorkRequired params prev block = some block.nBits
  time : prev.getMedianTimePast < block.getBlockTime
  height : kawpowHeaderHeightOk params block (prev.nHeight + 1) = true

/-- The header is the genesis block or a valid extension. -/
def Admissible : Prop :=
  block.getHash params = params.hashGenesisBlock ∨ ∃ prev, ValidExtension params st block prev

/-- Acceptance of a header that was not in the index before. -/
structure NewlyAdded (index : CBlockIndex) (st' : NodeState) : Prop where
  unknown : block.getHash params ∉ st.mapBlockIndex
  accepted : acceptBlockHeader params st block = (.ok index, st')

variable {params st block} {index : CBlockIndex} {st' : NodeState}

theorem checkExtension_of_accepted (hp : block.hashPrevBlock ≠ 0)
    (h : acceptBlockHeader params st block = (.ok index, st')) :
    ∃ prev, checkExtension params st block = .ok prev := by
  rw [acceptBlockHeader, if_neg hp] at h
  cases he : checkExtension params st block with
  | error e => simp [he] at h
  | ok prev => exact ⟨prev, rfl⟩

theorem validExtension_of_accepted (hpr : block.hashPrevBlock ≠ 0)
    (h : acceptBlockHeader params st block = (.ok index, st')) :
    ∃ prev, ValidExtension params st block prev := by
  obtain ⟨prev, he⟩ := checkExtension_of_accepted hpr h
  obtain ⟨hp, hf, hh, hhe, hc⟩ := checkExtension_eq_ok.1 he
  obtain ⟨-, -, hb, -, ht, -⟩ := contextualCheckBlockHeader_eq_ok.1 hc
  refine ⟨prev, ?_, hf, checkProofOfWork_of_checkBlockHeader hhe, hb, ht, hh⟩
  rw [parentOf, if_neg hpr]
  exact hp

/-- Every header that acceptance adds is admissible, except that one without a parent is added
unchecked even when it is not the genesis block. -/
theorem admissible_iff (h : NewlyAdded params st block index st') : Admissible params st block ↔
      block.hashPrevBlock ≠ 0 ∨ block.getHash params = params.hashGenesisBlock := by
  constructor
  · rintro (hg | ⟨prev, he⟩)
    · exact .inr hg
    · left
      intro hn
      have hp := he.parent
      simp [parentOf, hn] at hp
  · rintro (hpr | hg)
    · exact .inr (validExtension_of_accepted hpr h.accepted)
    · exact .inl hg

/-- Hash functions that give the genesis block its hash and tell other headers apart by their
merkle roots. -/
def sampleHashes : PowHashes where
  hashX16R block := if block = mainGenesis then mainGenesisHash else block.hashMerkleRoot
  hashX16RV2 block := if block = mainGenesis then mainGenesisHash else block.hashMerkleRoot
  kawpowHash block := (block.hashMerkleRoot, block.mixHash)
  kawpowHashOnlyMix block := block.hashMerkleRoot
  onlyMix _ _ := rfl

/-- A main-network node that knows the genesis block only. -/
def genesisState : NodeState where
  mapBlockIndex :=
    (∅ : TreeMap UInt256 CBlockIndex).insert mainGenesisHash ⟨⟨mainGenesis, mainGenesisHash⟩, []⟩
  tip := some ⟨⟨mainGenesis, mainGenesisHash⟩, []⟩
  nodeCount := some 8
  time := 1710112900
  adjustedTime := 1710112900
  areAssetsDeployed := true

/-- A header without a parent and without work. -/
def orphanRoot : CBlockHeader := { mainGenesis with hashMerkleRoot := 77, nBits := 0 }

def orphanIndex : CBlockIndex := ⟨⟨orphanRoot, 77⟩, []⟩

theorem orphanRoot_hashPrevBlock : orphanRoot.hashPrevBlock = 0 := rfl

theorem newlyAdded_orphanRoot : NewlyAdded (mainConsensus sampleHashes) genesisState orphanRoot
    orphanIndex (addToBlockIndex (mainConsensus sampleHashes) genesisState orphanRoot).2 := by
  have hh : orphanRoot.getHash (mainConsensus sampleHashes) = 77 := by decide +kernel
  have hu : genesisState.mapBlockIndex[(77 : UInt256)]? = none := by decide +kernel
  have hp : genesisState.mapBlockIndex[orphanRoot.hashPrevBlock]? = none := by decide +kernel
  constructor
  · rw [hh, ← TreeMap.isSome_getElem?_iff_mem, hu]
    simp
  · rw [acceptBlockHeader, if_pos orphanRoot_hashPrevBlock, findOrAddHeader, hh, hu]
    simp [addToBlockIndex, hh, hp, orphanIndex]

theorem admissible_iff_orphanRoot :
    Admissible (mainConsensus sampleHashes) genesisState orphanRoot ↔ orphanRoot.hashPrevBlock ≠ 0 ∨
        orphanRoot.getHash (mainConsensus sampleHashes) = mainGenesisHash :=
  admissible_iff newlyAdded_orphanRoot

/-- A header that is not the genesis block and has no parent and no work is added. -/
theorem orphanRoot_not_admissible : NewlyAdded (mainConsensus sampleHashes) genesisState orphanRoot
      orphanIndex (addToBlockIndex (mainConsensus sampleHashes) genesisState orphanRoot).2 ∧
    ¬ Admissible (mainConsensus sampleHashes) genesisState orphanRoot := by
  refine ⟨newlyAdded_orphanRoot, ?_⟩
  rintro (hg | ⟨prev, he⟩)
  · revert hg
    decide +kernel
  · have hp := he.parent
    cases hp

end Cmusic
