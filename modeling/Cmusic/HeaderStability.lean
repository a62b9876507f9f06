import Cmusic.HeaderAdmission

/-! What becomes of an accepted header when it is offered again later. -/
namespace Cmusic

open Std

variable (params : ConsensusParams)

/-- What can happen to a node between two offers of a header. -/
inductive NodeEvent where
  | header (block : CBlockHeader)
  | setTip (tip : Option CBlockIndex)
  | peers (nodeCount : Option Int)
  -- the clock of the system, which can also be set back
  | tick (seconds : Int)
  -- the median offset of the clocks of the peers, which can also go down
  | addTimeData (nTimeOffset : Int)
  | validated (hash : UInt256)
  -- `listed` tells whether the block also enters the set of failed blocks
  | invalid (hash : UInt256) (listed : Bool)

def NodeState.step (st : NodeState) : NodeEvent → NodeState
  | .header block => (acceptBlockHeader params st block).2
  | .setTip tip => { st with tip }
  | .peers nodeCount => { st with nodeCount }
  | .tick seconds =>
    { st with time := st.time + seconds, adjustedTime := st.adjustedTime + seconds }
  | .addTimeData nTimeOffset => { st with adjustedTime := st.time + nTimeOffset }
  | .validated hash => { st with validScripts := st.validScripts.insert hash }
  | .invalid hash listed => { st with
      failedValid := st.failedValid.insert hash
      failedBlocks := if listed then hash :: st.failedBlocks else st.failedBlocks }

def NodeState.run (st : NodeState) (events : List NodeEvent) : NodeState :=
  events.foldl (NodeState.step params) st

/-- Entries are kept under their own hashes, and the listed failed blocks carry the flag. -/
structure NodeState.WellFormed (st : NodeState) : Prop where
  hash_eq : ∀ hash (index : CBlockIndex), st.mapBlockIndex[hash]? = some index →
    index.self.hash = hash
  flagged : ∀ hash ∈ st.failedBlocks, hash ∈ st.failedValid

/-- What every later state keeps: the entries of the index and the assets. -/
structure Later (st st' : NodeState) : Prop where
  index : ∀ (hash : UInt256) (index : CBlockIndex), st.mapBlockIndex[hash]? = some index →
    st'.mapBlockIndex[hash]? = some index
  areAssetsDeployed : st'.areAssetsDeployed = st.areAssetsDeployed

variable {params} {st st' st'' : NodeState} {block : CBlockHeader} {index prev : CBlockIndex}

theorem Later.refl (st : NodeState) : Later st st :=
  ⟨fun _ _ h => h, rfl⟩

theorem Later.trans (h : Later st st') (h' : Later st' st'') : Later st st'' :=
  ⟨fun hash index hi => h'.index hash index (h.index hash index hi),
    h'.areAssetsDeployed.trans h.areAssetsDeployed⟩

theorem later_findOrAddHeader : Later st (findOrAddHeader params st block).2 := by
  unfold findOrAddHeader
  split
  · split <;> exact Later.refl st
  next hn =>
    refine ⟨fun hash index hi => ?_, rfl⟩
    -- the new entry goes under a hash that was free
    have hne : block.getHash params ≠ hash := by
      rintro rfl
      simp [hn] at hi
    simpa [addToBlockIndex, TreeMap.getElem?_insert, hne] using hi

theorem later_acceptBlockHeader : Later st (acceptBlockHeader params st block).2 := by
  unfold acceptBlockHeader
  split
  · exact later_findOrAddHeader
  · split
    · exact Later.refl st
    · split
      · exact ⟨fun _ _ h => h, rfl⟩
      · exact later_findOrAddHeader

theorem later_step (event : NodeEvent) : Later st (st.step params event) := by
  cases event with
  | header block => exact later_acceptBlockHeader
  | _ => exact ⟨fun _ _ h => h, rfl⟩

theorem later_run (events : List NodeEvent) : Later st (st.run params events) := by
  induction events generalizing st with
  | nil => exact Later.refl st
  | cons event events ih => exact (later_step event).trans ih

theorem wellFormed_findOrAddHeader (h : st.WellFormed) :
    (findOrAddHeader params st block).2.WellFormed := by
  unfold findOrAddHeader
  split
  · split <;> exact h
  · refine ⟨fun hash index hi => ?_, h.flagged⟩
    simp only [addToBlockIndex, Maps.getElem?_insert_eq] at hi
    split at hi
    next heq =>
      rw [← Option.some.inj hi]
      exact heq.symm
    next => exact h.hash_eq hash index hi

theorem wellFormed_acceptBlockHeader (h : st.WellFormed) :
    (acceptBlockHeader params st block).2.WellFormed := by
  unfold acceptBlockHeader
  split
  · exact wellFormed_findOrAddHeader h
  · split
    · exact h
    · split
      · exact ⟨h.hash_eq, h.flagged⟩
      · exact wellFormed_findOrAddHeader h

theorem wellFormed_step (h : st.WellFormed) (event : NodeEvent) :
    (st.step params event).WellFormed := by
  cases event with
  | header block => exact wellFormed_acceptBlockHeader h
  | invalid hash listed =>
    refine ⟨h.hash_eq, fun other hm => ?_⟩
    simp only [NodeState.step, Maps.mem_set_insert]
    cases listed with
    | false => exact .inr (h.flagged other hm)
    | true =>
      rcases List.mem_cons.1 hm with rfl | hm
      · exact .inl rfl
      · exact .inr (h.flagged other hm)
  | _ => exact ⟨h.hash_eq, h.flagged⟩

theorem wellFormed_run (h : st.WellFormed) (events : List NodeEvent) :
    (st.run params events).WellFormed := by
  induction events generalizing st with
  | nil => exact h
  | cons event events ih => exact ih (wellFormed_step h event)

variable (params)

/-- The checkpoints in the index stand at the heights the network lists for them. -/
def CheckpointsPlaced (st : NodeState) : Prop :=
  ∀ c ∈ params.mapCheckpoints, ∀ index : CBlockIndex, st.mapBlockIndex[c.2]? = some index →
    index.nHeight = c.1

/-- Neither the entry of the header nor a block below its parent is marked failed. -/
structure Sound (st : NodeState) (block : CBlockHeader) (index : CBlockIndex) : Prop where
  entry : st.isFailed index = false
  below : ∀ prev, parentOf st block = some prev → ∀ r ∈ prev.chain,
    r.hash ∉ st.failedValid ∧ r.hash ∉ st.failedChild

/-- The three rules that depend on the tip, the peers, the checkpoints and the adjusted time let the
header pass. -/
def Undisturbed (st : NodeState) (block : CBlockHeader) : Prop :=
  ∀ prev, parentOf st block = some prev → st.reorgTooDeep params prev.nHeight = false ∧
    st.belowLastCheckpoint params (prev.nHeight + 1) = false ∧
    block.getBlockTime ≤ st.adjustedTime + (if isDGWActive params (prev.nHeight + 1) then
      maxFutureBlockTimeDGW else maxFutureBlockTime)

variable {params}

/-- The last known checkpoint only moves up. -/
theorem getLastCheckpoint_later (h : Later st st') (hp : CheckpointsPlaced params st')
    {c : CBlockIndex} (hc : st.getLastCheckpoint params = some c) :
    ∃ c', st'.getLastCheckpoint params = some c' ∧ c.nHeight ≤ c'.nHeight := by
  obtain ⟨above, k, below, hsp, hk, hn⟩ := List.findSome?_eq_some_iff.1 hc
  have hk' := h.index k.2 c hk
  have hm : ∀ x ∈ above ++ k :: below, x ∈ params.mapCheckpoints := by
    intro x hx
    rw [← hsp] at hx
    exact List.mem_reverse.1 hx
  have hso : (above ++ k :: below).Pairwise fun a b => b.1 < a.1 := by
    rw [← hsp, List.pairwise_reverse]
    exact params.checkpointsSorted
  rw [NodeState.getLastCheckpoint, hsp]
  cases ha : above.findSome? fun x : Nat × UInt256 => st'.mapBlockIndex[x.2]? with
  | none =>
    refine ⟨c, ?_, Int.le_refl _⟩
    simp [List.findSome?_append, ha, hk']
  | some c' =>
    refine ⟨c', by simp [List.findSome?_append, ha], ?_⟩
    obtain ⟨x, hx, hf⟩ := List.exists_of_findSome?_eq_some ha
    have hlt : k.1 < x.1 := (List.pairwise_append.1 hso).2.2 x hx k (by simp)
    rw [hp k (hm k (by simp)) c hk', hp x (hm x (List.mem_append_left _ hx)) c' hf]
    omega

theorem isBelowCheckpoint_later (h : Later st st') (hp : CheckpointsPlaced params st')
    (hb : isBelowCheckpoint params st block (some prev) = true) :
    isBelowCheckpoint params st' block (some prev) = true := by
  simp only [isBelowCheckpoint, Option.any_eq_true, decide_eq_true_eq] at hb ⊢
  obtain ⟨c, hc, hle⟩ := hb
  obtain ⟨c', hc', hl'⟩ := getLastCheckpoint_later h hp hc
  exact ⟨c', hc', hle.trans hl'⟩

/-- The work of a header is accepted again: a full proof also passes the check that trusts the
mix, and a header whose mix was trusted stays below a checkpoint. -/
theorem checkBlockHeader_later (h : Later st st') (hp : CheckpointsPlaced params st')
    (hok : checkBlockHeader params st block (some prev) = .ok ()) :
    checkBlockHeader params st' block (some prev) = .ok () := by
  have hw := checkProofOfWork_of_checkBlockHeader hok
  obtain ⟨hh, hc⟩ := checkBlockHeader_eq_ok.1 hok
  refine checkBlockHeader_eq_ok.2 ⟨hh, ?_⟩
  split
  · exact hw
  next hf =>
    split at hc
    next hl =>
      rw [Bool.and_eq_true] at hl
      rw [Bool.and_eq_true, not_and] at hf
      exact absurd (isBelowCheckpoint_later h hp hl.2) (hf hl.1)
    next => exact hc

theorem getAncestor_self_mem {height : Int} {anc : CBlockIndex}
    (h : index.getAncestor height = some anc) : anc.self ∈ index.chain := by
  unfold CBlockIndex.getAncestor at h
  split at h
  · cases h
  · split at h
    · cases h
    next self prevs hd =>
      obtain rfl := Option.some.inj h
      exact List.mem_of_mem_drop (hd ▸ List.mem_cons_self)

theorem failedAncestor_eq_none (hwf : st.WellFormed)
    (h : ∀ r ∈ prev.chain, r.hash ∉ st.failedValid ∧ r.hash ∉ st.failedChild) :
    failedAncestor st prev = none := by
  unfold failedAncestor
  split
  · rfl
  · rw [List.findSome?_eq_none_iff]
    intro hash hm
    rw [Option.filter_eq_none_iff]
    intro failed hfa ha
    have hse := getAncestor_self_mem (of_decide_eq_true ha)
    have hf := hwf.flagged hash hm
    rw [← hwf.hash_eq hash failed hfa] at hf
    exact (h _ hse).1 hf

theorem findOrAddHeader_stored (h : findOrAddHeader params st block = (.ok index, st')) :
    st'.mapBlockIndex[block.getHash params]? = some index := by
  unfold findOrAddHeader at h
  split at h
  next known hkn =>
    split at h
    · simp at h
    · simp only [Prod.mk.injEq, Except.ok.injEq] at h
      rw [← h.1, ← h.2, hkn]
  next =>
    simp only [addToBlockIndex, Prod.mk.injEq, Except.ok.injEq] at h
    rw [← h.1, ← h.2]
    simp

theorem acceptBlockHeader_stored (h : acceptBlockHeader params st block = (.ok index, st')) :
    st'.mapBlockIndex[block.getHash params]? = some index := by
  unfold acceptBlockHeader at h
  split at h
  · exact findOrAddHeader_stored h
  · split at h
    · simp at h
    · split at h
      · simp at h
      · exact findOrAddHeader_stored h

theorem findOrAddHeader_known (hkn : st.mapBlockIndex[block.getHash params]? = some index)
    (hso : st.isFailed index = false) : findOrAddHeader params st block = (.ok index, st) := by
  simp [findOrAddHeader, hkn, hso]

/-- A header whose first acceptance checked its parent passes the same checks later, when the three
disturbing rules let it. -/
theorem checkExtension_later (h : Later st st') (hpl : CheckpointsPlaced params st')
    (he : checkExtension params st block = .ok prev) (hfa : st'.isFailed prev = false)
    (hp : parentOf st' block = some prev) (hq : Undisturbed params st' block) :
    checkExtension params st' block = .ok prev := by
  obtain ⟨hin, -, hh, hhe, hc⟩ := checkExtension_eq_ok.1 he
  obtain ⟨-, -, hb, -, ht, -, hv⟩ := contextualCheckBlockHeader_eq_ok.1 hc
  obtain ⟨hr, hch, hf⟩ := hq prev hp
  refine checkExtension_eq_ok.2 ⟨h.index _ _ hin, hfa, hh, checkBlockHeader_later h hpl hhe, ?_⟩
  refine contextualCheckBlockHeader_eq_ok.2 ⟨hr, hh, hb, hch, ht, hf, ?_⟩
  rw [h.areAssetsDeployed]
  exact hv

/-- Offered again after any run, an accepted header that is not marked failed gives the same entry
exactly when the rules on reorganisations, checkpoints and future times do not turn against it. -/
theorem acceptBlockHeader_again_iff (hwf : st.WellFormed)
    (hfirst : acceptBlockHeader params st block = (.ok index, st')) (events : List NodeEvent)
    (hplaced : CheckpointsPlaced params (st'.run params events))
    (hsound : Sound (st'.run params events) block index) :
    acceptBlockHeader params (st'.run params events) block = (.ok index, st'.run params events) ↔
      Undisturbed params (st'.run params events) block := by
  have hs' : st' = (acceptBlockHeader params st block).2 := by rw [hfirst]
  have hl : Later st (st'.run params events) := by
    rw [hs']
    exact later_acceptBlockHeader.trans (later_run events)
  have hw' : (st'.run params events).WellFormed := by
    rw [hs']
    exact wellFormed_run (wellFormed_acceptBlockHeader hwf) events
  have hru : Later st' (st'.run params events) := later_run events
  have hkn := hru.index _ _ (acceptBlockHeader_stored hfirst)
  generalize st'.run params events = now at *
  by_cases hn : block.hashPrevBlock = 0
  · -- without a parent there is nothing to check
    refine iff_of_true ?_ fun prev hpr => ?_
    · rw [acceptBlockHeader, if_pos hn]
      exact findOrAddHeader_known hkn hsound.entry
    · rw [parentOf, if_pos hn] at hpr
      cases hpr
  · obtain ⟨prev, he⟩ := checkExtension_of_accepted hn hfirst
    have hp : parentOf now block = some prev := by
      rw [parentOf, if_neg hn]
      exact hl.index _ _ (checkExtension_eq_ok.1 he).1
    constructor
    · intro ha prev' hpr'
      obtain rfl : prev = prev' := Option.some.inj (hp.symm.trans hpr')
      obtain ⟨prev'', he'⟩ := checkExtension_of_accepted hn ha
      obtain ⟨hp', -, -, -, hco⟩ := checkExtension_eq_ok.1 he'
      rw [parentOf, if_neg hn, hp', Option.some.injEq] at hp
      obtain ⟨hr, -, -, hc, -, hf, -⟩ := contextualCheckBlockHeader_eq_ok.1 hco
      exact hp ▸ ⟨hr, hc, hf⟩
    · intro hq
      have hb := hsound.below prev hp
      have hse := hb prev.self List.mem_cons_self
      have hf : now.isFailed prev = false := by
        rw [NodeState.isFailed, Bool.or_eq_false_iff]
        exact ⟨Bool.eq_false_iff.2 hse.1, Bool.eq_false_iff.2 hse.2⟩
      rw [acceptBlockHeader, if_neg hn, checkExtension_later hl hplaced he hf hp hq]
      simp only [failedAncestor_eq_none hw' hb]
      exact findOrAddHeader_known hkn hsound.entry

/-- A first header on top of the main-network genesis block. -/
def firstHeader : CBlockHeader where
  nVersion := 0x30000000
  hashPrevBlock := mainGenesisHash
  hashMerkleRoot := 5
  nTime := 1710112860
  nBits := 0x2000ffff
  nNonce := 0
  nHeight := 0
  nNonce64 := 0
  mixHash := 0

/-- The tip of another branch, 60 blocks above the genesis block and one minute apart. -/
def otherTip : CBlockIndex where
  self := ⟨{ firstHeader with hashMerkleRoot := 1060, nTime := 1710116400 }, 1060⟩
  prevs := (List.range 59).reverse.map (fun i => ⟨{ firstHeader with
    hashMerkleRoot := BitVec.ofNat 256 (1001 + i), nTime := UInt32.ofNat (1710112860 + 60 * i) },
    BitVec.ofNat 256 (1001 + i)⟩) ++ [⟨mainGenesis, mainGenesisHash⟩]

/-- The node at the genesis block, with the other branch in its index. -/
def forkState : NodeState :=
  { genesisState with mapBlockIndex := genesisState.mapBlockIndex.insert 1060 otherTip }

def firstIndex : CBlockIndex := ⟨⟨firstHeader, 5⟩, [⟨mainGenesis, mainGenesisHash⟩]⟩

def firstState : NodeState :=
  { forkState with mapBlockIndex := forkState.mapBlockIndex.insert 5 firstIndex }

/-- An hour passes and the other branch becomes the active chain. -/
def forkEvents : List NodeEvent := [.tick 3700, .setTip (some otherTip)]

theorem wellFormed_forkState : forkState.WellFormed := by
  refine ⟨fun hash index h => ?_, by simp [forkState, genesisState]⟩
  simp only [forkState, genesisState, Maps.getElem?_insert_eq] at h
  split at h
  next heq =>
    rw [← Option.some.inj h]
    exact heq.symm
  next =>
    split at h
    next heq =>
      rw [← Option.some.inj h]
      exact heq.symm
    next => simp at h

theorem acceptBlockHeader_firstHeader :
    acceptBlockHeader (mainConsensus sampleHashes) forkState firstHeader =
      (.ok firstIndex, firstState) := by
  have hh : firstHeader.getHash (mainConsensus sampleHashes) = 5 := by decide +kernel
  have hp : ¬ firstHeader.hashPrevBlock = 0 := by decide +kernel
  have hpa : forkState.mapBlockIndex[firstHeader.hashPrevBlock]? =
      some ⟨⟨mainGenesis, mainGenesisHash⟩, []⟩ := by decide +kernel
  have hu : forkState.mapBlockIndex[(5 : UInt256)]? = none := by decide +kernel
  have he : checkExtension (mainConsensus sampleHashes) forkState firstHeader =
      .ok ⟨⟨mainGenesis, mainGenesisHash⟩, []⟩ := by decide +kernel
  have hso : failedAncestor forkState ⟨⟨mainGenesis, mainGenesisHash⟩, []⟩ = none := by
    decide +kernel
  rw [acceptBlockHeader, if_neg hp, he]
  rfl

def forkedState : NodeState := firstState.run (mainConsensus sampleHashes) forkEvents

theorem checkpointsPlaced_forkedState :
    CheckpointsPlaced (mainConsensus sampleHashes) forkedState := by
  have ha : ∀ c ∈ (mainConsensus sampleHashes).mapCheckpoints,
      forkedState.mapBlockIndex[c.2]?.all (fun index => decide (index.nHeight = (c.1 : Int))) = true := by
    decide +kernel
  intro c hc index hi
  have hc := ha c hc
  simpa [hi] using hc

theorem sound_forkedState : Sound forkedState firstHeader firstIndex := by
  refine ⟨by decide +kernel, fun prev hp r hr => ?_⟩
  simp [forkedState, NodeState.run, forkEvents, NodeState.step, firstState, forkState, genesisState]

theorem acceptBlockHeader_again_iff_firstHeader :
    acceptBlockHeader (mainConsensus sampleHashes) forkedState firstHeader =
        (.ok firstIndex, forkedState) ↔
      Undisturbed (mainConsensus sampleHashes) forkedState firstHeader :=
  acceptBlockHeader_again_iff wellFormed_forkState acceptBlockHeader_firstHeader forkEvents
    checkpointsPlaced_forkedState sound_forkedState

/-- The accepted header is refused once the other branch is 60 blocks ahead. -/
theorem firstHeader_refused_later :
    acceptBlockHeader (mainConsensus sampleHashes) forkState firstHeader =
        (.ok firstIndex, firstState) ∧
      Sound forkedState firstHeader firstIndex ∧
      (acceptBlockHeader (mainConsensus sampleHashes) forkedState firstHeader).1 =
        .error ⟨10, rejectMaxReorgDepth, str "bad-fork-prior-to-maxreorgdepth"⟩ := by
  refine ⟨acceptBlockHeader_firstHeader, sound_forkedState, ?_⟩
  have hp : ¬ firstHeader.hashPrevBlock = 0 := by decide +kernel
  have he : checkExtension (mainConsensus sampleHashes) forkedState firstHeader =
      .error ⟨10, rejectMaxReorgDepth, str "bad-fork-prior-to-maxreorgdepth"⟩ := by
    decide +kernel
  rw [acceptBlockHeader, if_neg hp, he]

end Cmusic
