import Cmusic.Deployments

/-! Which states the deployments reach on the main network. -/

namespace Cmusic

open CBlockIndex

namespace CBlockIndex

variable {index : CBlockIndex} {time height : Int}

/-- A bound on all times of a chain bounds its median times. -/
theorem le_getMedianTimePast (h : ∀ r ∈ index.chain, time ≤ r.header.getBlockTime) :
    time ≤ index.getMedianTimePast := by
  obtain ⟨r, hr, heq⟩ := List.mem_map.1 index.getMedianTimePast_mem
  rw [← heq]
  exact h r (List.mem_of_mem_take hr)

theorem getMedianTimePast_le (h : ∀ r ∈ index.chain, r.header.getBlockTime ≤ time) :
    index.getMedianTimePast ≤ time := by
  obtain ⟨r, hr, heq⟩ := List.mem_map.1 index.getMedianTimePast_mem
  rw [← heq]
  exact h r (List.mem_of_mem_take hr)

/-- An ancestor's chain is what is left after dropping the blocks above it. -/
theorem chain_of_getAncestor {anc : CBlockIndex} (h : index.getAncestor height = some anc) :
    anc.chain = index.chain.drop (index.nHeight - height).toNat := by
  unfold getAncestor at h
  split at h
  · cases h
  · split at h
    · cases h
    next self prevs hd =>
      cases h
      exact hd.symm

theorem exists_getAncestor (hle : height ≤ index.nHeight) (hp : 0 ≤ height)
    (hr : index.nHeight - height < index.chain.length) :
    ∃ anc, index.getAncestor height = some anc := by
  have hb : ¬(height > index.nHeight ∨ height < 0) := by omega
  cases hd : index.chain.drop (index.nHeight - height).toNat with
  | nil =>
    have hl := congrArg List.length hd
    simp only [List.length_drop, List.length_nil] at hl
    omega
  | cons self prevs => exact ⟨⟨self, prevs⟩, by simp [getAncestor, hb, hd]⟩

end CBlockIndex

section

variable {params : DeploymentParams} {pos : DeploymentPos}

/-- On a chain that starts after the timeout a deployment fails with its first period. -/
theorem stateOf_of_late (hd : params.beginTime pos ≤ params.endTime pos) (index : CBlockIndex)
    (h : ∀ r ∈ index.chain, params.endTime pos ≤ r.header.getBlockTime) :
    stateOf params pos (some index) = .failed := by
  have hl := le_getMedianTimePast h
  rw [stateOf_some, if_neg (by omega)]
  -- the state before is the initial one or that of the period below, which has failed already
  cases hp : previousPeriod params pos index with
  | none => simp [stateNext, hl]
  | some anc =>
    have hc := chain_of_getAncestor hp
    have ha : ∀ r ∈ anc.chain, params.endTime pos ≤ r.header.getBlockTime := by
      intro r hr
      rw [hc] at hr
      exact h r (List.mem_of_mem_drop hr)
    rw [stateOf_of_late hd anc ha, stateNext]
termination_by index.prevs.length
decreasing_by exact prevs_length_of_previousPeriod params pos hp

end

def mainGenesisIndex : CBlockIndex := ⟨⟨mainGenesis, mainGenesisHash⟩, []⟩

/-- A chain on the main-network genesis block in which every block is later than the median time
of its parent and signals every deployment. -/
inductive SignallingChain : CBlockIndex → Prop
  | genesis : SignallingChain mainGenesisIndex
  | extend {prev : CBlockIndex} (block : BlockRec) : SignallingChain prev →
      prev.getMedianTimePast < block.header.getBlockTime →
      (∀ pos, mainDeployments.condition pos block.header = true) →
      SignallingChain ⟨block, prev.chain⟩

namespace SignallingChain

variable {index : CBlockIndex}

theorem genesisTime_le (h : SignallingChain index) :
    ∀ r ∈ index.chain, mainGenesis.getBlockTime ≤ r.header.getBlockTime := by
  induction h with
  | genesis =>
    intro r hr
    obtain rfl := List.mem_singleton.1 hr
    exact le_refl _
  | @extend prev block _ ht _ ih =>
    have hm := le_getMedianTimePast ih
    intro r hr
    rcases List.mem_cons.1 hr with rfl | hr
    · omega
    · exact ih r hr

theorem nHeight_eq (h : SignallingChain index) : index.nHeight = index.prevs.length := by
  have hr : index.root = mainGenesisIndex.self := by
    induction h with
    | genesis => rfl
    | extend block _ _ _ ih =>
      rw [← ih, CBlockIndex.root, CBlockIndex.chain, List.getLastD_cons]
      rfl
  rw [nHeight, hr]
  simp [mainGenesisIndex, mainGenesis]

end SignallingChain

theorem mainDeployments_endTime (pos : DeploymentPos) :
    mainDeployments.endTime pos = 1653264000 ∧ mainDeployments.beginTime pos = 1653004800 ∧
      mainDeployments.period pos = 2016 := by
  cases pos <;> decide

/-- Every deployment has failed once the first period is over. -/
theorem versionBitsState_of_signallingChain {index : CBlockIndex} (h : SignallingChain index)
    (hh : 2016 ≤ index.nHeight + 1) (events : List DeploymentEvent) (pos : DeploymentPos) :
    ((DeploymentNode.run mainDeployments events).versionBitsState mainDeployments
      (some index) pos).1 = .failed := by
  obtain ⟨he, hb, hp⟩ := mainDeployments_endTime pos
  have hle := h.nHeight_eq
  have ht : (index.nHeight + 1).tmod (2016 : Nat) = (index.nHeight + 1) % 2016 :=
    Int.tmod_eq_emod_of_nonneg (by omega)
  obtain ⟨anc, ha⟩ : ∃ anc, periodEnd mainDeployments pos index = some anc := by
    rw [periodEnd, hp, ht]
    apply exists_getAncestor
    · omega
    · omega
    · rw [CBlockIndex.chain, List.length_cons]
      omega
  have hl : ∀ r ∈ anc.chain, mainDeployments.endTime pos ≤ r.header.getBlockTime := by
    intro r hr
    rw [chain_of_getAncestor ha] at hr
    have hg := h.genesisTime_le r (List.mem_of_mem_drop hr)
    have : mainGenesis.getBlockTime = 1710112797 := by decide
    omega
  rw [DeploymentNode.versionBitsState_run, Option.bind_some, ha]
  exact stateOf_of_late (by omega) anc hl

/-- The deployment is active for the block that follows `index`, as a node sees it after `events`. -/
def ActiveAfter (events : List DeploymentEvent) (index : CBlockIndex) (pos : DeploymentPos) : Prop :=
  ((DeploymentNode.run mainDeployments events).versionBitsState mainDeployments
    (some index) pos).1 = .active

/-- However the blocks are dated, no deployment is active at the end of the third period or later. -/
theorem not_activeAfter_of_signallingChain {index : CBlockIndex} (h : SignallingChain index)
    (hheight : 3 * 2016 ≤ index.nHeight + 1) (events : List DeploymentEvent) (pos : DeploymentPos) :
    ¬ActiveAfter events index pos := by
  have hf := versionBitsState_of_signallingChain h (by omega) events pos
  rw [ActiveAfter, hf]
  decide

/-- A header that signals every deployment, a number of seconds after the genesis block. -/
def signallingHeader (seconds : Nat) : CBlockHeader :=
  { mainGenesis with nVersion := 0x100007c0, nTime := (1710112797 + seconds).toUInt32 }

/-- The chain of such headers with one block every second. -/
def secondsChain : Nat → CBlockIndex
  | 0 => mainGenesisIndex
  | n + 1 => ⟨⟨signallingHeader (n + 1), (n + 1 : Nat)⟩, (secondsChain n).chain⟩

variable {n : Nat}

theorem signallingHeader_getBlockTime (h : n ≤ 10000) :
    (signallingHeader n).getBlockTime = 1710112797 + n := by
  have hm : (1710112797 + n) % 2 ^ 32 = 1710112797 + n := Nat.mod_eq_of_lt (by omega)
  simp only [signallingHeader, CBlockHeader.getBlockTime, Nat.toUInt32_eq, UInt32.toNat_ofNat', hm]
  omega

theorem condition_signallingHeader (n : Nat) (pos : DeploymentPos) :
    mainDeployments.condition pos (signallingHeader n) = true := by
  have hv : (signallingHeader n).nVersion = 0x100007c0 := rfl
  rw [DeploymentParams.condition, hv]
  cases pos <;> decide

theorem secondsChain_getBlockTime_le (h : n ≤ 10000) :
    ∀ r ∈ (secondsChain n).chain, r.header.getBlockTime ≤ 1710112797 + n := by
  induction n with
  | zero =>
    intro r hr
    obtain rfl := List.mem_singleton.1 hr
    decide
  | succ n ih =>
    intro r hr
    rcases List.mem_cons.1 hr with rfl | hr
    · exact (signallingHeader_getBlockTime h).le
    · have := ih (by omega) r hr
      omega

theorem signallingChain_secondsChain (h : n ≤ 10000) : SignallingChain (secondsChain n) := by
  induction n with
  | zero => exact .genesis
  | succ n ih =>
    refine .extend _ (ih (by omega)) ?_ (condition_signallingHeader _)
    have hm := getMedianTimePast_le (secondsChain_getBlockTime_le (by omega : n ≤ 10000))
    rw [signallingHeader_getBlockTime h]
    omega

theorem secondsChain_nHeight (h : n ≤ 10000) : (secondsChain n).nHeight = n := by
  have hl : (secondsChain n).prevs.length = n := by
    clear h
    induction n with
    | zero => rfl
    | succ n ih => rw [secondsChain, CBlockIndex.chain, List.length_cons, ih]
  rw [(signallingChain_secondsChain h).nHeight_eq, hl]

theorem not_activeAfter_secondsChain :
    SignallingChain (secondsChain 6047) ∧ 3 * 2016 ≤ (secondsChain 6047).nHeight + 1 ∧
      ¬ActiveAfter [] (secondsChain 6047) .assets := by
  have hc : SignallingChain (secondsChain 6047) := signallingChain_secondsChain (by omega)
  have hh : 3 * 2016 ≤ (secondsChain 6047).nHeight + 1 := by
    rw [secondsChain_nHeight (by omega)]
    omega
  exact ⟨hc, hh, not_activeAfter_of_signallingChain hc hh [] .assets⟩

/-- A chain that signals in every block and still has the asset deployment failed. -/
theorem secondsChain_assets_failed :
    SignallingChain (secondsChain 6047) ∧ (secondsChain 6047).nHeight + 1 = 3 * 2016 ∧
      ((DeploymentNode.run mainDeployments []).versionBitsState mainDeployments
        (some (secondsChain 6047)) .assets).1 = .failed := by
  have hc : SignallingChain (secondsChain 6047) := signallingChain_secondsChain (by omega)
  have hh : (secondsChain 6047).nHeight = 6047 := secondsChain_nHeight (by omega)
  refine ⟨hc, by omega, ?_⟩
  exact versionBitsState_of_signallingChain hc (by omega) [] .assets

end Cmusic
