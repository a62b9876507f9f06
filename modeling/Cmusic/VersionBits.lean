import Cmusic.BlockIndex

/-! Deployments: the threshold state machine with its cache and the answers a node gives about them. -/

namespace Cmusic

inductive DeploymentPos where
  | testDummy
  | assets
  | msgRestAssets
  | transferScriptSize
  | enforceValue
  | coinbaseAssets
  deriving DecidableEq, Repr

structure BIP9Deployment where
  bit : Nat
  nStartTime : Int
  nTimeout : Int
  nOverrideRuleChangeActivationThreshold : Nat
  nOverrideMinerConfirmationWindow : Nat

/-- The part of the consensus parameters that the deployments read. -/
structure DeploymentParams where
  vDeployments : DeploymentPos → BIP9Deployment
  nRuleChangeActivationThreshold : Nat
  nMinerConfirmationWindow : Nat
  window_pos : 0 < nMinerConfirmationWindow

/-- `CMainParams`: every deployment has the same dates and the same window. -/
def mainDeployment (bit threshold : Nat) : BIP9Deployment where
  bit := bit
  nStartTime := 1653004800
  nTimeout := 1653264000
  nOverrideRuleChangeActivationThreshold := threshold
  nOverrideMinerConfirmationWindow := 2016

def mainDeployments : DeploymentParams where
  vDeployments
    | .testDummy => mainDeployment 28 1814
    | .assets => mainDeployment 6 1814
    | .msgRestAssets => mainDeployment 7 1714
    | .transferScriptSize => mainDeployment 8 1714
    | .enforceValue => mainDeployment 9 1411
    | .coinbaseAssets => mainDeployment 10 1411
  nRuleChangeActivationThreshold := 7
  nMinerConfirmationWindow := 20
  window_pos := by decide

namespace DeploymentParams

variable (params : DeploymentParams) (pos : DeploymentPos)

def beginTime : Int := (params.vDeployments pos).nStartTime

def endTime : Int := (params.vDeployments pos).nTimeout

def period : Nat :=
  if (params.vDeployments pos).nOverrideMinerConfirmationWindow > 0 then
    (params.vDeployments pos).nOverrideMinerConfirmationWindow
  else params.nMinerConfirmationWindow

def threshold : Nat :=
  if (params.vDeployments pos).nOverrideRuleChangeActivationThreshold > 0 then
    (params.vDeployments pos).nOverrideRuleChangeActivationThreshold
  else params.nRuleChangeActivationThreshold

def mask : UInt32 := 1 <<< (params.vDeployments pos).bit.toUInt32

def condition (block : CBlockHeader) : Bool :=
  block.nVersion.toUInt32 &&& params.mask pos != 0

theorem period_pos : 0 < params.period pos := by
  have := params.window_pos
  unfold period
  split <;> omega

end DeploymentParams

inductive ThresholdState where
  | defined
  | started
  | lockedIn
  | active
  | failed
  deriving DecidableEq, Repr

/-- The known states, by the block that ends a period; no block stands for the parent of the first one. -/
abbrev ThresholdConditionCache := Option CBlockIndex → Option ThresholdState

section

variable (params : DeploymentParams) (pos : DeploymentPos) {cache : ThresholdConditionCache}

/-- One turn of the forward walk: the state after the period that `index` ends. -/
def stateNext (index : CBlockIndex) : ThresholdState → ThresholdState
  | .defined =>
    if index.getMedianTimePast ≥ params.endTime pos then .failed
    else if index.getMedianTimePast ≥ params.beginTime pos then .started
    else .defined
  | .started =>
    if index.getMedianTimePast ≥ params.endTime pos then .failed
    else if (index.chain.take (params.period pos)).countP (fun r => params.condition pos r.header) ≥
        params.threshold pos then .lockedIn
    else .started
  | .lockedIn => .active
  | .active => .active
  | .failed => .failed

/-- The block that ends the period before the one of `index`. -/
def previousPeriod (index : CBlockIndex) : Option CBlockIndex :=
  index.getAncestor (index.nHeight - params.period pos)

theorem prevs_length_of_previousPeriod {index anc : CBlockIndex}
    (h : previousPeriod params pos index = some anc) : anc.prevs.length < index.prevs.length := by
  have hp := params.period_pos pos
  unfold previousPeriod CBlockIndex.getAncestor at h
  split at h
  · simp at h
  · split at h
    · simp at h
    · rename_i self prevs hd
      have hl := congrArg List.length hd
      simp only [List.length_drop, CBlockIndex.chain, List.length_cons] at hl
      cases h
      simp only
      omega

/-- The two loops of `GetStateFor`: back to a block whose state is known, then forward again. -/
def walkStates (cache : ThresholdConditionCache) :
    Option CBlockIndex → ThresholdState × ThresholdConditionCache
  | none =>
    match cache none with
    | some state => (state, cache)
    | none => (.defined, Function.update cache none (some .defined))
  | some index =>
    match cache (some index) with
    | some state => (state, cache)
    | none =>
      if index.getMedianTimePast < params.beginTime pos then
        (.defined, Function.update cache (some index) (some .defined))
      else
        let known := walkStates cache (previousPeriod params pos index)
        let state := stateNext params pos index known.1
        (state, Function.update known.2 (some index) (some state))
  termination_by index? => index?.elim 0 fun index => index.prevs.length + 1
  decreasing_by
    cases h : previousPeriod params pos index with
    | none => simp
    | some anc => simpa using prevs_length_of_previousPeriod params pos h

/-- The block that ends the period before the one of the block to come. -/
def periodEnd (index : CBlockIndex) : Option CBlockIndex :=
  index.getAncestor (index.nHeight - (index.nHeight + 1).tmod (params.period pos))

def getStateFor (indexPrev? : Option CBlockIndex) (cache : ThresholdConditionCache) :
    ThresholdState × ThresholdConditionCache :=
  walkStates params pos cache (indexPrev?.bind (periodEnd params pos))

/-- The state recomputed from the chain alone. -/
def stateOf (index? : Option CBlockIndex) : ThresholdState :=
  (walkStates params pos (fun _ => none) index?).1

@[simp] theorem stateOf_none : stateOf params pos none = .defined := by
  simp [stateOf, walkStates]

theorem stateOf_some (index : CBlockIndex) : stateOf params pos (some index) =
      if index.getMedianTimePast < params.beginTime pos then .defined
      else stateNext params pos index (stateOf params pos (previousPeriod params pos index)) := by
  by_cases he : index.getMedianTimePast < params.beginTime pos
  · simp [stateOf, walkStates, he]
  · rw [stateOf, walkStates]
    simp [stateOf, he]

/-- Whatever the cache knows is what the chain says. -/
def Coherent (cache : ThresholdConditionCache) : Prop :=
  ∀ index? state, cache index? = some state → state = stateOf params pos index?

theorem coherent_empty : Coherent params pos fun _ => none := by
  intro index? state h
  cases h

variable {params pos}

theorem Coherent.update (h : Coherent params pos cache) (index? : Option CBlockIndex) :
    Coherent params pos (Function.update cache index? (some (stateOf params pos index?))) := by
  intro key state hkey
  by_cases heq : key = index?
  · subst heq
    rw [Function.update_self] at hkey
    exact (Option.some.inj hkey).symm
  · rw [Function.update_of_ne heq] at hkey
    exact h key state hkey

theorem Coherent.walkStates (h : Coherent params pos cache) (index? : Option CBlockIndex) :
    (walkStates params pos cache index?).1 = stateOf params pos index? ∧
      Coherent params pos (walkStates params pos cache index?).2 := by
  -- the walk stops at a known block, at the start of the chain or before the start time
  fun_induction Cmusic.walkStates params pos cache index? with
  | case1 state hkn => exact ⟨h none state hkn, h⟩
  | case2 hnew =>
    refine ⟨(stateOf_none params pos).symm, ?_⟩
    simpa using h.update none
  | case3 index state hkn => exact ⟨h _ state hkn, h⟩
  | case4 index hnew he =>
    have hst : stateOf params pos (some index) = .defined := by
      rw [stateOf_some, if_pos he]
    refine ⟨hst.symm, ?_⟩
    simpa [hst] using h.update (some index)
  | case5 index hnew he known state ih =>
    have hst : stateOf params pos (some index) = state := by
      rw [stateOf_some, if_neg he, ← ih.1]
    refine ⟨hst.symm, ?_⟩
    rw [← hst]
    exact ih.2.update (some index)

/-- A cached answer is the one that the chain alone gives. -/
theorem Coherent.getStateFor (h : Coherent params pos cache) (indexPrev? : Option CBlockIndex) :
    (getStateFor params pos indexPrev? cache).1 =
        stateOf params pos (indexPrev?.bind (periodEnd params pos)) ∧
      Coherent params pos (getStateFor params pos indexPrev? cache).2 :=
  h.walkStates _

end

end Cmusic
