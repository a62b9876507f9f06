import Cmusic.VersionBits

/-! The deployment queries of a node over its runs. -/

namespace Cmusic

/-- The process-wide flags, named after the deployment that each remembers. -/
inductive DeploymentFlag where
  | assets
  | rip5
  | transferScript
  | enforcedValues
  | checkCoinbaseAssets
  deriving DecidableEq, Repr

namespace DeploymentFlag

def pos : DeploymentFlag → DeploymentPos
  | .assets => .assets
  | .rip5 => .msgRestAssets
  | .transferScript => .transferScriptSize
  | .enforcedValues => .enforceValue
  | .checkCoinbaseAssets => .coinbaseAssets

/-- Enforced values are the only deployment that already counts when it is locked in. -/
def countsAs (flag : DeploymentFlag) (state : ThresholdState) : Bool :=
  match flag with
  | .enforcedValues => state = .active || state = .lockedIn
  | _ => state = .active

end DeploymentFlag

/-- What the answers are computed from; every flag starts as `true` (`consensus.h`). -/
structure DeploymentNode where
  isActive : DeploymentFlag → Bool := fun _ => true
  versionbitscache : DeploymentPos → ThresholdConditionCache := fun _ _ => none
  tip : Option CBlockIndex := none

namespace DeploymentNode

variable (params : DeploymentParams) (node : DeploymentNode)

def versionBitsState (indexPrev? : Option CBlockIndex) (pos : DeploymentPos) :
    ThresholdState × DeploymentNode :=
  let found := getStateFor params pos indexPrev? (node.versionbitscache pos)
  (found.1, { node with versionbitscache := Function.update node.versionbitscache pos found.2 })

def versionBitsTipState (pos : DeploymentPos) : ThresholdState × DeploymentNode :=
  node.versionBitsState params node.tip pos

/-- The body that the queries share. -/
def isDeployed (flag : DeploymentFlag) : Bool × DeploymentNode :=
  if node.isActive flag then (true, node)
  else
    let found := node.versionBitsTipState params flag.pos
    let node := found.2
    let node :=
      if flag.countsAs found.1 then
        { node with isActive := Function.update node.isActive flag true }
      else node
    (node.isActive flag, node)

def areEnforcedValuesDeployed : Bool × DeploymentNode := node.isDeployed params .enforcedValues

def areCoinbaseCheckAssetsDeployed : Bool × DeploymentNode :=
  node.isDeployed params .checkCoinbaseAssets

def areAssetsDeployed : Bool × DeploymentNode := node.isDeployed params .assets

def isRip5Active : Bool × DeploymentNode := node.isDeployed params .rip5

def areMessagesDeployed : Bool × DeploymentNode := node.isRip5Active params

def areTransferScriptsSizeDeployed : Bool × DeploymentNode := node.isDeployed params .transferScript

def areRestrictedAssetsDeployed : Bool × DeploymentNode := node.isRip5Active params

end DeploymentNode

/-- What can happen to a node between two queries; `tip` covers connecting, disconnecting and
reorganising, `state` the questions of block templates and of `ComputeBlockVersion`. -/
inductive DeploymentEvent where
  | tip (index? : Option CBlockIndex)
  | query (flag : DeploymentFlag)
  | state (indexPrev? : Option CBlockIndex) (pos : DeploymentPos)
  | unload

namespace DeploymentNode

variable (params : DeploymentParams) {node : DeploymentNode}

def step (node : DeploymentNode) : DeploymentEvent → DeploymentNode
  | .tip index? => { node with tip := index? }
  | .query flag => (node.isDeployed params flag).2
  | .state indexPrev? pos => (node.versionBitsState params indexPrev? pos).2
  | .unload => { node with versionbitscache := fun _ _ => none }

def run (events : List DeploymentEvent) : DeploymentNode := events.foldl (step params) {}

/-- The six answers, in the order in which the source declares the functions. -/
def answers (node : DeploymentNode) : List Bool :=
  [(node.areEnforcedValuesDeployed params).1, (node.areCoinbaseCheckAssetsDeployed params).1,
    (node.areAssetsDeployed params).1, (node.areMessagesDeployed params).1,
    (node.areTransferScriptsSizeDeployed params).1, (node.areRestrictedAssetsDeployed params).1]

variable {params}

/-- No event clears a flag. -/
theorem isActive_step {flag : DeploymentFlag} (h : node.isActive flag = true)
    (event : DeploymentEvent) : (node.step params event).isActive flag = true := by
  cases event with
  | tip index? => exact h
  | state indexPrev? pos => exact h
  | unload => exact h
  | query asked =>
    by_cases ha : node.isActive asked = true
    · simpa [step, isDeployed, ha] using h
    · have hne : flag ≠ asked := fun heq => ha (heq ▸ h)
      simp only [step, isDeployed, ha, Bool.false_eq_true, if_false]
      split
      · simpa [Function.update_of_ne hne, versionBitsTipState, versionBitsState] using h
      · exact h

theorem isActive_foldl (h : ∀ flag, node.isActive flag = true) (events : List DeploymentEvent)
    (flag : DeploymentFlag) : (events.foldl (step params) node).isActive flag = true := by
  induction events generalizing node with
  | nil => exact h flag
  | cons event events ih => exact ih fun flag => isActive_step (h flag) event

theorem isActive_run (events : List DeploymentEvent) (flag : DeploymentFlag) :
    (run params events).isActive flag = true :=
  isActive_foldl (fun _ => rfl) events flag

/-- A flag that is set answers without looking at the chain. -/
theorem isDeployed_run (events : List DeploymentEvent) (flag : DeploymentFlag) :
    ((run params events).isDeployed params flag).1 = true := by
  simp [isDeployed, isActive_run]

theorem answers_run (events : List DeploymentEvent) :
    (run params events).answers params = List.replicate 6 true := by
  simp [answers, areEnforcedValuesDeployed, areCoinbaseCheckAssetsDeployed, areAssetsDeployed,
    areMessagesDeployed, areTransferScriptsSizeDeployed, areRestrictedAssetsDeployed, isRip5Active,
    isDeployed_run]

/-- Every flag starts set, so the answers are the same after any two runs, among them those that end
on the same chain. -/
theorem answers_run_eq_answers_run (events events' : List DeploymentEvent) :
    (run params events).answers params = (run params events').answers params :=
  (answers_run events).trans (answers_run events').symm

/-- One node asks on the way, about a tip that it leaves again; the other one never does. -/
theorem answers_run_eq_answers_run_genesis :
    let genesis : CBlockIndex := ⟨⟨mainGenesis, mainGenesisHash⟩, []⟩
    let next : CBlockIndex := ⟨⟨mainGenesis, 1⟩, genesis.chain⟩
    let asked := run mainDeployments [.tip (some next), .query .assets,
      .state (some next) .enforceValue, .tip (some genesis)]
    let silent := run mainDeployments [.tip (some genesis)]
    asked.tip = silent.tip ∧ asked.answers mainDeployments = silent.answers mainDeployments :=
  ⟨rfl, answers_run_eq_answers_run _ _⟩

/-- Every cache of the node agrees with the chains. -/
def CachesCoherent (params : DeploymentParams) (node : DeploymentNode) : Prop :=
  ∀ pos, Coherent params pos (node.versionbitscache pos)

theorem cachesCoherent_versionBitsState (h : node.CachesCoherent params)
    (indexPrev? : Option CBlockIndex) (pos : DeploymentPos) :
    (node.versionBitsState params indexPrev? pos).2.CachesCoherent params := by
  intro other
  by_cases hp : other = pos
  · subst hp
    simpa [versionBitsState] using ((h other).getStateFor indexPrev?).2
  · simpa [versionBitsState, Function.update_of_ne hp] using h other

theorem cachesCoherent_step (h : node.CachesCoherent params) (event : DeploymentEvent) :
    (node.step params event).CachesCoherent params := by
  cases event with
  | tip index? => exact h
  | state indexPrev? pos => exact cachesCoherent_versionBitsState h indexPrev? pos
  | unload => exact fun pos => coherent_empty params pos
  | query flag =>
    have ha := cachesCoherent_versionBitsState h node.tip flag.pos
    simp only [step, isDeployed]
    split
    · exact h
    · split <;> exact ha

theorem cachesCoherent_run (events : List DeploymentEvent) :
    (run params events).CachesCoherent params := by
  have hf : ∀ node : DeploymentNode, node.CachesCoherent params →
      (events.foldl (step params) node).CachesCoherent params := by
    induction events with
    | nil => exact fun _ h => h
    | cons event events ih => exact fun node h => ih _ (cachesCoherent_step h event)
  exact hf {} fun pos => coherent_empty params pos

/-- In every run the state that a node finds is the one the chain alone determines. -/
theorem versionBitsState_run (events : List DeploymentEvent) (indexPrev? : Option CBlockIndex)
    (pos : DeploymentPos) :
    ((run params events).versionBitsState params indexPrev? pos).1 =
      stateOf params pos (indexPrev?.bind (periodEnd params pos)) :=
  ((cachesCoherent_run events pos).getStateFor indexPrev?).1

end DeploymentNode

end Cmusic
