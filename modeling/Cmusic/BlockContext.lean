import Cmusic.Inflation

/-! The contextual checks of a block, and the coinbases that reach the check of the community
share. -/
namespace Cmusic

open Fallible

def lockTimeThreshold : Int := 500000000

def sequenceFinal : UInt32 := 0xffffffff

/-- A lock time below the threshold is a height, any other a time. -/
def isFinalTx (tx : CTransaction) (nBlockHeight nBlockTime : Int) : Bool :=
  let nLockTime : Int := tx.nLockTime.toNat
  nLockTime = 0 ||
    nLockTime < (if nLockTime < lockTimeThreshold then nBlockHeight else nBlockTime) ||
    tx.vin.all fun txin => txin.nSequence = sequenceFinal

namespace CScript

/-- The loop of `CScriptNum::serialize`; a 64-bit number has at most eight bytes. -/
def absBytes : Nat → Nat → Str
  | 0, _ => []
  | fuel + 1, absvalue =>
    if absvalue = 0 then [] else absvalue.toUInt8 :: absBytes fuel (absvalue / 256)

/-- `CScriptNum::serialize`: the sign is the highest bit of the last byte. -/
def serializeNum (value : Int) : Str :=
  let result := absBytes 8 value.natAbs
  match result.getLast? with
  | none => []
  | some back =>
    if back &&& 0x80 ≠ 0 then result ++ [if value < 0 then 0x80 else 0]
    else if value < 0 then result.dropLast ++ [back ||| 0x80]
    else result

/-- `push_int64`. -/
def pushInt64 (script : CScript) (n : Int) : CScript :=
  if n = -1 ∨ 1 ≤ n ∧ n ≤ 16 then script ++ [(n + (op1.toNat - 1)).toNat.toUInt8]
  else if n = 0 then script ++ [0]
  else pushData script (serializeNum n)

/-- The marker of an output that commits to the witness data. -/
def isWitnessCommitment (script : CScript) : Bool :=
  script.length ≥ 38 && byteAt script 0 = opReturn && byteAt script 1 = 0x24 &&
    byteAt script 2 = 0xaa && byteAt script 3 = 0x21 && byteAt script 4 = 0xa9 &&
    byteAt script 5 = 0xed

end CScript

/-- The consensus parameters that only `ContextualCheckBlock` reads. -/
structure ContextParams where
  nCSVEnabled : Bool
  nSegwitEnabled : Bool
  bip34LockedIn : Int

/-- The witness data of a block, which its transactions leave out. -/
structure BlockWitness where
  /-- The stack of the first input of the coinbase. -/
  stack : List Str := []
  /-- Whether some transaction has witness data. -/
  hasWitness : Bool := false
  /-- The bytes that the witness data adds to the serialized block. -/
  size : Nat := 0
  /-- `BlockWitnessMerkleRoot`. -/
  merkleRoot : Str := []

/-- `GetWitnessCommitmentIndex`: the last output of the coinbase with the marker. -/
def getWitnessCommitmentIndex (block : CBlock) : Option Nat :=
  match block.vtx with
  | [] => none
  | coinbase :: _ => coinbase.vout.zipIdx.foldl
      (fun commitpos item =>
        if CScript.isWitnessCommitment item.1.scriptPubKey then some item.2 else commitpos) none

def getBlockWeight (params : ConsensusParams) (witness : BlockWitness) (block : CBlock) : Nat :=
  block.strippedSize params * (witnessScaleFactor - 1) + (block.strippedSize params + witness.size)

section

variable (params : ContextParams) (rules : BlockRules) (env : Env)

/-- Whether the coinbase commits to the witness data; the commitment has to be right. -/
def checkWitnessCommitment (witness : BlockWitness) (block : CBlock) : Checked Bool :=
  match if params.nSegwitEnabled then getWitnessCommitmentIndex block else none with
  | none => return false
  | some commitpos => do
    let nonce := witness.stack.headD []
    rejectIf (witness.stack.length ≠ 1 || nonce.length ≠ 32) 100 (str "bad-witness-nonce-size")
    let out ← orAbort (block.vtx.head?.bind fun coinbase => coinbase.vout[commitpos]?)
    rejectIf (env.hash256 (witness.merkleRoot ++ nonce) ≠ (out.scriptPubKey.drop 6).take 32) 100
      (str "bad-witness-merkle-match")
    return true

/-- The coinbase has to start with the height of the block. -/
def checkCoinbaseHeight (nHeight : Int) (block : CBlock) : Checked Unit :=
  if nHeight ≥ params.bip34LockedIn then do
    let txin ← orAbort (block.vtx.head?.bind fun coinbase => coinbase.vin.head?)
    rejectIf (!(CScript.pushInt64 [] nHeight).isPrefixOf txin.scriptSig) 100 (str "bad-cb-height")
  else return ()

def contextualCheckBlock (prev : Option CBlockIndex) (witness : BlockWitness) (block : CBlock) :
    Checked Unit := do
  let nHeight := (prev.map fun index => index.nHeight + 1).getD 0
  let nLockTimeCutoff := match prev with
    | some index => if params.nCSVEnabled then index.getMedianTimePast else block.header.getBlockTime
    | none => block.header.getBlockTime
  rejectIf (!(block.vtx.all fun tx => isFinalTx tx nHeight nLockTimeCutoff)) 10
    (str "bad-txns-nonfinal")
  checkCoinbaseHeight params nHeight block
  let fHaveWitness ← checkWitnessCommitment params env witness block
  rejectIf (!fHaveWitness && witness.hasWitness) 100 (str "unexpected-witness")
  rejectIf (getBlockWeight rules.params witness block > maxBlockWeight) 100 (str "bad-blk-weight")

variable (g : AssetGlobals) (mempool : MempoolAssets)

/-- A block other than the genesis block that has passed both checks of a block, and that
`ConnectBlock` follows up to the checks of the community share. -/
structure ReachesCommunityCheck (node : NodeState) (prev : Option CBlockIndex)
    (witness : BlockWitness) (nHeight : Nat) (st : CoinState) (coinbase : CTransaction)
    (block : CBlock) : Prop where
  checked : checkBlock rules env node block = .ok ()
  contextual : contextualCheckBlock params rules env prev witness block = .ok ()
  notGenesis : block.header.getHash rules.params ≠ rules.params.hashGenesisBlock
  head : block.vtx.head? = some coinbase
  connected : ∃ conn value, connectLoop rules env g mempool nHeight
    (block.header.getHash rules.params) st block.vtx = .ok conn ∧
    coinbase.getValueOut env.areEnforcedValuesDeployed = some value ∧
    ¬ value > conn.nFees + getBlockSubsidy nHeight

variable {params rules env g mempool} {node : NodeState} {prev : Option CBlockIndex}
  {witness : BlockWitness} {nHeight : Nat} {st : CoinState} {coinbase : CTransaction}
  {block : CBlock}

theorem vout_ne_nil_of_checkTransaction {tx : CTransaction} {u : Unit}
    (h : checkTransaction env tx true false true = .ok u) : tx.vout ≠ [] := by
  simp only [checkTransaction, rejectIf, failIf_bind_eq_ok] at h
  simpa using h.2.1

theorem orAbort_eq_aborted {α : Type} {x : Option α} : orAbort x = .error aborted ↔ x = none := by
  cases x <;> simp [orAbort]

/-- A rejection with a penalty does not stop the node. -/
theorem rejectIf_ne_aborted (cond : Bool) {level : Nat} (reason : Str) (hl : level ≠ 0) :
    rejectIf cond level reason ≠ .error aborted := by
  intro h
  obtain ⟨-, he⟩ := failIf_eq_error.1 h
  exact hl (congrArg CValidationState.nDoS he)

/-- The checks of the coinbase stop the node only at a missing second output. -/
theorem checkReward_eq_aborted {nFees value : CAmount}
    (hv : coinbase.getValueOut env.areEnforcedValuesDeployed = some value)
    (hr : ¬ value > nFees + getBlockSubsidy nHeight) :
    checkReward rules env nHeight nFees coinbase = .error aborted ↔ coinbase.vout[1]? = none := by
  constructor
  · intro h
    obtain h | ⟨_, -, h⟩ := bind_eq_error.1 h
    · simp [orAbort, hv] at h
    obtain h | ⟨_, -, h⟩ := bind_eq_error.1 h
    · exact (rejectIf_ne_aborted _ _ (by decide) h).elim
    obtain h | ⟨community, -, h⟩ := bind_eq_error.1 h
    · exact orAbort_eq_aborted.1 h
    obtain h | ⟨_, -, h⟩ := bind_eq_error.1 h
    · exact (rejectIf_ne_aborted _ _ (by decide) h).elim
    · exact (rejectIf_ne_aborted _ _ (by decide) h).elim
  · intro h
    refine bind_eq_error.2 (Or.inr ⟨value, orAbort_eq_ok.2 hv, ?_⟩)
    refine bind_eq_error.2 (Or.inr ⟨(), failIf_eq_ok.2 (by simpa using hr), ?_⟩)
    exact bind_eq_error.2 (Or.inl (orAbort_eq_aborted.2 h))

/-- Behind the loop only the checks of the coinbase are left. -/
theorem connectBlock_eq_aborted
    (h : ReachesCommunityCheck params rules env g mempool node prev witness nHeight st coinbase
      block) :
    connectBlock rules env g mempool node nHeight st block = .error aborted ↔
      coinbase.vout[1]? = none := by
  obtain ⟨conn, value, hl, hv, hr⟩ := h.connected
  obtain ⟨rest, hvt⟩ : ∃ rest, block.vtx = coinbase :: rest := by
    cases hb : block.vtx with
    | nil => simpa [hb] using h.head
    | cons tx rest =>
      obtain rfl : tx = coinbase := by simpa [hb] using h.head
      exact ⟨rest, rfl⟩
  rw [hvt] at hl
  obtain ⟨first, hfirst, hre⟩ := bind_eq_ok.1 hl
  rw [← @checkReward_eq_aborted rules env nHeight coinbase conn.nFees value hv hr]
  simp only [connectBlock, h.checked, if_neg h.notGenesis, connectTransactions, hvt, hfirst, bind,
    Except.bind]
  rw [hre]
  cases hc : checkReward rules env nHeight conn.nFees coinbase <;>
    simp [hc, pure, Except.pure]

/-- A coinbase that gets this far has an output. The node stops exactly if it has no other, as no
check before asks for the second one. -/
theorem connectBlock_coinbaseOutputs
    (h : ReachesCommunityCheck params rules env g mempool node prev witness nHeight st coinbase
      block) :
    (2 ≤ coinbase.vout.length ∧
        connectBlock rules env g mempool node nHeight st block ≠ .error aborted) ↔
      coinbase.vout.length ≠ 1 := by
  have hm : coinbase ∈ block.vtx := List.mem_of_mem_head? h.head
  have hne : coinbase.vout ≠ [] :=
    vout_ne_nil_of_checkTransaction ((transactions_of_checkBlock h.checked).2.2 coinbase hm)
  have hp : 0 < coinbase.vout.length := List.length_pos_iff.2 hne
  rw [ne_eq, connectBlock_eq_aborted h, List.getElem?_eq_none_iff]
  omega

end

/-- The main network, but with the height of the coinbase checked from the start. -/
def sampleContext : ContextParams where
  nCSVEnabled := true
  nSegwitEnabled := true
  bip34LockedIn := 0

/-- The ninth block of a chain. -/
def sampleTip : CBlockIndex :=
  ⟨⟨sampleHeader, 3⟩, List.replicate 8 ⟨sampleHeader, 3⟩ ++ [⟨mainGenesis, mainGenesisHash⟩]⟩

/-- A coinbase of the tenth block with the given outputs. -/
def tenthCoinbase (vout : List CTxOut) : CTransaction :=
  { sampleCoinbase with vin := [⟨⟨0, 0xffffffff⟩, [0x5a, 1], 0xffffffff⟩], vout }

def soloCoinbase : CTransaction := tenthCoinbase [⟨300 * coin, sampleScript⟩]

def pairCoinbase : CTransaction := tenthCoinbase sampleCoinbase.vout

def emptyBlock (coinbase : CTransaction) : CBlock := ⟨sampleHeader, [coinbase]⟩

/-- The fees of a connected block. -/
def feesOf (connected : Checked Connected) : Option CAmount :=
  connected.toOption.map Connected.nFees

theorem exists_of_feesOf {connected : Checked Connected} {nFees : CAmount}
    (h : feesOf connected = some nFees) : ∃ conn, connected = .ok conn ∧ conn.nFees = nFees := by
  cases connected with
  | error e => cases h
  | ok conn => exact ⟨conn, rfl, Option.some.inj h⟩

/-- A block with nothing but a coinbase that pays the subsidy of the tenth block. -/
theorem reachesCommunityCheck_emptyBlock {coinbase : CTransaction}
    (hch : checkBlock sampleRules sampleEnv sampleNode (emptyBlock coinbase) = .ok ())
    (hco : contextualCheckBlock sampleContext sampleRules sampleEnv (some sampleTip) {}
      (emptyBlock coinbase) = .ok ())
    (hf : feesOf (connectLoop sampleRules sampleEnv ownedGlobals {} 10
      (sampleHeader.getHash sampleRules.params) { view := { base := ∅ }, cache := {} }
      [coinbase]) = some 0)
    (hv : coinbase.getValueOut sampleEnv.areEnforcedValuesDeployed = some (300 * coin)) :
    ReachesCommunityCheck sampleContext sampleRules sampleEnv ownedGlobals {} sampleNode
      (some sampleTip) {} 10 { view := { base := ∅ }, cache := {} } coinbase
      (emptyBlock coinbase) := by
  obtain ⟨conn, hc, hz⟩ := exists_of_feesOf hf
  have hg : sampleHeader.getHash sampleRules.params ≠ sampleRules.params.hashGenesisBlock := by
    decide
  refine ⟨hch, hco, hg, rfl, conn, 300 * coin, hc, hv, ?_⟩
  rw [hz]
  decide

theorem connectBlock_coinbaseOutputs_pairCoinbase :
    2 ≤ pairCoinbase.vout.length ∧ connectBlock sampleRules sampleEnv ownedGlobals {} sampleNode 10
      { view := { base := ∅ }, cache := {} } (emptyBlock pairCoinbase) ≠ .error aborted :=
  (connectBlock_coinbaseOutputs (reachesCommunityCheck_emptyBlock (by decide +kernel)
    (by decide +kernel) (by decide +kernel) (by decide +kernel))).2 (by decide)

/-- A coinbase that pays everything to its miner passes every check before the second output is
read, and the node stops there. -/
theorem connectBlock_soloCoinbase :
    ReachesCommunityCheck sampleContext sampleRules sampleEnv ownedGlobals {} sampleNode
      (some sampleTip) {} 10 { view := { base := ∅ }, cache := {} } soloCoinbase
      (emptyBlock soloCoinbase) ∧
    soloCoinbase.vout.length = 1 ∧
    connectBlock sampleRules sampleEnv ownedGlobals {} sampleNode 10
      { view := { base := ∅ }, cache := {} } (emptyBlock soloCoinbase) = .error aborted := by
  have hr := @reachesCommunityCheck_emptyBlock soloCoinbase (by decide +kernel)
    (by decide +kernel) (by decide +kernel) (by decide +kernel)
  exact ⟨hr, rfl, (connectBlock_eq_aborted hr).2 rfl⟩

end Cmusic
