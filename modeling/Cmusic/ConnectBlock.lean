import Cmusic.Headers
import Cmusic.CheckTxAssets
import Cmusic.UpdateCoins

/-! The checks of a block and its connection to the coins and the asset cache. -/
namespace Cmusic

open Fallible Std

structure CBlock where
  header : CBlockHeader
  vtx : List CTransaction

/-- The consensus parameters, and what stands for the code that is not modelled: the merkle tree,
the counting of signature operations, relative lock times and the script interpreter. -/
structure BlockRules where
  params : ConsensusParams
  /-- The root over the transaction ids, and whether the tree repeats a subtree. -/
  blockMerkleRoot : List UInt256 → UInt256 × Bool
  getLegacySigOpCount : CTransaction → Nat
  getTransactionSigOpCost : CTransaction → CCoinsViewCache → Nat
  /-- `SequenceLocks`, given the heights of the spent coins. -/
  sequenceLocks : CTransaction → List Nat → Bool
  checkInputs : CTransaction → CCoinsViewCache → Checked Unit
  /-- The script of the community address. -/
  scriptPubKeyCommunityAutonomous : CScript

def maxBlockSigOpsCost : Nat := 80000

def coinbaseMaturity : Int := 50

def checkAddressHeight : Nat := 128025

/-- The node stops: an assertion fails or an exception leaves the validation code. -/
def aborted : CValidationState := ⟨0, 0, []⟩

def orAbort {α : Type} (x : Option α) : Checked α :=
  match x with
  | some a => .ok a
  | none => .error aborted

@[simp] theorem orAbort_eq_ok {α : Type} {x : Option α} {a : α} :
    orAbort x = .ok a ↔ x = some a := by
  cases x <;> simp [orAbort]

/-- One turn of the loop of `GetValueOut`; the exception is `none`. -/
def addValueOut (fAreEnforcedValues : Bool) (nValueOut : CAmount) (txout : CTxOut) :
    Option CAmount :=
  if !fAreEnforcedValues && (CScript.isAssetScript txout.scriptPubKey).isSome then some nValueOut
  else if !moneyRange txout.nValue || !moneyRange (nValueOut + txout.nValue) then none
  else some (nValueOut + txout.nValue)

def CTransaction.getValueOut (tx : CTransaction) (fAreEnforcedValues : Bool) : Option CAmount :=
  tx.vout.foldlM (addValueOut fAreEnforcedValues) 0

def getBlockSubsidy (nHeight : Nat) : CAmount :=
  if nHeight ≤ 200000 then 300 * coin
  else if nHeight ≤ 400000 then 200 * coin
  else if nHeight ≤ 600000 then 150 * coin
  else if nHeight ≤ 800000 then 100 * coin
  else if nHeight ≤ 1000000 then 75 * coin
  else if nHeight ≤ 1200000 then 50 * coin
  else 0 * coin

/-- The coin of an input; a missing one reads as the cleared coin. -/
def CCoinsViewCache.accessCoin (view : CCoinsViewCache) (outpoint : COutPoint) : Coin :=
  (view.getCoin outpoint).getD Coin.cleared

/-- One turn of the loop of `CheckTxInputs` over the inputs. -/
def addValueIn (view : CCoinsViewCache) (nSpendHeight : Nat) (nValueIn : CAmount) (txin : CTxIn) :
    Checked CAmount := do
  let coin := view.accessCoin txin.prevout
  rejectIf (coin.fCoinBase && (nSpendHeight : Int) - coin.nHeight < coinbaseMaturity) 0
    (str "bad-txns-premature-spend-of-coinbase")
  rejectIf (!moneyRange coin.out.nValue || !moneyRange (nValueIn + coin.out.nValue)) 100
    (str "bad-txns-inputvalues-outofrange")
  return nValueIn + coin.out.nValue

/-- `CheckTxInputs`; on success, the fee. -/
def checkTxInputs (env : Env) (tx : CTransaction) (view : CCoinsViewCache) (nSpendHeight : Nat) :
    Checked CAmount := do
  rejectIf (!view.haveInputs tx) 100 (str "bad-txns-inputs-missingorspent")
  let nValueIn ← tx.vin.foldlM (addValueIn view nSpendHeight) 0
  let valueOut ← orAbort (tx.getValueOut env.areEnforcedValuesDeployed)
  rejectIf (nValueIn < valueOut) 100 (str "bad-txns-in-belowout")
  rejectIf (!moneyRange (nValueIn - valueOut)) 100 (str "bad-txns-fee-out-of-range")
  return nValueIn - valueOut

/-- The size of the serialized block without witness data. -/
def CBlock.strippedSize (params : ConsensusParams) (block : CBlock) : Nat :=
  (if block.header.fKAWPOW params then 120 else 80) + (writeCompactSize block.vtx.length).length +
    (block.vtx.map CTransaction.strippedSize).sum

section

variable (rules : BlockRules) (env : Env) {node : NodeState} {block : CBlock} {nHeight : Nat}
  {st : CoinState} {tx : CTransaction} {blockHash : UInt256} {vtx : List CTransaction}

/-- `CheckBlock` with the checks of the proof of work and of the merkle root on. -/
def checkBlock (node : NodeState) (block : CBlock) : Checked Unit := do
  checkBlockHeader rules.params node block.header none
  let (hashMerkleRoot, mutated) := rules.blockMerkleRoot (block.vtx.map CTransaction.hash)
  rejectIf (block.header.hashMerkleRoot ≠ hashMerkleRoot) 100 (str "bad-txnmrklroot")
  rejectIf mutated 100 (str "bad-txns-duplicate")
  rejectIf (block.vtx.isEmpty || block.vtx.length * witnessScaleFactor > maxBlockWeight ||
      block.strippedSize rules.params * witnessScaleFactor > maxBlockWeight) 100
    (str "bad-blk-length")
  rejectIf (!(block.vtx.head?.any CTransaction.isCoinBase)) 100 (str "bad-cb-missing")
  rejectIf (block.vtx.tail.any CTransaction.isCoinBase) 100 (str "bad-cb-multiple")
  forM block.vtx fun tx => checkTransaction env tx true false true
  rejectIf ((block.vtx.map rules.getLegacySigOpCount).sum * witnessScaleFactor >
      maxBlockSigOpsCost) 100 (str "bad-blk-sigops")

/-- What the loop of `ConnectBlock` carries from one transaction to the next. -/
structure Connected where
  st : CoinState
  nFees : CAmount := 0
  nSigOpsCost : Nat := 0
  vtxundo : List CTxUndo := []
  vUndoAssetData : List (Str × CBlockAssetUndo) := []

/-- Without assets no output may carry one. -/
def checkNoAssets (out : CTxOut) : Checked Unit := do
  rejectIf (CScript.isAssetScript out.scriptPubKey).isSome 100 (str "bad-txns-assets-not-active")
  rejectIf (CScript.isNullAsset out.scriptPubKey) 100 (str "bad-txns-null-data-assets-not-active")

variable (g : AssetGlobals) (mempool : MempoolAssets) {conn : Connected}

/-- The asset checks of a transaction in a block. The memory pool is passed although the check is
told not to use it. -/
def connectAssets (st : CoinState) (tx : CTransaction) : Checked Unit :=
  if !env.areAssetsDeployed then forM tx.vout checkNoAssets
  else do
    let _ ← checkTxAssets env g st.cache tx st.view mempool false
    return ()

/-- The checks of `ConnectBlock` that a coinbase skips; the fees with the one of the transaction. -/
def connectInputs (nHeight : Nat) (st : CoinState) (nFees : CAmount) (tx : CTransaction) :
    Checked CAmount := do
  let txfee ← checkTxInputs env tx st.view nHeight
  rejectIf (!moneyRange (nFees + txfee)) 100 (str "bad-txns-accumulated-fee-outofrange")
  connectAssets env g mempool st tx
  rejectIf (!rules.sequenceLocks tx (tx.vin.map fun txin => (st.view.accessCoin txin.prevout).nHeight))
    100 (str "bad-txns-nonfinal")
  return nFees + txfee

/-- One turn of the loop; `fUndo` is off for the first transaction, whose undo data is dropped. -/
def connectTx (nHeight : Nat) (blockHash : UInt256) (fUndo : Bool) (conn : Connected)
    (tx : CTransaction) : Checked Connected := do
  let nFees ← if tx.isCoinBase then pure conn.nFees
    else connectInputs rules env g mempool nHeight conn.st conn.nFees tx
  let nSigOpsCost := conn.nSigOpsCost + rules.getTransactionSigOpCost tx conn.st.view
  rejectIf (nSigOpsCost > maxBlockSigOpsCost) 100 (str "bad-blk-sigops")
  if !tx.isCoinBase then rules.checkInputs tx conn.st.view
  let (st, txundo, undo) ← orAbort (updateCoins env g conn.st tx nHeight blockHash)
  return {
    st, nFees, nSigOpsCost
    vtxundo := if fUndo then conn.vtxundo ++ [txundo] else conn.vtxundo
    vUndoAssetData := conn.vUndoAssetData ++ (undo.filter fun item => item.1 ≠ []).toList }

/-- The checks of the coinbase after the loop; a missing second output cannot be read. -/
def checkReward (nHeight : Nat) (nFees : CAmount) (coinbase : CTransaction) : Checked Unit := do
  let valueOut ← orAbort (coinbase.getValueOut env.areEnforcedValuesDeployed)
  rejectIf (valueOut > nFees + getBlockSubsidy nHeight) 100 (str "bad-cb-amount")
  let community ← orAbort coinbase.vout[1]?
  rejectIf (community.nValue ≠
      getBlockSubsidy nHeight * env.params.nCommunityAutonomousAmount / 100) 100
    (str "bad-cb-community-autonomous-amount")
  rejectIf (nHeight ≥ checkAddressHeight &&
      community.scriptPubKey ≠ rules.scriptPubKeyCommunityAutonomous) 100
    (str "bad-cb-community-autonomous-address")

/-- The loop of `ConnectBlock` and the checks after it. -/
def connectTransactions (nHeight : Nat) (blockHash : UInt256) (st : CoinState)
    (vtx : List CTransaction) : Checked Connected := do
  match vtx with
  | [] => throw aborted
  | coinbase :: rest =>
    let conn ← connectTx rules env g mempool nHeight blockHash false { st } coinbase
    let conn ← rest.foldlM (connectTx rules env g mempool nHeight blockHash true) conn
    checkReward rules env nHeight conn.nFees coinbase
    return conn

/-- The loop alone: the state in front of the next transaction. -/
def connectLoop (nHeight : Nat) (blockHash : UInt256) (st : CoinState) :
    List CTransaction → Checked Connected
  | [] => .ok { st }
  | coinbase :: rest => do
    let conn ← connectTx rules env g mempool nHeight blockHash false { st } coinbase
    rest.foldlM (connectTx rules env g mempool nHeight blockHash true) conn

/-- `ConnectBlock`; the genesis block is accepted without connecting its transactions. -/
def connectBlock (node : NodeState) (nHeight : Nat) (st : CoinState) (block : CBlock) :
    Checked Connected := do
  checkBlock rules env node block
  let blockHash := block.header.getHash rules.params
  if blockHash = rules.params.hashGenesisBlock then return { st }
  else connectTransactions rules env g mempool nHeight blockHash st block.vtx

variable {rules env g mempool}

/-- A checked block starts with its only coinbase, and each of its transactions is checked. -/
theorem transactions_of_checkBlock {u : Unit} (h : checkBlock rules env node block = .ok u) :
    block.vtx.head?.any CTransaction.isCoinBase = true ∧
      (∀ tx ∈ block.vtx.tail, tx.isCoinBase = false) ∧
      ∀ tx ∈ block.vtx, checkTransaction env tx true false true = .ok () := by
  simp only [checkBlock, rejectIf] at h
  obtain ⟨_, -, h⟩ := bind_eq_ok.1 h
  simp only [failIf_bind_eq_ok] at h
  obtain ⟨-, -, -, hh, ht, h⟩ := h
  obtain ⟨_, hc, -⟩ := bind_eq_ok.1 h
  refine ⟨by simpa using hh, ?_, forM_eq_ok.1 hc⟩
  simpa using ht

theorem connectInputs_eq_ok {nFees nFees' : CAmount} :
    connectInputs rules env g mempool nHeight st nFees tx = .ok nFees' ↔
      ∃ txfee, checkTxInputs env tx st.view nHeight = .ok txfee ∧
        moneyRange (nFees + txfee) = true ∧ connectAssets env g mempool st tx = .ok () ∧
        rules.sequenceLocks tx (tx.vin.map fun txin => (st.view.accessCoin txin.prevout).nHeight) =
          true ∧ nFees + txfee = nFees' := by
  simp only [connectInputs, rejectIf, bind_eq_ok, failIf_eq_ok, pure_eq_ok, Bool.not_eq_false']
  constructor
  · rintro ⟨txfee, hf, _, hr, _, ha, _, hl, hre⟩
    exact ⟨txfee, hf, hr, ha, hl, hre⟩
  · rintro ⟨txfee, hf, hr, ha, hl, hre⟩
    exact ⟨txfee, hf, (), hr, (), ha, (), hl, hre⟩

/-- What an accepted transaction other than the coinbase has passed, and the state after it. -/
theorem connectTx_eq_ok {fUndo : Bool} {conn' : Connected} :
    connectTx rules env g mempool nHeight blockHash fUndo conn tx = .ok conn' ↔
      ∃ nFees st txundo undo, (if tx.isCoinBase then nFees = conn.nFees
          else connectInputs rules env g mempool nHeight conn.st conn.nFees tx = .ok nFees) ∧
        conn.nSigOpsCost + rules.getTransactionSigOpCost tx conn.st.view ≤ maxBlockSigOpsCost ∧
        (tx.isCoinBase = false → rules.checkInputs tx conn.st.view = .ok ()) ∧
        updateCoins env g conn.st tx nHeight blockHash = some (st, txundo, undo) ∧
        Connected.mk st nFees
          (conn.nSigOpsCost + rules.getTransactionSigOpCost tx conn.st.view)
          (if fUndo then conn.vtxundo ++ [txundo] else conn.vtxundo)
          (conn.vUndoAssetData ++ (undo.filter fun item => item.1 ≠ []).toList) = conn' := by
  cases hcb : tx.isCoinBase with
  | true =>
    simp only [connectTx, hcb, if_true, rejectIf, bind_eq_ok, failIf_eq_ok, pure_eq_ok,
      orAbort_eq_ok, Prod.exists, decide_eq_false_iff_not, Nat.not_lt, gt_iff_lt, Bool.not_true,
      Bool.false_eq_true, if_false]
    constructor
    · rintro ⟨_, rfl, _, hc, st, txundo, undo, hu, hco⟩
      exact ⟨_, st, txundo, undo, rfl, hc, by simp, hu, hco⟩
    · rintro ⟨_, st, txundo, undo, rfl, hc, -, hu, hco⟩
      exact ⟨_, rfl, (), hc, st, txundo, undo, hu, hco⟩
  | false =>
    simp only [connectTx, hcb, if_true, rejectIf, bind_eq_ok, failIf_eq_ok, pure_eq_ok,
      orAbort_eq_ok, Prod.exists, decide_eq_false_iff_not, Nat.not_lt, gt_iff_lt, Bool.not_false,
      Bool.false_eq_true, if_false]
    constructor
    · rintro ⟨nFees, hi, _, hc, _, hch, st, txundo, undo, hu, hco⟩
      exact ⟨nFees, st, txundo, undo, hi, hc, fun _ => hch, hu, hco⟩
    · rintro ⟨nFees, st, txundo, undo, hi, hc, hch, hu, hco⟩
      exact ⟨nFees, hi, (), hc, (), hch trivial, st, txundo, undo, hu, hco⟩

theorem connectLoop_of_connectTransactions
    (h : connectTransactions rules env g mempool nHeight blockHash st vtx = .ok conn) :
    connectLoop rules env g mempool nHeight blockHash st vtx = .ok conn := by
  cases vtx with
  | nil => cases h
  | cons coinbase rest =>
    obtain ⟨first, hfirst, h⟩ := bind_eq_ok.1 h
    obtain ⟨last, hr, h⟩ := bind_eq_ok.1 h
    obtain ⟨_, -, h⟩ := bind_eq_ok.1 h
    obtain rfl := pure_eq_ok.1 h
    exact bind_eq_ok.2 ⟨first, hfirst, hr⟩

/-- The rule of invariants for the loop of `ConnectBlock`. -/
theorem connectTransactions_invariant (P : List CTransaction → Connected → Prop)
    (h : connectTransactions rules env g mempool nHeight blockHash st vtx = .ok conn)
    (h0 : P [] { st })
    (hstep : ∀ pre tx post c c', vtx = pre ++ tx :: post → P pre c →
      connectTx rules env g mempool nHeight blockHash (!pre.isEmpty) c tx = .ok c' →
      P (pre ++ [tx]) c') : P vtx conn := by
  have hl := connectLoop_of_connectTransactions h
  cases vtx with
  | nil => cases h
  | cons coinbase rest =>
    obtain ⟨first, hfirst, hr⟩ := bind_eq_ok.1 hl
    have hh : P [coinbase] first := hstep [] coinbase rest { st } first rfl h0 hfirst
    refine foldlM_invariant_split (fun pre c => P (coinbase :: pre) c) hr hh ?_
    intro pre tx post c c' hsp hp htx
    refine hstep (coinbase :: pre) tx post c c' ?_ hp htx
    rw [hsp]
    rfl

/-- Every transaction of the loop is connected to the state that those before it have left. -/
theorem exists_connectTx_of_connectLoop {pre post : List CTransaction}
    (h : connectLoop rules env g mempool nHeight blockHash st (pre ++ tx :: post) = .ok conn) :
    ∃ before after, connectLoop rules env g mempool nHeight blockHash st pre = .ok before ∧
      connectTx rules env g mempool nHeight blockHash (!pre.isEmpty) before tx = .ok after := by
  cases pre with
  | nil =>
    obtain ⟨first, hfirst, -⟩ := bind_eq_ok.1 h
    exact ⟨{ st }, first, rfl, hfirst⟩
  | cons coinbase pre =>
    rw [List.cons_append] at h
    obtain ⟨first, hfirst, h⟩ := bind_eq_ok.1 h
    rw [List.foldlM_append] at h
    obtain ⟨before, hp, h⟩ := bind_eq_ok.1 h
    obtain ⟨after, ha, -⟩ := bind_eq_ok.1 h
    exact ⟨before, after, bind_eq_ok.2 ⟨first, hfirst, hp⟩, ha⟩

/-- An accepted block is checked, and its transactions are connected unless it is the genesis
block. -/
theorem connectBlock_cases (h : connectBlock rules env g mempool node nHeight st block = .ok conn) :
    checkBlock rules env node block = .ok () ∧ (conn = { st } ∨ connectTransactions rules env g
      mempool nHeight (block.header.getHash rules.params) st block.vtx = .ok conn) := by
  obtain ⟨_, hc, h⟩ := bind_eq_ok.1 h
  refine ⟨hc, ?_⟩
  dsimp only at h
  split at h
  · exact Or.inl (pure_eq_ok.1 h).symm
  · exact Or.inr h

end

end Cmusic
