import Cmusic.ConnectBlock

/-! Taking a block back from the coins and the asset cache. -/
namespace Cmusic

open Fallible Std

/-- `DisconnectResult`, with the state where the source promises one. -/
inductive DisconnectResult where
  | ok (st : CoinState)
  | unclean (st : CoinState)
  | failed

/-- The weight of the smallest output: a value and an empty script. -/
def minTransactionOutputWeight : Nat := witnessScaleFactor * 9

/-- `AccessByTxid`: the first unspent output of a transaction. -/
def accessByTxid (view : CCoinsViewCache) (txid : UInt256) : Option Coin :=
  (List.range (maxBlockWeight / minTransactionOutputWeight)).findSome? fun n =>
    view.getCoin ⟨txid, UInt32.ofNat n⟩

/-- Undo data of height 0 lacks its metadata, which another output of the transaction must have. -/
def completeUndo (view : CCoinsViewCache) (out : COutPoint) (undo : Coin) : Option Coin :=
  if undo.nHeight = 0 then
    (accessByTxid view out.hash).map fun alternate =>
      { undo with nHeight := alternate.nHeight, fCoinBase := alternate.fCoinBase }
  else some undo

variable (env : Env) (g : AssetGlobals)

/-- `ApplyTxInUndo`: whether the input was restored cleanly, and the state after it. -/
def applyTxInUndo (st : CoinState) (undo : Coin) (out : COutPoint) : Option (Bool × CoinState) := do
  let fClean := !st.view.haveCoin out
  let coin ← completeUndo st.view out undo
  let view ← st.view.addCoin out coin (!fClean)
  if env.areAssetsDeployed && (CScript.isAssetScript undo.out.scriptPubKey).isSome then
    match st.cache.undoAssetCoin env g undo with
    | some cache => return (fClean, ⟨view, cache⟩)
    | none => return (false, ⟨view, st.cache⟩)
  else return (fClean, ⟨view, st.cache⟩)

/-- Takes one output back and compares it with the coin that was there. -/
def undoOut (nHeight : Nat) (fCoinBase : Bool) (acc : CoinState × Bool)
    (output : COutPoint × CTxOut) : CoinState × Bool :=
  let (st, fClean) := acc
  let (out, txout) := output
  if CScript.isUnspendable txout.scriptPubKey then (st, fClean)
  else
    let (isSpent, coin, st) := spendCoin env g st out
    (st, fClean && isSpent && coin = ⟨txout, nHeight, fCoinBase⟩)

/-- The outputs `vAssetTxIndex` points at. -/
def CTransaction.transferOuts (tx : CTransaction) : List (COutPoint × CTxOut) :=
  tx.outpoints.filter fun (_, txout) =>
    !CScript.isUnspendable txout.scriptPubKey && CScript.isTransferAsset txout.scriptPubKey

/-- The unspendable outputs with null data. -/
def CTransaction.nullAssetOuts (tx : CTransaction) : List CTxOut :=
  tx.vout.filter fun txout =>
    CScript.isUnspendable txout.scriptPubKey && CScript.isNullAsset txout.scriptPubKey

/-- The output `indexOfRestrictedAssetVerifierString` points at, the last one found. -/
def CTransaction.lastVerifierOut (tx : CTransaction) : Option CTxOut :=
  if env.areRestrictedAssetsDeployed then
    (tx.nullAssetOuts.filter fun txout =>
      CScript.isNullAssetVerifierTxDataScript txout.scriptPubKey).getLast?
  else none

/-- Takes an issued asset back; one that does not exist is passed over. -/
def removeNewAssetOf (cache : CAssetsCache) (payload : Option (CNewAsset × Str)) :
    Option CAssetsCache :=
  match payload with
  | none => none
  | some (asset, strAddress) =>
    if cache.checkIfAssetExists env g asset.strName then cache.removeNewAsset env g asset strAddress
    else some cache

def removeOwnerOf (cache : CAssetsCache) (tx : CTransaction) : Option CAssetsCache :=
  (ownerAssetFromScript env tx.ownerScript).map fun (ownerName, ownerAddress) =>
    cache.removeOwnerAsset env ownerName ownerAddress

def removeReissueOf (cache : CAssetsCache) (tx : CTransaction)
    (vUndoData : List (Str × CBlockAssetUndo)) : Option CAssetsCache :=
  match reissueAssetFromScript env tx.lastScript with
  | none => none
  | some (reissue, strAddress) =>
    if cache.checkIfAssetExists env g reissue.strName then
      cache.removeReissueAsset env g reissue strAddress
        ⟨tx.hash, UInt32.ofNat (tx.vout.length - 1)⟩ vUndoData
    else some cache

/-- Takes the verifier of an issued restricted asset back; it must be there and readable. -/
def removeVerifierOf (cache : CAssetsCache) (assetName : Str) (tx : CTransaction) :
    Option CAssetsCache := do
  let out ← tx.lastVerifierOut env
  let verifier ← assetNullVerifierDataFromScript out.scriptPubKey
  return cache.removeRestrictedVerifier assetName verifier.verifierString false

/-- What the class of the transaction added is taken back. -/
def removeClassAssets (cache : CAssetsCache) (tx : CTransaction)
    (vUndoData : List (Str × CBlockAssetUndo)) : Option CAssetsCache :=
  if tx.isNewAsset env then do
    let cache ← removeNewAssetOf env g cache (assetFromScript env tx.lastScript)
    removeOwnerOf env cache tx
  else if tx.isReissueAsset then removeReissueOf env g cache tx vUndoData
  else if tx.isNewUniqueAsset env then
    tx.vout.foldlM (fun cache out =>
      if isScriptNewUniqueAsset env out.scriptPubKey then
        removeNewAssetOf env g cache (assetFromScript env out.scriptPubKey)
      else some cache) cache
  else if tx.isNewMsgChannelAsset env then
    removeNewAssetOf env g cache (msgChannelAssetFromScript env tx.lastScript)
  else if tx.isNewQualifierAsset env then
    removeNewAssetOf env g cache (qualifierAssetFromScript env tx.lastScript)
  else if tx.isNewRestrictedAsset env then do
    let payload := restrictedAssetFromScript env tx.lastScript
    let cache ← removeNewAssetOf env g cache payload
    removeVerifierOf env cache (payload.getD ({}, [])).1.strName tx
  else some cache

def removeTransferOut (cache : CAssetsCache) (output : COutPoint × CTxOut) : Option CAssetsCache :=
  match transferAssetFromScript env output.2.scriptPubKey with
  | none => none
  | some (transfer, strAddress) => cache.removeTransfer env g transfer strAddress output.1

/-- Takes null data back; a verifier was handled with its asset. -/
def removeNullOut (cache : CAssetsCache) (txout : CTxOut) : Option CAssetsCache :=
  let script := txout.scriptPubKey
  if CScript.isNullAssetVerifierTxDataScript script then some cache
  else if CScript.isNullAssetTxDataScript script then
    match assetNullDataFromScript env script with
    | none => none
    | some (data, address) =>
      match CTransaction.nameTypeOrInvalid data.assetName with
      | .qualifier | .subQualifier => some (cache.removeQualifierAddress data.assetName address
          (if data.flag ≠ 0 then .addQualifier else .removeQualifier))
      | .restricted => some (cache.removeRestrictedAddress data.assetName address
          (if data.flag ≠ 0 then .freezeAddress else .unfreezeAddress))
      | _ => some cache
  else if CScript.isNullGlobalRestrictionAssetTxDataScript script then
    match globalAssetNullDataFromScript script with
    | none => none
    | some data => some (cache.removeGlobalRestricted data.assetName
        (if data.flag ≠ 0 then .globalFreeze else .globalUnfreeze))
  else some cache

def removeNullOuts (cache : CAssetsCache) (tx : CTransaction) : Option CAssetsCache :=
  if env.areRestrictedAssetsDeployed then tx.nullAssetOuts.foldlM (removeNullOut env) cache
  else some cache

/-- The asset part for one transaction. -/
def removeTxAssets (cache : CAssetsCache) (tx : CTransaction)
    (vUndoData : List (Str × CBlockAssetUndo)) : Option CAssetsCache :=
  if env.areAssetsDeployed then do
    let cache ← removeClassAssets env g cache tx vUndoData
    let cache ← tx.transferOuts.foldlM (removeTransferOut env g) cache
    removeNullOuts env cache tx
  else some cache

/-- What the loop of `DisconnectBlock` carries from one transaction to the next. `tempCache` is a
copy of the asset cache on which the outputs are spent. -/
structure Disconnected where
  st : CoinState
  tempCache : CAssetsCache
  fClean : Bool := true

def undoOuts (nHeight : Nat) (d : Disconnected) (tx : CTransaction) : Disconnected :=
  let (temp, fClean) := tx.outpoints.foldl (undoOut env g nHeight tx.isCoinBase)
    (⟨d.st.view, d.tempCache⟩, d.fClean)
  { st := ⟨temp.view, d.st.cache⟩, tempCache := temp.cache, fClean }

def restoreInput (acc : CoinState × Bool) (input : CTxIn × Coin) : Option (CoinState × Bool) := do
  let (fClean, st) ← applyTxInUndo env g acc.1 input.2 input.1.prevout
  return (st, acc.2 && fClean)

/-- The inputs are restored from the last to the first. -/
def restoreInputs (d : Disconnected) (tx : CTransaction) (txundo : CTxUndo) :
    Option Disconnected := do
  if txundo.length ≠ tx.vin.length then none
  else
    let (st, fClean) ← (tx.vin.zip txundo).reverse.foldlM (restoreInput env g) (d.st, d.fClean)
    return { d with st, fClean }

/-- One turn of the loop; the first transaction of the block has no undo data. -/
def disconnectTx (nHeight : Nat) (vUndoData : List (Str × CBlockAssetUndo)) (d : Disconnected)
    (undo : CTransaction × Option CTxUndo) : Option Disconnected := do
  let (tx, txundo) := undo
  let d := undoOuts env g nHeight d tx
  let cache ← removeTxAssets env g d.st.cache tx vUndoData
  let d := { d with st := ⟨d.st.view, cache⟩ }
  match txundo with
  | none => return d
  | some txundo => restoreInputs env g d tx txundo

/-- The transactions are undone from the last to the first. -/
def disconnectTransactions (nHeight : Nat) (st : CoinState) (vtx : List CTransaction)
    (vtxundo : List CTxUndo) (vUndoData : List (Str × CBlockAssetUndo)) : Option Disconnected :=
  if vtxundo.length + 1 ≠ vtx.length then none
  else (vtx.zip (none :: vtxundo.map some)).reverse.foldlM (disconnectTx env g nHeight vUndoData)
    { st, tempCache := st.cache }

/-- `DisconnectBlock`, given the undo data that was read back. -/
def disconnectBlock (nHeight : Nat) (st : CoinState) (block : CBlock) (vtxundo : List CTxUndo)
    (vUndoData : List (Str × CBlockAssetUndo)) : DisconnectResult :=
  match disconnectTransactions env g nHeight st block.vtx vtxundo vUndoData with
  | none => .failed
  | some d => if d.fClean then .ok d.st else .unclean d.st

/-- The state a disconnected block leaves, clean or not. -/
def DisconnectResult.state? : DisconnectResult → Option CoinState
  | .ok st => some st
  | .unclean st => some st
  | .failed => none

section Loops

variable {env g} {nHeight : Nat} {st st' : CoinState} {vtx : List CTransaction}
  {vtxundo : List CTxUndo} {vUndoData : List (Str × CBlockAssetUndo)} {d : Disconnected}

theorem disconnectTransactions_of_state {block : CBlock}
    (h : (disconnectBlock env g nHeight st block vtxundo vUndoData).state? = some st') :
    ∃ d, disconnectTransactions env g nHeight st block.vtx vtxundo vUndoData = some d ∧
      d.st = st' := by
  unfold disconnectBlock at h
  split at h
  · cases h
  next d hd =>
    refine ⟨d, hd, ?_⟩
    split at h
    · exact Option.some.inj h
    · exact Option.some.inj h

theorem length_of_disconnectTransactions
    (h : disconnectTransactions env g nHeight st vtx vtxundo vUndoData = some d) :
    vtxundo.length + 1 = vtx.length := by
  unfold disconnectTransactions at h
  split at h
  · cases h
  next hl => exact not_not.1 hl

/-- The rule of invariants for the loop of `DisconnectBlock`, which has undone the end of the
block. -/
theorem disconnectTransactions_invariant (P : List CTransaction → Disconnected → Prop)
    (h : disconnectTransactions env g nHeight st vtx vtxundo vUndoData = some d)
    (h0 : P [] { st, tempCache := st.cache })
    (hstep : ∀ post tx txundo c c', tx ∈ vtx → P post c →
      disconnectTx env g nHeight vUndoData c (tx, txundo) = some c' → P (tx :: post) c') :
    P vtx d := by
  have hl := length_of_disconnectTransactions h
  rw [disconnectTransactions, if_neg (not_not.2 hl)] at h
  have hv : (vtx.zip (none :: vtxundo.map some)).map Prod.fst = vtx := by
    apply List.map_fst_zip
    simp only [List.length_cons, List.length_map]
    omega
  have hr := foldlM_some_invariant (fun (pre : List (CTransaction × Option CTxUndo)) d =>
    (∀ undo ∈ pre, undo.1 ∈ vtx) → P (pre.map Prod.fst).reverse d) h (fun _ => h0) ?_
  · have ha : ∀ undo ∈ (vtx.zip (none :: vtxundo.map some)).reverse, undo.1 ∈ vtx :=
      fun undo hu => (List.of_mem_zip (List.mem_reverse.1 hu)).1
    have hf := hr ha
    rwa [List.map_reverse, List.reverse_reverse, hv] at hf
  · rintro pre ⟨tx, txundo⟩ c c' hpr htx ha
    have hm : tx ∈ vtx := ha (tx, txundo) (by simp)
    have hp := hpr fun undo hu => ha undo (List.mem_append_left _ hu)
    rw [List.map_append, List.reverse_append]
    exact hstep _ tx txundo c c' hm hp htx

end Loops

end Cmusic
