import Cmusic.AssetsCache
import Cmusic.Coins
import Cmusic.Lib.Totals

/-! `CheckTxAssets`: the asset checks of a transaction against its inputs and the asset state. -/
namespace Cmusic

open Fallible Std

/-- The parts of the memory pool the asset checks can read. -/
structure MempoolAssets where
  mapAssetToHash : StrMap UInt256 := ∅
  mapReissuedAssets : StrMap UInt256 := ∅

variable (env : Env)

/-- `CheckEncoded` of the text `EncodeAssetData` gives: Base58 for 34 bytes, hex for 32 bytes. -/
def checkEncoded (hash : Str) : Except Str Unit :=
  let encoded := if hash.length = 34 then encodeBase58 hash
    else if hash.length = 32 then CTxOut.hexStr hash else []
  failIf (!((encoded.take 2 = str "Qm" && encoded.length = 46) ||
      (env.areMessagesDeployed && hash.length = 32)))
    (str "Invalid parameter: ipfs_hash is not valid, or txid hash is not the right length")

variable (g : AssetGlobals) (cache : CAssetsCache)

def verifyQualifierChange (data : CNullAssetTxData) (address : Str) : Except Str Unit := do
  verifyNullAssetDataFlag data.flag
  let fHasQualifier := cache.checkForAddressQualifier g data.assetName address true
  if data.flag ≠ 0 then
    failIf fHasQualifier (str "bad-txns-null-data-add-qualifier-when-already-assigned")
  else
    failIf (!fHasQualifier) (str "bad-txns-null-data-removing-qualifier-when-not-assigned")

def verifyRestrictedAddressChange (data : CNullAssetTxData) (address : Str) : Except Str Unit := do
  verifyNullAssetDataFlag data.flag
  let fIsFrozen := cache.checkForAddressRestriction g data.assetName address true
  if data.flag ≠ 0 then
    failIf fIsFrozen (str "bad-txns-null-data-freeze-address-when-already-frozen")
  else
    failIf (!fIsFrozen) (str "bad-txns-null-data-unfreeze-address-when-not-frozen")

def verifyGlobalRestrictedChange (data : CNullAssetTxData) : Except Str Unit := do
  verifyNullAssetDataFlag data.flag
  let fIsGloballyFrozen := cache.checkForGlobalRestriction g data.assetName true
  if data.flag ≠ 0 then
    failIf fIsGloballyFrozen (str "bad-txns-null-data-global-freeze-when-already-frozen")
  else
    failIf (!fIsGloballyFrozen) (str "bad-txns-null-data-global-unfreeze-when-not-frozen")

def contextualCheckNullAssetTxOut (txout : CTxOut) : Except Str Unit :=
  match assetNullDataFromScript env txout.scriptPubKey with
  | none => throw (str "bad-txns-null-asset-data-serialization")
  | some (data, address) =>
    if isAssetNameAQualifier data.assetName false then verifyQualifierChange g cache data address
    else if isAssetNameAnRestricted data.assetName then
      verifyRestrictedAddressChange g cache data address
    else throw (str "bad-txns-null-asset-data-on-non-restricted-or-qualifier-asset")

def contextualCheckGlobalAssetTxOut (txout : CTxOut) : Except Str Unit :=
  match globalAssetNullDataFromScript txout.scriptPubKey with
  | none => throw (str "bad-txns-null-global-asset-data-serialization")
  | some data => verifyGlobalRestrictedChange g cache data

/-- `ContextualCheckVerifierString`; with an empty address only the qualifiers are looked up. -/
def contextualCheckVerifierString (verifier checkAddress : Str) : Except Str Unit := do
  if verifier = str "true" then return ()
  let found ← checkVerifierString verifier
  failIf (!found.toList.all fun q => cache.checkIfAssetExists env g (qualifierChar :: q))
    (str "bad-txns-null-verifier-contains-non-issued-qualifier")
  if checkAddress = [] then return ()
  let vals (q : Str) : Option Bool :=
    if found.contains q then
      some (cache.checkForAddressQualifier g (qualifierChar :: q) checkAddress true)
    else none
  match LibBoolEE.resolve verifier vals with
  | none => throw (str "bad-txns-null-verifier-failed-contexual-syntax-check")
  | some ret => failIf (!ret) (str "bad-txns-null-verifier-address-failed-verification")

/-- The error text of the inner check is lost in a shadowed variable. -/
def contextualCheckVerifierAssetTxOut (txout : CTxOut) : Except Str Unit :=
  match assetNullVerifierDataFromScript txout.scriptPubKey with
  | none => throw (str "bad-txns-null-verifier-data-serialization")
  | some verifier =>
    (contextualCheckVerifierString env g cache verifier.verifierString []).mapError fun _ => []

def CAssetTransfer.contextualCheckAgainstVerifyString (transfer : CAssetTransfer)
    (address : Str) : Except Str Unit :=
  match cache.getAssetVerifierStringIfExists g transfer.strName true with
  | none => throw (str "Verifier String doesn't exist for asset: " ++ transfer.strName)
  | some verifier => contextualCheckVerifierString env g cache verifier address

def contextualCheckTransferAsset (transfer : CAssetTransfer) (address : Str) : Except Str Unit := do
  match assetNameType transfer.strName with
  | none => throw (str "Invalid parameter: asset_name must only consist of valid characters and have a size between 3 and 30 characters. See help for more details.")
  | some assetType =>
    failIf (transfer.nAmount ≤ 0)
      (str "Invalid parameter: asset amount can't be equal to or less than zero.")
    if env.areMessagesDeployed then
      failIf (transfer.message = [] && transfer.nExpireTime > 0) (str "Invalid parameter: asset transfer expiration time requires a message to be attached to the transfer")
      failIf (transfer.nExpireTime < 0)
        (str "Invalid parameter: expiration time must be a positive value")
      if transfer.message ≠ [] then checkEncoded env transfer.message
    failIf (assetType = .msgChannel && !env.areMessagesDeployed)
      (str "bad-txns-transfer-msgchannel-before-messaging-is-active")
    if assetType = .restricted then
      failIf (!env.areRestrictedAssetsDeployed)
        (str "bad-txns-transfer-restricted-before-it-is-active")
      failIf (cache.checkForGlobalRestriction g transfer.strName true)
        (str "bad-txns-transfer-restricted-asset-that-is-globally-restricted")
      -- the error text of the verifier check is lost in a shadowed variable
      (transfer.contextualCheckAgainstVerifyString env g cache address).mapError fun _ => []
    failIf ((assetType = .qualifier || assetType = .subQualifier) &&
        !env.areRestrictedAssetsDeployed)
      (str "bad-txns-transfer-qualifier-before-it-is-active")

def contextualCheckNewAsset (asset : CNewAsset) (mempool : MempoolAssets) (fCheckMempool : Bool) :
    Except Str Unit := do
  failIf (!env.areAssetsDeployed) (str "bad-txns-new-asset-when-assets-is-not-active")
  checkNewAsset asset
  failIf (cache.checkIfAssetExists env g asset.strName)
    (str "Invalid parameter: asset_name '" ++ asset.strName ++ str "' has already been used")
  failIf (fCheckMempool && mempool.mapAssetToHash.contains asset.strName)
    (str "Asset with this name is already in the mempool")
  failIf (asset.nHasIPFS ≠ 0 && asset.strIPFSHash.length ≠ 34 &&
      (!env.areMessagesDeployed || asset.strIPFSHash.length ≠ 32))
    (str "Invalid parameter: ipfs_hash must be 46 characters. Txid must be valid 64 character hash")
  if asset.nHasIPFS ≠ 0 then checkEncoded env asset.strIPFSHash

/-- The verifier part of `ContextualCheckReissueAsset`. -/
def contextualCheckReissueVerifier (reissue : CReissueAsset) (strAddress : Str)
    (tx : CTransaction) : Except Str Unit := do
  match ← tx.getVerifierStringFromTx with
  | some newVerifier =>
    if reissue.nAmount > 0 then
      contextualCheckVerifierString env g cache newVerifier.verifierString strAddress
  | none =>
    if reissue.nAmount > 0 then
      match cache.getAssetVerifierStringIfExists g reissue.strName false with
      | some current => contextualCheckVerifierString env g cache current strAddress
      | none => throw (str "failed to get verifier string from a restricted asset, database is out of sync. Reindex required. Please report this is to development team")

def contextualCheckReissueAsset (reissue : CReissueAsset) (tx : CTransaction) :
    Except Str Unit := do
  match reissueAssetFromScript env tx.lastScript with
  | none => throw (str "bad-txns-reissue-asset-contextual-check")
  | some (_, strAddress) =>
    checkReissueAsset env reissue
    match cache.getAssetMetaDataIfExists g reissue.strName with
    | none => throw (str "Unable to reissue asset: asset_name '" ++ reissue.strName ++
        str "' doesn't exist in the database")
    | some (prevAsset, _) =>
      failIf (prevAsset.nReissuable = 0)
        (str "Unable to reissue asset: reissuable is set to false")
      failIf (prevAsset.nAmount + reissue.nAmount > maxMoney)
        (str "Unable to reissue asset: asset_name '" ++ reissue.strName ++
          str "' the amount trying to reissue is to large")
      failIf (!checkAmountWithUnits reissue.nAmount prevAsset.units)
        (str "Unable to reissue asset: amount must be divisible by the smaller unit assigned to the asset")
      failIf (reissue.nUnits < prevAsset.units && reissue.nUnits ≠ -1)
        (str "Unable to reissue asset: unit must be larger than current unit selection")
      failIf (reissue.strIPFSHash ≠ [] && reissue.strIPFSHash.length ≠ 34 &&
          (env.areMessagesDeployed && reissue.strIPFSHash.length ≠ 32))
        (str "Invalid parameter: ipfs_hash must be 34 bytes, Txid must be 32 bytes")
      if reissue.strIPFSHash ≠ [] then checkEncoded env reissue.strIPFSHash
      if isAssetNameAnRestricted reissue.strName then
        contextualCheckReissueVerifier env g cache reissue strAddress tx

def contextualCheckUniqueAssetTx (mempool : MempoolAssets) (tx : CTransaction) : Except Str Unit :=
  forM tx.vout fun out => do
    if isScriptNewUniqueAsset env out.scriptPubKey then
      match assetFromScript env out.scriptPubKey with
      | none => throw (str "bad-txns-issue-unique-serialization-failed")
      | some (asset, _) => contextualCheckNewAsset env g cache asset mempool false

/-- The input loop. A missing coin is excluded by the check of the inputs before it. -/
def scanAssetInput (view : CCoinsViewCache) (totalInputs : StrMap CAmount) (txin : CTxIn) :
    Checked (StrMap CAmount) := do
  let coin ← payloadOr (view.getCoin txin.prevout) (str "bad-txns-inputs-missing-or-spent")
  if (CScript.isAssetScript coin.out.scriptPubKey).isSome then
    let data ← payloadOr (getAssetData env coin.out.scriptPubKey)
      (str "bad-txns-failed-to-get-asset-from-script")
    rejectIf (isAssetNameAnRestricted data.assetName &&
        cache.checkForAddressRestriction g data.assetName data.address true) 100
      (str "bad-txns-restricted-asset-transfer-from-frozen-address")
    return Totals.add totalInputs data.assetName data.nAmount
  else return totalInputs

/-- The null-data checks of an output. -/
def checkNullAssetOut (txout : CTxOut) : Checked Unit := do
  let script := txout.scriptPubKey
  if CScript.isNullAsset script then
    rejectIf (!env.areRestrictedAssetsDeployed) 100
      (str "bad-tx-null-asset-data-before-restricted-assets-activated")
    if CScript.isNullAssetTxDataScript script then
      rejectWith 100 (contextualCheckNullAssetTxOut env g cache txout)
    else if CScript.isNullGlobalRestrictionAssetTxDataScript script then
      rejectWith 100 (contextualCheckGlobalAssetTxOut g cache txout)
    else
      rejectWith 100 (contextualCheckVerifierAssetTxOut env g cache txout)

/-- The checks of a transfer output against the asset it moves. -/
def checkTransferUnits (transfer : CAssetTransfer) : Checked Unit := do
  if isAssetNameAnOwner transfer.strName then
    rejectIf (transfer.nAmount ≠ ownerAssetAmount) 100
      (str "bad-txns-transfer-owner-amount-was-not-1")
  else match cache.getAssetMetaDataIfExists g transfer.strName with
    | none => throw ⟨100, rejectInvalid, str "bad-txns-transfer-asset-not-exist"⟩
    | some (asset, _) =>
      rejectIf (asset.strName ≠ transfer.strName) 100 (str "bad-txns-asset-database-corrupted")
      rejectIf (!checkAmountWithUnits transfer.nAmount asset.units) 100
        (str "bad-txns-transfer-asset-amount-not-match-units")

/-- The output totals, and the reissues that are not in the memory pool yet. -/
structure AssetOutputs where
  totalOutputs : StrMap CAmount := ∅
  vPairReissueAssets : List (Str × UInt256) := []

/-- A reissue must not be chained on one of the memory pool; the map of the pool is read whatever
the caller asked for. -/
def noteReissue (mempool : MempoolAssets) (txid : UInt256) (outs : AssetOutputs) (name : Str) :
    Checked AssetOutputs :=
  match mempool.mapReissuedAssets[name]? with
  | some hash => do
    rejectIf (hash ≠ txid) 100 (str "bad-tx-reissue-chaining-not-allowed")
    return outs
  | none => return { outs with vPairReissueAssets := outs.vPairReissueAssets ++ [(name, txid)] }

/-- The output loop. -/
def scanAssetOutput (mempool : MempoolAssets) (txid : UInt256) (outs : AssetOutputs)
    (txout : CTxOut) : Checked AssetOutputs := do
  let assetScript := CScript.isAssetScript txout.scriptPubKey
  rejectIf (assetScript.isSome && !env.areAssetsDeployed) 100
    (str "bad-txns-is-asset-and-asset-not-active")
  checkNullAssetOut env g cache txout
  match assetScript.map CScript.AssetScript.nType with
  | some .transferAsset =>
    let (transfer, address) ← payloadOr (transferAssetFromScript env txout.scriptPubKey)
      (str "bad-tx-asset-transfer-bad-deserialize")
    rejectWith 100 (contextualCheckTransferAsset env g cache transfer address)
    checkTransferUnits g cache transfer
    return { outs with
      totalOutputs := Totals.add outs.totalOutputs transfer.strName transfer.nAmount }
  | some .reissueAsset =>
    let (reissue, _) ← payloadOr (reissueAssetFromScript env txout.scriptPubKey)
      (str "bad-tx-asset-reissue-bad-deserialize")
    noteReissue mempool txid outs reissue.strName
  | _ => return outs

/-- Without a recognised class only transfers are allowed. -/
def contextualCheckPlainOut (out : CTxOut) : Checked Unit :=
  match CScript.isAssetScript out.scriptPubKey with
  | some assetScript =>
    rejectIf (assetScript.nType ≠ .transferAsset) 100 (str "bad-txns-bad-asset-transaction")
  | none => do
    if CScript.find out.scriptPubKey opCmusicaiAsset ≠ 0 then
      rejectIf (!env.areRestrictedAssetsDeployed) 100 (str "bad-txns-bad-asset-script")
      rejectIf (CScript.byteAt out.scriptPubKey 0 ≠ opCmusicaiAsset) 100
        (str "bad-txns-op-neox-asset-not-in-right-script-location")

/-- The part for a newly issued restricted asset. -/
def contextualCheckRestrictedTx (tx : CTransaction) (mempool : MempoolAssets)
    (fCheckMempool : Bool) : Checked Unit := do
  rejectIf (!env.areRestrictedAssetsDeployed) 100
    (str "bad-txns-issue-restricted-before-it-is-active")
  let (asset, strAddress) ← payloadOr (restrictedAssetFromScript env tx.lastScript)
    (str "bad-txns-issue-restricted-serialzation-failed")
  rejectWith 100 (labelled "bad-txns-issue-restricted-contextual"
    (contextualCheckNewAsset env g cache asset mempool fCheckMempool))
  let verifier ← rejectWith 100
    (labelled "bad-txns-issue-restricted-verifier-search-" tx.getVerifierStringFromTx)
  match verifier with
  | none => throw ⟨100, rejectInvalid,
      str "bad-txns-issue-restricted-verifier-search-Verifier string not found"⟩
  | some verifier =>
    rejectWith 100 (contextualCheckVerifierString env g cache verifier.verifierString strAddress)

/-- The class-dependent part of `CheckTxAssets`. -/
def contextualCheckAssetClass (tx : CTransaction) (mempool : MempoolAssets)
    (fCheckMempool : Bool) : Checked Unit := do
  if tx.isNewAsset env then
    let (asset, _) ← payloadOr (assetFromScript env tx.lastScript)
      (str "bad-txns-issue-serialzation-failed")
    rejectWith 100 (contextualCheckNewAsset env g cache asset mempool fCheckMempool)
  else if tx.isReissueAsset then
    let (reissue, _) ← payloadOr (reissueAssetFromScript env tx.lastScript)
      (str "bad-txns-reissue-serialzation-failed")
    rejectWith 100 (labelled "bad-txns-reissue-contextual-"
      (contextualCheckReissueAsset env g cache reissue tx))
  else if tx.isNewUniqueAsset env then
    rejectWith 100 (labelled "bad-txns-issue-unique-contextual-"
      (contextualCheckUniqueAssetTx env g cache mempool tx))
  else if tx.isNewMsgChannelAsset env then
    rejectIf (!env.areMessagesDeployed) 100
      (str "bad-txns-issue-msgchannel-before-messaging-is-active")
    let (asset, _) ← payloadOr (msgChannelAssetFromScript env tx.lastScript)
      (str "bad-txns-issue-msgchannel-serialzation-failed")
    rejectWith 100 (labelled "bad-txns-issue-msgchannel-contextual-"
      (contextualCheckNewAsset env g cache asset mempool fCheckMempool))
  else if tx.isNewQualifierAsset env then
    rejectIf (!env.areRestrictedAssetsDeployed) 100
      (str "bad-txns-issue-qualifier-before-it-is-active")
    let (asset, _) ← payloadOr (qualifierAssetFromScript env tx.lastScript)
      (str "bad-txns-issue-qualifier-serialzation-failed")
    rejectWith 100 (labelled "bad-txns-issue-qualfier-contextual"
      (contextualCheckNewAsset env g cache asset mempool fCheckMempool))
  else if tx.isNewRestrictedAsset env then
    contextualCheckRestrictedTx env g cache tx mempool fCheckMempool
  else forM tx.vout (contextualCheckPlainOut env)

/-- Every output total has an input total of the same amount, and no input asset is left over. -/
def compareTotals (totalInputs totalOutputs : StrMap CAmount) : Checked Unit := do
  forM totalOutputs.toList fun (name, nAmount) =>
    match totalInputs[name]? with
    | none => throw ⟨100, rejectInvalid, str "bad-tx-inputs-outputs-mismatch Bad Transaction - Trying to create outpoint for asset that you don't have: " ++ name⟩
    | some total => rejectIf (total ≠ nAmount) 100
        (str "bad-tx-inputs-outputs-mismatch Bad Transaction - Assets would be burnt " ++ name)
  rejectIf (totalOutputs.size ≠ totalInputs.size) 100
    (str "bad-tx-asset-inputs-size-does-not-match-outputs-size")

/-- `CheckTxAssets`; on success, the reissues to be remembered by the memory pool. -/
def checkTxAssets (tx : CTransaction) (view : CCoinsViewCache) (mempool : MempoolAssets)
    (fCheckMempool : Bool) : Checked (List (Str × UInt256)) := do
  rejectIf (!view.haveInputs tx) 100 (str "bad-txns-inputs-missing-or-spent")
  let totalInputs ← tx.vin.foldlM (scanAssetInput env g cache view) ∅
  let outs ← tx.vout.foldlM (scanAssetOutput env g cache mempool tx.hash) {}
  contextualCheckAssetClass env g cache tx mempool fCheckMempool
  compareTotals totalInputs outs.totalOutputs
  return outs.vPairReissueAssets

end Cmusic
