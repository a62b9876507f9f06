import Cmusic.TxAssets

/-! `CheckTransaction`: the checks on a transaction that need no chain state. -/
namespace Cmusic

open Fallible

def maxBlockWeight : Nat := 8000000

def witnessScaleFactor : Nat := 4

namespace CTransaction

/-- The size of the serialized transaction without witness data. -/
def strippedSize (tx : CTransaction) : Nat :=
  let scriptSize (script : CScript) := (writeCompactSize script.length).length + script.length
  4 + (writeCompactSize tx.vin.length).length +
    (tx.vin.map fun txin => 36 + scriptSize txin.scriptSig + 4).sum +
    (writeCompactSize tx.vout.length).length +
    (tx.vout.map fun out => 8 + scriptSize out.scriptPubKey).sum + 4

end CTransaction

/-- The amount is a multiple of the smallest unit. -/
def checkAmountWithUnits (nAmount : CAmount) (nUnits : Int8) : Bool :=
  nAmount % Int64.ofNat (10 ^ (maxUnit.toInt - nUnits.toInt).toNat) = 0

/-- What `CheckNewAsset` requires of the types issued with fixed units and amounts. -/
def checkFixedAmount (asset : CNewAsset) (units : Int8) (badAmount : Bool) (amounts : Str) :
    Except Str Unit := do
  failIf (asset.units ≠ units) (str "Invalid parameter: units must be 0")
  failIf badAmount amounts
  failIf (asset.nReissuable ≠ 0) (str "Invalid parameter: reissuable must be 0")

def checkNewAsset (asset : CNewAsset) : Except Str Unit := do
  match assetNameType asset.strName with
  | none => throw (str "Invalid parameter: asset_name must only consist of valid characters and have a size between 3 and 30 characters. See help for more details.")
  | some assetType =>
    match assetType with
    | .unique | .msgChannel =>
      checkFixedAmount asset uniqueAssetUnits (asset.nAmount ≠ uniqueAssetAmount)
        (str "Invalid parameter: amount must be 100000000")
    | .qualifier | .subQualifier =>
      checkFixedAmount asset qualifierAssetUnits
        (asset.nAmount < qualifierAssetMinAmount || asset.nAmount > qualifierAssetMaxAmount)
        (str "Invalid parameter: amount must be between 100000000 - 1000000000")
    | _ => pure ()
    failIf (isAssetNameAnOwner asset.strName) (str "Invalid parameters: asset_name can't have a '!' at the end of it. See help for more details.")
    failIf (asset.nAmount ≤ 0)
      (str "Invalid parameter: asset amount can't be equal to or less than zero.")
    failIf (asset.nAmount > maxMoney)
      (str "Invalid parameter: asset amount greater than max money: 175000000")
    failIf (asset.units < 0 || asset.units > 8)
      (str "Invalid parameter: units must be between 0-8.")
    failIf (!checkAmountWithUnits asset.nAmount asset.units)
      (str "Invalid parameter: amount must be divisible by the smaller unit assigned to the asset")
    failIf (asset.nReissuable ≠ 0 && asset.nReissuable ≠ 1)
      (str "Invalid parameter: reissuable must be 0 or 1")
    failIf (asset.nHasIPFS ≠ 0 && asset.nHasIPFS ≠ 1)
      (str "Invalid parameter: has_ipfs must be 0 or 1.")

variable (env : Env)

def checkReissueAsset (asset : CReissueAsset) : Except Str Unit := do
  failIf (asset.nAmount < 0 || asset.nAmount ≥ maxMoney)
    (str "Unable to reissue asset: amount must be 0 or larger")
  failIf (asset.nUnits > maxUnit || asset.nUnits < -1)
    (str "Unable to reissue asset: unit must be between 8 and -1")
  -- two blocks of the test network carry other flags
  let fSkip := env.params.strNetworkID = str "test" &&
    (asset.strName = str "GAMINGWEB" && asset.nReissuable = 109 ||
      asset.strName = str "UINT8" && asset.nReissuable = -47)
  failIf (!fSkip && asset.nReissuable ≠ 0 && asset.nReissuable ≠ 1)
    (str "Unable to reissue asset: reissuable must be 0 or 1")

/-- The owner output of an issue goes to the same address and carries the name with the tag. -/
def isNewOwnerTxValid (tx : CTransaction) (assetName address : Str) : Except Str Unit :=
  match if tx.isNewAsset env then ownerAssetFromScript env tx.ownerScript else none with
  | none => throw (str "bad-txns-bad-owner")
  | some (ownerName, ownerAddress) => do
    failIf (ownerAddress ≠ address) (str "bad-txns-owner-address-mismatch")
    failIf (ownerName.length < ownerLength + minAssetLength) (str "bad-txns-owner-asset-length")
    failIf (ownerName ≠ assetName ++ ownerTag) (str "bad-txns-owner-name-mismatch")

/-- What the loop over the outputs has collected. -/
structure TxOutScan where
  nValueOut : CAmount := 0
  setAssetTransferNames : Std.TreeSet Str := ∅
  setNullDataTx : Std.TreeSet (Str × Str) pairCmp := ∅
  setNullGlobalAssetChanges : Std.TreeSet Str := ∅
  fContainsNullAssetVerifierTx : Bool := false
  nCountAddTagOuts : Nat := 0

/-- The null-data part of the loop. -/
def scanNullAsset (scan : TxOutScan) (txout : CTxOut) : Checked TxOutScan := do
  let script := txout.scriptPubKey
  if CScript.isNullAssetTxDataScript script then
    match assetNullDataFromScript env script with
    | none => throw ⟨100, rejectInvalid, str "bad-txns-null-asset-data-serialization"⟩
    | some (data, address) =>
      rejectWith 100 (verifyNullAssetDataFlag data.flag)
      rejectIf (scan.setNullDataTx.contains (data.assetName, address)) 100
        (str "bad-txns-null-data-only-one-change-per-asset-address")
      let added := isAssetNameAQualifier data.assetName false && data.flag = 1
      return { scan with
        setNullDataTx := scan.setNullDataTx.insert (data.assetName, address)
        nCountAddTagOuts := scan.nCountAddTagOuts + if added then 1 else 0 }
  else if CScript.isNullGlobalRestrictionAssetTxDataScript script then
    match globalAssetNullDataFromScript script with
    | none => throw ⟨100, rejectInvalid, str "bad-txns-null-global-asset-data-serialization"⟩
    | some data =>
      rejectWith 100 (verifyNullAssetDataFlag data.flag)
      rejectIf (scan.setNullGlobalAssetChanges.contains data.assetName) 100
        (str "bad-txns-null-data-only-one-global-change-per-asset-name")
      return { scan with
        setNullGlobalAssetChanges := scan.setNullGlobalAssetChanges.insert data.assetName }
  else if CScript.isNullAssetVerifierTxDataScript script then
    rejectWith 100 (checkVerifierAssetTxOut txout)
    rejectIf scan.fContainsNullAssetVerifierTx 100
      (str "bad-txns-null-data-only-one-verifier-per-tx")
    return { scan with fContainsNullAssetVerifierTx := true }
  else return scan

def checkTransferOut (txout : CTxOut) (transfer : CAssetTransfer) : Checked Unit := do
  match assetNameType transfer.strName with
  | none => throw ⟨100, rejectInvalid, str "bad-txns-transfer-asset-name-invalid"⟩
  | some assetType =>
    rejectIf (isAssetNameAnOwner transfer.strName && transfer.nAmount ≠ ownerAssetAmount) 100
      (str "bad-txns-transfer-owner-amount-was-not-1")
    rejectIf (assetType = .unique && transfer.nAmount ≠ uniqueAssetAmount) 100
      (str "bad-txns-transfer-unique-amount-was-not-1")
    rejectIf ((assetType = .qualifier || assetType = .subQualifier) &&
        (transfer.nAmount < qualifierAssetMinAmount || transfer.nAmount > qualifierAssetMaxAmount))
      100 (str "bad-txns-transfer-qualifier-amount-must be between 1 - 100")
    rejectIf (txout.nValue ≠ 0) 100 (str "bad-txns-asset-transfer-amount-isn't-zero")

/-- The asset part of the loop. -/
def scanAsset (fMempoolCheck fBlockCheck : Bool) (scan : TxOutScan) (txout : CTxOut) :
    Checked TxOutScan := do
  match CScript.isAssetScript txout.scriptPubKey with
  | none => return scan
  | some assetScript =>
    match assetScript.nType with
    | .transferAsset =>
      match transferAssetFromScript env txout.scriptPubKey with
      | none => throw ⟨100, rejectInvalid, str "bad-txns-transfer-asset-bad-deserialize"⟩
      | some (transfer, _) =>
        checkTransferOut txout transfer
        return { scan with
          setAssetTransferNames := scan.setAssetTransferNames.insert transfer.strName }
    | .newAsset =>
      rejectIf (txout.nValue ≠ 0) 100 (str "bad-txns-asset-issued-amount-isn't-zero")
      return scan
    | .reissueAsset =>
      rejectIf (env.areEnforcedValuesDeployed && fBlockCheck && txout.nValue ≠ 0) 0
        (str "bad-txns-asset-reissued-amount-isn't-zero")
      rejectIf (fMempoolCheck && txout.nValue ≠ 0) 0
        (str "bad-mempool-txns-asset-reissued-amount-isn't-zero")
      return scan
    | _ => throw ⟨0, rejectInvalid, str "bad-asset-type-not-any-of-the-main-three"⟩

def scanTxOut (fMempoolCheck fBlockCheck : Bool) (scan : TxOutScan) (txout : CTxOut) :
    Checked TxOutScan := do
  rejectIf (txout.nValue < 0) 100 (str "bad-txns-vout-negative")
  rejectIf (txout.nValue > maxMoney) 100 (str "bad-txns-vout-toolarge")
  let nValueOut := scan.nValueOut + txout.nValue
  rejectIf (!moneyRange nValueOut) 100 (str "bad-txns-txouttotal-toolarge")
  let scan ← scanNullAsset env { scan with nValueOut } txout
  scanAsset env fMempoolCheck fBlockCheck scan txout

/-- Null data needs a transfer of the qualifier, or of the owner token of a restricted asset. -/
def checkNullDataAuthority (scan : TxOutScan) : Checked Unit := do
  forM scan.setNullDataTx.toList fun (assetName, _) =>
    if assetName.headD 0 = restrictedChar then
      rejectIf (!scan.setAssetTransferNames.contains (assetName.drop 1 ++ ownerTag)) 100
        (str "bad-txns-tx-contains-restricted-asset-null-tx-without-asset-transfer")
    else
      rejectIf (!scan.setAssetTransferNames.contains assetName) 100
        (str "bad-txns-tx-contains-qualifier-asset-null-tx-without-asset-transfer")
  forM scan.setNullGlobalAssetChanges.toList fun name => do
    rejectIf (name = []) 100
      (str "bad-txns-tx-contains-global-asset-null-tx-with-null-asset-name")
    rejectIf (!scan.setAssetTransferNames.contains (name.drop 1 ++ ownerTag)) 100
      (str "bad-txns-tx-contains-global-asset-null-tx-without-asset-transfer")

def checkTxInShape (tx : CTransaction) (fCheckDuplicateInputs : Bool) : Checked Unit := do
  rejectIf (fCheckDuplicateInputs && !(tx.vin.map CTxIn.prevout).Nodup) 100
    (str "bad-txns-inputs-duplicate")
  if tx.isCoinBase then
    let size := ((tx.vin.map CTxIn.scriptSig).headD []).length
    rejectIf (size < 2 || size > 100) 100 (str "bad-cb-length")
    rejectIf (env.areCoinbaseCheckAssetsDeployed && tx.vout.any fun out =>
        (CScript.isAssetScript out.scriptPubKey).isSome || CScript.isNullAsset out.scriptPubKey) 0
      (str "bad-txns-coinbase-contains-asset-txes")
  else
    rejectIf (tx.vin.any fun txin => txin.prevout.isNull) 10 (str "bad-txns-prevout-null")

/-- What `CheckTransaction` remembers about a restricted asset in the transaction. -/
structure RestrictedUse where
  fContainsNewRestrictedAsset : Bool := false
  fContainsRestrictedAssetReissue : Bool := false

/-- Without a recognised class only transfers are allowed, and the asset opcode only in front. -/
def checkPlainOut (out : CTxOut) : Checked Unit :=
  match CScript.isAssetScript out.scriptPubKey with
  | some assetScript =>
    rejectIf (assetScript.nType ≠ .transferAsset) 100 (str "bad-txns-bad-asset-transaction")
  | none =>
    rejectIf (CScript.find out.scriptPubKey opCmusicaiAsset ≠ 0 &&
        CScript.byteAt out.scriptPubKey 0 ≠ opCmusicaiAsset) 100
      (str "bad-txns-op-neox-asset-not-in-right-script-location")

/-- The decoded payload of the class, or a rejection. -/
def payloadOr {α : Type} (payload : Option α) (reason : Str) : Checked α :=
  match payload with
  | some a => .ok a
  | none => .error ⟨100, rejectInvalid, reason⟩

@[simp] theorem payloadOr_eq_ok {α : Type} {payload : Option α} {reason : Str} {a : α} :
    payloadOr payload reason = .ok a ↔ payload = some a := by
  cases payload <;> simp [payloadOr]

/-- Puts the label of an asset class in front of an error text. -/
def labelled {α : Type} (label : String) (check : Except Str α) : Except Str α :=
  check.mapError (str label ++ ·)

def checkNewAssetTx (tx : CTransaction) : Checked RestrictedUse := do
  rejectWith 100 (tx.verifyNewAsset env)
  let (asset, strAddress) ← payloadOr (assetFromScript env tx.lastScript)
    (str "bad-txns-issue-asset-from-transaction")
  rejectWith 100 (isNewOwnerTxValid env tx asset.strName strAddress)
  rejectWith 100 (checkNewAsset asset)
  return {}

def checkReissueTx (tx : CTransaction) : Checked RestrictedUse := do
  rejectWith 100 (tx.verifyReissueAsset env)
  let (reissue, _) ← payloadOr (reissueAssetFromScript env tx.lastScript)
    (str "bad-txns-reissue-asset")
  rejectWith 100 (checkReissueAsset env reissue)
  if CTransaction.nameTypeOrInvalid reissue.strName = .restricted then
    let _ ← rejectWith 100
      (labelled "bad-txns-reissue-restricted-verifier-" tx.getVerifierStringFromTx)
    return { fContainsRestrictedAssetReissue := true }
  else return {}

def checkNewUniqueTx (tx : CTransaction) : Checked RestrictedUse := do
  rejectWith 100 (tx.verifyNewUniqueAsset env)
  forM tx.vout fun out => do
    if isScriptNewUniqueAsset env out.scriptPubKey then
      let (asset, _) ← payloadOr (assetFromScript env out.scriptPubKey)
        (str "bad-txns-check-transaction-issue-unique-asset-serialization")
      rejectWith 100 (labelled "bad-txns-issue-unique" (checkNewAsset asset))
  return {}

def checkNewMsgChannelTx (tx : CTransaction) : Checked RestrictedUse := do
  rejectWith 100 (tx.verifyNewMsgChannelAsset env)
  let (asset, _) ← payloadOr (msgChannelAssetFromScript env tx.lastScript)
    (str "bad-txns-issue-msgchannel-from-transaction")
  rejectWith 100 (labelled "bad-txns-issue-msgchannel" (checkNewAsset asset))
  return {}

def checkNewQualifierTx (tx : CTransaction) : Checked RestrictedUse := do
  rejectWith 100 (tx.verifyNewQualfierAsset env)
  let (asset, _) ← payloadOr (qualifierAssetFromScript env tx.lastScript)
    (str "bad-txns-issue-qualifier-from-transaction")
  rejectWith 100 (labelled "bad-txns-issue-qualfier" (checkNewAsset asset))
  return {}

def checkNewRestrictedTx (tx : CTransaction) : Checked RestrictedUse := do
  rejectWith 100 (tx.verifyNewRestrictedAsset env)
  let (asset, _) ← payloadOr (restrictedAssetFromScript env tx.lastScript)
    (str "bad-txns-issue-restricted-from-transaction")
  rejectWith 100 (labelled "bad-txns-issue-restricted" (checkNewAsset asset))
  -- the verifier was found by the class check already
  let _ ← rejectWith 100
    (labelled "bad-txns-issue-restricted-verifier-search-" tx.getVerifierStringFromTx)
  return { fContainsNewRestrictedAsset := true }

/-- The class-dependent part of `CheckTransaction`: the first class that matches decides. -/
def checkAssetClass (tx : CTransaction) : Checked RestrictedUse := do
  if tx.isNewAsset env then checkNewAssetTx env tx
  else if tx.isReissueAsset then checkReissueTx env tx
  else if tx.isNewUniqueAsset env then checkNewUniqueTx env tx
  else if tx.isNewMsgChannelAsset env then checkNewMsgChannelTx env tx
  else if tx.isNewQualifierAsset env then checkNewQualifierTx env tx
  else if tx.isNewRestrictedAsset env then checkNewRestrictedTx env tx
  else
    forM tx.vout checkPlainOut
    return {}

def checkTransaction (tx : CTransaction) (fCheckDuplicateInputs fMempoolCheck fBlockCheck : Bool) :
    Checked Unit := do
  rejectIf tx.vin.isEmpty 10 (str "bad-txns-vin-empty")
  rejectIf tx.vout.isEmpty 10 (str "bad-txns-vout-empty")
  rejectIf (tx.strippedSize * witnessScaleFactor > maxBlockWeight) 100 (str "bad-txns-oversize")
  let scan ← tx.vout.foldlM (scanTxOut env fMempoolCheck fBlockCheck) {}
  rejectIf (scan.nCountAddTagOuts ≠ 0 && !tx.checkAddingTagBurnFee env scan.nCountAddTagOuts) 100
    (str "bad-txns-tx-doesn't-contain-required-burn-fee-for-adding-tags")
  checkNullDataAuthority scan
  checkTxInShape env tx fCheckDuplicateInputs
  let use ← checkAssetClass env tx
  rejectIf (scan.fContainsNullAssetVerifierTx && !use.fContainsRestrictedAssetReissue &&
      !use.fContainsNewRestrictedAsset) 100
    (str "bad-txns-tx-cointains-verifier-string-without-restricted-asset-issuance-or-reissuance")
  rejectIf (use.fContainsNewRestrictedAsset && !scan.fContainsNullAssetVerifierTx) 100
    (str "bad-txns-tx-cointains-restricted-asset-issuance-without-verifier")

end Cmusic
