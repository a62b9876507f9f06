import Cmusic.Verifier

/-! The asset class of a transaction and the verifier each class is sent to. -/
namespace Cmusic

open Fallible

namespace CTxOut

def digits (n : Int64) : Str := str (toString n.toInt)

def hexDigit (n : Nat) : UInt8 := (if n < 10 then 48 + n else 87 + n).toUInt8

def hexStr (s : Str) : Str :=
  s.flatMap fun b => [hexDigit (b.toNat / 16), hexDigit (b.toNat % 16)]

def toStr (out : CTxOut) : Str :=
  str "CTxOut(nValue=" ++ digits (out.nValue / coin) ++ str "." ++
    (digits (out.nValue % coin)).leftpad 8 48 ++ str ", scriptPubKey=" ++
    (hexStr out.scriptPubKey).take 30 ++ str ")"

end CTxOut

/-- How many outputs of each asset kind there are. -/
structure AssetTypeCounts where
  issues : Nat
  reissues : Nat
  transfers : Nat
  owners : Nat

def getTxOutAssetTypes (vout : List CTxOut) : AssetTypeCounts where
  issues := vout.countP fun out => CScript.isNewAsset out.scriptPubKey
  reissues := vout.countP fun out => CScript.isReissueAsset out.scriptPubKey
  transfers := vout.countP fun out => CScript.isTransferAsset out.scriptPubKey
  owners := vout.countP fun out => CScript.isOwnerAsset out.scriptPubKey

def badHash : UInt256 := 0xe6cdd54445e6bf69710d54e4340a6486167f866575a878eaedecbb345da056ae#256

def badHash2 : UInt256 := 0x3ba63518dc12599f9b83449c8b5338e224caf363d0327f5156fa4b6efeca5724#256

variable (env : Env)

def getBurnAmount (type : AssetType) : CAmount :=
  match type with
  | .root => env.params.nIssueAssetBurnAmount
  | .sub => env.params.nIssueSubAssetBurnAmount
  | .msgChannel => env.params.nIssueMsgChannelAssetBurnAmount
  | .unique => env.params.nIssueUniqueAssetBurnAmount
  | .reissue => env.params.nReissueAssetBurnAmount
  | .qualifier => env.params.nIssueQualifierAssetBurnAmount
  | .subQualifier => env.params.nIssueSubQualifierAssetBurnAmount
  | .restricted => env.params.nIssueRestrictedAssetBurnAmount
  | .nullAddQualifier => env.params.nAddNullQualifierTagBurnAmount
  | .owner | .vote | .invalid => 0

def getBurnAddress (type : AssetType) : Str :=
  match type with
  | .root => env.params.strIssueAssetBurnAddress
  | .sub => env.params.strIssueSubAssetBurnAddress
  | .msgChannel => env.params.strIssueMsgChannelAssetBurnAddress
  | .unique => env.params.strIssueUniqueAssetBurnAddress
  | .reissue => env.params.strReissueAssetBurnAddress
  | .qualifier => env.params.strIssueQualifierAssetBurnAddress
  | .subQualifier => env.params.strIssueSubQualifierAssetBurnAddress
  | .restricted => env.params.strIssueRestrictedAssetBurnAddress
  | .nullAddQualifier => env.params.strAddNullQualifierTagBurnAddress
  | .owner | .vote | .invalid => []

/-- The output pays exactly `amount` to `address`. -/
def paysBurn (amount : CAmount) (address : Str) (txOut : CTxOut) : Bool :=
  txOut.nValue = amount && extractAddress env txOut.scriptPubKey = some address

def checkIssueBurnTx (type : AssetType) (numberIssued : Nat) (txOut : CTxOut) : Bool :=
  match type with
  | .reissue | .vote | .owner | .invalid => false
  | _ =>
    paysBurn env (getBurnAmount env type * Int64.ofNat numberIssued) (getBurnAddress env type)
      txOut

def checkReissueBurnTx (txOut : CTxOut) : Bool :=
  paysBurn env env.params.nReissueAssetBurnAmount env.params.strReissueAssetBurnAddress txOut

namespace CTransaction

variable (tx : CTransaction)

/-- The script of the last output. -/
def lastScript : CScript := (tx.vout.getLast?.map CTxOut.scriptPubKey).getD []

/-- The script of the output before the last one. -/
def ownerScript : CScript := (tx.vout.dropLast.getLast?.map CTxOut.scriptPubKey).getD []

/-- Whether some output transfers the asset `name`. -/
def transfersToken (name : Str) : Bool :=
  tx.vout.any fun out =>
    (transferAssetFromScript env out.scriptPubKey).any fun t => t.1.strName = name

def isNewAsset : Bool :=
  3 ≤ tx.vout.length && CScript.isNewAsset tx.lastScript && CScript.isOwnerAsset tx.ownerScript &&
    !(isScriptNewUniqueAsset env tx.lastScript || isScriptNewRestrictedAsset env tx.lastScript)

def isNewUniqueAsset : Bool :=
  CScript.isNewAsset tx.lastScript && isScriptNewUniqueAsset env tx.lastScript

def isNewMsgChannelAsset : Bool :=
  CScript.isNewAsset tx.lastScript && isScriptNewMsgChannelAsset env tx.lastScript

def isNewQualifierAsset : Bool :=
  CScript.isNewAsset tx.lastScript && isScriptNewQualifierAsset env tx.lastScript

def isNewRestrictedAsset : Bool :=
  CScript.isNewAsset tx.lastScript && isScriptNewRestrictedAsset env tx.lastScript

def isReissueAsset : Bool := CScript.isReissueAsset tx.lastScript

/-- `GetVerifierStringFromTx`; `.ok none` is the case in which `fNotFound` is set. -/
def getVerifierStringFromTx : Except Str (Option CNullAssetTxVerifierString) :=
  tx.vout.foldlM (fun found out => do
    if CScript.isNullAssetVerifierTxDataScript out.scriptPubKey then
      if found.isSome then throw (str "Multiple verifier strings found in transaction")
      match assetNullVerifierDataFromScript out.scriptPubKey with
      | some verifier => return some verifier
      | none => throw (str "Failed to get verifier string from output: " ++ out.toStr)
    else return found) none

/-- The unique assets seen so far: their names, their common root and their number. -/
structure UniqueScan where
  setUniqueAssets : Std.TreeSet Str := ∅
  assetRoot : Str := []
  assetOutpointCount : Nat := 0

def uniqueScanStep (scan : UniqueScan) (out : CTxOut) : Except Str UniqueScan := do
  if isScriptNewUniqueAsset env out.scriptPubKey then
    match assetFromScript env out.scriptPubKey with
    | none => throw (str "bad-txns-issue-unique-asset-from-script")
    | some (asset, _) =>
      let root := getParentName asset.strName
      let assetRoot := if scan.assetRoot = [] then root else scan.assetRoot
      failIf (assetRoot ≠ root) (str "bad-txns-issue-unique-asset-compare-failed")
      failIf (scan.setUniqueAssets.contains asset.strName)
        (str "bad-txns-issue-unique-duplicate-name-in-same-tx")
      return {
        setUniqueAssets := scan.setUniqueAssets.insert asset.strName
        assetRoot
        assetOutpointCount := scan.assetOutpointCount + 1 }
  else return scan

def verifyNewUniqueAsset : Except Str Unit := do
  failIf (tx.vout.length < 3) (str "bad-txns-unique-vout-size-to-small")
  let scan ← tx.vout.foldlM (uniqueScanStep env) {}
  failIf (scan.assetOutpointCount = 0) (str "bad-txns-issue-unique-asset-bad-outpoint-count")
  failIf (!tx.vout.any (checkIssueBurnTx env .unique scan.assetOutpointCount))
    (str "bad-txns-issue-unique-asset-burn-outpoints-not-found")
  failIf (!tx.transfersToken env (scan.assetRoot ++ ownerTag))
    (str "bad-txns-issue-unique-asset-missing-owner-asset")
  let counts := getTxOutAssetTypes tx.vout
  failIf (counts.owners > 0 || counts.reissues > 0 || counts.issues ≠ scan.assetOutpointCount)
    (str "bad-txns-failed-unique-asset-formatting-check")

/-- The type of a name, `invalid` when the name is not valid. -/
def nameTypeOrInvalid (name : Str) : AssetType := (assetNameType name).getD .invalid

def verifyNewAsset : Except Str Unit := do
  failIf (tx.vout.length < 3) (str "bad-txns-issue-vout-size-to-small")
  failIf (!CScript.isNewAsset tx.lastScript) (str "bad-txns-issue-data-not-found")
  failIf (!CScript.isOwnerAsset tx.ownerScript) (str "bad-txns-issue-owner-data-not-found")
  match assetFromScript env tx.lastScript with
  | none => throw (str "bad-txns-issue-serialzation-failed")
  | some (asset, _) =>
    let assetType := nameTypeOrInvalid asset.strName
    match ownerAssetFromScript env tx.ownerScript with
    | none => throw (str "bad-txns-issue-owner-serialzation-failed")
    | some (strOwnerName, _) =>
      failIf (strOwnerName ≠ asset.strName ++ ownerTag)
        (str "bad-txns-issue-owner-name-doesn't-match")
      failIf (!(tx.hash = badHash || tx.hash = badHash2 ||
          tx.vout.any (checkIssueBurnTx env assetType 1)))
        (str "bad-txns-issue-burn-not-found")
      failIf (assetType = .sub &&
          !tx.transfersToken env (getParentName asset.strName ++ ownerTag))
        (str "bad-txns-issue-new-asset-missing-owner-asset")
      let counts := getTxOutAssetTypes tx.vout
      failIf (counts.owners ≠ 1 || counts.issues ≠ 1 || counts.reissues > 0)
        (str "bad-txns-failed-issue-asset-formatting-check")

def verifyNewMsgChannelAsset : Except Str Unit := do
  failIf (tx.vout.length < 3) (str "bad-txns-issue-msgchannel-vout-size-to-small")
  failIf (!CScript.isNewAsset tx.lastScript) (str "bad-txns-issue-data-not-found")
  match msgChannelAssetFromScript env tx.lastScript with
  | none => throw (str "bad-txns-issue-msgchannel-serialzation-failed")
  | some (asset, _) =>
    failIf (!tx.vout.any (checkIssueBurnTx env .msgChannel 1))
      (str "bad-txns-issue-msgchannel-burn-not-found")
    failIf (!tx.transfersToken env (getParentName asset.strName ++ ownerTag))
      (str "bad-txns-issue-msg-channel-asset-bad-owner-asset")
    let counts := getTxOutAssetTypes tx.vout
    failIf (counts.owners ≠ 0 || counts.issues ≠ 1 || counts.reissues > 0)
      (str "bad-txns-failed-issue-msgchannel-asset-formatting-check")

def verifyNewQualfierAsset : Except Str Unit := do
  failIf (tx.vout.length < 2) (str "bad-txns-issue-qualifier-vout-size-to-small")
  failIf (!CScript.isNewAsset tx.lastScript) (str "bad-txns-issue-qualifider-data-not-found")
  match qualifierAssetFromScript env tx.lastScript with
  | none => throw (str "bad-txns-issue-qualifier-serialzation-failed")
  | some (asset, _) =>
    let assetType := nameTypeOrInvalid asset.strName
    failIf (!tx.vout.any (checkIssueBurnTx env assetType 1))
      (str "bad-txns-issue-qualifier-burn-not-found")
    failIf (assetType = .subQualifier && !tx.transfersToken env (getParentName asset.strName))
      (str "bad-txns-issue-sub-qualifier-parent-outpoint-not-found")
    let counts := getTxOutAssetTypes tx.vout
    failIf (counts.owners ≠ 0 || counts.issues ≠ 1 || counts.reissues > 0)
      (str "bad-txns-failed-issue-asset-formatting-check")

def verifyNewRestrictedAsset : Except Str Unit := do
  failIf (tx.vout.length < 4) (str "bad-txns-issue-restricted-vout-size-to-small")
  failIf (!CScript.isNewAsset tx.lastScript) (str "bad-txns-issue-restricted-data-not-found")
  match restrictedAssetFromScript env tx.lastScript with
  | none => throw (str "bad-txns-issue-restricted-serialization-failed")
  | some (asset, _) =>
    let assetType := nameTypeOrInvalid asset.strName
    failIf (!tx.vout.any (checkIssueBurnTx env assetType 1))
      (str "bad-txns-issue-restricted-burn-not-found")
    failIf (!tx.transfersToken env ((getParentName asset.strName).drop 1 ++ ownerTag))
      (str "bad-txns-issue-restricted-root-owner-token-outpoint-not-found")
    match ← tx.getVerifierStringFromTx with
    | none => throw (str "Verifier string not found")
    | some _ =>
      let counts := getTxOutAssetTypes tx.vout
      failIf (counts.owners ≠ 0 || counts.issues ≠ 1 || counts.reissues > 0)
        (str "bad-txns-failed-issue-asset-formatting-check")

/-- The name whose owner token a reissue needs: a restricted asset answers to its root. -/
def reissueOwnerName (name : Str) : Str :=
  (if nameTypeOrInvalid name = .restricted then name.drop 1 else name) ++ ownerTag

def verifyReissueAsset : Except Str Unit := do
  failIf (tx.vout.length < 3) (str "bad-txns-vout-size-to-small")
  failIf (!CScript.isReissueAsset tx.lastScript) (str "bad-txns-reissue-data-not-found")
  match reissueAssetFromScript env tx.lastScript with
  | none => throw (str "bad-txns-reissue-serialization-failed")
  | some (reissue, _) =>
    failIf (!tx.transfersToken env (reissueOwnerName reissue.strName))
      (str "bad-txns-reissue-owner-outpoint-not-found")
    failIf (!tx.vout.any (checkReissueBurnTx env))
      (str "bad-txns-reissue-burn-outpoint-not-found")
    let counts := getTxOutAssetTypes tx.vout
    failIf (counts.owners > 0 || counts.reissues ≠ 1 || counts.issues > 0)
      (str "bad-txns-failed-reissue-asset-formatting-check")

def checkAddingTagBurnFee (count : Nat) : Bool :=
  tx.vout.any (checkIssueBurnTx env .nullAddQualifier count)

end CTransaction

end Cmusic
