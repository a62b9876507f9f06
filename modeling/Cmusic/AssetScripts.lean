import Cmusic.Destination

/-! The asset payload carried by a script, and the scripts built for a payload. -/
namespace Cmusic

/-- Deserializes a payload; what follows it in the stream is ignored. -/
def decode {α : Type} (reader : Reader α) (payload : Str) : Option α :=
  (reader payload).map Prod.fst

namespace CScript

/-- Appends an asset payload of the given type byte to a payment script. -/
def constructAsset (type : UInt8) (payload : Str) (script : CScript) : CScript :=
  pushData (script ++ [opCmusicaiAsset])
    ([cmusicaiN, cmusicaiE, cmusicaiX, type] ++ payload) ++ [opDrop]

def payToPubKeyHash (hash : Str) : CScript :=
  pushData [opDup, opHash160] hash ++ [opEqualVerify, opCheckSig]

end CScript

def CNewAsset.constructTransaction (asset : CNewAsset) : CScript → CScript :=
  CScript.constructAsset cmusicaiQ asset.serialize

def CNewAsset.constructOwnerTransaction (asset : CNewAsset) : CScript → CScript :=
  CScript.constructAsset cmusicaiO (writeString (asset.strName ++ ownerTag))

def CAssetTransfer.constructTransaction (transfer : CAssetTransfer) : CScript → CScript :=
  CScript.constructAsset cmusicaiT transfer.serialize

def CReissueAsset.constructTransaction (reissue : CReissueAsset) : CScript → CScript :=
  CScript.constructAsset cmusicaiN reissue.serialize

/-- `GetScriptForNullAssetDataDestination` of a key or a script hash. -/
def getScriptForNullAssetDataDestination (hash : Str) : CScript :=
  CScript.pushData [opCmusicaiAsset] hash

def CNullAssetTxData.constructTransaction (data : CNullAssetTxData) (script : CScript) : CScript :=
  CScript.pushData script data.serialize

def CNullAssetTxData.constructGlobalRestrictionTransaction (data : CNullAssetTxData) : CScript :=
  CScript.pushData [opCmusicaiAsset, opReserved, opReserved] data.serialize

def CNullAssetTxVerifierString.constructTransaction (verifier : CNullAssetTxVerifierString) :
    CScript :=
  CScript.pushData [opCmusicaiAsset, opReserved] verifier.serialize

variable (env : Env)

/-- Before the larger transfer scripts were deployed the payload was always read from byte 31. -/
def transferPayload (script : CScript) (nStartingIndex : Nat) : Str :=
  if env.areTransferScriptsSizeDeployed then script.drop nStartingIndex else script.drop 31

def transferAssetFromScript (script : CScript) : Option (CAssetTransfer × Str) := do
  let nStartingIndex ← CScript.isScriptTransferAsset script
  let transfer ← decode CAssetTransfer.unserialize (transferPayload env script nStartingIndex)
  return (transfer, scriptAddress env script)

def assetFromScript (script : CScript) : Option (CNewAsset × Str) := do
  let nStartingIndex ← CScript.isScriptNewAsset script
  let asset ← decode CNewAsset.unserialize (script.drop nStartingIndex)
  return (asset, scriptAddress env script)

def ownerAssetFromScript (script : CScript) : Option (Str × Str) := do
  let nStartingIndex ← CScript.isScriptOwnerAsset script
  let assetName ← decode readString (script.drop nStartingIndex)
  return (assetName, scriptAddress env script)

def reissueAssetFromScript (script : CScript) : Option (CReissueAsset × Str) := do
  let nStartingIndex ← CScript.isScriptReissueAsset script
  let reissue ← decode CReissueAsset.unserialize (script.drop nStartingIndex)
  return (reissue, scriptAddress env script)

def assetNullDataFromScript (script : CScript) : Option (CNullAssetTxData × Str) := do
  if CScript.isNullAssetTxDataScript script then
    let data ← decode CNullAssetTxData.unserialize (script.drop 23)
    return (data, scriptAddress env script)
  else none

def globalAssetNullDataFromScript (script : CScript) : Option CNullAssetTxData :=
  if CScript.isNullGlobalRestrictionAssetTxDataScript script then
    decode CNullAssetTxData.unserialize (script.drop 4)
  else none

def assetNullVerifierDataFromScript (script : CScript) : Option CNullAssetTxVerifierString :=
  if CScript.isNullAssetVerifierTxDataScript script then
    decode CNullAssetTxVerifierString.unserialize (script.drop 3)
  else none

/-- Whether the script issues a new asset whose name has one of the given types. -/
def isScriptNewAssetOf (types : List AssetType) (script : CScript) : Bool :=
  match assetFromScript env script with
  | some (asset, _) => (assetNameType asset.strName).any types.contains
  | none => false

def isScriptNewUniqueAsset : CScript → Bool := isScriptNewAssetOf env [.unique]

def isScriptNewMsgChannelAsset : CScript → Bool := isScriptNewAssetOf env [.msgChannel]

def isScriptNewQualifierAsset : CScript → Bool :=
  isScriptNewAssetOf env [.qualifier, .subQualifier]

def isScriptNewRestrictedAsset : CScript → Bool := isScriptNewAssetOf env [.restricted]

/-- `MsgChannelAssetFromScript` and its siblings also require the matching name type. -/
def msgChannelAssetFromScript (script : CScript) : Option (CNewAsset × Str) :=
  if isScriptNewMsgChannelAsset env script then assetFromScript env script else none

def qualifierAssetFromScript (script : CScript) : Option (CNewAsset × Str) :=
  if isScriptNewQualifierAsset env script then assetFromScript env script else none

def restrictedAssetFromScript (script : CScript) : Option (CNewAsset × Str) :=
  if isScriptNewRestrictedAsset env script then assetFromScript env script else none

/-- The amount of an asset script, always read behind the marker. -/
def getAssetAmountFromScript (script : CScript) : Option CAmount :=
  match CScript.isAssetScript script with
  | some ⟨.newAsset, false, nStartingIndex⟩ =>
    (decode CNewAsset.unserialize (script.drop nStartingIndex)).map (·.nAmount)
  | some ⟨.newAsset, true, _⟩ => some ownerAssetAmount
  | some ⟨.transferAsset, _, nStartingIndex⟩ =>
    (decode CAssetTransfer.unserialize (script.drop nStartingIndex)).map (·.nAmount)
  | some ⟨.reissueAsset, _, nStartingIndex⟩ =>
    (decode CReissueAsset.unserialize (script.drop nStartingIndex)).map (·.nAmount)
  | _ => none

def CScript.isUnspendable (script : CScript) : Bool :=
  script.head? = some opReturn || script.head? = some opCmusicaiAsset ||
    script.length > maxScriptSize || getAssetAmountFromScript script = some 0

end Cmusic
