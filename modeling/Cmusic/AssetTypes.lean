import Cmusic.Serialize

/-! The asset payloads of scripts and their serialization. -/
namespace Cmusic

inductive AssetType where
  | root | sub | unique | msgChannel | qualifier | subQualifier | restricted | vote | reissue
  | owner | nullAddQualifier | invalid
  deriving DecidableEq, Repr

inductive QualifierType where
  | removeQualifier | addQualifier
  deriving DecidableEq, Repr

inductive RestrictedType where
  | unfreezeAddress | freezeAddress | globalUnfreeze | globalFreeze
  deriving DecidableEq, Repr

def ownerTag : Str := str "!"

def ownerLength : Nat := 1

def minAssetLength : Nat := 3

def ownerAssetAmount : CAmount := 1 * coin

def uniqueAssetAmount : CAmount := 1 * coin

def uniqueAssetUnits : Int8 := 0

def qualifierAssetMinAmount : CAmount := 1 * coin

def qualifierAssetMaxAmount : CAmount := 10 * coin

def qualifierAssetUnits : Int8 := 0

def maxUnit : Int8 := 8

def ipfsSha2 : UInt8 := 0x12

def txidNotifier : UInt8 := 0x54

def ipfsSha2Len : UInt8 := 0x20

/-- Reading `ReadWriteAssetHash`: the flag says whether a hash was there to be read. -/
def readAssetHash : Reader (Bool × Str) := fun s =>
  if s.length ≥ 33 then (do
    let sha2 ← readBytes 1
    let hash ← readString
    let front := if sha2 = [ipfsSha2] then [ipfsSha2, ipfsSha2Len] else []
    return (true, front ++ hash.take 32)) s
  else some ((false, []), s)

/-- Writing `ReadWriteAssetHash`: hashes of other lengths are left out. -/
def writeAssetHash (hash : Str) : Str :=
  if hash.length = 34 then ipfsSha2 :: writeString (hash.drop 2)
  else if hash.length = 32 then txidNotifier :: writeString hash
  else []

@[ext]
structure CNewAsset where
  strName : Str := []
  nAmount : CAmount := 0
  units : Int8 := maxUnit
  nReissuable : Int8 := 0
  nHasIPFS : Int8 := 0
  strIPFSHash : Str := []
  deriving DecidableEq, Repr

def CNewAsset.unserialize : Reader CNewAsset := do
  let strName ← readString
  let nAmount ← readInt64
  let units ← readInt8
  let nReissuable ← readInt8
  let nHasIPFS ← readInt8
  let strIPFSHash ← if nHasIPFS = 1 then (·.2) <$> readAssetHash else pure []
  return { strName, nAmount, units, nReissuable, nHasIPFS, strIPFSHash }

def CNewAsset.serialize (asset : CNewAsset) : Str :=
  writeString asset.strName ++ writeInt64 asset.nAmount ++ writeInt8 asset.units ++
    writeInt8 asset.nReissuable ++ writeInt8 asset.nHasIPFS ++
    if asset.nHasIPFS = 1 then writeAssetHash asset.strIPFSHash else []

structure CAssetTransfer where
  strName : Str := []
  nAmount : CAmount := 0
  message : Str := []
  nExpireTime : Int64 := 0
  deriving DecidableEq, Repr

/-- The expiry time is read only behind a message. -/
def CAssetTransfer.readExpireTime (validIPFS : Bool) : Reader Int64 := fun s =>
  if validIPFS && 8 ≤ s.length then readInt64 s else some (0, s)

def CAssetTransfer.unserialize : Reader CAssetTransfer := do
  let strName ← readString
  let nAmount ← readInt64
  let (validIPFS, message) ← readAssetHash
  let nExpireTime ← readExpireTime validIPFS
  return { strName, nAmount, message, nExpireTime }

def CAssetTransfer.serialize (transfer : CAssetTransfer) : Str :=
  writeString transfer.strName ++ writeInt64 transfer.nAmount ++ writeAssetHash transfer.message ++
    if (transfer.message.length = 34 ∨ transfer.message.length = 32) ∧ transfer.nExpireTime ≠ 0
    then writeInt64 transfer.nExpireTime else []

structure CReissueAsset where
  strName : Str := []
  nAmount : CAmount := 0
  nUnits : Int8 := 0
  nReissuable : Int8 := 1
  strIPFSHash : Str := []
  deriving DecidableEq, Repr

def CReissueAsset.unserialize : Reader CReissueAsset := do
  let strName ← readString
  let nAmount ← readInt64
  let nUnits ← readInt8
  let nReissuable ← readInt8
  let (_, strIPFSHash) ← readAssetHash
  return { strName, nAmount, nUnits, nReissuable, strIPFSHash }

def CReissueAsset.serialize (reissue : CReissueAsset) : Str :=
  writeString reissue.strName ++ writeInt64 reissue.nAmount ++ writeInt8 reissue.nUnits ++
    writeInt8 reissue.nReissuable ++ writeAssetHash reissue.strIPFSHash

structure CNullAssetTxData where
  assetName : Str := []
  flag : Int8 := -1
  deriving DecidableEq, Repr

def CNullAssetTxData.unserialize : Reader CNullAssetTxData := do
  let assetName ← readString
  let flag ← readInt8
  return { assetName, flag }

def CNullAssetTxData.serialize (data : CNullAssetTxData) : Str :=
  writeString data.assetName ++ writeInt8 data.flag

structure CNullAssetTxVerifierString where
  verifierString : Str := []
  deriving DecidableEq, Repr

def CNullAssetTxVerifierString.unserialize : Reader CNullAssetTxVerifierString := do
  return { verifierString := ← readString }

def CNullAssetTxVerifierString.serialize (verifier : CNullAssetTxVerifierString) : Str :=
  writeString verifier.verifierString

end Cmusic
