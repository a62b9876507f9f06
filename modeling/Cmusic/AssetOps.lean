import Cmusic.CheckTxAssets

/-! The operations on the asset cache while blocks are connected and disconnected. -/
namespace Cmusic

open Std

/-- The values a reissue replaced. -/
structure CBlockAssetUndo where
  fChangedIPFS : Bool
  fChangedUnits : Bool
  strIPFS : Str
  nUnits : Int8
  fChangedVerifierString : Bool
  verifierString : Str

/-- `mapRootQualifierAddresses…[key].insert(asset)`. -/
def insertRootQualifier (map : PairMap (TreeSet Str)) (key : Str × Str) (asset : Str) :
    PairMap (TreeSet Str) :=
  map.insert key ((map[key]?.getD ∅).insert asset)

/-- `mapRootQualifierAddresses…[key].erase(asset)`. -/
def eraseRootQualifier (map : PairMap (TreeSet Str)) (key : Str × Str) (asset : Str) :
    PairMap (TreeSet Str) :=
  map.insert key ((map[key]?.getD ∅).erase asset)

/-- What a reissue does to the data of its asset. -/
def CNewAsset.applyReissue (asset : CNewAsset) (reissue : CReissueAsset) : CNewAsset :=
  let asset := { asset with
    nAmount := asset.nAmount + reissue.nAmount
    nReissuable := reissue.nReissuable
    units := if reissue.nUnits ≠ -1 then reissue.nUnits else asset.units }
  if reissue.strIPFSHash ≠ [] then
    { asset with nHasIPFS := 1, strIPFSHash := reissue.strIPFSHash }
  else asset

/-- What undoing a reissue does to the data; only the first undo item of the asset is used. -/
def CNewAsset.undoReissue (asset : CNewAsset) (reissue : CReissueAsset)
    (item : Option CBlockAssetUndo) : CNewAsset :=
  let asset := { asset with nAmount := asset.nAmount - reissue.nAmount, nReissuable := 1 }
  match item with
  | none => asset
  | some item =>
    let asset := { asset with
      strIPFSHash := if item.fChangedIPFS then item.strIPFS else asset.strIPFSHash
      units := if item.fChangedUnits then item.nUnits else asset.units }
    if asset.strIPFSHash = [] then { asset with nHasIPFS := 0 } else asset

namespace CAssetsCache

variable (env : Env) (g : AssetGlobals) (cache : CAssetsCache)

/-- `GetBestAssetAddressAmount`: the balance in the highest layer that has one. The source also
copies it into the map of the cache, where every caller then overwrites it. -/
def getBestAssetAddressAmount (pair : Str × Str) : Option CAmount :=
  cache.mapAssetsAddressAmount[pair]? <|> g.passets.mapAssetsAddressAmount[pair]? <|>
    g.db.assetAddressQuantity pair

/-- Writes a balance; without the asset index balances are not kept. -/
def setBalance (pair : Str × Str) (nAmount : CAmount) : CAssetsCache :=
  if env.fAssetIndex then
    { cache with mapAssetsAddressAmount := cache.mapAssetsAddressAmount.insert pair nAmount }
  else cache

def balanceOrZero (pair : Str × Str) : CAmount := (cache.getBestAssetAddressAmount g pair).getD 0

/-- The balance of an owner token is set, not increased. -/
def addToAssetBalance (strName address : Str) (nAmount : CAmount) : CAssetsCache :=
  cache.setBalance env (strName, address)
    (if isAssetNameAnOwner strName then ownerAssetAmount
      else cache.balanceOrZero g (strName, address) + nAmount)

def addTransferAsset (transfer : CAssetTransfer) (address : Str) (out : COutPoint) : CAssetsCache :=
  let cache := cache.addToAssetBalance env g transfer.strName address transfer.nAmount
  { cache with newTransferAssets := cache.newTransferAssets.add out ⟨transfer, address, out⟩ }

/-- `TrySpendCoin`; `none` when the script of an asset coin cannot be read. -/
def trySpendCoin (txOut : CTxOut) : Option CAssetsCache :=
  if (CScript.isAssetScript txOut.scriptPubKey).isNone then some cache
  else match getAssetData env txOut.scriptPubKey with
    | none => none
    | some data =>
      let pair := (data.assetName, data.address)
      if data.address = [] || data.assetName = [] then none
      else if env.fAssetIndex && data.nAmount > 0 then
        match cache.getBestAssetAddressAmount g pair with
        | none => some cache
        | some amount =>
          let left := amount - data.nAmount
          some { cache.setBalance env pair (if left < 0 then 0 else left) with
            vSpentAssets := cache.vSpentAssets ++ [⟨data.assetName, data.address, data.nAmount⟩] }
      else some cache

def addBackSpentAsset (assetName address : Str) (nAmount : CAmount) : CAssetsCache :=
  let pair := (assetName, address)
  { cache.setBalance env pair (cache.balanceOrZero g pair + nAmount) with
    vUndoAssetAmount := cache.vUndoAssetAmount ++ [⟨assetName, address, nAmount⟩] }

def undoAssetCoin (coin : Coin) : Option CAssetsCache :=
  match getAssetData env coin.out.scriptPubKey with
  | none => none
  | some data =>
    if data.assetName = [] || data.address = [] || data.nAmount = 0 then none
    else some (cache.addBackSpentAsset env g data.assetName data.address data.nAmount)

/-- `AddNewAsset`; an asset that exists already is only logged. -/
def addNewAsset (asset : CNewAsset) (address : Str) (nHeight : Nat) (blockHash : UInt256) :
    CAssetsCache :=
  if cache.checkIfAssetExists env g asset.strName then cache
  else
    { cache.setBalance env (asset.strName, address) asset.nAmount with
      newAssets := cache.newAssets.add asset.strName ⟨asset, address, nHeight, blockHash⟩ }

def removeNewAsset (asset : CNewAsset) (address : Str) : Option CAssetsCache :=
  if cache.checkIfAssetExists env g asset.strName then
    some { cache.setBalance env (asset.strName, address) 0 with
      newAssets := cache.newAssets.remove asset.strName ⟨asset, address, 0, 0⟩ }
  else none

/-- `AddReissueAsset`; data already in the map of the cache is what the lookup returns. -/
def addReissueAsset (reissue : CReissueAsset) (address : Str) (out : COutPoint) : CAssetsCache :=
  match cache.getAssetMetaDataIfExists g reissue.strName with
  | none => cache
  | some (asset, block) =>
    let pair := (reissue.strName, address)
    { cache.setBalance env pair (cache.balanceOrZero g pair + reissue.nAmount) with
      mapReissuedAssetData :=
        cache.mapReissuedAssetData.insert reissue.strName (asset.applyReissue reissue)
      newReissues := cache.newReissues.add out ⟨reissue, address, out, block⟩ }

def addRestrictedVerifier (assetName verifier : Str) : CAssetsCache :=
  { cache with newRestrictedVerifier :=
      cache.newRestrictedVerifier.add assetName ⟨verifier, false⟩ }

def removeRestrictedVerifier (assetName verifier : Str) (fUndoingReissue : Bool) : CAssetsCache :=
  { cache with newRestrictedVerifier :=
      cache.newRestrictedVerifier.remove assetName ⟨verifier, fUndoingReissue⟩ }

/-- Undoes the verifier change an undo item reports. -/
def undoVerifier (assetName : Str) : Option CBlockAssetUndo → CAssetsCache
  | some item =>
    if item.fChangedVerifierString then
      cache.removeRestrictedVerifier assetName item.verifierString true
    else cache
  | none => cache

/-- `RemoveReissueAsset`; the balance must be known, unless nothing was added, and cover the
amount. -/
def removeReissueAsset (reissue : CReissueAsset) (address : Str) (out : COutPoint)
    (vUndoIPFS : List (Str × CBlockAssetUndo)) : Option CAssetsCache :=
  match cache.getAssetMetaDataIfExists g reissue.strName with
  | none => none
  | some (asset, block) =>
    let item := vUndoIPFS.lookup reissue.strName
    let asset := asset.undoReissue reissue item
    let pair := (reissue.strName, address)
    let left := cache.balanceOrZero g pair - reissue.nAmount
    if env.fAssetIndex && (((cache.getBestAssetAddressAmount g pair).isNone &&
        reissue.nAmount ≠ 0) || left < 0) then none
    else some ({ cache.setBalance env pair left with
      mapReissuedAssetData := cache.mapReissuedAssetData.insert asset.strName asset
      newReissues := cache.newReissues.remove out ⟨reissue, address, out, block⟩ }.undoVerifier
        asset.strName item)

def addOwnerAsset (assetsName address : Str) : CAssetsCache :=
  { cache.setBalance env (assetsName, address) ownerAssetAmount with
    newOwnerAssets := cache.newOwnerAssets.add assetsName ⟨assetsName, address⟩ }

def removeOwnerAsset (assetsName address : Str) : CAssetsCache :=
  { cache.setBalance env (assetsName, address) 0 with
    newOwnerAssets := cache.newOwnerAssets.remove assetsName ⟨assetsName, address⟩ }

/-- `UndoTransfer`: the balance must be known and cover the amount. -/
def undoTransfer (transfer : CAssetTransfer) (address : Str) : Option CAssetsCache :=
  if env.fAssetIndex then
    match cache.getBestAssetAddressAmount g (transfer.strName, address) with
    | none => none
    | some amount =>
      if amount < transfer.nAmount then none
      else some (cache.setBalance env (transfer.strName, address) (amount - transfer.nAmount))
  else some cache

def removeTransfer (transfer : CAssetTransfer) (address : Str) (out : COutPoint) :
    Option CAssetsCache :=
  (cache.undoTransfer env g transfer address).map fun cache =>
    { cache with newTransferAssets := cache.newTransferAssets.remove out ⟨transfer, address, out⟩ }

/-- Notes a tag of a sub qualifier under its parent, as added or as removed. -/
def noteRootQualifier (added : Bool) (assetName address : Str) : CAssetsCache :=
  let key := (getParentName assetName, address)
  if !isAssetNameASubQualifier assetName then cache
  else if added then { cache with
    mapRootQualifierAddressesAdd :=
      insertRootQualifier cache.mapRootQualifierAddressesAdd key assetName
    mapRootQualifierAddressesRemove :=
      eraseRootQualifier cache.mapRootQualifierAddressesRemove key assetName }
  else { cache with
    mapRootQualifierAddressesRemove :=
      insertRootQualifier cache.mapRootQualifierAddressesRemove key assetName
    mapRootQualifierAddressesAdd :=
      eraseRootQualifier cache.mapRootQualifierAddressesAdd key assetName }

/-- Only the two maps of root qualifiers can change. -/
theorem exists_noteRootQualifier (added : Bool) (assetName address : Str) :
    ∃ rootsAdd rootsRemove, cache.noteRootQualifier added assetName address = { cache with
        mapRootQualifierAddressesAdd := rootsAdd
        mapRootQualifierAddressesRemove := rootsRemove } := by
  unfold noteRootQualifier
  split
  · exact ⟨_, _, rfl⟩
  · split <;> exact ⟨_, _, rfl⟩

def addQualifierAddress (assetName address : Str) (type : QualifierType) : CAssetsCache :=
  let cache := cache.noteRootQualifier (type = .addQualifier) assetName address
  { cache with newQualifierAddress := cache.newQualifierAddress.putAdd (assetName, address) type }

def removeQualifierAddress (assetName address : Str) (type : QualifierType) : CAssetsCache :=
  let cache := cache.noteRootQualifier (type ≠ .addQualifier) assetName address
  { cache with
    newQualifierAddress := cache.newQualifierAddress.putRemove (assetName, address) type }

def addRestrictedAddress (assetName address : Str) (type : RestrictedType) : CAssetsCache :=
  { cache with newRestrictedAddress := cache.newRestrictedAddress.putAdd (assetName, address) type }

def removeRestrictedAddress (assetName address : Str) (type : RestrictedType) : CAssetsCache :=
  { cache with
    newRestrictedAddress := cache.newRestrictedAddress.putRemove (assetName, address) type }

def addGlobalRestricted (assetName : Str) (type : RestrictedType) : CAssetsCache :=
  { cache with newRestrictedGlobal := cache.newRestrictedGlobal.putAdd assetName type }

def removeGlobalRestricted (assetName : Str) (type : RestrictedType) : CAssetsCache :=
  { cache with newRestrictedGlobal := cache.newRestrictedGlobal.putRemove assetName type }

/-- Inserts the assets noted under each key. -/
def flushRootQualifiers (map below : PairMap (TreeSet Str)) : PairMap (TreeSet Str) :=
  map.foldl (fun below key assets =>
    assets.foldl (fun below asset => insertRootQualifier below key asset) below) below

/-- `Flush`: the cache of a block replayed on `passets`. Removed root qualifiers are flushed into
the map of the added ones. -/
def flush (passets : CAssetsCache) : CAssetsCache where
  mapAssetsAddressAmount := cache.mapAssetsAddressAmount.foldl
    (fun map pair nAmount => map.insert pair nAmount) passets.mapAssetsAddressAmount
  mapReissuedAssetData := cache.mapReissuedAssetData.foldl
    (fun map name asset => map.insert name asset) passets.mapReissuedAssetData
  vUndoAssetAmount := passets.vUndoAssetAmount ++ cache.vUndoAssetAmount
  vSpentAssets := passets.vSpentAssets ++ cache.vSpentAssets
  newAssets := cache.newAssets.flush passets.newAssets
  newReissues := cache.newReissues.flush passets.newReissues
  newOwnerAssets := cache.newOwnerAssets.flush passets.newOwnerAssets
  newTransferAssets := cache.newTransferAssets.flush passets.newTransferAssets
  newQualifierAddress := cache.newQualifierAddress.putFlush passets.newQualifierAddress
  newRestrictedAddress := cache.newRestrictedAddress.putFlush passets.newRestrictedAddress
  newRestrictedGlobal := cache.newRestrictedGlobal.putFlush passets.newRestrictedGlobal
  newRestrictedVerifier := cache.newRestrictedVerifier.putFlush passets.newRestrictedVerifier
  mapRootQualifierAddressesAdd := flushRootQualifiers cache.mapRootQualifierAddressesRemove
    (flushRootQualifiers cache.mapRootQualifierAddressesAdd passets.mapRootQualifierAddressesAdd)
  mapRootQualifierAddressesRemove := passets.mapRootQualifierAddressesRemove

end CAssetsCache

end Cmusic
