import Cmusic.TxCheck
import Cmusic.Lib.DirtyPair

/-! The asset cache of a block, the global cache below it, and the lookups through both. -/
namespace Cmusic

open Std

structure CAssetCacheNewAsset where
  asset : CNewAsset
  address : Str
  blockHeight : Int
  blockHash : UInt256

/-- `block` is `none` where the source leaves the height and hash unset. -/
structure CAssetCacheReissueAsset where
  reissue : CReissueAsset
  address : Str
  out : COutPoint
  block : Option (Int × UInt256)

structure CAssetCacheNewTransfer where
  transfer : CAssetTransfer
  address : Str
  out : COutPoint

structure CAssetCacheNewOwner where
  assetName : Str
  address : Str

/-- An amount of an asset at an address, spent by or given back to the block. -/
structure CAssetCacheAmount where
  assetName : Str
  address : Str
  nAmount : CAmount

structure CAssetCacheRestrictedVerifiers where
  verifier : Str
  fUndoingReissue : Bool

abbrev StrMap (β : Type) := TreeMap Str β

abbrev PairMap (β : Type) := TreeMap (Str × Str) β pairCmp

/-- `CAssetsCache`; each pair of sets of the source is one `DirtyPair`. -/
structure CAssetsCache where
  mapAssetsAddressAmount : PairMap CAmount := ∅
  mapReissuedAssetData : StrMap CNewAsset := ∅
  vUndoAssetAmount : List CAssetCacheAmount := []
  vSpentAssets : List CAssetCacheAmount := []
  newAssets : DirtyPair Str CAssetCacheNewAsset compare := {}
  newReissues : DirtyPair COutPoint CAssetCacheReissueAsset compare := {}
  newOwnerAssets : DirtyPair Str CAssetCacheNewOwner compare := {}
  newTransferAssets : DirtyPair COutPoint CAssetCacheNewTransfer compare := {}
  newQualifierAddress : DirtyPair (Str × Str) QualifierType pairCmp := {}
  newRestrictedAddress : DirtyPair (Str × Str) RestrictedType pairCmp := {}
  newRestrictedGlobal : DirtyPair Str RestrictedType compare := {}
  newRestrictedVerifier : DirtyPair Str CAssetCacheRestrictedVerifiers compare := {}
  mapRootQualifierAddressesAdd : PairMap (TreeSet Str) := ∅
  mapRootQualifierAddressesRemove : PairMap (TreeSet Str) := ∅

structure CDatabasedAssetData where
  asset : CNewAsset
  nHeight : Int
  blockHash : UInt256

/-- What the databases answer, each together with the in-memory cache of its rows. -/
structure AssetDB where
  assetData : Str → Option CDatabasedAssetData
  assetAddressQuantity : Str × Str → Option CAmount
  verifier : Str → Option Str
  addressQualifier : Str × Str → Bool
  addressRootQualifier : Str × Str → Bool
  restrictedAddress : Str × Str → Bool
  globalRestriction : Str → Bool

/-- The global cache `passets` over the databases. -/
structure AssetGlobals where
  passets : CAssetsCache
  db : AssetDB

/-- What an asset output says. -/
structure CAssetOutputEntry where
  type : TxnOutType
  assetName : Str
  address : Str
  nAmount : CAmount
  message : Str := []
  expireTime : Int64 := 0

variable (env : Env)

/-- `GetAssetData`; the source decodes the address again into a destination. -/
def getAssetData (script : CScript) : Option CAssetOutputEntry :=
  match CScript.isAssetScript script with
  | some ⟨.newAsset, false, _⟩ => (assetFromScript env script).map fun (asset, address) =>
    { type := .newAsset, assetName := asset.strName, address, nAmount := asset.nAmount }
  | some ⟨.transferAsset, _, _⟩ => (transferAssetFromScript env script).map fun (t, address) =>
    { type := .transferAsset, assetName := t.strName, address, nAmount := t.nAmount
      message := t.message, expireTime := t.nExpireTime }
  | some ⟨.newAsset, true, _⟩ => (ownerAssetFromScript env script).map fun (assetName, address) =>
    { type := .newAsset, assetName, address, nAmount := ownerAssetAmount }
  | some ⟨.reissueAsset, _, _⟩ => (reissueAssetFromScript env script).map fun (r, address) =>
    { type := .reissueAsset, assetName := r.strName, address, nAmount := r.nAmount }
  | _ => none

namespace CAssetsCache

variable (g : AssetGlobals) (cache : CAssetsCache)

/-- `CheckIfAssetExists`; every caller of interest leaves the duplicate check on. -/
def checkIfAssetExists (name : Str) : Bool :=
  if env.fReindex then true
  else if cache.newAssets.toRemove.contains name then false
  else if g.passets.newAssets.toRemove.contains name then false
  else cache.newAssets.toAdd.contains name || g.passets.newAssets.toAdd.contains name ||
    (g.db.assetData name).isSome

/-- `GetAssetMetaDataIfExists`; height and block hash are left unset for reissued data. -/
def getAssetMetaDataIfExists (name : Str) : Option (CNewAsset × Option (Int × UInt256)) :=
  match cache.mapReissuedAssetData[name]? <|> g.passets.mapReissuedAssetData[name]? with
  | some asset => some (asset, none)
  | none =>
    if cache.newAssets.toRemove.contains name || g.passets.newAssets.toRemove.contains name then
      none
    else match cache.newAssets.toAdd[name]? <|> g.passets.newAssets.toAdd[name]? with
      | some entry => some (entry.asset, some (entry.blockHeight, entry.blockHash))
      | none => (g.db.assetData name).map fun data =>
          (data.asset, some (data.nHeight, data.blockHash))

/-- The verifier a removal entry still stands for. -/
def undoneVerifier (entry : CAssetCacheRestrictedVerifiers) : Option Str :=
  if entry.fUndoingReissue then some entry.verifier else none

/-- The layer of the block, unless the lookup skips it. -/
def tempCache (fSkipTempCache : Bool) : CAssetsCache := if fSkipTempCache then {} else cache

def getAssetVerifierStringIfExists (name : Str) (fSkipTempCache : Bool) : Option Str :=
  let temp := (cache.tempCache fSkipTempCache).newRestrictedVerifier
  let below := g.passets.newRestrictedVerifier
  match temp.toRemove[name]? <|> below.toRemove[name]? with
  | some entry => undoneVerifier entry
  | none =>
    match temp.toAdd[name]? <|> below.toAdd[name]? with
    | some entry => some entry.verifier
    | none => g.db.verifier name

def hasRootQualifier (map : PairMap (TreeSet Str)) (key : Str × Str) : Bool :=
  match map[key]? with
  | some assets => !assets.isEmpty
  | none => false

def checkForAddressQualifier (qualifierName address : Str) (fSkipTempCache : Bool) : Bool :=
  let key := (qualifierName, address)
  let temp := cache.tempCache fSkipTempCache
  let below := g.passets
  match temp.newQualifierAddress.toRemove[key]? <|> below.newQualifierAddress.toRemove[key]? with
  | some type => type = .removeQualifier
  | none =>
    match temp.newQualifierAddress.toAdd[key]? <|> below.newQualifierAddress.toAdd[key]? with
    | some type => type = .addQualifier
    | none =>
      hasRootQualifier temp.mapRootQualifierAddressesAdd key ||
        hasRootQualifier below.mapRootQualifierAddressesAdd key ||
        g.db.addressQualifier key || g.db.addressRootQualifier key

def checkForAddressRestriction (restrictedName address : Str) (fSkipTempCache : Bool) : Bool :=
  let key := (restrictedName, address)
  let temp := (cache.tempCache fSkipTempCache).newRestrictedAddress
  let below := g.passets.newRestrictedAddress
  match temp.toRemove[key]? <|> below.toRemove[key]? with
  | some type => type = .unfreezeAddress
  | none =>
    match temp.toAdd[key]? <|> below.toAdd[key]? with
    | some type => type = .freezeAddress
    | none => g.db.restrictedAddress key

def checkForGlobalRestriction (restrictedName : Str) (fSkipTempCache : Bool) : Bool :=
  let temp := (cache.tempCache fSkipTempCache).newRestrictedGlobal
  let below := g.passets.newRestrictedGlobal
  match temp.toRemove[restrictedName]? <|> below.toRemove[restrictedName]? with
  | some type => type = .globalUnfreeze
  | none =>
    match temp.toAdd[restrictedName]? <|> below.toAdd[restrictedName]? with
    | some type => type = .globalFreeze
    | none => g.db.globalRestriction restrictedName

end CAssetsCache

namespace AssetGlobals

variable (g : AssetGlobals) (name address : Str)

/-- Whether the address is frozen at the tip. -/
def frozen : Bool := ({} : CAssetsCache).checkForAddressRestriction g name address true

def globallyFrozen : Bool := ({} : CAssetsCache).checkForGlobalRestriction g name true

/-- Whether the lookup finds the tag of the address at the tip. -/
def hasQualifier : Bool := ({} : CAssetsCache).checkForAddressQualifier g name address true

def verifierString : Option Str := ({} : CAssetsCache).getAssetVerifierStringIfExists g name true

end AssetGlobals

end Cmusic
