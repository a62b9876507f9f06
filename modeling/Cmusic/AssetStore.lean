import Cmusic.AssetOps
import Cmusic.Lib.Table

/-! The global asset cache over its databases, with the caches of their rows. -/
namespace Cmusic

open Std

variable (env : Env)

/-- The key of a cached tag or restriction, the hash of its name and address. -/
def rowHash (key : Str × Str) : Str := env.hash256 (key.1 ++ key.2)

/-- `passets` and the databases below it. Each table comes with the cache of its rows, which the
source keeps as `passetsCache`, `passetsVerifierCache` and so on. -/
structure AssetStore where
  passets : CAssetsCache := {}
  assetData : Table Str Str CDatabasedAssetData compare
  verifier : Table Str Str Str compare
  addressQualifier : Table (Str × Str) Str Unit pairCmp
  restrictedAddress : Table (Str × Str) Str Unit pairCmp
  globalRestriction : Table Str Str Unit compare
  assetAddressQuantity : PairMap CAmount := ∅

/-- `CheckForAddressRootQualifier`: the scan of the tags of an address for one that is the
qualifier or starts with it and a slash. -/
def checkForAddressRootQualifier (db : PairMap Unit) (key : Str × Str) : Bool :=
  db.keys.any fun row => row.2 = key.2 && (row.1 = key.1 || (key.1 ++ str "/").isPrefixOf row.1)

/-- What the lookups of a cache find below it. -/
def AssetStore.globals (s : AssetStore) : AssetGlobals where
  passets := s.passets
  db := {
    assetData := fun name => (s.assetData.lookup id name).1
    assetAddressQuantity := fun pair => s.assetAddressQuantity[pair]?
    verifier := fun name => (s.verifier.get id name).1
    addressQualifier := fun key => (s.addressQualifier.lookup (rowHash env) key).1.isSome
    addressRootQualifier := checkForAddressRootQualifier s.addressQualifier.db
    restrictedAddress := fun key => (s.restrictedAddress.lookup (rowHash env) key).1.isSome
    globalRestriction := fun name => (s.globalRestriction.lookup id name).1.isSome }

section Lookups

variable (s : AssetStore) (cache : CAssetsCache)

/-- `GetAssetVerifierStringIfExists` with the row it loads. -/
def AssetStore.getAssetVerifierStringIfExists (name : Str) (fSkipTempCache : Bool) :
    Option Str × AssetStore :=
  let temp := (cache.tempCache fSkipTempCache).newRestrictedVerifier
  let below := s.passets.newRestrictedVerifier
  match temp.toRemove[name]? <|> below.toRemove[name]? with
  | some entry => (CAssetsCache.undoneVerifier entry, s)
  | none =>
    match temp.toAdd[name]? <|> below.toAdd[name]? with
    | some entry => (some entry.verifier, s)
    | none =>
      let (row, table) := s.verifier.get id name
      (row, { s with verifier := table })

/-- `CheckForAddressQualifier` with the row it loads. -/
def AssetStore.checkForAddressQualifier (qualifierName address : Str) (fSkipTempCache : Bool) :
    Bool × AssetStore :=
  let key := (qualifierName, address)
  let temp := cache.tempCache fSkipTempCache
  let below := s.passets
  match temp.newQualifierAddress.toRemove[key]? <|> below.newQualifierAddress.toRemove[key]? with
  | some type => (type = .removeQualifier, s)
  | none =>
    match temp.newQualifierAddress.toAdd[key]? <|> below.newQualifierAddress.toAdd[key]? with
    | some type => (type = .addQualifier, s)
    | none =>
      if CAssetsCache.hasRootQualifier temp.mapRootQualifierAddressesAdd key ||
          CAssetsCache.hasRootQualifier below.mapRootQualifierAddressesAdd key then (true, s)
      else
        let (row, table) := s.addressQualifier.lookup (rowHash env) key
        (row.isSome || checkForAddressRootQualifier s.addressQualifier.db key,
          { s with addressQualifier := table })

/-- `CheckForAddressRestriction` with the row it loads. -/
def AssetStore.checkForAddressRestriction (restrictedName address : Str) (fSkipTempCache : Bool) :
    Bool × AssetStore :=
  let key := (restrictedName, address)
  let temp := (cache.tempCache fSkipTempCache).newRestrictedAddress
  let below := s.passets.newRestrictedAddress
  match temp.toRemove[key]? <|> below.toRemove[key]? with
  | some type => (type = .unfreezeAddress, s)
  | none =>
    match temp.toAdd[key]? <|> below.toAdd[key]? with
    | some type => (type = .freezeAddress, s)
    | none =>
      let (row, table) := s.restrictedAddress.lookup (rowHash env) key
      (row.isSome, { s with restrictedAddress := table })

/-- `CheckForGlobalRestriction` with the row it loads. -/
def AssetStore.checkForGlobalRestriction (restrictedName : Str) (fSkipTempCache : Bool) :
    Bool × AssetStore :=
  let temp := (cache.tempCache fSkipTempCache).newRestrictedGlobal
  let below := s.passets.newRestrictedGlobal
  match temp.toRemove[restrictedName]? <|> below.toRemove[restrictedName]? with
  | some type => (type = .globalUnfreeze, s)
  | none =>
    match temp.toAdd[restrictedName]? <|> below.toAdd[restrictedName]? with
    | some type => (type = .globalFreeze, s)
    | none =>
      let (row, table) := s.globalRestriction.lookup id restrictedName
      (row.isSome, { s with globalRestriction := table })

/-- The lookups answer what the ones of the cache do over `globals`. -/
theorem getAssetVerifierStringIfExists_globals (name : Str) (fSkipTempCache : Bool) :
    (s.getAssetVerifierStringIfExists cache name fSkipTempCache).1 =
      cache.getAssetVerifierStringIfExists (s.globals env) name fSkipTempCache := by
  unfold AssetStore.getAssetVerifierStringIfExists CAssetsCache.getAssetVerifierStringIfExists
  dsimp only [AssetStore.globals]
  split
  · simp [*]
  · split <;> simp [*]

theorem checkForAddressQualifier_globals (qualifierName address : Str) (fSkipTempCache : Bool) :
    (s.checkForAddressQualifier env cache qualifierName address fSkipTempCache).1 =
      cache.checkForAddressQualifier (s.globals env) qualifierName address fSkipTempCache := by
  unfold AssetStore.checkForAddressQualifier CAssetsCache.checkForAddressQualifier
  dsimp only [AssetStore.globals]
  split
  · simp [*]
  · split
    · simp [*]
    · split <;> simp_all

theorem checkForAddressRestriction_globals (restrictedName address : Str) (fSkipTempCache : Bool) :
    (s.checkForAddressRestriction env cache restrictedName address fSkipTempCache).1 =
      cache.checkForAddressRestriction (s.globals env) restrictedName address fSkipTempCache := by
  unfold AssetStore.checkForAddressRestriction CAssetsCache.checkForAddressRestriction
  dsimp only [AssetStore.globals]
  split
  · simp [*]
  · split <;> simp [*]

theorem checkForGlobalRestriction_globals (restrictedName : Str) (fSkipTempCache : Bool) :
    (s.checkForGlobalRestriction cache restrictedName fSkipTempCache).1 =
      cache.checkForGlobalRestriction (s.globals env) restrictedName fSkipTempCache := by
  unfold AssetStore.checkForGlobalRestriction CAssetsCache.checkForGlobalRestriction
  dsimp only [AssetStore.globals]
  split
  · simp [*]
  · split <;> simp [*]

/-- A lookup loads a row or changes nothing. -/
theorem store_getAssetVerifierStringIfExists (name : Str) (fSkipTempCache : Bool) :
    (s.getAssetVerifierStringIfExists cache name fSkipTempCache).2 = s ∨
      (s.getAssetVerifierStringIfExists cache name fSkipTempCache).2 =
        { s with verifier := (s.verifier.get id name).2 } := by
  unfold AssetStore.getAssetVerifierStringIfExists
  dsimp only
  split
  · exact Or.inl rfl
  · split
    · exact Or.inl rfl
    · exact Or.inr rfl

theorem store_checkForAddressQualifier (qualifierName address : Str) (fSkipTempCache : Bool) :
    (s.checkForAddressQualifier env cache qualifierName address fSkipTempCache).2 = s ∨
      (s.checkForAddressQualifier env cache qualifierName address fSkipTempCache).2 =
        { s with addressQualifier :=
            (s.addressQualifier.lookup (rowHash env) (qualifierName, address)).2 } := by
  unfold AssetStore.checkForAddressQualifier
  dsimp only
  split
  · exact Or.inl rfl
  · split
    · exact Or.inl rfl
    · split
      · exact Or.inl rfl
      · exact Or.inr rfl

theorem store_checkForAddressRestriction (restrictedName address : Str) (fSkipTempCache : Bool) :
    (s.checkForAddressRestriction env cache restrictedName address fSkipTempCache).2 = s ∨
      (s.checkForAddressRestriction env cache restrictedName address fSkipTempCache).2 =
        { s with restrictedAddress :=
            (s.restrictedAddress.lookup (rowHash env) (restrictedName, address)).2 } := by
  unfold AssetStore.checkForAddressRestriction
  dsimp only
  split
  · exact Or.inl rfl
  · split
    · exact Or.inl rfl
    · exact Or.inr rfl

theorem store_checkForGlobalRestriction (restrictedName : Str) (fSkipTempCache : Bool) :
    (s.checkForGlobalRestriction cache restrictedName fSkipTempCache).2 = s ∨
      (s.checkForGlobalRestriction cache restrictedName fSkipTempCache).2 =
        { s with globalRestriction := (s.globalRestriction.lookup id restrictedName).2 } := by
  unfold AssetStore.checkForGlobalRestriction
  dsimp only
  split
  · exact Or.inl rfl
  · split
    · exact Or.inl rfl
    · exact Or.inr rfl

end Lookups

section Dump

/-- Writes a balance of the cache, or erases it where the cache has none left. -/
def writeOrEraseBalance (balances : PairMap CAmount) (pair : Str × Str) (map : PairMap CAmount) :
    PairMap CAmount :=
  match balances[pair]? with
  | none => map
  | some nAmount => if nAmount = 0 then map.erase pair else map.insert pair nAmount

def writeBalance (balances : PairMap CAmount) (pair : Str × Str) (map : PairMap CAmount) :
    PairMap CAmount :=
  match balances[pair]? with
  | none => map
  | some nAmount => map.insert pair nAmount

def writePositiveBalance (balances : PairMap CAmount) (pair : Str × Str) (map : PairMap CAmount) :
    PairMap CAmount :=
  match balances[pair]? with
  | none => map
  | some nAmount => if nAmount > 0 then map.insert pair nAmount else map

/-- The balances are only kept with the asset index. -/
def AssetStore.mapQuantity (s : AssetStore) (f : PairMap CAmount → PairMap CAmount) : AssetStore :=
  if env.fAssetIndex then { s with assetAddressQuantity := f s.assetAddressQuantity } else s

/-- A removed asset; the cached row of its verifier stays. -/
def dumpRemovedAsset (s : AssetStore) (name : Str) (entry : CAssetCacheNewAsset) : AssetStore :=
  AssetStore.mapQuantity env
    { s with
      assetData := s.assetData.erase id name
      verifier := { s.verifier with db := s.verifier.db.erase name } }
    fun map => map.erase (name, entry.address)

def dumpAddedAsset (s : AssetStore) (name : Str) (entry : CAssetCacheNewAsset) : AssetStore :=
  AssetStore.mapQuantity env
    { s with assetData :=
        s.assetData.write id name ⟨entry.asset, entry.blockHeight, entry.blockHash⟩ }
    fun map => map.insert (name, entry.address) entry.asset.nAmount

def dumpNewAssets (d : DirtyPair Str CAssetCacheNewAsset compare) (s : AssetStore) : AssetStore :=
  d.toAdd.foldl (dumpAddedAsset env) (d.toRemove.foldl (dumpRemovedAsset env) s)

/-- The owner tokens and the transfers; only balances change. -/
def dumpBalances (p : CAssetsCache) (s : AssetStore) : AssetStore :=
  s.mapQuantity env fun map =>
    let map := p.newOwnerAssets.toRemove.foldl
      (fun map assetName owner => map.erase (assetName, owner.address)) map
    let map := p.newOwnerAssets.toAdd.foldl (fun map assetName owner =>
      writePositiveBalance p.mapAssetsAddressAmount (assetName, owner.address) map) map
    let map := p.newTransferAssets.toRemove.foldl (fun map _ undo =>
      writeOrEraseBalance p.mapAssetsAddressAmount (undo.transfer.strName, undo.address) map) map
    p.newTransferAssets.toAdd.foldl (fun map _ new =>
      writeBalance p.mapAssetsAddressAmount (new.transfer.strName, new.address) map) map

/-- Reissued data with the height and block hash kept with the reissue. A height that the source
leaves uninitialised reads as `unset`. -/
def reissuedData (unset : Int) (asset : CNewAsset) (entry : CAssetCacheReissueAsset) :
    CDatabasedAssetData :=
  let (nHeight, blockHash) := entry.block.getD (unset, 0)
  ⟨asset, nHeight, blockHash⟩

def dumpAddedReissue (unset : Int) (p : CAssetsCache) (s : AssetStore) (_ : COutPoint)
    (entry : CAssetCacheReissueAsset) : AssetStore :=
  let name := entry.reissue.strName
  match p.mapReissuedAssetData[name]? with
  | none => s
  | some asset =>
    AssetStore.mapQuantity env
      { s with assetData := s.assetData.overwrite id name (reissuedData unset asset entry) }
      (writePositiveBalance p.mapAssetsAddressAmount (name, entry.address))

/-- An undone reissue; one of an asset that is removed as well is passed over. -/
def dumpRemovedReissue (unset : Int) (p : CAssetsCache) (s : AssetStore) (_ : COutPoint)
    (entry : CAssetCacheReissueAsset) : AssetStore :=
  let name := entry.reissue.strName
  if p.newAssets.toRemove.contains name then s
  else match p.mapReissuedAssetData[name]? with
    | none => s
    | some asset =>
      AssetStore.mapQuantity env
        { s with assetData := s.assetData.overwrite id name (reissuedData unset asset entry) }
        (writeOrEraseBalance p.mapAssetsAddressAmount (name, entry.address))

def dumpAddedVerifier (t : Table Str Str Str compare) (assetName : Str)
    (entry : CAssetCacheRestrictedVerifiers) : Table Str Str Str compare :=
  t.overwrite id assetName entry.verifier

def dumpRemovedVerifier (t : Table Str Str Str compare) (assetName : Str)
    (entry : CAssetCacheRestrictedVerifiers) : Table Str Str Str compare :=
  if entry.fUndoingReissue then t.overwrite id assetName entry.verifier else t.erase id assetName

def dumpAddedQualifier (t : Table (Str × Str) Str Unit pairCmp) (key : Str × Str) :
    QualifierType → Table (Str × Str) Str Unit pairCmp
  | .removeQualifier => t.erase (rowHash env) key
  | .addQualifier => t.write (rowHash env) key ()

def dumpRemovedQualifier (t : Table (Str × Str) Str Unit pairCmp) (key : Str × Str) :
    QualifierType → Table (Str × Str) Str Unit pairCmp
  | .removeQualifier => t.write (rowHash env) key ()
  | .addQualifier => t.erase (rowHash env) key

/-- A command for an address; the types of the global commands are passed over. -/
def dumpAddedRestriction (t : Table (Str × Str) Str Unit pairCmp) (key : Str × Str) :
    RestrictedType → Table (Str × Str) Str Unit pairCmp
  | .unfreezeAddress => t.erase (rowHash env) key
  | .freezeAddress => t.write (rowHash env) key ()
  | _ => t

def dumpRemovedRestriction (t : Table (Str × Str) Str Unit pairCmp) (key : Str × Str) :
    RestrictedType → Table (Str × Str) Str Unit pairCmp
  | .unfreezeAddress => t.write (rowHash env) key ()
  | .freezeAddress => t.erase (rowHash env) key
  | _ => t

def dumpAddedGlobal (t : Table Str Str Unit compare) (assetName : Str) :
    RestrictedType → Table Str Str Unit compare
  | .globalUnfreeze => t.erase id assetName
  | .globalFreeze => t.write id assetName ()
  | _ => t

def dumpRemovedGlobal (t : Table Str Str Unit compare) (assetName : Str) :
    RestrictedType → Table Str Str Unit compare
  | .globalUnfreeze => t.write id assetName ()
  | .globalFreeze => t.erase id assetName
  | _ => t

/-- The restoring and the spending of coins, again only balances. -/
def dumpSpends (p : CAssetsCache) (s : AssetStore) : AssetStore :=
  s.mapQuantity env fun map =>
    let map := p.vUndoAssetAmount.foldl (fun map undo =>
      writeBalance p.mapAssetsAddressAmount (undo.assetName, undo.address) map) map
    p.vSpentAssets.foldl (fun map spent =>
      writeOrEraseBalance p.mapAssetsAddressAmount (spent.assetName, spent.address) map) map

/-- The issues, transfers and reissues. -/
def dumpAssets (unset : Int) (p : CAssetsCache) (s : AssetStore) : AssetStore :=
  let s := dumpNewAssets env p.newAssets s
  let s := dumpBalances env p s
  let s := p.newReissues.toAdd.foldl (dumpAddedReissue env unset p) s
  p.newReissues.toRemove.foldl (dumpRemovedReissue env unset p) s

/-- `DumpCacheToDatabase` where every write succeeds: `passets` goes into the databases and is
cleared. -/
def AssetStore.dumpCacheToDatabase (unset : Int) (s : AssetStore) : AssetStore :=
  let p := s.passets
  let s := dumpAssets env unset p s
  let s := { s with
    verifier := p.newRestrictedVerifier.replay dumpAddedVerifier dumpRemovedVerifier s.verifier
    addressQualifier := p.newQualifierAddress.replay (dumpAddedQualifier env)
      (dumpRemovedQualifier env) s.addressQualifier
    restrictedAddress := p.newRestrictedAddress.replay (dumpAddedRestriction env)
      (dumpRemovedRestriction env) s.restrictedAddress
    globalRestriction := p.newRestrictedGlobal.replay dumpAddedGlobal dumpRemovedGlobal
      s.globalRestriction }
  { dumpSpends env p s with passets := {} }

variable {env} {unset : Int} {p : CAssetsCache} {s s' : AssetStore}

/-- A part of the store that has neither the balances nor the rows of asset data in it. -/
structure Aside {β : Type} (part : AssetStore → β) : Prop where
  quantity : ∀ s map, part { s with assetAddressQuantity := map } = part s
  data : ∀ s table, part { s with assetData := table } = part s

section Aside

variable {β : Type} {part : AssetStore → β}

theorem Aside.mapQuantity (h : Aside part) (f : PairMap CAmount → PairMap CAmount) :
    part (s.mapQuantity env f) = part s := by
  unfold AssetStore.mapQuantity
  split
  · exact h.quantity s _
  · rfl

theorem Aside.dumpAddedReissue (h : Aside part) (out : COutPoint) (entry : CAssetCacheReissueAsset) :
    part (dumpAddedReissue env unset p s out entry) = part s := by
  unfold Cmusic.dumpAddedReissue
  dsimp only
  split
  · rfl
  · rw [h.mapQuantity, h.data]

theorem Aside.dumpRemovedReissue (h : Aside part) (out : COutPoint)
    (entry : CAssetCacheReissueAsset) :
    part (dumpRemovedReissue env unset p s out entry) = part s := by
  unfold Cmusic.dumpRemovedReissue
  dsimp only
  split
  · rfl
  · split
    · rfl
    · rw [h.mapQuantity, h.data]

theorem foldl_part {κ ν : Type} {cmp : κ → κ → Ordering} [TransCmp cmp] [LawfulEqCmp cmp]
    (t : TreeMap κ ν cmp) {step : AssetStore → κ → ν → AssetStore}
    (hstep : ∀ s k v, t[k]? = some v → part (step s k v) = part s) (s : AssetStore) :
    part (t.foldl step s) = part s :=
  DirtyPair.foldl_invariant (fun s' => part s' = part s) t rfl
    fun s' k v hv h => (hstep s' k v hv).trans h

/-- Of such a part the dump of the assets only changes what a removed asset takes with it. -/
theorem Aside.dumpAssets (h : Aside part) (hr : ∀ s name entry,
      p.newAssets.toRemove[name]? = some entry → part (dumpRemovedAsset env s name entry) = part s) :
    part (dumpAssets env unset p s) = part s := by
  have ha : ∀ (s : AssetStore) name entry, part (dumpAddedAsset env s name entry) = part s := by
    intro s name entry
    rw [dumpAddedAsset, h.mapQuantity, h.data]
  unfold Cmusic.dumpAssets
  rw [foldl_part _ fun _ out entry _ => h.dumpRemovedReissue out entry,
    foldl_part _ fun _ out entry _ => h.dumpAddedReissue out entry, dumpBalances, h.mapQuantity,
    dumpNewAssets, foldl_part _ fun s name entry _ => ha s name entry, foldl_part _ hr]

end Aside

theorem aside_verifier : Aside AssetStore.verifier := ⟨fun _ _ => rfl, fun _ _ => rfl⟩

/-- Only a removed asset takes its verifier with it. -/
theorem verifier_dumpCacheToDatabase (hr : s.passets.newAssets.toRemove = ∅) :
    (s.dumpCacheToDatabase env unset).verifier =
      s.passets.newRestrictedVerifier.replay dumpAddedVerifier dumpRemovedVerifier s.verifier := by
  unfold AssetStore.dumpCacheToDatabase
  dsimp only [dumpSpends]
  rw [aside_verifier.mapQuantity, aside_verifier.dumpAssets fun s name entry he => ?_]
  simp [hr] at he

/-- The tables of tags, freezes and global freezes. -/
def AssetStore.restricted (s : AssetStore) :=
  (s.addressQualifier, s.restrictedAddress, s.globalRestriction)

theorem aside_restricted : Aside AssetStore.restricted := ⟨fun _ _ => rfl, fun _ _ => rfl⟩

/-- What a dump does to the tables of tags, freezes and global freezes. -/
theorem restricted_dumpCacheToDatabase : (s.dumpCacheToDatabase env unset).passets = {} ∧
      (s.dumpCacheToDatabase env unset).addressQualifier = s.passets.newQualifierAddress.replay
        (dumpAddedQualifier env) (dumpRemovedQualifier env) s.addressQualifier ∧
      (s.dumpCacheToDatabase env unset).restrictedAddress = s.passets.newRestrictedAddress.replay
        (dumpAddedRestriction env) (dumpRemovedRestriction env) s.restrictedAddress ∧
      (s.dumpCacheToDatabase env unset).globalRestriction = s.passets.newRestrictedGlobal.replay
        dumpAddedGlobal dumpRemovedGlobal s.globalRestriction := by
  have ha : (dumpAssets env unset s.passets s).restricted = s.restricted :=
    aside_restricted.dumpAssets fun s name entry _ => by
      rw [dumpRemovedAsset, aside_restricted.mapQuantity]
      rfl
  simp only [AssetStore.restricted, Prod.mk.injEq] at ha
  unfold AssetStore.dumpCacheToDatabase
  dsimp only [dumpSpends]
  have hspends := fun s f => @Aside.mapQuantity env s _ _ aside_restricted f
  simp only [AssetStore.restricted, Prod.mk.injEq] at hspends
  rw [(hspends _ _).1, (hspends _ _).2.1, (hspends _ _).2.2, ha.1, ha.2.1, ha.2.2]
  exact ⟨rfl, rfl, rfl, rfl⟩

end Dump

end Cmusic
