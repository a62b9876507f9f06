import Cmusic.CacheFrames

/-! What the cache of a block says about one asset, and what each transaction does to it. -/
namespace Cmusic

open Fallible Std CAssetsCache DirtyPair

/-- The entries of the cache of a block under one name. -/
@[ext]
structure AssetSlot where
  asset : DirtyPair.Marks CAssetCacheNewAsset := {}
  reissued : Option CNewAsset := none
  verifier : DirtyPair.Marks CAssetCacheRestrictedVerifiers := {}

def CAssetsCache.slot (cache : CAssetsCache) (name : Str) : AssetSlot where
  asset := cache.newAssets.marks name
  reissued := cache.mapReissuedAssetData[name]?
  verifier := cache.newRestrictedVerifier.marks name

theorem slot_empty (name : Str) : CAssetsCache.slot {} name = {} := by
  simp [CAssetsCache.slot, marks_empty]

variable (env : Env) (g : AssetGlobals) (name : Str)

/-- What is known about an asset: whether it exists, its data, and the verifier of its transfers. -/
structure AssetRecord where
  known : Bool
  data : Option CNewAsset
  verifier : Option Str

namespace AssetSlot

variable (slot : AssetSlot)

/-- `CheckIfAssetExists`, from the entries under the name. -/
def known : Bool :=
  if env.fReindex then true
  else if slot.asset.removed.isSome then false
  else if g.passets.newAssets.toRemove.contains name then false
  else slot.asset.added.isSome || g.passets.newAssets.toAdd.contains name ||
    (g.db.assetData name).isSome

/-- The data of a newly issued asset or of the database. -/
def issuedData : Option CNewAsset :=
  if slot.asset.removed.isSome || g.passets.newAssets.toRemove.contains name then none
  else (slot.asset.added <|> g.passets.newAssets.toAdd[name]?).map CAssetCacheNewAsset.asset <|>
    (g.db.assetData name).map CDatabasedAssetData.asset

/-- `GetAssetMetaDataIfExists`, from the entries under the name. -/
def data : Option CNewAsset :=
  slot.reissued <|> g.passets.mapReissuedAssetData[name]? <|> slot.issuedData g name

/-- `GetAssetVerifierStringIfExists`, from the entries under the name. -/
def verifierString : Option Str :=
  match slot.verifier.removed <|> g.passets.newRestrictedVerifier.toRemove[name]? with
  | some entry => CAssetsCache.undoneVerifier entry
  | none =>
    match slot.verifier.added <|> g.passets.newRestrictedVerifier.toAdd[name]? with
    | some entry => some entry.verifier
    | none => g.db.verifier name

def record : AssetRecord := ⟨slot.known env g name, slot.data g name, slot.verifierString g name⟩

end AssetSlot

section Lookups

variable {env g name} {cache : CAssetsCache}

theorem checkIfAssetExists_eq :
    cache.checkIfAssetExists env g name = (cache.slot name).known env g name := by
  simp only [checkIfAssetExists, AssetSlot.known, CAssetsCache.slot, DirtyPair.marks,
    TreeMap.isSome_getElem?_eq_contains]

theorem getAssetMetaDataIfExists_map :
    (cache.getAssetMetaDataIfExists g name).map Prod.fst = (cache.slot name).data g name := by
  unfold getAssetMetaDataIfExists AssetSlot.data AssetSlot.issuedData
  simp only [CAssetsCache.slot, DirtyPair.marks, TreeMap.isSome_getElem?_eq_contains]
  cases cache.mapReissuedAssetData[name]? with
  | some asset => rfl
  | none =>
    cases g.passets.mapReissuedAssetData[name]? with
    | some asset => rfl
    | none =>
      simp only [Option.orElse_eq_orElse, Option.orElse_eq_or, Option.none_or]
      split
      · rfl
      · split
        next entry he => simp [he]
        next he => simp [he, Function.comp_def]

theorem getAssetVerifierStringIfExists_eq :
    cache.getAssetVerifierStringIfExists g name false = (cache.slot name).verifierString g name :=
  rfl

end Lookups

namespace AssetSlot

variable (slot : AssetSlot)

def setVerifier (verifier : Str) : AssetSlot :=
  { slot with verifier := slot.verifier.add ⟨verifier, false⟩ }

def clearVerifier (verifier : Str) (fUndoingReissue : Bool) : AssetSlot :=
  { slot with verifier := slot.verifier.remove ⟨verifier, fUndoingReissue⟩ }

def issue (entry : CAssetCacheNewAsset) : AssetSlot :=
  if slot.known env g name then slot else { slot with asset := slot.asset.add entry }

def reissue (reissue : CReissueAsset) (verifier : Option Str) : AssetSlot :=
  match slot.data g name with
  | none => slot
  | some asset =>
    let slot := { slot with reissued := some (asset.applyReissue reissue) }
    verifier.elim slot slot.setVerifier

def removeIssue (asset : CNewAsset) (address : Str) : AssetSlot :=
  if slot.known env g name then { slot with asset := slot.asset.remove ⟨asset, address, 0, 0⟩ }
  else slot

def undoVerifier : Option CBlockAssetUndo → AssetSlot
  | some item =>
    if item.fChangedVerifierString then slot.clearVerifier item.verifierString true else slot
  | none => slot

def removeReissue (reissue : CReissueAsset) (item : Option CBlockAssetUndo) : AssetSlot :=
  if slot.known env g name then
    match slot.data g name with
    | none => slot
    | some asset =>
      { slot with reissued := some (asset.undoReissue reissue item) }.undoVerifier item
  else slot

/-- The undo item of a reissue: what it replaces, unless it only adds to the amount. -/
def undoItem (asset : CNewAsset) (reissue : CReissueAsset) (verifier : Option Str) :
    Option CBlockAssetUndo :=
  if reissue.strIPFSHash ≠ [] || reissue.nUnits ≠ -1 || verifier.isSome then
    some {
      fChangedIPFS := reissue.strIPFSHash ≠ []
      fChangedUnits := reissue.nUnits ≠ -1
      strIPFS := asset.strIPFSHash
      nUnits := asset.units
      fChangedVerifierString := verifier.isSome
      verifierString := verifier.elim [] fun _ => (slot.verifierString g name).getD [] }
  else none

/-- The data under a name carries that name. -/
def Named : Prop := ∀ asset, slot.data g name = some asset → asset.strName = name

end AssetSlot

/-- The verifier a reissue sets; only that of a restricted asset is looked at. -/
def reissueVerifier (tx : CTransaction) (reissue : CReissueAsset) : Option Str :=
  if CTransaction.nameTypeOrInvalid reissue.strName = .restricted then
    (firstVerifier tx).map CNullAssetTxVerifierString.verifierString
  else none

section Operations

variable {env g name} {cache cache' : CAssetsCache} {out : COutPoint}

@[simp] theorem newAssets_setBalance (pair : Str × Str) (nAmount : CAmount) :
    (cache.setBalance env pair nAmount).newAssets = cache.newAssets := by
  unfold setBalance
  split <;> rfl

@[simp] theorem mapReissuedAssetData_setBalance (pair : Str × Str) (nAmount : CAmount) :
    (cache.setBalance env pair nAmount).mapReissuedAssetData = cache.mapReissuedAssetData := by
  unfold setBalance
  split <;> rfl

@[simp] theorem newRestrictedVerifier_setBalance (pair : Str × Str) (nAmount : CAmount) :
    (cache.setBalance env pair nAmount).newRestrictedVerifier = cache.newRestrictedVerifier := by
  unfold setBalance
  split <;> rfl

/-- Balances are no data of assets. -/
theorem slot_of_core (h : cache'.core = cache.core) : cache'.slot name = cache.slot name := by
  have hsl : cache'.core.slot name = cache.core.slot name := by rw [h]
  exact hsl

theorem besideCommands_slot : BesideCommands (CAssetsCache.slot · name) :=
  ⟨slot_of_core, fun _ _ _ => rfl, fun _ _ => rfl, fun _ _ => rfl, fun _ _ => rfl⟩

theorem slot_addRestrictedVerifier (assetName verifier : Str) :
    (cache.addRestrictedVerifier assetName verifier).slot name =
      if assetName = name then (cache.slot name).setVerifier verifier else cache.slot name := by
  simp only [CAssetsCache.slot, addRestrictedVerifier]
  split
  next h => rw [h, marks_add_self]; rfl
  next h => rw [marks_add_ne h]

theorem slot_removeRestrictedVerifier (assetName verifier : Str) (fUndoingReissue : Bool) :
    (cache.removeRestrictedVerifier assetName verifier fUndoingReissue).slot name =
      if assetName = name then (cache.slot name).clearVerifier verifier fUndoingReissue
      else cache.slot name := by
  simp only [CAssetsCache.slot, removeRestrictedVerifier]
  split
  next h => rw [h, marks_remove_self]; rfl
  next h => rw [marks_remove_ne h]

theorem slot_addNewAsset (asset : CNewAsset) (address : Str) (nHeight : Nat) (blockHash : UInt256) :
    (cache.addNewAsset env g asset address nHeight blockHash).slot name =
      if asset.strName = name then
        (cache.slot name).issue env g name ⟨asset, address, nHeight, blockHash⟩
      else cache.slot name := by
  unfold addNewAsset AssetSlot.issue
  rw [checkIfAssetExists_eq]
  split
  next hkn =>
    split
    next h => rw [← h, if_pos hkn]
    · rfl
  next hkn =>
    split
    next h =>
      rw [← h, if_neg hkn]
      simp only [CAssetsCache.slot, marks_add_self, mapReissuedAssetData_setBalance,
        newRestrictedVerifier_setBalance]
    next h =>
      simp only [CAssetsCache.slot, marks_add_ne h, mapReissuedAssetData_setBalance,
        newRestrictedVerifier_setBalance]

theorem slot_removeNewAsset {asset : CNewAsset} {address : Str}
    (h : removeNewAssetOf env g cache (some (asset, address)) = some cache') :
    cache'.slot name =
      if asset.strName = name then (cache.slot name).removeIssue env g name asset address
      else cache.slot name := by
  simp only [removeNewAssetOf, removeNewAsset] at h
  unfold AssetSlot.removeIssue
  split at h
  next hkn =>
    cases h
    rw [checkIfAssetExists_eq] at hkn
    split
    next h =>
      rw [← h, if_pos hkn]
      simp only [CAssetsCache.slot, marks_remove_self, mapReissuedAssetData_setBalance,
        newRestrictedVerifier_setBalance]
    next h =>
      simp only [CAssetsCache.slot, marks_remove_ne h, mapReissuedAssetData_setBalance,
        newRestrictedVerifier_setBalance]
  next hkn =>
    cases h
    rw [checkIfAssetExists_eq] at hkn
    split
    next h => rw [← h, if_neg hkn]
    · rfl

theorem slot_addReissueAsset_self {reissue : CReissueAsset} {asset : CNewAsset} {address : Str}
    (h : (cache.slot reissue.strName).data g reissue.strName = some asset) :
    (cache.addReissueAsset env g reissue address out).slot reissue.strName =
      { cache.slot reissue.strName with reissued := some (asset.applyReissue reissue) } := by
  rw [← getAssetMetaDataIfExists_map] at h
  obtain ⟨⟨_, block⟩, hm, rfl⟩ := Option.map_eq_some_iff.1 h
  simp only [addReissueAsset, hm, CAssetsCache.slot, newAssets_setBalance,
    newRestrictedVerifier_setBalance, TreeMap.getElem?_insert_self]

theorem slot_addReissueAsset_ne {reissue : CReissueAsset} {address : Str}
    (h : reissue.strName ≠ name) :
    (cache.addReissueAsset env g reissue address out).slot name = cache.slot name := by
  unfold addReissueAsset
  split
  · rfl
  · simp only [CAssetsCache.slot, newAssets_setBalance, newRestrictedVerifier_setBalance,
      Maps.getElem?_insert_of_ne h.symm]

/-- Data that only a reissue replaces leaves the verifier alone. -/
theorem verifierString_reissued (slot : AssetSlot) (data : Option CNewAsset) :
    AssetSlot.verifierString g name { slot with reissued := data } = slot.verifierString g name :=
  rfl

variable {tx : CTransaction} {reissue : CReissueAsset} {address : Str} {asset : CNewAsset}

/-- The reissue part of `AddCoins` under the name of the asset, and its undo item. -/
theorem addReissueOf_self (hp : reissueAssetFromScript env tx.lastScript = some (reissue, address))
    (hd : (cache.slot reissue.strName).data g reissue.strName = some asset)
    (hn : asset.strName = reissue.strName) :
    (addReissueOf env g cache tx).cache.slot reissue.strName =
        (cache.slot reissue.strName).reissue g reissue.strName reissue (reissueVerifier tx reissue) ∧
      (addReissueOf env g cache tx).undo = ((cache.slot reissue.strName).undoItem g reissue.strName
        asset reissue (reissueVerifier tx reissue)).map fun item => (reissue.strName, item) := by
  have hm : (cache.getAssetMetaDataIfExists g reissue.strName).map Prod.fst = some asset := by
    rw [getAssetMetaDataIfExists_map, hd]
  have hse : (cache.addReissueAsset env g reissue address
      ⟨tx.hash, UInt32.ofNat (tx.vout.length - 1)⟩).slot reissue.strName = _ :=
    slot_addReissueAsset_self hd
  have ho : getAssetVerifierStringIfExists g (cache.addReissueAsset env g reissue
      address ⟨tx.hash, UInt32.ofNat (tx.vout.length - 1)⟩) reissue.strName false =
      (cache.slot reissue.strName).verifierString g reissue.strName := by
    rw [getAssetVerifierStringIfExists_eq, hse, verifierString_reissued]
  unfold addReissueOf AssetSlot.reissue
  simp only [hp, Option.getD_some, hm, hn, hd]
  by_cases ht : CTransaction.nameTypeOrInvalid reissue.strName = .restricted
  · cases hv : firstVerifier tx with
    | none =>
      simp only [reissueVerifier, ht, hv, if_true, Option.map_none, hse, Option.elim_none,
        AssetSlot.undoItem, apply_ite (Option.map _), Option.map_some, true_and]
      rfl
    | some verifier =>
      simp [reissueVerifier, ht, hv, slot_addRestrictedVerifier, hse, ho, AssetSlot.undoItem]
  · simp only [reissueVerifier, ht, if_false, hse, Option.elim_none, AssetSlot.undoItem,
      apply_ite (Option.map _), Option.map_some, Option.map_none, true_and]
    rfl

theorem addReissueOf_ne (hp : reissueAssetFromScript env tx.lastScript = some (reissue, address))
    (hd : (cache.slot reissue.strName).data g reissue.strName = some asset)
    (hn : asset.strName = reissue.strName) (hne : reissue.strName ≠ name) :
    (addReissueOf env g cache tx).cache.slot name = cache.slot name := by
  have hm : (cache.getAssetMetaDataIfExists g reissue.strName).map Prod.fst = some asset := by
    rw [getAssetMetaDataIfExists_map, hd]
  unfold addReissueOf
  simp only [hp, Option.getD_some, hm, hn]
  split
  · rw [slot_addRestrictedVerifier, if_neg hne, slot_addReissueAsset_ne hne]
  · exact slot_addReissueAsset_ne hne

theorem undoReissue_strName (asset : CNewAsset) (reissue : CReissueAsset)
    (item : Option CBlockAssetUndo) : (asset.undoReissue reissue item).strName = asset.strName := by
  unfold CNewAsset.undoReissue
  cases item with
  | none => rfl
  | some item => simp only [apply_ite CNewAsset.strName, ite_self]

theorem slot_undoVerifier (assetName : Str) (item : Option CBlockAssetUndo) :
    (cache.undoVerifier assetName item).slot name =
      if assetName = name then (cache.slot name).undoVerifier item else cache.slot name := by
  cases item with
  | none => exact (ite_self _).symm
  | some item =>
    simp only [undoVerifier, AssetSlot.undoVerifier]
    split
    · exact slot_removeRestrictedVerifier _ _ _
    · exact (ite_self _).symm

/-- The reissue part of `DisconnectBlock`, under every name. -/
theorem removeReissueOf_slot {vUndoData : List (Str × CBlockAssetUndo)}
    (hp : reissueAssetFromScript env tx.lastScript = some (reissue, address))
    (hn : (cache.slot reissue.strName).Named g reissue.strName)
    (h : removeReissueOf env g cache tx vUndoData = some cache') :
    cache'.slot name = if reissue.strName = name then (cache.slot name).removeReissue env g name
      reissue (vUndoData.lookup name) else cache.slot name := by
  simp only [removeReissueOf, hp, removeReissueAsset] at h
  split at h
  next hkn =>
    split at h
    · cases h
    next asset block hm =>
      split at h
      · cases h
      have hd : (cache.slot reissue.strName).data g reissue.strName = some asset := by
        rw [← getAssetMetaDataIfExists_map, hm]
        rfl
      cases h
      have ha := hn asset hd
      split
      next heq =>
        subst heq
        rw [checkIfAssetExists_eq] at hkn
        simp only [AssetSlot.removeReissue, hkn, if_true, hd]
        rw [undoReissue_strName, ha, slot_undoVerifier, if_pos rfl]
        simp only [CAssetsCache.slot, newAssets_setBalance, newRestrictedVerifier_setBalance,
          TreeMap.getElem?_insert_self]
      next hne =>
        rw [undoReissue_strName, ha, slot_undoVerifier, if_neg hne]
        simp only [CAssetsCache.slot, newAssets_setBalance, newRestrictedVerifier_setBalance,
          Maps.getElem?_insert_of_ne (Ne.symm hne)]
  next hkn =>
    cases h
    split
    next heq =>
      subst heq
      rw [checkIfAssetExists_eq] at hkn
      simp only [AssetSlot.removeReissue, hkn, if_false, Bool.false_eq_true]
    · rfl

end Operations

end Cmusic
