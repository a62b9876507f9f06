import Cmusic.AssetOps
import Cmusic.Conservation

/-! The sets of the entries to add and to remove stay disjoint, in the cache of a block and in the
global one. -/
namespace DirtyPair

open Std

variable {κ ν : Type} {cmp : κ → κ → Ordering} {d below : DirtyPair κ ν cmp} {k : κ} {v : ν}

/-- No key is marked both ways. -/
def Apart (d : DirtyPair κ ν cmp) : Prop := ∀ k, k ∈ d.toAdd → k ∉ d.toRemove

theorem apart_empty : ({} : DirtyPair κ ν cmp).Apart := by simp [Apart]

variable [TransCmp cmp]

theorem Apart.add (h : d.Apart) : (d.add k v).Apart := by
  grind [Apart, DirtyPair.add]

theorem Apart.remove (h : d.Apart) : (d.remove k v).Apart := by
  grind [Apart, DirtyPair.remove]

theorem Apart.putAdd (h : d.Apart) : (d.putAdd k v).Apart := by
  grind [Apart, DirtyPair.putAdd]

theorem Apart.putRemove (h : d.Apart) : (d.putRemove k v).Apart := by
  grind [Apart, DirtyPair.putRemove]

variable [LawfulEqCmp cmp]

theorem Apart.flush (h : below.Apart) : (d.flush below).Apart :=
  replay_invariant Apart d h (fun _ _ _ _ hs => hs.add) fun _ _ _ _ hs => hs.remove

theorem Apart.putFlush (h : below.Apart) : (d.putFlush below).Apart :=
  replay_invariant Apart d h (fun _ _ _ _ hs => hs.putAdd) fun _ _ _ _ hs => hs.putRemove

end DirtyPair

namespace Cmusic

open DirtyPair CAssetsCache

/-- The two sets of each kind have no key in common. -/
structure SetsApart (cache : CAssetsCache) : Prop where
  assets : cache.newAssets.Apart
  owners : cache.newOwnerAssets.Apart
  qualifiers : cache.newQualifierAddress.Apart
  freezes : cache.newRestrictedAddress.Apart
  globalFreezes : cache.newRestrictedGlobal.Apart
  verifiers : cache.newRestrictedVerifier.Apart

variable (env : Env) (g : AssetGlobals)

/-- A call on the cache of a block; an undone reissue that fails has taken its verifier back. -/
inductive SetsCall (cache : CAssetsCache) : CAssetsCache → Prop
  | addNewAsset (asset address nHeight blockHash) :
    SetsCall cache (cache.addNewAsset env g asset address nHeight blockHash)
  | removeNewAsset {cache'} (asset address) :
    cache.removeNewAsset env g asset address = some cache' → SetsCall cache cache'
  | addReissueAsset (reissue address out) :
    SetsCall cache (cache.addReissueAsset env g reissue address out)
  | removeReissueAsset {cache'} (reissue address out vUndoIPFS) :
    cache.removeReissueAsset env g reissue address out vUndoIPFS = some cache' →
      SetsCall cache cache'
  | undoVerifier (assetName item) : SetsCall cache (cache.undoVerifier assetName item)
  | addTransferAsset (transfer address out) :
    SetsCall cache (cache.addTransferAsset env g transfer address out)
  | removeTransfer {cache'} (transfer address out) :
    cache.removeTransfer env g transfer address out = some cache' → SetsCall cache cache'
  | trySpendCoin {cache'} (txOut) :
    cache.trySpendCoin env g txOut = some cache' → SetsCall cache cache'
  | undoAssetCoin {cache'} (coin) :
    cache.undoAssetCoin env g coin = some cache' → SetsCall cache cache'
  | addOwnerAsset (assetsName address) : SetsCall cache (cache.addOwnerAsset env assetsName address)
  | removeOwnerAsset (assetsName address) :
    SetsCall cache (cache.removeOwnerAsset env assetsName address)
  | addQualifierAddress (assetName address type) :
    SetsCall cache (cache.addQualifierAddress assetName address type)
  | removeQualifierAddress (assetName address type) :
    SetsCall cache (cache.removeQualifierAddress assetName address type)
  | addRestrictedAddress (assetName address type) :
    SetsCall cache (cache.addRestrictedAddress assetName address type)
  | removeRestrictedAddress (assetName address type) :
    SetsCall cache (cache.removeRestrictedAddress assetName address type)
  | addGlobalRestricted (assetName type) : SetsCall cache (cache.addGlobalRestricted assetName type)
  | removeGlobalRestricted (assetName type) :
    SetsCall cache (cache.removeGlobalRestricted assetName type)
  | addRestrictedVerifier (assetName verifier) :
    SetsCall cache (cache.addRestrictedVerifier assetName verifier)
  | removeRestrictedVerifier (assetName verifier fUndoingReissue) :
    SetsCall cache (cache.removeRestrictedVerifier assetName verifier fUndoingReissue)

/-- A cache and the global one after calls on the first and flushes into the second. -/
inductive DirtyRun : (cache passets : CAssetsCache) → Prop
  | start : DirtyRun {} {}
  | newCache {cache passets} : DirtyRun cache passets → DirtyRun {} passets
  | call {cache passets cache'} (env : Env) (db : AssetDB) : DirtyRun cache passets →
    SetsCall env ⟨passets, db⟩ cache cache' → DirtyRun cache' passets
  | flush {cache passets} : DirtyRun cache passets → DirtyRun cache (cache.flush passets)

variable {env g} {cache cache' passets : CAssetsCache}

theorem setsApart_empty : SetsApart {} :=
  ⟨apart_empty, apart_empty, apart_empty, apart_empty, apart_empty, apart_empty⟩

namespace SetsApart

theorem setBalance (h : SetsApart cache) (pair : Str × Str) (nAmount : CAmount) :
    SetsApart (cache.setBalance env pair nAmount) := by
  unfold CAssetsCache.setBalance
  split
  · exact { h with }
  · exact h

theorem noteRootQualifier (h : SetsApart cache) (added : Bool) (assetName address : Str) :
    SetsApart (cache.noteRootQualifier added assetName address) := by
  obtain ⟨rootsAdd, rootsRemove, heq⟩ := cache.exists_noteRootQualifier added assetName address
  rw [heq]
  exact { h with }

theorem undoVerifier (h : SetsApart cache) (assetName : Str) (item : Option CBlockAssetUndo) :
    SetsApart (cache.undoVerifier assetName item) := by
  unfold CAssetsCache.undoVerifier
  split
  · split
    · exact { h with verifiers := h.verifiers.remove }
    · exact h
  · exact h

theorem call (h : SetsApart cache) (hc : SetsCall env g cache cache') : SetsApart cache' := by
  cases hc with
  | addNewAsset asset address nHeight blockHash =>
    unfold CAssetsCache.addNewAsset
    split
    · exact h
    · exact { h.setBalance _ _ with assets := h.assets.add }
  | removeNewAsset asset address hr =>
    unfold CAssetsCache.removeNewAsset at hr
    split at hr
    · cases hr
      exact { h.setBalance _ _ with assets := h.assets.remove }
    · cases hr
  | addReissueAsset reissue address out =>
    unfold CAssetsCache.addReissueAsset
    split
    · exact h
    · exact { h.setBalance _ _ with }
  | removeReissueAsset reissue address out vUndoIPFS hr =>
    unfold CAssetsCache.removeReissueAsset at hr
    split at hr
    · cases hr
    · dsimp only at hr
      split at hr
      · cases hr
      · cases hr
        refine undoVerifier ?_ _ _
        exact { @setBalance env cache h (reissue.strName, address) _ with }
  | undoVerifier assetName item => exact h.undoVerifier assetName item
  | addTransferAsset transfer address out => exact { h.setBalance _ _ with }
  | removeTransfer transfer address out hr =>
    obtain ⟨mid, hu, rfl⟩ := Option.map_eq_some_iff.1 hr
    unfold undoTransfer at hu
    repeat' split at hu
    all_goals cases hu
    · exact { h.setBalance _ _ with }
    · exact { h with }
  | trySpendCoin txOut hsp =>
    unfold CAssetsCache.trySpendCoin at hsp
    dsimp only at hsp
    repeat' split at hsp
    all_goals cases hsp
    · exact h
    · exact h
    · exact { h.setBalance _ _ with }
    · exact { h.setBalance _ _ with }
    · exact h
  | undoAssetCoin coin hu =>
    unfold CAssetsCache.undoAssetCoin at hu
    repeat' split at hu
    all_goals cases hu
    exact { h.setBalance _ _ with }
  | addOwnerAsset assetsName address => exact { h.setBalance _ _ with owners := h.owners.add }
  | removeOwnerAsset assetsName address => exact { h.setBalance _ _ with owners := h.owners.remove }
  | addQualifierAddress assetName address type =>
    have hn := h.noteRootQualifier (type = .addQualifier) assetName address
    exact { hn with qualifiers := hn.qualifiers.putAdd }
  | removeQualifierAddress assetName address type =>
    have hn := h.noteRootQualifier (type ≠ .addQualifier) assetName address
    exact { hn with qualifiers := hn.qualifiers.putRemove }
  | addRestrictedAddress assetName address type => exact { h with freezes := h.freezes.putAdd }
  | removeRestrictedAddress assetName address type =>
    exact { h with freezes := h.freezes.putRemove }
  | addGlobalRestricted assetName type => exact { h with globalFreezes := h.globalFreezes.putAdd }
  | removeGlobalRestricted assetName type =>
    exact { h with globalFreezes := h.globalFreezes.putRemove }
  | addRestrictedVerifier assetName verifier => exact { h with verifiers := h.verifiers.add }
  | removeRestrictedVerifier assetName verifier fUndoingReissue =>
    exact { h with verifiers := h.verifiers.remove }

theorem flush (h : SetsApart passets) : SetsApart (cache.flush passets) where
  assets := h.assets.flush
  owners := h.owners.flush
  qualifiers := h.qualifiers.putFlush
  freezes := h.freezes.putFlush
  globalFreezes := h.globalFreezes.putFlush
  verifiers := h.verifiers.putFlush

end SetsApart

theorem setsApart_dirtyRun (h : DirtyRun cache passets) : SetsApart cache ∧ SetsApart passets := by
  induction h with
  | start => exact ⟨setsApart_empty, setsApart_empty⟩
  | newCache _ ih => exact ⟨setsApart_empty, ih.2⟩
  | call _ _ _ hc ih => exact ⟨ih.1.call hc, ih.2⟩
  | flush _ ih => exact ⟨ih.1, ih.2.flush⟩

/-- An owner token is added and flushed, then removed and flushed again. -/
theorem setsApart_dirtyRun_ownerAsset :
    let added := ({} : CAssetsCache).addOwnerAsset sampleEnv (str "ABC!") (str "C1")
    let undone := added.removeOwnerAsset sampleEnv (str "ABC!") (str "C1")
    SetsApart undone ∧ SetsApart (undone.flush (added.flush {})) :=
  setsApart_dirtyRun (.flush (.call sampleEnv emptyDB (.flush (.call sampleEnv emptyDB .start
    (.addOwnerAsset (str "ABC!") (str "C1")))) (.removeOwnerAsset (str "ABC!") (str "C1"))))

end Cmusic
