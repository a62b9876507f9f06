import Cmusic.DisconnectBlock

/-! What the parts of a block that only move balances leave alone in the asset cache. -/
namespace Cmusic

open Fallible Std CAssetsCache

/-- The cache without the balances and the lists that follow them. -/
def CAssetsCache.core (cache : CAssetsCache) : CAssetsCache :=
  { cache with
    mapAssetsAddressAmount := ∅
    vUndoAssetAmount := []
    vSpentAssets := []
    newOwnerAssets := {}
    newTransferAssets := {} }

variable {env : Env} {g : AssetGlobals} {cache cache' : CAssetsCache} {st st' : CoinState}
  {tx : CTransaction} {d d' : Disconnected} {txundo : CTxUndo} {nHeight : Nat}

@[simp] theorem core_setBalance (pair : Str × Str) (nAmount : CAmount) :
    (cache.setBalance env pair nAmount).core = cache.core := by
  unfold setBalance
  split <;> rfl

theorem core_trySpendCoin {txOut : CTxOut} (h : cache.trySpendCoin env g txOut = some cache') :
    cache'.core = cache.core := by
  unfold trySpendCoin at h
  split at h
  · cases h
    rfl
  · split at h
    · cases h
    next data _ =>
      dsimp only at h
      split at h
      · cases h
      · split at h
        · split at h
          · cases h
            rfl
          next amount _ =>
            cases h
            exact core_setBalance (data.assetName, data.address) _
        · cases h
          rfl

theorem core_spendCoin {outpoint : COutPoint} {isSpent : Bool} {coin : Coin}
    (h : spendCoin env g st outpoint = (isSpent, coin, st')) : st'.cache.core = st.cache.core := by
  unfold spendCoin at h
  split at h
  · cases h
    rfl
  · split at h
    · split at h
      next hsp =>
        cases h
        exact core_trySpendCoin hsp
      · cases h
        rfl
    · cases h
      rfl

theorem core_spendInputs {vin : List CTxIn} {undo : CTxUndo}
    (h : spendInputs env g st vin = some (st', undo)) : st'.cache.core = st.cache.core := by
  refine foldlM_some_invariant
    (fun _ (acc : CoinState × CTxUndo) => acc.1.cache.core = st.cache.core) h rfl ?_
  intro pre txin acc acc' ha hstep
  dsimp only at hstep
  split at hstep
  next hsp =>
    cases hstep
    exact (core_spendCoin hsp).trans ha
  · cases hstep

theorem core_addTransferOut (out : COutPoint) (txout : CTxOut) :
    (addTransferOut env g cache out txout).core = cache.core := by
  unfold addTransferOut
  split
  · rfl
  · split
    · exact core_setBalance _ _
    · rfl

theorem core_addOwnerAsset (assetsName address : Str) :
    (cache.addOwnerAsset env assetsName address).core = cache.core :=
  core_setBalance (assetsName, address) ownerAssetAmount

theorem core_removeOwnerOf (h : removeOwnerOf env cache tx = some cache') :
    cache'.core = cache.core := by
  obtain ⟨⟨ownerName, ownerAddress⟩, -, rfl⟩ := Option.map_eq_some_iff.1 h
  exact core_setBalance (ownerName, ownerAddress) 0

theorem core_removeTransferOut {output : COutPoint × CTxOut}
    (h : removeTransferOut env g cache output = some cache') : cache'.core = cache.core := by
  unfold removeTransferOut at h
  split at h
  · cases h
  next transfer strAddress _ =>
    obtain ⟨mid, hm, rfl⟩ := Option.map_eq_some_iff.1 h
    unfold undoTransfer at hm
    split at hm
    · split at hm
      · cases hm
      · split at hm
        · cases hm
        · cases hm
          exact core_setBalance (transfer.strName, strAddress) _
    · cases hm
      rfl

theorem core_applyTxInUndo {undo : Coin} {out : COutPoint} {fClean : Bool}
    (h : applyTxInUndo env g st undo out = some (fClean, st')) : st'.cache.core = st.cache.core := by
  simp only [applyTxInUndo, Option.bind_eq_bind, Option.bind_eq_some_iff] at h
  obtain ⟨coin, -, view, -, h⟩ := h
  split at h
  · split at h
    next cache hu =>
      cases h
      unfold undoAssetCoin at hu
      split at hu
      · cases hu
      next data _ =>
        split at hu
        · cases hu
        · cases hu
          exact core_setBalance (data.assetName, data.address) _
    · cases h
      rfl
  · cases h
    rfl

theorem core_restoreInputs (h : restoreInputs env g d tx txundo = some d') :
    d'.st.cache.core = d.st.cache.core := by
  unfold restoreInputs at h
  split at h
  · cases h
  · simp only [Option.bind_eq_bind, Option.bind_eq_some_iff] at h
    obtain ⟨⟨st, fClean⟩, hl, hr⟩ := h
    cases hr
    refine foldlM_some_invariant (fun _ (acc : CoinState × Bool) =>
      acc.1.cache.core = d.st.cache.core) hl rfl ?_
    intro pre input acc acc' hac hstep
    simp only [restoreInput, Option.bind_eq_bind, Option.bind_eq_some_iff] at hstep
    obtain ⟨⟨fClean, st⟩, ha, hr⟩ := hstep
    cases hr
    exact (core_applyTxInUndo ha).trans hac

/-- A loop of steps that leave a part of the cache alone leaves it alone. -/
theorem foldlM_some_eq {α β : Type} {step : CAssetsCache → α → Option CAssetsCache} {l : List α}
    (part : CAssetsCache → β)
    (hstep : ∀ cache a cache', step cache a = some cache' → part cache' = part cache)
    (h : l.foldlM step cache = some cache') : part cache' = part cache := by
  refine foldlM_some_invariant (fun _ c => part c = part cache) h rfl ?_
  intro pre a c c' hc hca
  exact (hstep c a c' hca).trans hc

/-- A part of the cache with neither balances nor issues and verifiers in it. -/
structure BesideIssues {β : Type} (part : CAssetsCache → β) : Prop where
  core : ∀ {cache cache' : CAssetsCache}, cache'.core = cache.core → part cache' = part cache
  issues : ∀ (cache : CAssetsCache) newAssets, part { cache with newAssets } = part cache
  verifiers : ∀ (cache : CAssetsCache) newRestrictedVerifier,
    part { cache with newRestrictedVerifier } = part cache

namespace BesideIssues

variable {β : Type} {part : CAssetsCache → β} {tx : CTransaction}

theorem addNewAssetOf (h : BesideIssues part) (payload : Option (CNewAsset × Str)) (nHeight : Nat)
    (blockHash : UInt256) :
    part (addNewAssetOf env g cache payload nHeight blockHash) = part cache := by
  unfold Cmusic.addNewAssetOf addNewAsset
  dsimp only
  split
  · rfl
  · exact (h.issues _ _).trans (h.core (core_setBalance _ _))

theorem addVerifierOf (h : BesideIssues part) (assetName : Str) :
    part (addVerifierOf cache assetName tx) = part cache := by
  unfold Cmusic.addVerifierOf
  split
  · rfl
  · exact h.verifiers _ _

/-- What the class of a transaction adds, unless it is a reissue. -/
theorem addClassAssets (h : BesideIssues part)
    (hclass : (!tx.isNewAsset env && tx.isReissueAsset) = false) (nHeight : Nat)
    (blockHash : UInt256) :
    part (addClassAssets env g cache tx nHeight blockHash).cache = part cache := by
  unfold Cmusic.addClassAssets
  split_ifs with hnew hreissue
  · exact (h.core (core_addOwnerAsset _ _)).trans (h.addNewAssetOf _ _ _)
  · simp [hnew, hreissue] at hclass
  · refine List.foldlRecOn tx.vout _ (motive := fun c => part c = part cache) rfl fun c hc out _ => ?_
    split
    · exact (h.addNewAssetOf _ _ _).trans hc
    · exact hc
  · exact h.addNewAssetOf _ _ _
  · exact h.addNewAssetOf _ _ _
  · exact (h.addVerifierOf _).trans (h.addNewAssetOf _ _ _)
  · rfl

theorem removeNewAssetOf (h : BesideIssues part) {payload : Option (CNewAsset × Str)}
    (hr : removeNewAssetOf env g cache payload = some cache') : part cache' = part cache := by
  unfold Cmusic.removeNewAssetOf removeNewAsset at hr
  split at hr
  · cases hr
  · split at hr
    · cases hr
      exact (h.issues _ _).trans (h.core (core_setBalance _ _))
    · cases hr
      rfl

theorem removeVerifierOf (h : BesideIssues part) {assetName : Str}
    (hr : removeVerifierOf env cache assetName tx = some cache') : part cache' = part cache := by
  simp only [Cmusic.removeVerifierOf, Option.bind_eq_bind, Option.bind_eq_some_iff] at hr
  obtain ⟨_, -, _, -, hre⟩ := hr
  cases hre
  exact h.verifiers _ _

theorem undoVerifier (h : BesideIssues part) (assetName : Str) (item : Option CBlockAssetUndo) :
    part (cache.undoVerifier assetName item) = part cache := by
  unfold CAssetsCache.undoVerifier
  split
  · split
    · exact h.verifiers _ _
    · rfl
  · rfl

/-- What the class of a transaction takes back, unless it is a reissue. -/
theorem removeClassAssets (h : BesideIssues part) {vUndoData : List (Str × CBlockAssetUndo)}
    (hclass : (!tx.isNewAsset env && tx.isReissueAsset) = false)
    (hr : removeClassAssets env g cache tx vUndoData = some cache') :
    part cache' = part cache := by
  unfold Cmusic.removeClassAssets at hr
  split_ifs at hr with hnew hreissue
  · obtain ⟨mid, hi, ho⟩ := Option.bind_eq_some_iff.1 hr
    exact (h.core (core_removeOwnerOf ho)).trans (h.removeNewAssetOf hi)
  · simp [hnew, hreissue] at hclass
  · refine foldlM_some_eq part (fun c out c' hstep => ?_) hr
    split at hstep
    · exact h.removeNewAssetOf hstep
    · cases hstep
      rfl
  · exact h.removeNewAssetOf hr
  · exact h.removeNewAssetOf hr
  · obtain ⟨mid, hi, hv⟩ := Option.bind_eq_some_iff.1 hr
    exact (h.removeVerifierOf hv).trans (h.removeNewAssetOf hi)
  · cases hr
    rfl

end BesideIssues

/-- A part of the cache with neither balances nor the commands of null data in it. -/
structure BesideCommands {β : Type} (part : CAssetsCache → β) : Prop where
  core : ∀ {cache cache' : CAssetsCache}, cache'.core = cache.core → part cache' = part cache
  roots : ∀ (cache : CAssetsCache) mapRootQualifierAddressesAdd mapRootQualifierAddressesRemove,
    part { cache with mapRootQualifierAddressesAdd, mapRootQualifierAddressesRemove } = part cache
  tags : ∀ (cache : CAssetsCache) newQualifierAddress,
    part { cache with newQualifierAddress } = part cache
  freezes : ∀ (cache : CAssetsCache) newRestrictedAddress,
    part { cache with newRestrictedAddress } = part cache
  globals : ∀ (cache : CAssetsCache) newRestrictedGlobal,
    part { cache with newRestrictedGlobal } = part cache

namespace BesideCommands

variable {β : Type} {part : CAssetsCache → β} {tx : CTransaction}

theorem noteRootQualifier (h : BesideCommands part) (added : Bool) (assetName address : Str) :
    part (cache.noteRootQualifier added assetName address) = part cache := by
  obtain ⟨_, _, hr⟩ := cache.exists_noteRootQualifier added assetName address
  rw [hr]
  exact h.roots _ _ _

theorem addNullOut (h : BesideCommands part) (txout : CTxOut) :
    part (addNullOut env cache txout) = part cache := by
  unfold Cmusic.addNullOut
  dsimp only
  split
  · split
    · exact h.freezes _ _
    · exact (h.tags _ _).trans (h.noteRootQualifier _ _ _)
    · exact (h.tags _ _).trans (h.noteRootQualifier _ _ _)
    · rfl
  · split
    · exact h.globals _ _
    · rfl

/-- The second half of `AddCoins`. -/
theorem foldl_addOutAssets (h : BesideCommands part) (outs : List (COutPoint × CTxOut)) :
    part (outs.foldl (fun cache (out, txout) => addOutAssets env g cache out txout) cache) =
      part cache := by
  refine List.foldlRecOn outs _ (motive := fun c => part c = part cache) rfl fun c hc out _ => ?_
  dsimp only [addOutAssets]
  split
  · exact ((h.addNullOut _).trans (h.core (core_addTransferOut _ _))).trans hc
  · exact hc

theorem removeNullOut (h : BesideCommands part) {txout : CTxOut}
    (hr : removeNullOut env cache txout = some cache') : part cache' = part cache := by
  unfold Cmusic.removeNullOut at hr
  dsimp only at hr
  split at hr
  · cases hr
    rfl
  · split at hr
    · split at hr
      · cases hr
      · split at hr <;> cases hr
        · exact (h.tags _ _).trans (h.noteRootQualifier _ _ _)
        · exact (h.tags _ _).trans (h.noteRootQualifier _ _ _)
        · exact h.freezes _ _
        · rfl
    · split at hr
      · split at hr <;> cases hr
        exact h.globals _ _
      · cases hr
        rfl

theorem removeNullOuts (h : BesideCommands part) (hr : removeNullOuts env cache tx = some cache') :
    part cache' = part cache := by
  unfold Cmusic.removeNullOuts at hr
  split at hr
  · exact foldlM_some_eq part (fun _ _ _ => h.removeNullOut) hr
  · cases hr
    rfl

end BesideCommands

/-- What `UpdateCoins` does to the cache, from the spending of the inputs on. -/
theorem exists_cache_of_updateCoins {blockHash : UInt256} {undo : Option (Str × CBlockAssetUndo)}
    (h : updateCoins env g st tx nHeight blockHash = some (st', txundo, undo)) :
    ∃ cache : CAssetsCache, ∃ update : AssetUpdate, cache.core = st.cache.core ∧
      update = (if env.areAssetsDeployed then addClassAssets env g cache tx nHeight blockHash
        else { cache }) ∧
      st'.cache = tx.outpoints.foldl (fun cache (out, txout) => addOutAssets env g cache out txout)
        update.cache ∧ undo = update.undo := by
  obtain ⟨mid, hsp, ha⟩ := exists_of_updateCoins h
  simp only [addCoins, Option.bind_eq_bind, Option.bind_eq_some_iff] at ha
  obtain ⟨view, -, hr⟩ := ha
  cases hr
  refine ⟨mid.cache, _, ?_, rfl, rfl, rfl⟩
  split at hsp
  · cases hsp
    rfl
  · exact core_spendInputs hsp

/-- What `DisconnectBlock` does to the cache for one transaction. -/
theorem exists_cache_of_disconnectTx {vUndoData : List (Str × CBlockAssetUndo)}
    {txundo : Option CTxUndo} (h : disconnectTx env g nHeight vUndoData d (tx, txundo) = some d') :
    (env.areAssetsDeployed = false ∧ d'.st.cache.core = d.st.cache.core) ∨
      env.areAssetsDeployed = true ∧ ∃ first second third : CAssetsCache,
        removeClassAssets env g d.st.cache tx vUndoData = some first ∧ second.core = first.core ∧
        removeNullOuts env second tx = some third ∧ d'.st.cache.core = third.core := by
  simp only [disconnectTx, Option.bind_eq_bind, Option.bind_eq_some_iff] at h
  obtain ⟨cache, hr, h⟩ := h
  have hre : d'.st.cache.core = cache.core := by
    split at h
    · cases h
      rfl
    · exact core_restoreInputs h
  unfold removeTxAssets at hr
  split at hr
  next hd =>
    simp only [Option.bind_eq_bind, Option.bind_eq_some_iff] at hr
    obtain ⟨first, hfirst, second, hse, hn⟩ := hr
    exact Or.inr ⟨hd, first, second, cache, hfirst,
      foldlM_some_eq CAssetsCache.core (fun _ _ _ => core_removeTransferOut) hse, hn, hre⟩
  next hd =>
    cases hr
    exact Or.inl ⟨Bool.eq_false_iff.2 hd, hre⟩

end Cmusic
