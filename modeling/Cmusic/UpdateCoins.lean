import Cmusic.AssetOps

/-! What a transaction does to the coins and to the asset cache. -/
namespace Cmusic

open Std

variable (env : Env) (g : AssetGlobals)

/-- The asset state a block changes, and the undo item of the current transaction. -/
structure AssetUpdate where
  cache : CAssetsCache
  undo : Option (Str × CBlockAssetUndo) := none

def firstVerifierOut (tx : CTransaction) : Option CTxOut :=
  tx.vout.find? fun out => CScript.isNullAssetVerifierTxDataScript out.scriptPubKey

/-- The verifier a reissue sets; a broken one counts as none. -/
def firstVerifier (tx : CTransaction) : Option CNullAssetTxVerifierString :=
  (firstVerifierOut tx).bind fun out => assetNullVerifierDataFromScript out.scriptPubKey

def addNewAssetOf (cache : CAssetsCache) (payload : Option (CNewAsset × Str)) (nHeight : Nat)
    (blockHash : UInt256) : CAssetsCache :=
  let (asset, address) := payload.getD ({}, [])
  cache.addNewAsset env g asset address nHeight blockHash

/-- The reissue part of `AddCoins`. The old data is read before the change, the old verifier
through all layers. -/
def addReissueOf (cache : CAssetsCache) (tx : CTransaction) : AssetUpdate :=
  let (reissue, strAddress) := (reissueAssetFromScript env tx.lastScript).getD ({}, [])
  let asset := ((cache.getAssetMetaDataIfExists g reissue.strName).map Prod.fst).getD {}
  let reissueOut : COutPoint := ⟨tx.hash, UInt32.ofNat (tx.vout.length - 1)⟩
  let cache := cache.addReissueAsset env g reissue strAddress reissueOut
  let fIPFSChanged := reissue.strIPFSHash ≠ []
  let fUnitsChanged := reissue.nUnits ≠ -1
  let verifier :=
    if CTransaction.nameTypeOrInvalid asset.strName = .restricted then firstVerifier tx else none
  let strOldVerifier := match verifier with
    | some _ => (cache.getAssetVerifierStringIfExists g asset.strName false).getD []
    | none => []
  let cache := match verifier with
    | some verifier => cache.addRestrictedVerifier asset.strName verifier.verifierString
    | none => cache
  { cache
    undo := if fIPFSChanged || fUnitsChanged || verifier.isSome then
        some (reissue.strName, {
          fChangedIPFS := fIPFSChanged
          fChangedUnits := fUnitsChanged
          strIPFS := asset.strIPFSHash
          nUnits := asset.units
          fChangedVerifierString := verifier.isSome
          verifierString := strOldVerifier })
      else none }

/-- The verifier of a newly issued restricted asset; a broken one is stored as the empty text. -/
def addVerifierOf (cache : CAssetsCache) (assetName : Str) (tx : CTransaction) : CAssetsCache :=
  match firstVerifierOut tx with
  | none => cache
  | some out => cache.addRestrictedVerifier assetName
      ((assetNullVerifierDataFromScript out.scriptPubKey).getD {}).verifierString

/-- The first half of `AddCoins`: what the class of the transaction adds to the cache. -/
def addClassAssets (cache : CAssetsCache) (tx : CTransaction) (nHeight : Nat)
    (blockHash : UInt256) : AssetUpdate :=
  if tx.isNewAsset env then
    let cache := addNewAssetOf env g cache (assetFromScript env tx.lastScript) nHeight blockHash
    let (ownerName, ownerAddress) := (ownerAssetFromScript env tx.ownerScript).getD ([], [])
    { cache := cache.addOwnerAsset env ownerName ownerAddress }
  else if tx.isReissueAsset then addReissueOf env g cache tx
  else if tx.isNewUniqueAsset env then
    { cache := tx.vout.foldl (fun cache out =>
        if isScriptNewUniqueAsset env out.scriptPubKey then
          addNewAssetOf env g cache (assetFromScript env out.scriptPubKey) nHeight blockHash
        else cache) cache }
  else if tx.isNewMsgChannelAsset env then
    { cache := addNewAssetOf env g cache (msgChannelAssetFromScript env tx.lastScript) nHeight
        blockHash }
  else if tx.isNewQualifierAsset env then
    { cache := addNewAssetOf env g cache (qualifierAssetFromScript env tx.lastScript) nHeight
        blockHash }
  else if tx.isNewRestrictedAsset env then
    let payload := restrictedAssetFromScript env tx.lastScript
    let cache := addNewAssetOf env g cache payload nHeight blockHash
    { cache := addVerifierOf cache (payload.getD ({}, [])).1.strName tx }
  else { cache }

/-- What a transfer output adds to the cache. -/
def addTransferOut (cache : CAssetsCache) (out : COutPoint) (txout : CTxOut) : CAssetsCache :=
  match getAssetData env txout.scriptPubKey with
  | none => cache
  | some data =>
    if data.type = .transferAsset && data.nAmount > 0 then
      cache.addTransferAsset env g
        ⟨data.assetName, data.nAmount, data.message, data.expireTime⟩ data.address out
    else cache

/-- What a null-data output adds to the cache. -/
def addNullOut (cache : CAssetsCache) (txout : CTxOut) : CAssetsCache :=
  let script := txout.scriptPubKey
  if CScript.isNullAssetTxDataScript script then
    let (data, address) := (assetNullDataFromScript env script).getD ({}, [])
    match CTransaction.nameTypeOrInvalid data.assetName with
    | .restricted => cache.addRestrictedAddress data.assetName address
        (if data.flag ≠ 0 then .freezeAddress else .unfreezeAddress)
    | .qualifier | .subQualifier => cache.addQualifierAddress data.assetName address
        (if data.flag ≠ 0 then .addQualifier else .removeQualifier)
    | _ => cache
  else if CScript.isNullGlobalRestrictionAssetTxDataScript script then
    let data := (globalAssetNullDataFromScript script).getD {}
    cache.addGlobalRestricted data.assetName
      (if data.flag ≠ 0 then .globalFreeze else .globalUnfreeze)
  else cache

/-- The second half of `AddCoins` on the cache, one output at a time. -/
def addOutAssets (cache : CAssetsCache) (out : COutPoint) (txout : CTxOut) : CAssetsCache :=
  if env.areAssetsDeployed then addNullOut env (addTransferOut env g cache out txout) txout
  else cache

/-- `AddCoin`: an unspendable output leaves no coin, and a coin must not be added as spent. -/
def CCoinsViewCache.addCoin (view : CCoinsViewCache) (outpoint : COutPoint) (coin : Coin)
    (possibleOverwrite : Bool) : Option CCoinsViewCache :=
  if coin.isSpent then none
  else if CScript.isUnspendable coin.out.scriptPubKey then some view
  else view.addSpendable outpoint coin possibleOverwrite

/-- The outpoints of a transaction, each with its output. -/
def CTransaction.outpoints (tx : CTransaction) : List (COutPoint × CTxOut) :=
  tx.vout.zipIdx.map fun (txout, i) => (⟨tx.hash, UInt32.ofNat i⟩, txout)

theorem outpoints_map_snd (tx : CTransaction) : tx.outpoints.map Prod.snd = tx.vout := by
  simp [CTransaction.outpoints, Function.comp_def]

/-- The coins and the asset cache while a block is connected or disconnected. -/
structure CoinState where
  view : CCoinsViewCache
  cache : CAssetsCache

def addCoins (st : CoinState) (tx : CTransaction) (nHeight : Nat) (blockHash : UInt256) :
    Option (CoinState × Option (Str × CBlockAssetUndo)) := do
  let update := if env.areAssetsDeployed then addClassAssets env g st.cache tx nHeight blockHash
    else { cache := st.cache }
  let view ← tx.outpoints.foldlM (fun view (out, txout) =>
    view.addCoin out ⟨txout, nHeight, tx.isCoinBase⟩ tx.isCoinBase) st.view
  let cache := tx.outpoints.foldl (fun cache (out, txout) => addOutAssets env g cache out txout)
    update.cache
  return (⟨view, cache⟩, update.undo)

/-- `SpendCoin`: whether it succeeded, the coin it moved out, and the state after it. The coin is
gone from the view even when the asset cache refuses it. -/
def spendCoin (st : CoinState) (outpoint : COutPoint) : Bool × Coin × CoinState :=
  match st.view.spendEntry outpoint with
  | none => (false, Coin.cleared, st)
  | some (coin, view) =>
    if env.areAssetsDeployed then
      match st.cache.trySpendCoin env g coin.out with
      | some cache => (true, coin, ⟨view, cache⟩)
      | none => (false, coin, ⟨view, st.cache⟩)
    else (true, coin, ⟨view, st.cache⟩)

/-- The coins a transaction spent, in the order of its inputs. -/
abbrev CTxUndo := List Coin

/-- Spends the inputs; `none` stands for the assertion that each of them is there. -/
def spendInputs (st : CoinState) (vin : List CTxIn) : Option (CoinState × CTxUndo) :=
  vin.foldlM (fun (st, undo) txin =>
    match spendCoin env g st txin.prevout with
    | (true, coin, st) => some (st, undo ++ [coin])
    | (false, _, _) => none) (st, [])

/-- `UpdateCoins`: the state, the spent coins and the asset undo item. -/
def updateCoins (st : CoinState) (tx : CTransaction) (nHeight : Nat) (blockHash : UInt256) :
    Option (CoinState × CTxUndo × Option (Str × CBlockAssetUndo)) := do
  let (st, txundo) ← if tx.isCoinBase then some (st, []) else spendInputs env g st tx.vin
  let (st, undo) ← addCoins env g st tx nHeight blockHash
  return (st, txundo, undo)

variable {env g}

theorem spendEntry_of_spendCoin {st st' : CoinState} {outpoint : COutPoint} {coin : Coin}
    (h : spendCoin env g st outpoint = (true, coin, st')) :
    st.view.spendEntry outpoint = some (coin, st'.view) := by
  unfold spendCoin at h
  split at h
  · cases h
  next he =>
    rw [he]
    split at h
    · split at h <;> cases h
      rfl
    · cases h
      rfl

/-- The two halves of `UpdateCoins`. -/
theorem exists_of_updateCoins {st st' : CoinState} {tx : CTransaction} {nHeight : Nat}
    {blockHash : UInt256} {txundo : CTxUndo} {undo : Option (Str × CBlockAssetUndo)}
    (h : updateCoins env g st tx nHeight blockHash = some (st', txundo, undo)) :
    ∃ mid, (if tx.isCoinBase then some (st, []) else spendInputs env g st tx.vin) =
        some (mid, txundo) ∧ addCoins env g mid tx nHeight blockHash = some (st', undo) := by
  unfold updateCoins at h
  cases hcb : tx.isCoinBase with
  | true =>
    simp only [hcb, if_true, Option.bind_eq_bind, Option.bind_some, Option.bind_eq_some_iff] at h
    obtain ⟨⟨_, _⟩, ha, hr⟩ := h
    cases hr
    exact ⟨st, rfl, ha⟩
  | false =>
    simp only [hcb, Bool.false_eq_true, if_false, Option.bind_eq_bind, Option.bind_eq_some_iff] at h
    obtain ⟨⟨mid, _⟩, hsp, ⟨_, _⟩, ha, hr⟩ := h
    cases hr
    exact ⟨mid, by simpa using hsp, ha⟩

end Cmusic
