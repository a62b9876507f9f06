import Cmusic.Mempool
import Cmusic.RestrictedEnforcement

/-! Accepting a transaction to the memory pool, and what a rejected one leaves behind. -/
namespace Cmusic

open Fallible Std

def rejectDuplicate : UInt8 := 0x12

def rejectNonStandard : UInt8 := 0x40

def rejectInsufficientFee : UInt8 := 0x42

def maxBip125RbfSequence : UInt32 := 0xfffffffd

/-- The state is left as it was; the caller looks for the missing inputs later. -/
def missingInputs : CValidationState := ⟨0, 0, []⟩

/-- The policy of the node, and what stands for the code that is not modelled: standard forms, lock
times, fees and the script interpreter. -/
structure AcceptPolicy where
  fEnableReplacement : Bool
  isStandardTx : CTransaction → Checked Unit
  checkFinalTx : CTransaction → Bool
  checkSequenceLocks : CTransaction → Bool
  areInputsStandard : CTransaction → CCoinsViewCache → Checked Unit
  /-- The limits on signature operations, fees and chains of unconfirmed transactions. -/
  checkLimits : CTxMemPool → CTransaction → CAmount → Checked Unit
  /-- The rules for a transaction that replaces others, which are given by their ids. -/
  checkReplacement : CTxMemPool → CTransaction → CAmount → List UInt256 → Checked Unit
  checkInputs : CTransaction → CCoinsViewCache → Checked Unit
  /-- Whether `Expire` drops the transaction. -/
  expired : CTransaction → Bool
  /-- The entry with the lowest score, while the pool is above its limit. -/
  worst : CTxMemPool → Option UInt256

namespace CTxMemPool

/-- The view with the coins of the inputs only, from the pool and from the tip below it. -/
def inputView (pool : CTxMemPool) (tip : CCoinsViewCache) (tx : CTransaction) : CCoinsViewCache where
  base := tx.vin.foldl (fun base txin =>
    match pool.getCoin tip txin.prevout with
    | some coin => base.insert txin.prevout coin
    | none => base) ∅

/-- The set of `CalculateMemPoolAncestors`. -/
def ancestorsOf (pool : CTxMemPool) (tx : CTransaction) : TreeSet UInt256 :=
  Walk.walk (fun hash => (pool.linksOf hash).parents) pool.mapTx.size
    (Walk.enstage ∅ ∅ (pool.parentsOf tx)) ∅

end CTxMemPool

def CCoinsViewCache.haveCoinInCache (view : CCoinsViewCache) (outpoint : COutPoint) : Bool :=
  view.cacheCoins[outpoint]?.any fun entry => !entry.coin.isSpent

section

variable (policy : AcceptPolicy) (env : Env) (g : AssetGlobals) (tip : CCoinsViewCache)
  (nSpendHeight : Nat)

/-- One input against the transactions of the pool; only one that signals it can be replaced. -/
def noteConflict (pool : CTxMemPool) (setConflicts : List UInt256) (txin : CTxIn) :
    Checked (List UInt256) :=
  match pool.mapNextTx[txin.prevout]? with
  | none => return setConflicts
  | some conflicting =>
    if setConflicts.contains conflicting.hash then return setConflicts
    else do
      let fReplacementOptOut := !(policy.fEnableReplacement &&
        conflicting.vin.any fun txin => txin.nSequence ≤ maxBip125RbfSequence)
      failIf fReplacementOptOut ⟨0, rejectDuplicate, str "txn-mempool-conflict"⟩
      return setConflicts ++ [conflicting.hash]

/-- Every input must be there; the transaction may be known already. -/
def checkInputThere (pool : CTxMemPool) (tx : CTransaction) (txin : CTxIn) : Checked Unit :=
  failIf ((pool.getCoin tip txin.prevout).isNone)
    (if tx.outpoints.any fun item => tip.haveCoinInCache item.1 then
      ⟨0, rejectDuplicate, str "txn-already-known"⟩ else missingInputs)

/-- What the checks hand over to the part that changes the pool. -/
structure AcceptData where
  vReissueAssets : List (Str × UInt256)
  /-- The transactions that are replaced, with their descendants. -/
  allConflicting : List UInt256

/-- The part of `AcceptToMemoryPoolWorker` that does not change the pool. -/
def acceptChecks (pool : CTxMemPool) (tx : CTransaction) : Checked AcceptData := do
  checkTransaction env tx true true false
  rejectIf tx.isCoinBase 100 (str "coinbase")
  policy.isStandardTx tx
  failIf (!policy.checkFinalTx tx) ⟨0, rejectNonStandard, str "non-final"⟩
  failIf (pool.existsTx tx.hash) ⟨0, rejectDuplicate, str "txn-already-in-mempool"⟩
  let setConflicts ← tx.vin.foldlM (noteConflict policy pool) []
  forM tx.vin (checkInputThere tip pool tx)
  failIf (!policy.checkSequenceLocks tx) ⟨0, rejectNonStandard, str "non-BIP68-final"⟩
  let view := pool.inputView tip tx
  let nFees ← checkTxInputs env tx view nSpendHeight
  rejectIf (!env.areAssetsDeployed &&
      tx.vout.any fun out => (CScript.isAssetScript out.scriptPubKey).isSome) 100
    (str "bad-txns-contained-asset-when-not-active")
  let vReissueAssets ←
    if env.areAssetsDeployed then checkTxAssets env g g.passets tx view pool.toMempoolAssets true
    else pure []
  policy.areInputsStandard tx view
  policy.checkLimits pool tx nFees
  rejectIf (setConflicts.any (pool.ancestorsOf tx).contains) 10
    (str "bad-txns-spends-conflicting-tx")
  if setConflicts ≠ [] then policy.checkReplacement pool tx nFees setConflicts
  policy.checkInputs tx view
  return ⟨vReissueAssets, pool.withDescendants setConflicts⟩

/-- `Expire`. -/
def expire (pool : CTxMemPool) : CTxMemPool :=
  pool.removeStaged (pool.withDescendants
    ((pool.mapTx.toList.filter fun item => policy.expired item.2).map Prod.fst))

/-- `TrimToSize`; every turn removes an entry, so there are at most as many as entries. -/
def trimToSize : Nat → CTxMemPool → CTxMemPool
  | 0, pool => pool
  | fuel + 1, pool =>
    match policy.worst pool with
    | none => pool
    | some entry => trimToSize fuel (pool.removeStaged (pool.withDescendants [entry]))

def limitMempoolSize (pool : CTxMemPool) : CTxMemPool :=
  let pool := expire policy pool
  trimToSize policy pool.mapTx.size pool

/-- Puts the transaction into the pool in the place of those it replaces, and trims the pool. -/
def storeTransaction (bypassLimits : Bool) (pool : CTxMemPool) (tx : CTransaction)
    (allConflicting : List UInt256) : CTxMemPool :=
  let pool := (pool.removeStaged allConflicting).addUnchecked tx
  if bypassLimits then pool else limitMempoolSize policy pool

def noteReissued (pool : CTxMemPool) (out : Str × UInt256) : CTxMemPool :=
  { pool with
    mapReissuedAssets := pool.mapReissuedAssets.insertIfNew out.1 out.2
    mapReissuedTx := pool.mapReissuedTx.insertIfNew out.2 out.1 }

/-- The commands of which the pool holds only one for an asset or for an address and a tag. -/
inductive PoolRequest where
  | globalFreeze (assetName : Str)
  | globalUnfreeze (assetName : Str)
  | addTag (tag : Str × Str)
  | removeTag (tag : Str × Str)
  deriving DecidableEq

def requestOf (out : CTxOut) : Option PoolRequest :=
  if (CScript.isAssetScript out.scriptPubKey).isSome then none
  else if CScript.isNullGlobalRestrictionAssetTxDataScript out.scriptPubKey then
    (globalAssetNullDataFromScript out.scriptPubKey).bind fun data =>
      if data.flag = 1 then some (.globalFreeze data.assetName)
      else if data.flag = 0 then some (.globalUnfreeze data.assetName)
      else none
  else if CScript.isNullAssetTxDataScript out.scriptPubKey then
    (assetNullDataFromScript env out.scriptPubKey).bind fun (data, address) =>
      if isAssetNameAQualifier data.assetName false then
        if data.flag = 1 then some (.addTag (address, data.assetName))
        else some (.removeTag (address, data.assetName))
      else none
  else none

namespace PoolRequest

def pending (pool : CTxMemPool) : PoolRequest → Bool
  | globalFreeze assetName => pool.globalFreezing.byKey.contains assetName
  | globalUnfreeze assetName => pool.globalUnFreezing.byKey.contains assetName
  | addTag tag => pool.addressAddedTag.byKey.contains tag
  | removeTag tag => pool.addressRemoveTag.byKey.contains tag

def reason : PoolRequest → Str
  | globalFreeze _ => str "bad-txns-global-freeze-already-in-mempool"
  | globalUnfreeze _ => str "bad-txns-global-unfreeze-already-in-mempool"
  | addTag _ => str "bad-txns-adding-tag-already-in-mempool"
  | removeTag _ => str "bad-txns-remove-tag-already-in-mempool"

def file (pool : CTxMemPool) (hash : UInt256) : PoolRequest → CTxMemPool
  | globalFreeze assetName => { pool with globalFreezing := pool.globalFreezing.file assetName hash }
  | globalUnfreeze assetName =>
    { pool with globalUnFreezing := pool.globalUnFreezing.file assetName hash }
  | addTag tag => { pool with addressAddedTag := pool.addressAddedTag.file tag hash }
  | removeTag tag => { pool with addressRemoveTag := pool.addressRemoveTag.file tag hash }

end PoolRequest

/-- An asset output: a new name, and what a change of tags or of the verifier can break. -/
def trackAssetOut (hash : UInt256) (pool : CTxMemPool) (out : CTxOut) : CTxMemPool :=
  match getAssetData env out.scriptPubKey with
  | none => pool
  | some data =>
    let pool := if data.type = .newAsset && !isAssetNameAnOwner data.assetName then
      { pool with
        mapAssetToHash := pool.mapAssetToHash.insert data.assetName hash
        mapHashToAsset := pool.mapHashToAsset.insert hash data.assetName }
      else pool
    if env.areRestrictedAssetsDeployed && isAssetNameAnRestricted data.assetName then
      { pool with
        qualifiersChanged := pool.qualifiersChanged.file data.address hash
        verifierChanged := pool.verifierChanged.file data.assetName hash }
    else pool

/-- The loop over the outputs; the changes of the outputs before a refused one stay. -/
def trackOutputs (hash : UInt256) : CTxMemPool → List CTxOut → CTxMemPool × Checked Unit
  | pool, [] => (pool, .ok ())
  | pool, out :: vout =>
    if (CScript.isAssetScript out.scriptPubKey).isSome then
      trackOutputs hash (trackAssetOut env hash pool out) vout
    else match requestOf env out with
      | none => trackOutputs hash pool vout
      | some request =>
        if request.pending pool then (pool, .error ⟨0, rejectInvalid, request.reason⟩)
        else trackOutputs hash (request.file pool hash) vout

/-- An input that spends a restricted asset of the tip. -/
def trackInput (hash : UInt256) (pool : CTxMemPool) (txin : CTxIn) : CTxMemPool :=
  let coin := tip.accessCoin txin.prevout
  if (CScript.isAssetScript coin.out.scriptPubKey).isNone then pool
  else match getAssetData env coin.out.scriptPubKey with
    | none => pool
    | some data =>
      if isAssetNameAnRestricted data.assetName then
        { pool with
          assetMarkedGlobalFrozen := pool.assetMarkedGlobalFrozen.file data.assetName hash
          addressesMarkedFrozen :=
            pool.addressesMarkedFrozen.file (data.address, data.assetName) hash }
      else pool

/-- The maps that are filled once the transaction is stored. -/
def indexTransaction (pool : CTxMemPool) (tx : CTransaction) (vReissueAssets : List (Str × UInt256)) :
    CTxMemPool × Checked Unit :=
  let pool := vReissueAssets.foldl noteReissued pool
  match if env.areAssetsDeployed then trackOutputs env tx.hash pool tx.vout else (pool, .ok ()) with
  | (pool, .error e) => (pool, .error e)
  | (pool, .ok ()) =>
    (if env.areRestrictedAssetsDeployed then tx.vin.foldl (trackInput env tip tx.hash) pool else pool,
      .ok ())

/-- `AcceptToMemoryPoolWorker`: the pool it leaves and its answer. -/
def acceptToMemoryPoolWorker (bypassLimits testAccept : Bool) (pool : CTxMemPool)
    (tx : CTransaction) : CTxMemPool × Checked Unit :=
  match acceptChecks policy env g tip nSpendHeight pool tx with
  | .error e => (pool, .error e)
  | .ok data =>
    if testAccept then (pool, .ok ())
    else
      let stored := storeTransaction policy bypassLimits pool tx data.allConflicting
      if !bypassLimits && !stored.existsTx tx.hash then
        (stored, .error ⟨0, rejectInsufficientFee, str "mempool full"⟩)
      else indexTransaction env tip stored tx data.vReissueAssets

end

/-- No map of the pool but the one of the transactions refers to the id. -/
structure CTxMemPool.NoAssetTrace (pool : CTxMemPool) (hash : UInt256) : Prop where
  reissuedAssets : ∀ name : Str, pool.mapReissuedAssets[name]? ≠ some hash
  reissuedTx : hash ∉ pool.mapReissuedTx
  assetToHash : ∀ name : Str, pool.mapAssetToHash[name]? ≠ some hash
  hashToAsset : hash ∉ pool.mapHashToAsset
  addressesMarkedFrozen : ¬ pool.addressesMarkedFrozen.Mentions hash
  assetMarkedGlobalFrozen : ¬ pool.assetMarkedGlobalFrozen.Mentions hash
  qualifiersChanged : ¬ pool.qualifiersChanged.Mentions hash
  verifierChanged : ¬ pool.verifierChanged.Mentions hash
  globalFreezing : ¬ pool.globalFreezing.Mentions hash
  globalUnFreezing : ¬ pool.globalUnFreezing.Mentions hash
  addressAddedTag : ¬ pool.addressAddedTag.Mentions hash
  addressRemoveTag : ¬ pool.addressRemoveTag.Mentions hash

/-- The transaction is not in the pool, and no map refers to it. -/
def CTxMemPool.NoTrace (pool : CTxMemPool) (hash : UInt256) : Prop :=
  hash ∉ pool.mapTx ∧ pool.NoAssetTrace hash

namespace CTxMemPool

variable {pool : CTxMemPool} {hash other : UInt256} {P : CTxMemPool → Prop}

theorem forall_getElem?_ne_iff {m : StrMap UInt256} :
    (∀ name : Str, m[name]? ≠ some hash) ↔ ∀ row ∈ m.toList, row.2 ≠ hash := by
  constructor
  · intro h row hr heq
    exact h row.1 (heq ▸ TreeMap.mem_toList_iff_getElem?_eq_some.1 hr)
  · intro h name hname
    exact h (name, hash) (TreeMap.mem_toList_iff_getElem?_eq_some.2 hname) rfl

/-- Whether a pool refers to a transaction can be computed. -/
instance : Decidable (pool.NoAssetTrace hash) :=
  decidable_of_iff ((∀ row ∈ pool.mapReissuedAssets.toList, row.2 ≠ hash) ∧
      hash ∉ pool.mapReissuedTx ∧ (∀ row ∈ pool.mapAssetToHash.toList, row.2 ≠ hash) ∧
      hash ∉ pool.mapHashToAsset ∧ ¬ pool.addressesMarkedFrozen.Mentions hash ∧
      ¬ pool.assetMarkedGlobalFrozen.Mentions hash ∧ ¬ pool.qualifiersChanged.Mentions hash ∧
      ¬ pool.verifierChanged.Mentions hash ∧ ¬ pool.globalFreezing.Mentions hash ∧
      ¬ pool.globalUnFreezing.Mentions hash ∧ ¬ pool.addressAddedTag.Mentions hash ∧
      ¬ pool.addressRemoveTag.Mentions hash)
    ⟨fun ⟨h1, h2, h3, h4, h5, h6, h7, h8, h9, h10, h11, h12⟩ =>
      ⟨forall_getElem?_ne_iff.2 h1, h2, forall_getElem?_ne_iff.2 h3, h4, h5, h6, h7, h8, h9, h10,
        h11, h12⟩,
    fun h => ⟨forall_getElem?_ne_iff.1 h.1, h.2, forall_getElem?_ne_iff.1 h.3, h.4, h.5, h.6, h.7,
      h.8, h.9, h.10, h.11, h.12⟩⟩

instance : Decidable (pool.NoTrace hash) := inferInstanceAs (Decidable (_ ∧ _))

theorem KeptByRemoval.trimToSize (h : KeptByRemoval P) (policy : AcceptPolicy) (hp : P pool)
    (fuel : Nat) : P (Cmusic.trimToSize policy fuel pool) := by
  induction fuel generalizing pool with
  | zero => exact hp
  | succ fuel ih =>
    unfold Cmusic.trimToSize
    split
    · exact hp
    · exact ih (h.removeStaged hp _)

theorem KeptByRemoval.limitMempoolSize (h : KeptByRemoval P) (policy : AcceptPolicy)
    (hp : P pool) : P (Cmusic.limitMempoolSize policy pool) :=
  h.trimToSize policy (h.removeStaged hp _) _

/-- What holds of the pool a transaction is added to, and what holds once it is there. -/
theorem KeptByRemoval.storeTransaction {Q : CTxMemPool → Prop} (hP : KeptByRemoval P)
    (hQ : KeptByRemoval Q) (policy : AcceptPolicy) (bypassLimits : Bool) {tx : CTransaction}
    {allConflicting : List UInt256}
    (ha : P (pool.removeStaged allConflicting) →
      Q ((pool.removeStaged allConflicting).addUnchecked tx)) (hp : P pool) :
    Q (Cmusic.storeTransaction policy bypassLimits pool tx allConflicting) := by
  have hst := ha (hP.removeStaged hp allConflicting)
  cases bypassLimits with
  | true => exact hst
  | false => exact hQ.limitMempoolSize policy hst

namespace NoAssetTrace

theorem unlockReissue (h : pool.NoAssetTrace hash) : (pool.unlockReissue other).NoAssetTrace hash := by
  unfold CTxMemPool.unlockReissue
  split
  · exact h
  · split
    · refine { h with reissuedAssets := fun name hname => ?_, reissuedTx := fun hm => ?_ }
      · exact h.reissuedAssets name (by
          rw [TreeMap.getElem?_erase] at hname
          split at hname
          · cases hname
          · exact hname)
      · exact h.reissuedTx (TreeMap.mem_of_mem_erase hm)
    · exact h

theorem eraseAssetName (h : pool.NoAssetTrace hash) :
    (pool.eraseAssetName other).NoAssetTrace hash := by
  unfold CTxMemPool.eraseAssetName
  split
  · exact h
  · refine { h with assetToHash := fun name hname => ?_, hashToAsset := fun hm => ?_ }
    · exact h.assetToHash name (by
        rw [TreeMap.getElem?_erase] at hname
        split at hname
        · cases hname
        · exact hname)
    · exact h.hashToAsset (TreeMap.mem_of_mem_erase hm)

theorem eraseRestricted (h : pool.NoAssetTrace hash) :
    (pool.eraseRestricted other).NoAssetTrace hash :=
  { h with
    addressesMarkedFrozen := mt .of_unfile h.addressesMarkedFrozen
    assetMarkedGlobalFrozen := mt .of_unfile h.assetMarkedGlobalFrozen
    qualifiersChanged := mt .of_unfile h.qualifiersChanged
    verifierChanged := mt .of_unfile h.verifierChanged
    globalFreezing := mt .of_unfile h.globalFreezing
    globalUnFreezing := mt .of_unfile h.globalUnFreezing
    addressAddedTag := mt .of_unfile h.addressAddedTag
    addressRemoveTag := mt .of_unfile h.addressRemoveTag }

theorem keptByRemoval (hash : UInt256) : KeptByRemoval fun pool => pool.NoAssetTrace hash where
  links _ _ h := { h with }
  entry pool other tx _ h := by
    have he : (pool.eraseEntry other tx).NoAssetTrace hash := { h with }
    exact he.unlockReissue.eraseAssetName.eraseRestricted

theorem addUnchecked (h : pool.NoAssetTrace hash) (tx : CTransaction) :
    (pool.addUnchecked tx).NoAssetTrace hash := { h with }

variable {policy : AcceptPolicy}

theorem storeTransaction (h : pool.NoAssetTrace hash) (bypassLimits : Bool) (tx : CTransaction)
    (allConflicting : List UInt256) :
    (Cmusic.storeTransaction policy bypassLimits pool tx allConflicting).NoAssetTrace hash :=
  (keptByRemoval hash).storeTransaction (keptByRemoval hash) policy bypassLimits
    (fun hr => hr.addUnchecked tx) h

end NoAssetTrace

end CTxMemPool

section

variable {policy : AcceptPolicy} {env : Env} {g : AssetGlobals} {tip : CCoinsViewCache}
  {nSpendHeight : Nat} {pool pool' : CTxMemPool} {hash : UInt256} {vout : List CTxOut}
  {tx : CTransaction}

/-- The requests differ from each other and from those the pool holds. -/
def PoolRequest.Fit (pool : CTxMemPool) (requests : List PoolRequest) : Prop :=
  requests.Nodup ∧ ∀ request ∈ requests, request.pending pool = false

theorem PoolRequest.pending_file {request other : PoolRequest} :
    other.pending (request.file pool hash) = (decide (other = request) || other.pending pool) := by
  rw [Bool.eq_iff_iff]
  cases request <;> cases other <;>
    simp [pending, file, TwoWayIndex.mem_byKey_file]

theorem PoolRequest.pending_trackAssetOut {request : PoolRequest} {out : CTxOut} :
    request.pending (trackAssetOut env hash pool out) = request.pending pool := by
  unfold trackAssetOut
  split
  · rfl
  · dsimp only
    split <;> split <;> cases request <;> rfl

/-- The loop goes through exactly if the requests fit. -/
theorem trackOutputs_eq_ok : (trackOutputs env hash pool vout).2 = .ok () ↔
      PoolRequest.Fit pool (vout.filterMap (requestOf env)) := by
  induction vout generalizing pool with
  | nil => simp [trackOutputs, PoolRequest.Fit]
  | cons out vout ih =>
    by_cases ha : (CScript.isAssetScript out.scriptPubKey).isSome = true
    · have hno : requestOf env out = none := by simp [requestOf, ha]
      rw [trackOutputs, if_pos ha, ih, List.filterMap_cons_none hno]
      simp only [PoolRequest.Fit, PoolRequest.pending_trackAssetOut]
    · rw [trackOutputs, if_neg ha]
      cases hr : requestOf env out with
      | none => rw [List.filterMap_cons_none hr]; exact ih
      | some request =>
        rw [List.filterMap_cons_some hr]
        dsimp only
        split
        next hp => simp [PoolRequest.Fit, hp]
        next hp =>
          rw [ih]
          simp only [PoolRequest.Fit, PoolRequest.pending_file, List.nodup_cons,
            List.forall_mem_cons, Bool.or_eq_false_iff, decide_eq_false_iff_not,
            Bool.not_eq_true] at hp ⊢
          constructor
          · rintro ⟨hn, hf⟩
            exact ⟨⟨fun hm => (hf request hm).1 rfl, hn⟩, hp, fun other ho => (hf other ho).2⟩
          · rintro ⟨⟨hnew, hn⟩, -, hf⟩
            exact ⟨hn, fun other ho => ⟨fun heq => hnew (heq ▸ ho), hf other ho⟩⟩

theorem mapTx_trackOutputs : (trackOutputs env hash pool vout).1.mapTx = pool.mapTx := by
  induction vout generalizing pool with
  | nil => rfl
  | cons out vout ih =>
    unfold trackOutputs
    split
    · rw [ih]
      unfold trackAssetOut
      split
      · rfl
      · dsimp only
        split <;> split <;> rfl
    · split
      · exact ih
      next request _ =>
        split
        · rfl
        · rw [ih]
          cases request <;> rfl

theorem mapTx_noteReissued (reissues : List (Str × UInt256)) :
    (reissues.foldl noteReissued pool).mapTx = pool.mapTx := by
  induction reissues generalizing pool with
  | nil => rfl
  | cons reissue reissues ih => exact ih

theorem pending_noteReissued (reissues : List (Str × UInt256)) (request : PoolRequest) :
    request.pending (reissues.foldl noteReissued pool) = request.pending pool := by
  induction reissues generalizing pool with
  | nil => rfl
  | cons reissue reissues ih => exact ih.trans (by cases request <;> rfl)

/-- A refused request leaves the transaction in the pool. -/
theorem indexTransaction_eq_error {reissues : List (Str × UInt256)} {e : CValidationState}
    (h : indexTransaction env tip pool tx reissues = (pool', .error e)) :
    pool'.mapTx = pool.mapTx ∧ ¬ PoolRequest.Fit pool (tx.vout.filterMap (requestOf env)) := by
  unfold indexTransaction at h
  cases hd : env.areAssetsDeployed with
  | false => simp [hd] at h
  | true =>
    simp only [hd, if_true] at h
    cases ht : trackOutputs env tx.hash (reissues.foldl noteReissued pool) tx.vout with
    | mk tracked answer =>
      rw [ht] at h
      cases answer with
      | ok u => cases h
      | error e' =>
        cases h
        have hm := @mapTx_trackOutputs env (reissues.foldl noteReissued pool) tx.hash tx.vout
        rw [ht, mapTx_noteReissued] at hm
        refine ⟨hm, fun hf => ?_⟩
        have hf' : PoolRequest.Fit (reissues.foldl noteReissued pool)
            (tx.vout.filterMap (requestOf env)) := by
          simpa only [PoolRequest.Fit, pending_noteReissued] using hf
        have hok : (trackOutputs env tx.hash (reissues.foldl noteReissued pool) tx.vout).2 = .ok () :=
          trackOutputs_eq_ok.2 hf'
        rw [ht] at hok
        cases hok

/-- Without limits nothing is trimmed. -/
theorem mem_storeTransaction {bypassLimits : Bool} {allConflicting : List UInt256}
    (h : bypassLimits = true) :
    tx.hash ∈ (storeTransaction policy bypassLimits pool tx allConflicting).mapTx := by
  subst h
  exact TreeMap.mem_insertIfNew_self

/-- A transaction the pool knows nothing of leaves nothing behind when it is rejected, unless it
has been stored, is still there when the pool has been trimmed, and one of its requests meets one of
the pool or of an earlier output. -/
theorem acceptToMemoryPoolWorker_noTrace {bypassLimits testAccept : Bool} {tx : CTransaction}
    {e : CValidationState} (hclean : pool.NoTrace tx.hash)
    (hfalse : acceptToMemoryPoolWorker policy env g tip nSpendHeight bypassLimits testAccept pool tx =
      (pool', .error e)) :
    pool'.NoTrace tx.hash ↔ ∀ data, acceptChecks policy env g tip nSpendHeight pool tx = .ok data →
        tx.hash ∈ (storeTransaction policy bypassLimits pool tx data.allConflicting).mapTx →
        PoolRequest.Fit (storeTransaction policy bypassLimits pool tx data.allConflicting)
          (tx.vout.filterMap (requestOf env)) := by
  unfold acceptToMemoryPoolWorker at hfalse
  cases hc : acceptChecks policy env g tip nSpendHeight pool tx with
  | error e' =>
    rw [hc] at hfalse
    cases hfalse
    simp [hclean]
  | ok data =>
    simp only [hc] at hfalse
    cases testAccept with
    | true => cases hfalse
    | false =>
      simp only [Bool.false_eq_true, if_false, Except.ok.injEq, forall_eq'] at hfalse ⊢
      have htr : (storeTransaction policy bypassLimits pool tx
          data.allConflicting).NoAssetTrace tx.hash := hclean.2.storeTransaction _ _ _
      have hb : bypassLimits = true → tx.hash ∈ (storeTransaction policy bypassLimits pool tx
          data.allConflicting).mapTx := mem_storeTransaction
      generalize storeTransaction policy bypassLimits pool tx data.allConflicting = stored
        at hfalse htr hb ⊢
      by_cases hm : tx.hash ∈ stored.mapTx
      · have ht : stored.existsTx tx.hash = true := by simpa [CTxMemPool.existsTx] using hm
        simp only [ht, Bool.not_true, Bool.and_false, Bool.false_eq_true, if_false] at hfalse
        obtain ⟨hma, hn⟩ := indexTransaction_eq_error hfalse
        exact ⟨fun h => (h.1 (hma ▸ hm)).elim, fun h => (hn (h hm)).elim⟩
      · have ht : stored.existsTx tx.hash = false := by
          rw [CTxMemPool.existsTx, ← Bool.not_eq_true, TreeMap.contains_iff_mem]
          exact hm
        have hl : bypassLimits = false := by simpa using mt hb hm
        simp only [ht, hl, Bool.not_false, Bool.and_self, if_true] at hfalse
        cases hfalse
        exact ⟨fun _ h => (hm h).elim, fun _ => ⟨hm, htr⟩⟩

end

/-- A policy without restrictions of its own. -/
def openPolicy : AcceptPolicy where
  fEnableReplacement := true
  isStandardTx _ := .ok ()
  checkFinalTx _ := true
  checkSequenceLocks _ := true
  areInputsStandard _ _ := .ok ()
  checkLimits _ _ _ := .ok ()
  checkReplacement _ _ _ _ := .ok ()
  checkInputs _ _ := .ok ()
  expired _ := false
  worst _ := none

/-- The owner of a restricted asset freezes it for everybody. -/
def freezeTx (hash : UInt256) (prevout : COutPoint) : CTransaction where
  hash
  nVersion := 2
  vin := [⟨prevout, [], 0xffffffff⟩]
  vout := [sampleOwner, ⟨0, CNullAssetTxData.constructGlobalRestrictionTransaction
    { assetName := str "$MUSIC", flag := 1 }⟩]
  nLockTime := 0

def acceptFreeze (policy : AcceptPolicy) (pool : CTxMemPool) (tx : CTransaction) :
    CTxMemPool × Checked Unit :=
  acceptToMemoryPoolWorker policy sampleEnv restrictedGlobals { base := ownedBase } 10 false false
    pool tx

/-- The pool that has accepted one freeze. -/
def freezingPool : CTxMemPool := (acceptFreeze openPolicy {} (freezeTx 31 ownerOutPoint)).1

/-- A policy for a pool with room for one transaction. -/
def onePolicy : AcceptPolicy :=
  { openPolicy with worst := fun pool => if 1 < pool.mapTx.size then some 32 else none }

/-- A second freeze is stored and leaves again when the pool is trimmed. -/
theorem acceptToMemoryPoolWorker_noTrace_trimmed :
    (acceptFreeze onePolicy freezingPool (freezeTx 32 ⟨31, 0⟩)).2 =
      .error ⟨0, rejectInsufficientFee, str "mempool full"⟩ ∧
    (acceptFreeze onePolicy freezingPool (freezeTx 32 ⟨31, 0⟩)).1.NoTrace 32 := by
  have hcl : freezingPool.NoTrace (freezeTx 32 ⟨31, 0⟩).hash := by decide +kernel
  have hf : (acceptFreeze onePolicy freezingPool (freezeTx 32 ⟨31, 0⟩)).2 =
      .error ⟨0, rejectInsufficientFee, str "mempool full"⟩ := by decide +kernel
  have ht : (acceptChecks onePolicy sampleEnv restrictedGlobals { base := ownedBase } 10
      freezingPool (freezeTx 32 ⟨31, 0⟩)).toOption.all fun data => 32 ∉ (storeTransaction onePolicy
        false freezingPool (freezeTx 32 ⟨31, 0⟩) data.allConflicting).mapTx := by decide +kernel
  refine ⟨hf, (acceptToMemoryPoolWorker_noTrace hcl (Prod.ext rfl hf)).2 fun data hd hm => ?_⟩
  rw [hd] at ht
  exact absurd hm (of_decide_eq_true ht)

/-- A freeze that spends the owner token of the first one is refused as a second freeze of the same
asset only when it is in the pool already, and it stays there. -/
theorem acceptToMemoryPoolWorker_secondFreeze :
    (acceptFreeze openPolicy {} (freezeTx 31 ownerOutPoint)).2 = .ok () ∧ freezingPool.NoTrace 32 ∧
    (acceptFreeze openPolicy freezingPool (freezeTx 32 ⟨31, 0⟩)).2 =
      .error ⟨0, rejectInvalid, str "bad-txns-global-freeze-already-in-mempool"⟩ ∧
    32 ∈ (acceptFreeze openPolicy freezingPool (freezeTx 32 ⟨31, 0⟩)).1.mapTx := by
  refine ⟨?_, by decide +kernel, ?_, by decide +kernel⟩
  · decide +kernel
  · decide +kernel

end Cmusic
