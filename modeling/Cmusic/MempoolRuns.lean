import Cmusic.NameUniqueness
import Cmusic.RemoveForBlock

/-! Runs of the memory pool: transactions are accepted, and they are taken out one by one, for a
block or all at once. -/
namespace Cmusic

open Fallible Std

/-- A call of `AcceptToMemoryPool` with the chain it is made on. -/
structure AcceptCall where
  policy : AcceptPolicy
  env : Env
  g : AssetGlobals
  tip : CCoinsViewCache
  nSpendHeight : Nat
  bypassLimits : Bool
  testAccept : Bool
  tx : CTransaction

/-- What can happen to the pool. Every removal of the source other than for a block hands a set of
entries to `RemoveStaged`. -/
inductive PoolEvent where
  | accept (call : AcceptCall)
  | removeStaged (stage : List UInt256)
  | connectTip (env : Env) (g : AssetGlobals) (tip : TreeMap COutPoint Coin)
    (vtx : List CTransaction) (data : ConnectedBlockAssetData)
  | clear

namespace CTxMemPool

variable (pool : CTxMemPool)

def accept (call : AcceptCall) : CTxMemPool × Checked Unit :=
  acceptToMemoryPoolWorker call.policy call.env call.g call.tip call.nSpendHeight call.bypassLimits
    call.testAccept pool call.tx

/-- `_clear`; the two maps of reissues are no members of the pool, and they stay. -/
def clear : CTxMemPool where
  mapReissuedAssets := pool.mapReissuedAssets
  mapReissuedTx := pool.mapReissuedTx

/-- A transaction of a block gives the asset it reissues free. -/
def releaseReissue (tx : CTransaction) : CTxMemPool :=
  match pool.mapReissuedTx[tx.hash]? with
  | none => pool
  | some name =>
    { pool with
      mapReissuedAssets := pool.mapReissuedAssets.erase name
      mapReissuedTx := pool.mapReissuedTx.erase tx.hash }

/-- What `ConnectTip` does to the pool: first the reissues of the block, then `removeForBlock` over
the coins and the assets after it. -/
def connectTip (env : Env) (g : AssetGlobals) (tip : TreeMap COutPoint Coin)
    (vtx : List CTransaction) (data : ConnectedBlockAssetData) : CTxMemPool :=
  (vtx.foldl releaseReissue pool).removeForBlock env g tip vtx data

/-- The pool after an event, also when a call is refused. -/
def apply : PoolEvent → CTxMemPool
  | .accept call => (pool.accept call).1
  | .removeStaged stage => pool.removeStaged stage
  | .connectTip env g tip vtx data => pool.connectTip env g tip vtx data
  | .clear => pool.clear

/-- The pool after an event; a call that is refused is no step. -/
def step : PoolEvent → Option CTxMemPool
  | .accept call =>
    match pool.accept call with
    | (pool', .ok ()) => some pool'
    | (_, .error _) => none
  | .removeStaged stage => some (pool.removeStaged stage)
  | .connectTip env g tip vtx data => some (pool.connectTip env g tip vtx data)
  | .clear => some pool.clear

/-- The pools that a run from the empty pool can reach by steps that are all allowed. -/
inductive Reachable (Allowed : CTxMemPool → PoolEvent → Prop) : CTxMemPool → Prop where
  | empty : Reachable Allowed {}
  | step {pool pool' : CTxMemPool} (event : PoolEvent) (h : Reachable Allowed pool)
    (hallowed : Allowed pool event) (hstep : pool.step event = some pool') : Reachable Allowed pool'

end CTxMemPool

/-- One turn of the loop over the outputs, when it is not refused. -/
def trackOut (env : Env) (hash : UInt256) (pool : CTxMemPool) (out : CTxOut) : CTxMemPool :=
  if (CScript.isAssetScript out.scriptPubKey).isSome then trackAssetOut env hash pool out
  else match requestOf env out with
    | none => pool
    | some request => request.file pool hash

variable {pool : CTxMemPool}

theorem trackOutputs_eq_foldl {env : Env} {hash : UInt256} {vout : List CTxOut}
    (h : (trackOutputs env hash pool vout).2 = .ok ()) :
    (trackOutputs env hash pool vout).1 = vout.foldl (trackOut env hash) pool := by
  induction vout generalizing pool with
  | nil => rfl
  | cons out vout ih =>
    rw [List.foldl_cons]
    by_cases ha : (CScript.isAssetScript out.scriptPubKey).isSome = true
    · rw [trackOutputs, if_pos ha] at h ⊢
      rw [trackOut, if_pos ha]
      exact ih h
    · rw [trackOutputs, if_neg ha] at h ⊢
      rw [trackOut, if_neg ha]
      cases hr : requestOf env out with
      | none =>
        rw [hr] at h
        exact ih h
      | some request =>
        simp only [hr] at h ⊢
        by_cases hp : request.pending pool = true
        · rw [if_pos hp] at h
          cases h
        · rw [if_neg hp] at h ⊢
          exact ih h

/-- The maps as a transaction leaves them when none of its requests is refused. -/
def indexed (env : Env) (tip : CCoinsViewCache) (pool : CTxMemPool) (tx : CTransaction)
    (vReissueAssets : List (Str × UInt256)) : CTxMemPool :=
  let pool := vReissueAssets.foldl noteReissued pool
  let pool := if env.areAssetsDeployed then tx.vout.foldl (trackOut env tx.hash) pool else pool
  if env.areRestrictedAssetsDeployed then tx.vin.foldl (trackInput env tip tx.hash) pool else pool

variable {pool' : CTxMemPool} {tx : CTransaction}

theorem indexTransaction_eq_ok {env : Env} {tip : CCoinsViewCache}
    {vReissueAssets : List (Str × UInt256)}
    (h : indexTransaction env tip pool tx vReissueAssets = (pool', .ok ())) :
    pool' = indexed env tip pool tx vReissueAssets := by
  unfold indexTransaction at h
  unfold indexed
  by_cases hd : env.areAssetsDeployed = true
  · simp only [if_pos hd] at h ⊢
    split at h
    · cases h
    next tracked ht =>
      have hok : (trackOutputs env tx.hash (vReissueAssets.foldl noteReissued pool) tx.vout).2 =
          .ok () := by rw [ht]
      have hf := trackOutputs_eq_foldl hok
      rw [ht] at hf
      rw [← hf]
      exact (Prod.mk.inj h).1.symm
  · simp only [if_neg hd] at h ⊢
    exact (Prod.mk.inj h).1.symm

/-- What a successful call has done. -/
structure AcceptCall.Stored (call : AcceptCall) (pool pool' : CTxMemPool) (data : AcceptData) :
    Prop where
  checks : acceptChecks call.policy call.env call.g call.tip call.nSpendHeight pool call.tx = .ok data
  mem : call.tx.hash ∈ (storeTransaction call.policy call.bypassLimits pool call.tx
    data.allConflicting).mapTx
  index : indexTransaction call.env call.tip (storeTransaction call.policy call.bypassLimits pool
    call.tx data.allConflicting) call.tx data.vReissueAssets = (pool', .ok ())

/-- What the checks of a call say about the transaction and the pool. -/
structure AcceptCall.Checks (call : AcceptCall) (pool : CTxMemPool) (data : AcceptData) : Prop where
  transaction : checkTransaction call.env call.tx true true false = .ok ()
  new : call.tx.hash ∉ pool.mapTx
  plain : call.env.areAssetsDeployed = false → NoAssetOuts call.tx ∧ data.vReissueAssets = []
  assets : call.env.areAssetsDeployed = true → checkTxAssets call.env call.g call.g.passets call.tx
    (pool.inputView call.tip call.tx) pool.toMempoolAssets true = .ok data.vReissueAssets

variable {data : AcceptData}

/-- The checks after those of the assets hand the reissues on. -/
theorem vReissueAssets_of_policy {policy : AcceptPolicy} {view : CCoinsViewCache} {nFees : CAmount}
    {setConflicts : List UInt256} {reissues : List (Str × UInt256)}
    (h : (do
      policy.areInputsStandard tx view
      policy.checkLimits pool tx nFees
      rejectIf (setConflicts.any (pool.ancestorsOf tx).contains) 10
        (str "bad-txns-spends-conflicting-tx")
      if setConflicts ≠ [] then policy.checkReplacement pool tx nFees setConflicts
      policy.checkInputs tx view
      return (⟨reissues, pool.withDescendants setConflicts⟩ : AcceptData)) = .ok data) :
    data.vReissueAssets = reissues := by
  obtain ⟨_, -, h⟩ := bind_eq_ok.1 h
  obtain ⟨_, -, h⟩ := bind_eq_ok.1 h
  obtain ⟨_, -, h⟩ := bind_eq_ok.1 h
  split at h
  · obtain ⟨_, -, h⟩ := bind_eq_ok.1 h
    obtain ⟨_, -, h⟩ := bind_eq_ok.1 h
    exact congrArg AcceptData.vReissueAssets (pure_eq_ok.1 h).symm
  · obtain ⟨_, -, h⟩ := bind_eq_ok.1 h
    exact congrArg AcceptData.vReissueAssets (pure_eq_ok.1 h).symm

variable {call : AcceptCall}

theorem AcceptCall.checks_of_acceptChecks
    (h : acceptChecks call.policy call.env call.g call.tip call.nSpendHeight pool call.tx = .ok data) :
    call.Checks pool data := by
  obtain ⟨_, ht, hc⟩ := bind_eq_ok.1 h
  -- the coinbase, the standard form and the lock time
  obtain ⟨_, -, hc⟩ := bind_eq_ok.1 hc
  obtain ⟨_, -, hc⟩ := bind_eq_ok.1 hc
  obtain ⟨_, -, hc⟩ := bind_eq_ok.1 hc
  obtain ⟨_, hnew, hc⟩ := bind_eq_ok.1 hc
  -- conflicts, missing inputs, sequence locks and the fee
  obtain ⟨_, -, hc⟩ := bind_eq_ok.1 hc
  obtain ⟨_, -, hc⟩ := bind_eq_ok.1 hc
  obtain ⟨_, -, hc⟩ := bind_eq_ok.1 hc
  obtain ⟨_, -, hc⟩ := bind_eq_ok.1 hc
  obtain ⟨_, hplain, hc⟩ := bind_eq_ok.1 hc
  have hr : ∃ reissues, (if call.env.areAssetsDeployed then checkTxAssets call.env call.g
      call.g.passets call.tx (pool.inputView call.tip call.tx) pool.toMempoolAssets true
      else pure []) = .ok reissues ∧ data.vReissueAssets = reissues := by
    by_cases hd : call.env.areAssetsDeployed = true
    · simp only [if_pos hd] at hc ⊢
      obtain ⟨reissues, ha, hc⟩ := bind_eq_ok.1 hc
      exact ⟨reissues, ha, vReissueAssets_of_policy hc⟩
    · simp only [if_neg hd] at hc ⊢
      obtain ⟨reissues, ha, hc⟩ := bind_eq_ok.1 hc
      exact ⟨reissues, ha, vReissueAssets_of_policy hc⟩
  obtain ⟨reissues, ha, hda⟩ := hr
  refine ⟨ht, ?_, fun ho => ⟨fun out hout => ?_, ?_⟩, fun hon => ?_⟩
  · have hnew := failIf_eq_ok.1 hnew
    rwa [CTxMemPool.existsTx, ← Bool.not_eq_true, TreeMap.contains_iff_mem] at hnew
  · have hn := failIf_eq_ok.1 hplain
    simp only [ho, Bool.not_false, Bool.true_and, List.any_eq_false] at hn
    simpa using hn out hout
  · rw [ho, if_neg (by decide)] at ha
    exact hda.trans (pure_eq_ok.1 ha).symm
  · rw [hon, if_pos rfl] at ha
    rw [ha, hda]

theorem AcceptCall.Stored.parts (h : call.Stored pool pool' data) : call.Checks pool data :=
  checks_of_acceptChecks h.checks

namespace CTxMemPool

variable {pool pool' : CTxMemPool} {call : AcceptCall} {P : CTxMemPool → Prop}
  {Allowed : CTxMemPool → PoolEvent → Prop}

/-- A transaction that the limits have not thrown out is in the pool. -/
theorem mem_of_not_full {policy : AcceptPolicy} {bypassLimits : Bool} {tx : CTransaction}
    {allConflicting : List UInt256}
    (h : ¬ (!bypassLimits && !(storeTransaction policy bypassLimits pool tx allConflicting).existsTx
      tx.hash) = true) :
    tx.hash ∈ (storeTransaction policy bypassLimits pool tx allConflicting).mapTx := by
  cases bypassLimits with
  | true => exact mem_storeTransaction rfl
  | false => simpa [existsTx] using h

/-- The two outcomes of a successful call: a trial changes nothing. -/
theorem accept_eq_ok (h : pool.accept call = (pool', .ok ())) :
    pool' = pool ∨ ∃ data, call.Stored pool pool' data := by
  unfold accept acceptToMemoryPoolWorker at h
  split at h
  · cases h
  next data hc =>
    split at h
    · cases h
      exact Or.inl rfl
    · dsimp only at h
      split at h
      · cases h
      next ht => exact Or.inr ⟨data, hc, mem_of_not_full ht, h⟩

/-- A pool that is reached by a step is reached by one of the four operations. -/
theorem step_cases {event : PoolEvent} (h : pool.step event = some pool') :
    (∃ call, event = .accept call ∧ pool.accept call = (pool', .ok ())) ∨
    (∃ stage, event = .removeStaged stage ∧ pool' = pool.removeStaged stage) ∨
    (∃ env g tip vtx data, event = .connectTip env g tip vtx data ∧
      pool' = pool.connectTip env g tip vtx data) ∨
    (event = .clear ∧ pool' = pool.clear) := by
  cases event with
  | accept call =>
    refine Or.inl ⟨call, rfl, ?_⟩
    dsimp only [step] at h
    split at h
    next heq =>
      cases h
      exact heq
    · cases h
  | removeStaged stage => exact Or.inr (Or.inl ⟨stage, rfl, (Option.some.inj h).symm⟩)
  | connectTip env g tip vtx data =>
    exact Or.inr (Or.inr (Or.inl ⟨env, g, tip, vtx, data, rfl, (Option.some.inj h).symm⟩))
  | clear => exact Or.inr (Or.inr (Or.inr ⟨rfl, (Option.some.inj h).symm⟩))

/-- What a release and the loss of an entry keep, a block keeps. -/
theorem KeptByRemoval.connectTip (h : KeptByRemoval P)
    (hr : ∀ pool tx, P pool → P (releaseReissue pool tx)) (hp : P pool) (env : Env)
    (g : AssetGlobals) (tip : TreeMap COutPoint Coin) (vtx : List CTransaction)
    (data : ConnectedBlockAssetData) : P (pool.connectTip env g tip vtx data) := by
  unfold CTxMemPool.connectTip
  exact h.removeForBlock (foldl (P := P) hr vtx hp) vtx data

/-- What a property has to survive in order to hold along a run. -/
theorem Reachable.invariant (he : P {}) (hr : KeptByRemoval P)
    (hre : ∀ pool tx, P pool → P (releaseReissue pool tx))
    (hcl : ∀ pool, P pool → Allowed pool .clear → P pool.clear)
    (ha : ∀ pool pool' call data, P pool → Allowed pool (.accept call) →
      call.Stored pool pool' data → P pool') (h : Reachable Allowed pool) : P pool := by
  induction h with
  | empty => exact he
  | @step pool pool' event _ hallowed hstep ih =>
    obtain ⟨call, rfl, hc⟩ | ⟨stage, rfl, rfl⟩ | ⟨env, g, tip, vtx, data, rfl, rfl⟩ | ⟨rfl, rfl⟩ :=
      step_cases hstep
    · rcases accept_eq_ok hc with rfl | ⟨data, hst⟩
      · exact ih
      · exact ha pool pool' call data ih hallowed hst
    · exact hr.removeStaged ih stage
    · exact hr.connectTip hre ih env g tip vtx data
    · exact hcl pool ih hallowed

end CTxMemPool

end Cmusic
