import Cmusic.MempoolIndependence
import Cmusic.MempoolNames

/-! The locks of pending reissues, over runs of a node that can be stopped and started again. -/
namespace Cmusic

open Fallible Std Maps

section Scan

variable {env : Env} {g : AssetGlobals} {cache : CAssetsCache} {mempool : MempoolAssets}
  {txid : UInt256} {tx : CTransaction}

/-- What the output loop hands back: pairs of the transaction and names it reissues that are not
locked. -/
theorem pairs_of_scanAssetOutput {vout : List CTxOut} {outs r : AssetOutputs}
    (h : vout.foldlM (scanAssetOutput env g cache mempool txid) outs = .ok r) :
    ∃ added, r.vPairReissueAssets = outs.vPairReissueAssets ++ added ∧
      added.Sublist ((vout.filterMap fun out =>
        (reissueAssetFromScript env out.scriptPubKey).map (·.1.strName)).map (·, txid)) ∧
      ∀ pair ∈ added, mempool.mapReissuedAssets[pair.1]? = none := by
  induction vout generalizing outs with
  | nil =>
    cases h
    exact ⟨[], (List.append_nil _).symm, .refl _, by simp⟩
  | cons out vout ih =>
    obtain ⟨mid, hstep, hr⟩ := bind_eq_ok.1 h
    obtain ⟨added, ha, hsu, hf⟩ := ih hr
    obtain ⟨-, -, hki⟩ := scanAssetOutput_eq_ok.1 hstep
    have hsk : added.Sublist (((out :: vout).filterMap fun out =>
        (reissueAssetFromScript env out.scriptPubKey).map (·.1.strName)).map (·, txid)) := by
      refine hsu.trans (List.Sublist.map _ ?_)
      rw [List.filterMap_cons]
      split
      · exact .refl _
      · exact List.sublist_cons_self _ _
    unfold scanKind at hki
    split at hki
    · obtain ⟨_, _, -, -, -, rfl⟩ := hki
      exact ⟨added, ha, hsk, hf⟩
    · obtain ⟨reissue, address, hpa, hn⟩ := hki
      unfold noteReissue at hn
      split at hn
      · obtain ⟨_, -, hn⟩ := bind_eq_ok.1 hn
        cases hn
        exact ⟨added, ha, hsk, hf⟩
      next hno =>
        cases hn
        refine ⟨(reissue.strName, txid) :: added, ?_, ?_, ?_⟩
        · rw [ha, List.append_assoc]
          rfl
        · rw [List.filterMap_cons, hpa]
          exact hsu.cons_cons _
        · intro pair hp
          rcases List.mem_cons.1 hp with rfl | hp
          · exact hno
          · exact hf pair hp
    · subst hki
      exact ⟨added, ha, hsk, hf⟩

theorem length_reissuedNames_le :
    (reissuedNames env tx).length ≤ (getTxOutAssetTypes tx.vout).reissues := by
  unfold reissuedNames getTxOutAssetTypes
  rw [List.length_filterMap_eq_countP]
  refine List.countP_mono_left fun out _ hso => ?_
  rw [Option.isSome_map] at hso
  obtain ⟨p, hp⟩ := Option.isSome_iff_exists.1 hso
  exact isReissueAsset_of_reissueAssetFromScript hp

/-- A transaction reissues one asset at most. -/
theorem reissues_le_one_of_routed (h : Routed env tx) : (reissuedNames env tx).length ≤ 1 := by
  have hn : (getTxOutAssetTypes tx.vout).reissues = 0 → (reissuedNames env tx).length ≤ 1 := by
    intro hz
    simp [reissuedNames_eq_nil hz]
  cases h with
  | newAsset _ hverify =>
    obtain ⟨asset, hi, -⟩ := verifyNewAsset_ok hverify
    exact hn hi.reissues
  | reissue _ _ hverify =>
    simp only [CTransaction.verifyReissueAsset, failIf_bind_eq_ok] at hverify
    obtain ⟨-, -, hverify⟩ := hverify
    split at hverify
    · cases hverify
    · simp only [failIf_bind_eq_ok, failIf_eq_ok, Bool.or_eq_false_iff, decide_eq_false_iff_not,
        ne_eq, not_not] at hverify
      have hc := @length_reissuedNames_le env tx
      omega
  | unique _ _ _ hverify => simp [(verifyNewUniqueAsset_ok hverify).1]
  | msgChannel _ _ _ _ hverify =>
    obtain ⟨asset, hi, -⟩ := verifyNewMsgChannelAsset_ok hverify
    exact hn hi.reissues
  | qualifier _ _ _ _ _ hverify =>
    obtain ⟨asset, hi, -⟩ := verifyNewQualfierAsset_ok hverify
    exact hn hi.reissues
  | restricted _ _ _ _ _ _ hverify =>
    obtain ⟨asset, hi, -⟩ := verifyNewRestrictedAsset_ok hverify
    exact hn hi.reissues
  | plain _ _ _ _ _ _ hplain =>
    have hna : issuedNames env tx = [] ∧ reissuedNames env tx = [] :=
      names_eq_nil_of_checkPlainOut hplain
    simp [hna.2]

/-- The locks a transaction asks for: none, or one for an asset that it reissues and that is free. -/
theorem AcceptCall.Checks.reissues {call : AcceptCall} {pool : CTxMemPool} {data : AcceptData}
    (h : call.Checks pool data) : data.vReissueAssets = [] ∨ ∃ name,
      data.vReissueAssets = [(name, call.tx.hash)] ∧ name ∈ reissuedNames call.env call.tx ∧
        pool.mapReissuedAssets[name]? = none := by
  cases hd : call.env.areAssetsDeployed with
  | false => exact Or.inl (h.plain hd).2
  | true =>
    obtain ⟨use, hclass⟩ := routed_of_checkTransaction h.transaction
    have hon := reissues_le_one_of_routed (routed_of_checkAssetClass hclass)
    have ha := h.assets hd
    obtain ⟨_, -, ha⟩ := bind_eq_ok.1 ha
    obtain ⟨_, -, ha⟩ := bind_eq_ok.1 ha
    obtain ⟨outs, ho, ha⟩ := bind_eq_ok.1 ha
    obtain ⟨_, -, ha⟩ := bind_eq_ok.1 ha
    obtain ⟨_, -, ha⟩ := bind_eq_ok.1 ha
    have hda := pure_eq_ok.1 ha
    obtain ⟨added, had, hsu, hf⟩ := pairs_of_scanAssetOutput ho
    rw [List.nil_append, hda] at had
    rw [had]
    match hn : reissuedNames call.env call.tx with
    | [] =>
      unfold reissuedNames at hn
      rw [hn] at hsu
      exact Or.inl (List.sublist_nil.1 hsu)
    | [name] =>
      have hn' := hn
      unfold reissuedNames at hn'
      rw [hn', List.map_singleton] at hsu
      rcases List.sublist_singleton.1 hsu with hni | hl
      · exact Or.inl hni
      · refine Or.inr ⟨name, hl, List.mem_singleton_self name, ?_⟩
        exact hf (name, call.tx.hash) (hl ▸ List.mem_singleton_self _)
    | _ :: _ :: _ => simp [hn] at hon

end Scan

/-- The node: its pool, and the row of the database that keeps the locks. -/
structure PoolNode where
  pool : CTxMemPool := {}
  savedReissues : Option (StrMap UInt256) := none

/-- What can happen to the node. A start offers the transactions of `mempool.dat` again. -/
inductive PoolNodeEvent where
  | pool (event : PoolEvent)
  | writeReissuedMempoolState
  | restart (reload : List AcceptCall)

namespace CTxMemPool

/-- The empty pool with the locks as `ReadReissuedMempoolState` reads them back. -/
def readReissuedMempoolState : Option (StrMap UInt256) → CTxMemPool
  | none => {}
  | some saved =>
    { mapReissuedAssets := saved
      mapReissuedTx := saved.toList.foldl (fun m pair => m.insertIfNew pair.2 pair.1) ∅ }

end CTxMemPool

namespace PoolNode

def step (node : PoolNode) : PoolNodeEvent → PoolNode
  | .pool event => { node with pool := node.pool.apply event }
  | .writeReissuedMempoolState => { node with savedReissues := some node.pool.mapReissuedAssets }
  | .restart reload => { node with
      pool := reload.foldl (fun pool call => (pool.accept call).1)
        (CTxMemPool.readReissuedMempoolState node.savedReissues) }

/-- The nodes that a run from the first start can reach by steps that are all allowed. -/
inductive Reachable (Allowed : PoolNode → PoolNodeEvent → Prop) : PoolNode → Prop where
  | start : Reachable Allowed {}
  | step {node : PoolNode} (event : PoolNodeEvent) (h : Reachable Allowed node)
    (hallowed : Allowed node event) : Reachable Allowed (node.step event)

end PoolNode

theorem reissuedNames_env (env env' : Env) (tx : CTransaction) :
    reissuedNames env tx = reissuedNames env' tx := by
  refine List.filterMap_congr fun out _ => ?_
  unfold reissueAssetFromScript
  cases CScript.isScriptReissueAsset out.scriptPubKey with
  | none => rfl
  | some n =>
    rw [Option.bind_eq_bind, Option.bind_some, Option.bind_eq_bind, Option.bind_some]
    cases decode CReissueAsset.unserialize (out.scriptPubKey.drop n) <;> rfl

namespace CTxMemPool

/-- Every lock is held by a transaction of the pool that reissues the asset. -/
def LocksHeld (env : Env) (pool : CTxMemPool) : Prop :=
  ∀ (name : Str) (hash : UInt256), pool.mapReissuedAssets[name]? = some hash →
    ∃ tx, pool.mapTx[hash]? = some tx ∧ name ∈ reissuedNames env tx

/-- The locks, with the map from the transactions to the names they lock. -/
structure LocksTracked (env : Env) (pool : CTxMemPool) : Prop where
  inverse : InverseMaps pool.mapReissuedAssets pool.mapReissuedTx
  held : pool.LocksHeld env

section Locks

variable {env : Env} {pool : CTxMemPool} {hash : UInt256} {tx : CTransaction}

/-- What a lock is about. -/
def lockMaps (pool : CTxMemPool) : TreeMap UInt256 CTransaction × StrMap UInt256 × TreeMap UInt256 Str :=
  (pool.mapTx, pool.mapReissuedAssets, pool.mapReissuedTx)

theorem LocksTracked.congr {q : CTxMemPool} (h : pool.LocksTracked env)
    (hma : q.lockMaps = pool.lockMaps) : q.LocksTracked env := by
  simp only [lockMaps, Prod.mk.injEq] at hma
  obtain ⟨hm, ha, ht⟩ := hma
  constructor
  · rw [ha, ht]
    exact h.inverse
  · unfold LocksHeld
    rw [ha, hm]
    exact h.held

theorem lockMaps_trackAssetOut (out : CTxOut) :
    (trackAssetOut env hash pool out).lockMaps = pool.lockMaps := by
  unfold trackAssetOut
  split
  · rfl
  · split_ifs <;> rfl

theorem lockMaps_file (request : PoolRequest) : (request.file pool hash).lockMaps = pool.lockMaps := by
  cases request <;> rfl

theorem lockMaps_trackOutputs (vout : List CTxOut) :
    (trackOutputs env hash pool vout).1.lockMaps = pool.lockMaps := by
  induction vout generalizing pool with
  | nil => rfl
  | cons out vout ih =>
    unfold trackOutputs
    split
    · rw [ih, lockMaps_trackAssetOut]
    · split
      · exact ih
      · split
        · rfl
        · rw [ih, lockMaps_file]

theorem lockMaps_trackInput {tip : CCoinsViewCache} (txin : CTxIn) :
    (trackInput env tip hash pool txin).lockMaps = pool.lockMaps := by
  unfold trackInput
  dsimp only
  split
  · rfl
  · split
    · rfl
    · split_ifs <;> rfl

theorem lockMaps_indexTransaction {tip : CCoinsViewCache} (reissues : List (Str × UInt256)) :
    (indexTransaction env tip pool tx reissues).1.lockMaps =
      (reissues.foldl noteReissued pool).lockMaps := by
  have hi : ∀ (vin : List CTxIn) (q : CTxMemPool),
      (vin.foldl (trackInput env tip tx.hash) q).lockMaps = q.lockMaps := by
    intro vin
    induction vin with
    | nil => exact fun _ => rfl
    | cons txin vin ih =>
      intro q
      rw [List.foldl_cons, ih, lockMaps_trackInput]
  have ho : ∀ q : CTxMemPool, (if env.areAssetsDeployed then trackOutputs env tx.hash q tx.vout
      else (q, .ok ())).1.lockMaps = q.lockMaps := by
    intro q
    split
    · exact lockMaps_trackOutputs tx.vout
    · rfl
  have hq := ho (reissues.foldl noteReissued pool)
  unfold indexTransaction
  dsimp only
  generalize (if env.areAssetsDeployed then
    trackOutputs env tx.hash (reissues.foldl noteReissued pool) tx.vout
    else (reissues.foldl noteReissued pool, .ok ())) = outcome at hq ⊢
  obtain ⟨q, answer⟩ := outcome
  cases answer with
  | error e => exact hq
  | ok u =>
    dsimp only
    split
    · rw [hi]
      exact hq
    · exact hq

/-- What the loss of an entry does to the locks. -/
theorem lockMaps_eraseRestricted (hash : UInt256) (tx : CTransaction) :
    ((((pool.eraseEntry hash tx).unlockReissue hash).eraseAssetName hash).eraseRestricted
      hash).lockMaps = ((pool.eraseEntry hash tx).unlockReissue hash).lockMaps := by
  unfold eraseRestricted eraseAssetName
  split <;> rfl

/-- The locks left once one is given free. -/
theorem LocksTracked.lock_of_erase {name locked : Str} {other : UInt256} (h : pool.LocksTracked env)
    (hlo : pool.mapReissuedAssets[locked]? = some hash)
    (hl : (pool.mapReissuedAssets.erase locked)[name]? = some other) :
    pool.mapReissuedAssets[name]? = some other ∧ other ≠ hash := by
  have hb := (h.inverse.erase hlo name other).1 hl
  rw [getElem?_erase_eq] at hl hb
  constructor
  · split at hl
    · cases hl
    · exact hl
  · rintro rfl
    rw [if_pos rfl] at hb
    cases hb

theorem LocksTracked.releaseReissue (h : pool.LocksTracked env) (tx : CTransaction) :
    (pool.releaseReissue tx).LocksTracked env := by
  unfold CTxMemPool.releaseReissue
  split
  · exact h
  next locked hso =>
    have hl : pool.mapReissuedAssets[locked]? = some tx.hash := (h.inverse locked tx.hash).2 hso
    refine ⟨h.inverse.erase hl, fun name other hlo => ?_⟩
    exact h.held name other (h.lock_of_erase hl hlo).1

theorem keptByRemoval_locksTracked (env : Env) : KeptByRemoval (LocksTracked env) where
  links _ _ h := ⟨h.inverse, h.held⟩
  entry pool hash tx _ h := by
    refine LocksTracked.congr ?_ (lockMaps_eraseRestricted hash tx)
    have hst : ∀ (name : Str) (other : UInt256), pool.mapReissuedAssets[name]? = some other →
        other ≠ hash → ∃ t, (pool.mapTx.erase hash)[other]? = some t ∧ name ∈ reissuedNames env t := by
      intro name other hl hne
      obtain ⟨t, ht, hname⟩ := h.held name other hl
      refine ⟨t, ?_, hname⟩
      rw [getElem?_erase_of_ne hne, ht]
    unfold unlockReissue
    split
    next hn =>
      refine ⟨h.inverse, fun name other hl => hst name other hl ?_⟩
      rintro rfl
      rw [show (pool.eraseEntry other tx).mapReissuedTx = pool.mapReissuedTx from rfl,
        (h.inverse name other).1 hl] at hn
      cases hn
    next locked hso =>
      have hlo : pool.mapReissuedAssets[locked]? = some hash := (h.inverse locked hash).2 hso
      have hc : (pool.eraseEntry hash tx).mapReissuedAssets.contains locked = true := by
        exact TreeMap.contains_iff_mem.2 (mem_of_getElem? hlo)
      rw [if_pos hc]
      refine ⟨h.inverse.erase hlo, fun name other hl => ?_⟩
      obtain ⟨hl, hne⟩ := h.lock_of_erase hlo hl
      exact hst name other hl hne

/-- A removal sets no lock. -/
theorem keptByRemoval_unlocked (name : Str) (hash : UInt256) :
    KeptByRemoval fun pool => pool.mapReissuedAssets[name]? = none ∧
      pool.mapReissuedTx[hash]? = none where
  links _ _ h := h
  entry pool other tx _ h := by
    have hm := @lockMaps_eraseRestricted pool other tx
    simp only [lockMaps, Prod.mk.injEq] at hm
    rw [hm.2.1, hm.2.2]
    unfold unlockReissue
    split
    · exact h
    · split
      · dsimp only [eraseEntry]
        rw [TreeMap.getElem?_erase, TreeMap.getElem?_erase, h.1, h.2, ite_self, ite_self]
        exact ⟨rfl, rfl⟩
      · exact h

theorem LocksTracked.storeTransaction {call : AcceptCall} {data : AcceptData}
    (h : pool.LocksTracked env) (hc : call.Checks pool data) :
    (storeTransaction call.policy call.bypassLimits pool call.tx
      data.allConflicting).LocksTracked env := by
  refine (keptByRemoval_locksTracked env).storeTransaction (keptByRemoval_locksTracked env)
    call.policy call.bypassLimits (fun hr => ⟨hr.inverse, fun name hash hl => ?_⟩) h
  obtain ⟨t, ht, hname⟩ := hr.held name hash hl
  have hnew : call.tx.hash ∉ (pool.removeStaged data.allConflicting).mapTx := by
    intro hm
    exact hc.new (mem_removeStaged.1 hm).1
  have ho : hash ≠ call.tx.hash := by
    rintro rfl
    exact hnew (mem_of_getElem? ht)
  refine ⟨t, ?_, hname⟩
  rw [getElem?_addUnchecked hnew, if_neg ho, ht]

/-- A new lock on a free asset for a transaction of the pool that holds none. -/
theorem LocksTracked.noteReissued {name : Str} (h : pool.LocksTracked env)
    (htx : pool.mapTx[tx.hash]? = some tx) (hname : name ∈ reissuedNames env tx)
    (hf : pool.mapReissuedAssets[name]? = none) (hn : pool.mapReissuedTx[tx.hash]? = none) :
    (noteReissued pool (name, tx.hash)).LocksTracked env := by
  refine ⟨h.inverse.insertIfNew hf hn, fun other hash hl => ?_⟩
  dsimp only [Cmusic.noteReissued] at hl ⊢
  rw [InverseMaps.getElem?_insertIfNew_of_none hf, getElem?_insert_eq] at hl
  split at hl
  next heq =>
    cases hl
    exact ⟨tx, htx, heq ▸ hname⟩
  · exact h.held other hash hl

/-- Whatever a call answers, it leaves no lock without a holder. -/
theorem LocksTracked.accept (h : pool.LocksTracked env) (call : AcceptCall) :
    (pool.accept call).1.LocksTracked env := by
  unfold CTxMemPool.accept acceptToMemoryPoolWorker
  split
  · exact h
  next data hok =>
    have hc := AcceptCall.checks_of_acceptChecks hok
    split
    · exact h
    · dsimp only
      have hst := h.storeTransaction hc
      split
      · exact hst
      next hth =>
        refine LocksTracked.congr ?_ (lockMaps_indexTransaction data.vReissueAssets)
        rcases hc.reissues with hni | ⟨name, hl, hname, hf⟩
        · rw [hni]
          exact hst
        · have hn : pool.mapReissuedTx[call.tx.hash]? = none := by
            cases hb : pool.mapReissuedTx[call.tx.hash]? with
            | none => rfl
            | some locked =>
              obtain ⟨t, ht, -⟩ := h.held locked _ ((h.inverse _ _).2 hb)
              exact (hc.new (mem_of_getElem? ht)).elim
          have hke := keptByRemoval_unlocked name call.tx.hash
          obtain ⟨hf, hn⟩ := hke.storeTransaction hke call.policy call.bypassLimits
            (fun hr => hr) ⟨hf, hn⟩
          rw [hl]
          exact hst.noteReissued (hc.entry (mem_of_not_full hth))
            (reissuedNames_env call.env env call.tx ▸ hname) hf hn

theorem LocksTracked.apply (h : pool.LocksTracked env) {event : PoolEvent}
    (hc : event = .clear → pool.mapReissuedAssets.isEmpty = true) : (pool.apply event).LocksTracked env := by
  cases event with
  | accept call => exact h.accept call
  | removeStaged stage => exact (keptByRemoval_locksTracked env).removeStaged h stage
  | connectTip env' g tip vtx data =>
    exact (keptByRemoval_locksTracked env).connectTip (fun q tx hq => hq.releaseReissue tx) h env' g
      tip vtx data
  | clear =>
    have he := hc rfl
    refine ⟨h.inverse, fun name hash hl => ?_⟩
    dsimp only [CTxMemPool.apply, clear] at hl
    rw [TreeMap.getElem?_of_isEmpty he] at hl
    cases hl

end Locks

end CTxMemPool

namespace PoolNode

variable {env : Env} {node : PoolNode}

/-- No lock is set when the pool is cleared, and none is saved when the node starts again. -/
def NoLock (node : PoolNode) : PoolNodeEvent → Prop
  | .pool .clear => node.pool.mapReissuedAssets.isEmpty = true
  | .restart _ => node.savedReissues.all TreeMap.isEmpty = true
  | _ => True

theorem locksTracked_empty (env : Env) : ({} : CTxMemPool).LocksTracked env :=
  ⟨fun name hash => by simp, fun name hash hl => by simp at hl⟩

theorem locksTracked_step (h : node.pool.LocksTracked env) {event : PoolNodeEvent}
    (hallowed : node.NoLock event) : (node.step event).pool.LocksTracked env := by
  cases event with
  | pool event =>
    refine h.apply ?_
    rintro rfl
    exact hallowed
  | writeReissuedMempoolState => exact h
  | restart reload =>
    refine CTxMemPool.KeptByRemoval.foldl (P := CTxMemPool.LocksTracked env)
      (fun q call hq => hq.accept call) reload ?_
    cases hsa : node.savedReissues with
    | none => exact locksTracked_empty env
    | some saved =>
      have he : saved.isEmpty = true := by simpa [NoLock, hsa] using hallowed
      have hli : saved.toList = [] := by
        rw [← List.isEmpty_iff, TreeMap.isEmpty_toList, he]
      constructor
      · intro name hash
        simp [CTxMemPool.readReissuedMempoolState, hli, TreeMap.getElem?_of_isEmpty he]
      · intro name hash hl
        dsimp only [CTxMemPool.readReissuedMempoolState] at hl
        rw [TreeMap.getElem?_of_isEmpty he] at hl
        cases hl

/-- Every lock is held by a transaction of the pool, along every run that clears the pool and starts
the node again only while nothing is locked. -/
theorem Reachable.locksHeld (h : Reachable NoLock node) (env : Env) : node.pool.LocksHeld env := by
  suffices ht : node.pool.LocksTracked env from ht.held
  induction h with
  | start => exact locksTracked_empty env
  | step event _ hallowed ih => exact locksTracked_step ih hallowed

end PoolNode

/-- A reissue of `MUSIC` by the holder of the owner token. -/
def reissueCall (hash : UInt256) : AcceptCall :=
  sampleCall sampleEnv ownedGlobals ownedBase
    (chainedReissue hash sampleOutPoint ownerOutPoint (900 * coin) sampleReissue)

def reissueNode : PoolNode := PoolNode.step {} (.pool (.accept (reissueCall 31)))

theorem locksHeld_reissueNode : reissueNode.pool.mapReissuedAssets[str "MUSIC"]? = some 31 ∧
      reissueNode.pool.LocksHeld sampleEnv :=
  ⟨by decide +kernel, PoolNode.Reachable.locksHeld
    (.step (.pool (.accept (reissueCall 31))) .start trivial) sampleEnv⟩

/-- The lock outlives the transaction when the pool is cleared, and when the node starts again
without a file to reload; nobody can reissue the asset from then on. -/
theorem lock_without_holder : (∀ node ∈ [reissueNode.step (.pool .clear),
        (reissueNode.step .writeReissuedMempoolState).step (.restart [])],
      node.pool.mapReissuedAssets[str "MUSIC"]? = some 31 ∧ (31 : UInt256) ∉ node.pool.mapTx ∧
      (node.pool.accept (reissueCall 32)).2 =
        .error ⟨100, rejectInvalid, str "bad-tx-reissue-chaining-not-allowed"⟩) ∧
    ¬ (reissueNode.step (.pool .clear)).pool.LocksHeld sampleEnv := by
  have ha : ∀ node ∈ [reissueNode.step (.pool .clear),
        (reissueNode.step .writeReissuedMempoolState).step (.restart [])],
      node.pool.mapReissuedAssets[str "MUSIC"]? = some 31 ∧ (31 : UInt256) ∉ node.pool.mapTx ∧
      (node.pool.accept (reissueCall 32)).2 =
        .error ⟨100, rejectInvalid, str "bad-tx-reissue-chaining-not-allowed"⟩ := by decide +kernel
  refine ⟨ha, fun hh => ?_⟩
  obtain ⟨hl, hg, -⟩ := ha _ List.mem_cons_self
  obtain ⟨tx, htx, -⟩ := hh _ _ hl
  exact hg (mem_of_getElem? htx)

end Cmusic
