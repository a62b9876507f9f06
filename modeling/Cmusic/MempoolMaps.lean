import Cmusic.MempoolNames
import Cmusic.CommandRoundTrip

/-! The asset maps of the memory pool and the maps the other way. -/
namespace Cmusic

open Fallible Std Maps

/-- The requests that concern a tag. -/
def PoolRequest.isTag : PoolRequest → Bool
  | addTag _ | removeTag _ => true
  | _ => false

namespace CTxMemPool

/-- The map from names to transactions and the one from transactions to names. -/
structure NamesExact (pool : CTxMemPool) : Prop where
  inverse : InverseMaps pool.mapAssetToHash pool.mapHashToAsset
  within : ∀ hash ∈ pool.mapHashToAsset, hash ∈ pool.mapTx

/-- The other pairs of maps. -/
structure IndexesExact (pool : CTxMemPool) : Prop where
  addressesMarkedFrozen : pool.addressesMarkedFrozen.Exact (· ∈ pool.mapTx)
  assetMarkedGlobalFrozen : pool.assetMarkedGlobalFrozen.Exact (· ∈ pool.mapTx)
  qualifiersChanged : pool.qualifiersChanged.Exact (· ∈ pool.mapTx)
  verifierChanged : pool.verifierChanged.Exact (· ∈ pool.mapTx)
  globalFreezing : pool.globalFreezing.Exact (· ∈ pool.mapTx)
  globalUnFreezing : pool.globalUnFreezing.Exact (· ∈ pool.mapTx)
  addressAddedTag : pool.addressAddedTag.Exact (· ∈ pool.mapTx)
  addressRemoveTag : pool.addressRemoveTag.Exact (· ∈ pool.mapTx)

/-- Every map and the map the other way are inverse relations, and every transaction that occurs in
one of them is in the pool. -/
structure MapsExact (pool : CTxMemPool) : Prop where
  names : pool.NamesExact
  indexes : pool.IndexesExact

/-- No transaction is filed for a tag. -/
structure Tagless (pool : CTxMemPool) : Prop where
  added : pool.addressAddedTag = {}
  removed : pool.addressRemoveTag = {}

section Removal

variable {pool : CTxMemPool}

theorem keptByRemoval_namesExact : KeptByRemoval NamesExact where
  links _ _ h := ⟨h.inverse, h.within⟩
  entry pool hash tx _ h := by
    obtain ⟨hn, hh, he⟩ := @maps_eraseRestricted pool hash tx
    have hl : ∀ k ∈ pool.mapHashToAsset, k ≠ hash → k ∈ pool.mapTx.erase hash := by
      intro k hk hne
      exact mem_erase_iff.2 ⟨hne, h.within k hk⟩
    cases hname : pool.mapHashToAsset[hash]? with
    | none =>
      rw [hname, Option.elim_none] at hn hh
      refine ⟨by rw [hn, hh]; exact h.inverse, fun k hk => ?_⟩
      rw [hh] at hk
      rw [he]
      refine hl k hk ?_
      rintro rfl
      obtain ⟨name, hg⟩ := exists_getElem? hk
      cases hname.symm.trans hg
    | some name =>
      rw [hname, Option.elim_some] at hn hh
      refine ⟨?_, fun k hk => ?_⟩
      · rw [hn, hh]
        exact h.inverse.erase ((h.inverse name hash).2 hname)
      · rw [hh, mem_erase_iff] at hk
        rw [he]
        exact hl k hk.2 hk.1

/-- What the loss of an entry does to the other maps. -/
theorem indexes_eraseRestricted (hash : UInt256) (tx : CTransaction) :
    ∃ q : CTxMemPool, (((pool.eraseEntry hash tx).unlockReissue hash).eraseAssetName hash) = q ∧
      q.mapTx = pool.mapTx.erase hash ∧
      q.addressesMarkedFrozen = pool.addressesMarkedFrozen ∧
      q.assetMarkedGlobalFrozen = pool.assetMarkedGlobalFrozen ∧
      q.qualifiersChanged = pool.qualifiersChanged ∧ q.verifierChanged = pool.verifierChanged ∧
      q.globalFreezing = pool.globalFreezing ∧ q.globalUnFreezing = pool.globalUnFreezing ∧
      q.addressAddedTag = pool.addressAddedTag ∧ q.addressRemoveTag = pool.addressRemoveTag := by
  refine ⟨_, rfl, ?_⟩
  unfold eraseAssetName unlockReissue
  split <;> split <;> (try split) <;> exact ⟨rfl, rfl, rfl, rfl, rfl, rfl, rfl, rfl, rfl⟩

theorem keptByRemoval_indexesExact :
    KeptByRemoval fun pool => pool.IndexesExact ∧ pool.Tagless where
  links _ _ h := ⟨{ h.1 with }, { h.2 with }⟩
  entry pool hash tx _ h := by
    obtain ⟨he, ht⟩ := h
    obtain ⟨q, hq, hm, h1, h2, h3, h4, h5, h6, h7, h8⟩ := @indexes_eraseRestricted pool hash tx
    have hl : ∀ k, k ∈ pool.mapTx ∧ k ≠ hash → k ∈ q.mapTx := by
      rintro k ⟨hk, hne⟩
      exact hm ▸ mem_erase_iff.2 ⟨hne, hk⟩
    have ha : (q.eraseRestricted hash).addressAddedTag = {} := by
      rw [eraseRestricted, h7, ht.added]
      rfl
    have hr : (q.eraseRestricted hash).addressRemoveTag = {} := by
      rw [eraseRestricted, h8, ht.removed]
      rfl
    rw [hq]
    refine ⟨?_, ⟨ha, hr⟩⟩
    exact {
      addressesMarkedFrozen := (h1 ▸ he.addressesMarkedFrozen.unfile false hash).mono hl
      assetMarkedGlobalFrozen := (h2 ▸ he.assetMarkedGlobalFrozen.unfile false hash).mono hl
      qualifiersChanged := (h3 ▸ he.qualifiersChanged.unfile false hash).mono hl
      verifierChanged := (h4 ▸ he.verifierChanged.unfile false hash).mono hl
      globalFreezing := (h5 ▸ he.globalFreezing.unfile true hash).mono hl
      globalUnFreezing := (h6 ▸ he.globalUnFreezing.unfile true hash).mono hl
      addressAddedTag := ha ▸ .empty
      addressRemoveTag := hr ▸ .empty }

end Removal

section Indexing

variable {env : Env} {pool pool' : CTxMemPool} {hash : UInt256} {call : AcceptCall}
  {data : AcceptData} {tip : CCoinsViewCache} {tx : CTransaction} {reissues : List (Str × UInt256)}

/-- The maps other than those of the names, while a transaction of the pool is filed. -/
def Filed (hash : UInt256) (pool : CTxMemPool) : Prop :=
  (pool.IndexesExact ∧ pool.Tagless) ∧ hash ∈ pool.mapTx

theorem Filed.trackAssetOut (h : pool.Filed hash) (out : CTxOut) :
    (trackAssetOut env hash pool out).Filed hash := by
  unfold Cmusic.trackAssetOut
  split
  · exact h
  next data _ =>
    extract_lets q
    have hq : q.Filed hash := by
      dsimp only [q]
      split
      · exact ⟨⟨{ h.1.1 with }, { h.1.2 with }⟩, h.2⟩
      · exact h
    obtain ⟨⟨he, ht⟩, hm⟩ := hq
    split
    · exact ⟨⟨{ he with
        qualifiersChanged := he.qualifiersChanged.file _ hm
        verifierChanged := he.verifierChanged.file _ hm }, { ht with }⟩, hm⟩
    · exact ⟨⟨he, ht⟩, hm⟩

theorem Filed.request (h : pool.Filed hash) {request : PoolRequest} (hta : request.isTag = false) :
    (request.file pool hash).Filed hash := by
  obtain ⟨⟨he, ht⟩, hm⟩ := h
  cases request with
  | globalFreeze assetName =>
    exact ⟨⟨{ he with globalFreezing := he.globalFreezing.file _ hm }, { ht with }⟩, hm⟩
  | globalUnfreeze assetName =>
    exact ⟨⟨{ he with globalUnFreezing := he.globalUnFreezing.file _ hm }, { ht with }⟩, hm⟩
  | addTag tag => cases hta
  | removeTag tag => cases hta

theorem Filed.trackOuts {vout : List CTxOut} (h : pool.Filed hash)
    (ht : ∀ out ∈ vout, ∀ request, requestOf env out = some request → request.isTag = false) :
    (vout.foldl (trackOut env hash) pool).Filed hash := by
  induction vout generalizing pool with
  | nil => exact h
  | cons out vout ih =>
    refine ih ?_ fun other ho => ht other (List.mem_cons_of_mem out ho)
    unfold trackOut
    split
    · exact h.trackAssetOut out
    · split
      · exact h
      next request hr => exact h.request (ht out List.mem_cons_self request hr)

theorem Filed.trackInput (h : pool.Filed hash) (txin : CTxIn) :
    (trackInput env tip hash pool txin).Filed hash := by
  obtain ⟨⟨he, ht⟩, hm⟩ := h
  unfold Cmusic.trackInput
  dsimp only
  split
  · exact ⟨⟨he, ht⟩, hm⟩
  · split
    · exact ⟨⟨he, ht⟩, hm⟩
    · split
      · exact ⟨⟨{ he with
          assetMarkedGlobalFrozen := he.assetMarkedGlobalFrozen.file _ hm
          addressesMarkedFrozen := he.addressesMarkedFrozen.file _ hm }, { ht with }⟩, hm⟩
      · exact ⟨⟨he, ht⟩, hm⟩

theorem Filed.noteReissued (h : pool.Filed hash) (reissue : Str × UInt256) :
    (noteReissued pool reissue).Filed hash :=
  ⟨⟨{ h.1.1 with }, { h.1.2 with }⟩, h.2⟩

theorem Filed.indexed (h : pool.Filed tx.hash)
    (ht : ∀ out ∈ tx.vout, ∀ request, requestOf env out = some request → request.isTag = false) :
    (Cmusic.indexed env tip pool tx reissues).Filed tx.hash := by
  have hn : (reissues.foldl Cmusic.noteReissued pool).Filed tx.hash :=
    KeptByRemoval.foldl (P := Filed tx.hash) (fun q reissue hq => hq.noteReissued reissue) reissues h
  have ho : (if env.areAssetsDeployed then
      tx.vout.foldl (trackOut env tx.hash) (reissues.foldl Cmusic.noteReissued pool)
      else reissues.foldl Cmusic.noteReissued pool).Filed tx.hash := by
    split
    · exact hn.trackOuts ht
    · exact hn
  unfold Cmusic.indexed
  dsimp only
  split
  · exact KeptByRemoval.foldl (P := Filed tx.hash) (fun q txin hq => hq.trackInput txin) tx.vin ho
  · exact ho

/-- What an accepted transaction may carry: at most one name for the map of names, which is new to it,
and no tag. -/
def PlainRequests (pool : CTxMemPool) : PoolEvent → Prop
  | .accept call => (trackedNames call.env call.tx).length ≤ 1 ∧
      (∀ name ∈ trackedNames call.env call.tx, name ∉ pool.mapAssetToHash) ∧
      ∀ out ∈ call.tx.vout, ∀ request, requestOf call.env out = some request → request.isTag = false
  | _ => True

theorem NamesExact.indexed (h : pool.NamesExact) (hme : tx.hash ∈ pool.mapTx)
    (hplain : env.areAssetsDeployed = false → trackedNames env tx = [])
    (ho : (trackedNames env tx).length ≤ 1)
    (hf : ∀ name ∈ trackedNames env tx, name ∉ pool.mapAssetToHash)
    (hnew : tx.hash ∉ pool.mapHashToAsset) : (indexed env tip pool tx reissues).NamesExact := by
  have hi := nameMaps_indexed env tip pool reissues hplain
  simp only [nameMaps, Prod.mk.injEq] at hi
  obtain ⟨hm, hn, hh⟩ := hi
  rcases ht : trackedNames env tx with _ | ⟨name, _ | ⟨next, rest⟩⟩
  · rw [ht, List.foldl_nil] at hn hh
    exact ⟨by rw [hn, hh]; exact h.inverse, by rw [hh, hm]; exact h.within⟩
  · rw [ht, List.foldl_cons, List.foldl_nil] at hn hh
    have hname : pool.mapAssetToHash[name]? = none :=
      TreeMap.getElem?_eq_none (hf name (ht ▸ List.mem_singleton_self name))
    have hha : pool.mapHashToAsset[tx.hash]? = none := TreeMap.getElem?_eq_none hnew
    refine ⟨by rw [hn, hh]; exact h.inverse.insert hname hha, fun k hk => ?_⟩
    rw [hh, mem_insert_iff] at hk
    rw [hm]
    rcases hk with rfl | hk
    · exact hme
    · exact h.within k hk
  · simp [ht] at ho

theorem keptByRemoval_notMem_mapHashToAsset (hash : UInt256) :
    KeptByRemoval fun pool => hash ∉ pool.mapHashToAsset where
  links _ _ h := h
  entry pool other tx _ h := by
    rw [(maps_eraseRestricted other tx).2.1]
    cases pool.mapHashToAsset[other]? with
    | none => exact h
    | some name => exact fun hm => h (TreeMap.mem_of_mem_erase hm)

theorem mono_addUnchecked {k : UInt256} (tx : CTransaction) (h : k ∈ pool.mapTx) :
    k ∈ (pool.addUnchecked tx).mapTx :=
  TreeMap.mem_insertIfNew.2 (Or.inr h)

theorem NamesExact.accept (h : pool.NamesExact) (hst : call.Stored pool pool' data)
    (ho : (trackedNames call.env call.tx).length ≤ 1)
    (hf : ∀ name ∈ trackedNames call.env call.tx, name ∉ pool.mapAssetToHash) :
    pool'.NamesExact := by
  have hc := hst.parts
  have hnew : call.tx.hash ∉ pool.mapHashToAsset := fun hm => hc.new (h.within _ hm)
  have hke := keptByRemoval_notMem_mapHashToAsset call.tx.hash
  rw [indexTransaction_eq_ok hst.index]
  refine NamesExact.indexed ?_ hst.mem
    (fun hof => trackedNames_of_noAssetOuts (hc.plain hof).1) ho (fun name hname => ?_)
    (hke.storeTransaction hke call.policy call.bypassLimits (fun hr => hr) hnew)
  · refine keptByRemoval_namesExact.storeTransaction keptByRemoval_namesExact call.policy
      call.bypassLimits (fun hr => ?_) h
    exact ⟨hr.inverse, fun k hk => mono_addUnchecked call.tx (hr.within k hk)⟩
  · have hke := keptByRemoval_notMem_mapAssetToHash name
    exact hke.storeTransaction hke call.policy call.bypassLimits (fun hr => hr)
      (hf name hname)

theorem Filed.accept (h : pool.IndexesExact ∧ pool.Tagless) (hst : call.Stored pool pool' data)
    (ht : ∀ out ∈ call.tx.vout, ∀ request, requestOf call.env out = some request →
      request.isTag = false) : pool'.IndexesExact ∧ pool'.Tagless := by
  rw [indexTransaction_eq_ok hst.index]
  refine (Filed.indexed ⟨?_, hst.mem⟩ ht).1
  refine keptByRemoval_indexesExact.storeTransaction keptByRemoval_indexesExact call.policy
    call.bypassLimits (fun hr => ?_) h
  exact ⟨{
    addressesMarkedFrozen := hr.1.addressesMarkedFrozen.mono fun k => mono_addUnchecked call.tx
    assetMarkedGlobalFrozen :=
      hr.1.assetMarkedGlobalFrozen.mono fun k => mono_addUnchecked call.tx
    qualifiersChanged := hr.1.qualifiersChanged.mono fun k => mono_addUnchecked call.tx
    verifierChanged := hr.1.verifierChanged.mono fun k => mono_addUnchecked call.tx
    globalFreezing := hr.1.globalFreezing.mono fun k => mono_addUnchecked call.tx
    globalUnFreezing := hr.1.globalUnFreezing.mono fun k => mono_addUnchecked call.tx
    addressAddedTag := hr.1.addressAddedTag.mono fun k => mono_addUnchecked call.tx
    addressRemoveTag := hr.1.addressRemoveTag.mono fun k => mono_addUnchecked call.tx },
    { hr.2 with }⟩

theorem namesExact_empty : ({} : CTxMemPool).NamesExact :=
  ⟨fun name hash => by simp, by simp⟩

theorem indexesExact_empty : ({} : CTxMemPool).IndexesExact ∧ ({} : CTxMemPool).Tagless :=
  ⟨⟨.empty, .empty, .empty, .empty, .empty, .empty, .empty, .empty⟩, ⟨rfl, rfl⟩⟩

/-- The maps are exact along every run whose accepted transactions carry at most one new name and no
tag. -/
theorem Reachable.mapsExact (h : Reachable PlainRequests pool) : pool.MapsExact := by
  suffices ha : pool.NamesExact ∧ pool.IndexesExact ∧ pool.Tagless from ⟨ha.1, ha.2.1⟩
  refine Reachable.invariant (P := fun pool => pool.NamesExact ∧ pool.IndexesExact ∧ pool.Tagless)
    ⟨namesExact_empty, indexesExact_empty⟩
    (keptByRemoval_namesExact.and keptByRemoval_indexesExact) ?_ ?_ ?_ h
  · intro q tx hq
    unfold releaseReissue
    split
    · exact hq
    · exact ⟨{ hq.1 with }, { hq.2.1 with }, { hq.2.2 with }⟩
  · intro q hq _
    exact ⟨{ namesExact_empty with }, { indexesExact_empty.1 with }, { indexesExact_empty.2 with }⟩
  · rintro q q' call data ⟨hn, hi⟩ ⟨ho, hf, ht⟩ hst
    exact ⟨hn.accept hst ho hf, Filed.accept hi hst ht⟩

end Indexing

end CTxMemPool

/-- The call that issues `MUSIC` out of a coin. -/
def musicCall : AcceptCall :=
  sampleCall runEnv noAssets twoCoins (issueTx 31 sampleOutPoint (900 * coin) wholeMusic)

theorem mapsExact_musicCall : ∃ pool, CTxMemPool.step {} (.accept musicCall) = some pool ∧
      pool.mapAssetToHash[str "MUSIC"]? = some 31 ∧ pool.MapsExact := by
  have hru : ((CTxMemPool.step {} (.accept musicCall)).any fun pool =>
      pool.mapAssetToHash[str "MUSIC"]? = some 31) = true := by decide +kernel
  obtain ⟨pool, hp, hm⟩ := (Option.any_eq_true _ _).1 hru
  have hallowed : CTxMemPool.PlainRequests {} (.accept musicCall) := by
    refine ⟨by decide +kernel, fun _ _ => TreeMap.not_mem_emptyc, ?_⟩
    have hn : ∀ out ∈ musicCall.tx.vout, requestOf musicCall.env out = none := by decide +kernel
    intro out hout request hr
    rw [hn out hout] at hr
    cases hr
  exact ⟨pool, hp, of_decide_eq_true hm,
    CTxMemPool.Reachable.mapsExact (.step _ .empty hallowed hp)⟩

/-- A tag is taken away, and the transaction leaves the pool. -/
def untagEvents : List PoolEvent :=
  [.accept (sampleCall sampleEnv subTaggedGlobals qualifierBase
      (commandTx 31 sampleOutPoint ownerOutPoint (900 * coin) (sampleTransfer "#KYC" coin)
        [sampleCommand "#KYC" 0])),
    .removeStaged [31]]

/-- The reverse map of the tags goes on to name the transaction. -/
theorem untagEvents_leave_hash : ∃ pool, untagEvents.foldlM CTxMemPool.step {} = some pool ∧
      31 ∉ pool.mapTx ∧ 31 ∈ pool.addressRemoveTag.byItem ∧ ¬ pool.MapsExact := by
  have hr : ((untagEvents.foldlM CTxMemPool.step {}).any fun pool =>
      decide ((31 : UInt256) ∉ pool.mapTx) && decide ((31 : UInt256) ∈ pool.addressRemoveTag.byItem)) =
      true := by decide +kernel
  obtain ⟨pool, hp, hl⟩ := (Option.any_eq_true _ _).1 hr
  simp only [Bool.and_eq_true, decide_eq_true_eq] at hl
  refine ⟨pool, hp, hl.1, hl.2, fun he => hl.1 ?_⟩
  exact he.indexes.addressRemoveTag.within 31 (Or.inr hl.2)

end Cmusic
