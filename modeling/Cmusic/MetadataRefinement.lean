import Cmusic.LiveAssets

/-! The lookups of asset data against the live data of the active chain, along whole runs. -/
namespace Cmusic

open Fallible Std CAssetsCache DirtyPair

section Log

/-- What a cache has noted about reissues. -/
def CAssetsCache.reissueLog (cache : CAssetsCache) :
    DirtyPair COutPoint CAssetCacheReissueAsset compare × StrMap CNewAsset :=
  (cache.newReissues, cache.mapReissuedAssetData)

variable {env : Env} {g : AssetGlobals} {cache cache' : CAssetsCache} {tx : CTransaction}
  {nHeight : Nat} {blockHash : UInt256} {vUndoData : List (Str × CBlockAssetUndo)}

theorem reissueLog_of_core (h : cache'.core = cache.core) : cache'.reissueLog = cache.reissueLog := by
  have hl : cache'.core.reissueLog = cache.core.reissueLog := by rw [h]
  exact hl

theorem besideIssues_reissueLog : BesideIssues reissueLog :=
  ⟨reissueLog_of_core, fun _ _ => rfl, fun _ _ => rfl⟩

theorem besideCommands_reissueLog : BesideCommands reissueLog :=
  ⟨reissueLog_of_core, fun _ _ _ => rfl, fun _ _ => rfl, fun _ _ => rfl, fun _ _ => rfl⟩

variable (env g) in
/-- What a transaction notes about reissues, connected or taken back: nothing, or its own reissue
with the place of the asset as it is looked up. -/
def LogStep (tx : CTransaction) (cache cache' : CAssetsCache) : Prop :=
  cache'.reissueLog = cache.reissueLog ∨
    ∃ reissue verifier asset asset' entry, reissueAt env reissue.strName tx = some (reissue, verifier) ∧
      cache.getAssetMetaDataIfExists g reissue.strName = some (asset, entry.block) ∧
      entry.reissue = reissue ∧
      cache'.mapReissuedAssetData = cache.mapReissuedAssetData.insert reissue.strName asset' ∧
      (cache'.newReissues =
          cache.newReissues.add ⟨tx.hash, UInt32.ofNat (tx.vout.length - 1)⟩ entry ∨
        cache'.newReissues =
          cache.newReissues.remove ⟨tx.hash, UInt32.ofNat (tx.vout.length - 1)⟩ entry)

theorem LogStep.congr {mid : CAssetsCache} (hmi : ∀ name, mid.slot name = cache.slot name)
    (hl : mid.reissueLog = cache.reissueLog) (h : LogStep env g tx mid cache') :
    LogStep env g tx cache cache' := by
  obtain ⟨hnew, hd⟩ := Prod.mk.inj hl
  rcases h with hsa | ⟨reissue, verifier, asset, asset', entry, hat, hm, he, hma, hn⟩
  · exact Or.inl (hsa.trans hl)
  · rw [getAssetMetaDataIfExists_eq, hmi, ← getAssetMetaDataIfExists_eq] at hm
    rw [hd] at hma
    rw [hnew] at hn
    exact Or.inr ⟨reissue, verifier, asset, asset', entry, hat, hm, he, hma, hn⟩

theorem LogStep.trans_log {after : CAssetsCache} (h : LogStep env g tx cache cache')
    (hl : after.reissueLog = cache'.reissueLog) : LogStep env g tx cache after := by
  obtain ⟨hnew, hd⟩ := Prod.mk.inj hl
  rcases h with hsa | ⟨reissue, verifier, asset, asset', entry, hat, hm, he, hma, hn⟩
  · exact Or.inl (hl.trans hsa)
  · rw [← hd] at hma
    rw [← hnew] at hn
    exact Or.inr ⟨reissue, verifier, asset, asset', entry, hat, hm, he, hma, hn⟩

theorem logStep_addReissueOf (hclass : (!tx.isNewAsset env && tx.isReissueAsset) = true)
    {reissue : CReissueAsset} {address : Str}
    (hp : reissueAssetFromScript env tx.lastScript = some (reissue, address)) :
    LogStep env g tx cache (addReissueOf env g cache tx).cache := by
  have hl : (addReissueOf env g cache tx).cache.reissueLog = (cache.addReissueAsset env g reissue
      address ⟨tx.hash, UInt32.ofNat (tx.vout.length - 1)⟩).reissueLog := by
    unfold addReissueOf
    simp only [hp, Option.getD_some]
    split <;> rfl
  refine LogStep.trans_log ?_ hl
  unfold addReissueAsset
  split
  · exact Or.inl rfl
  next asset block hm =>
    refine Or.inr ⟨reissue, reissueVerifier tx reissue, asset, _, ⟨reissue, address, _, block⟩, ?_,
      hm, rfl, rfl, Or.inl rfl⟩
    simp [reissueAt, hclass, hp]

theorem logStep_addClassAssets (h : Admitted env g cache tx) :
    LogStep env g tx cache (addClassAssets env g cache tx nHeight blockHash).cache := by
  cases hclass : !tx.isNewAsset env && tx.isReissueAsset with
  | false => exact Or.inl (besideIssues_reissueLog.addClassAssets hclass nHeight blockHash)
  | true =>
    obtain ⟨hnew, hreissue⟩ : tx.isNewAsset env = false ∧ tx.isReissueAsset = true := by
      simpa using hclass
    obtain ⟨⟨reissue, address⟩, hp⟩ := Option.isSome_iff_exists.1 (h.reissue hnew hreissue)
    simp only [addClassAssets, hnew, hreissue, Bool.false_eq_true, if_false, if_true]
    exact logStep_addReissueOf hclass hp

/-- A connected transaction notes its reissue. -/
theorem logStep_connectTx {rules : BlockRules} {mempool : MempoolAssets} {fUndo : Bool}
    {c c' : Connected} (hco : tx.isCoinBase = true → NoAssetOuts tx)
    (h : connectTx rules env g mempool nHeight blockHash fUndo c tx = .ok c') :
    LogStep env g tx c.st.cache c'.st.cache := by
  obtain ⟨ha, -⟩ := admitted_of_connectTx hco h
  obtain ⟨nFees, st, txundo, undo, -, -, -, hu, rfl⟩ := connectTx_eq_ok.1 h
  obtain ⟨cache, update, hc, hclass, ho, -⟩ := exists_cache_of_updateCoins hu
  have hsl : ∀ name, cache.slot name = c.st.cache.slot name := fun name => slot_of_core hc
  refine LogStep.congr hsl (reissueLog_of_core hc) ?_
  rw [ho]
  refine LogStep.trans_log ?_ (besideCommands_reissueLog.foldl_addOutAssets _)
  rw [hclass]
  split
  · exact logStep_addClassAssets (ha.congr hsl)
  · exact Or.inl rfl

theorem logStep_removeReissueOf (hclass : (!tx.isNewAsset env && tx.isReissueAsset) = true)
    (hn : ∀ name, (cache.slot name).Named g name)
    (h : removeReissueOf env g cache tx vUndoData = some cache') :
    LogStep env g tx cache cache' := by
  unfold removeReissueOf at h
  split at h
  · cases h
  next reissue address hp =>
    split at h
    · unfold removeReissueAsset at h
      split at h
      · cases h
      next asset block hm =>
        dsimp only at h
        split at h
        · cases h
        · cases h
          have hname : asset.strName = reissue.strName := by
            refine hn reissue.strName asset ?_
            rw [← getAssetMetaDataIfExists_map, hm]
            rfl
          refine LogStep.trans_log ?_ (besideIssues_reissueLog.undoVerifier _ _)
          refine Or.inr ⟨reissue, reissueVerifier tx reissue, asset,
            asset.undoReissue reissue (vUndoData.lookup reissue.strName),
            ⟨reissue, address, ⟨tx.hash, UInt32.ofNat (tx.vout.length - 1)⟩, block⟩, ?_, hm, rfl,
            ?_, Or.inr rfl⟩
          · simp [reissueAt, hclass, hp]
          · change cache.mapReissuedAssetData.insert (asset.undoReissue reissue _).strName _ = _
            rw [undoReissue_strName, hname]
    · cases h
      exact Or.inl rfl

theorem logStep_removeClassAssets (hn : ∀ name, (cache.slot name).Named g name)
    (h : removeClassAssets env g cache tx vUndoData = some cache') :
    LogStep env g tx cache cache' := by
  cases hclass : !tx.isNewAsset env && tx.isReissueAsset with
  | false => exact Or.inl (besideIssues_reissueLog.removeClassAssets hclass h)
  | true =>
    obtain ⟨hnew, hreissue⟩ : tx.isNewAsset env = false ∧ tx.isReissueAsset = true := by
      simpa using hclass
    simp only [removeClassAssets, hnew, hreissue, Bool.false_eq_true, if_false, if_true] at h
    exact logStep_removeReissueOf hclass hn h

/-- A transaction that is taken back notes its reissue as well. -/
theorem logStep_disconnectTx {d d' : Disconnected} {txundo : Option CTxUndo}
    (hna : ∀ name, (d.st.cache.slot name).Named g name)
    (h : disconnectTx env g nHeight vUndoData d (tx, txundo) = some d') :
    LogStep env g tx d.st.cache d'.st.cache := by
  rcases exists_cache_of_disconnectTx h with
    ⟨-, hc⟩ | ⟨-, first, second, third, hfirst, hse, hn, hc⟩
  · exact Or.inl (reissueLog_of_core hc)
  · refine LogStep.trans_log (logStep_removeClassAssets hna hfirst) ?_
    rw [reissueLog_of_core hc, besideCommands_reissueLog.removeNullOuts hn, reissueLog_of_core hse]

end Log

section Noted

variable (env : Env) (txOf : UInt256 → CTransaction) (name : Str)

/-- The reissues a cache has noted. Each stands under the outpoint of its transaction and keeps the
place of the asset, and the asset has pending data when there is one. -/
structure NotedAt (placed : Prop) (place : Option (Int × UInt256)) (cache : CAssetsCache) : Prop where
  reissued : cache.newReissues.All fun out entry =>
    (reissueAt env entry.reissue.strName (txOf out.hash)).isSome = true
  place : placed → cache.newReissues.All fun _ entry => entry.reissue.strName = name →
    ∀ block, entry.block = some block → place = some block
  pending : cache.mapReissuedAssetData[name]?.isSome = true ↔
    ∃ out, (cache.newReissues.marks out).marked = true ∧
      (reissueAt env name (txOf out.hash)).isSome = true

variable {env txOf name} {placed : Prop} {place place' : Option (Int × UInt256)}
  {cache cache' passets : CAssetsCache} {g : AssetGlobals} {tx : CTransaction}

theorem notedAt_empty : NotedAt env txOf name placed place {} where
  reissued := all_empty
  place := fun _ => all_empty
  pending := by simp [marks_empty, DirtyPair.Marks.marked]

theorem isSome_reissueAt_iff {reissue : CReissueAsset} {verifier : Option Str}
    (h : reissueAt env reissue.strName tx = some (reissue, verifier)) :
    (reissueAt env name tx).isSome = true ↔ reissue.strName = name := by
  obtain ⟨-, -, hclass, address, hp⟩ := class_of_reissueAt h
  simp [reissueAt, hclass, hp]

theorem NotedAt.step (h : NotedAt env txOf name placed place cache) (htx : txOf tx.hash = tx)
    (hpl : placed → (reissueAt env name tx).isSome = true → ∀ asset block,
      cache.getAssetMetaDataIfExists g name = some (asset, some block) → place = some block)
    (hl : LogStep env g tx cache cache') : NotedAt env txOf name placed place cache' := by
  rcases hl with hsa | ⟨reissue, verifier, asset, asset', entry, hat, hm, he, hmap, hn⟩
  · obtain ⟨hnew, hd⟩ := Prod.mk.inj hsa
    refine ⟨?_, ?_, ?_⟩
    · rw [hnew]
      exact h.reissued
    · rw [hnew]
      exact h.place
    · rw [hnew, hd]
      exact h.pending
  · have hr : (reissueAt env entry.reissue.strName (txOf tx.hash)).isSome = true := by
      rw [htx, he, hat]
      rfl
    have hke : placed → entry.reissue.strName = name →
        ∀ block, entry.block = some block → place = some block := by
      intro hp hname block hb
      rw [he] at hname
      rw [hname, hb] at hm
      exact hpl hp ((isSome_reissueAt_iff hat).2 hname) asset block hm
    have hma : ∀ out, (cache'.newReissues.marks out).marked = true ↔
        ⟨tx.hash, UInt32.ofNat (tx.vout.length - 1)⟩ = out ∨
          (cache.newReissues.marks out).marked = true := by
      intro out
      rcases hn with hn | hn
      · rw [hn, marked_add]
      · rw [hn, marked_remove]
    refine ⟨?_, fun hp => ?_, ?_⟩
    · rcases hn with hn | hn
      · rw [hn]
        exact h.reissued.add hr
      · rw [hn]
        exact h.reissued.remove hr
    · rcases hn with hn | hn
      · rw [hn]
        exact (h.place hp).add (hke hp)
      · rw [hn]
        exact (h.place hp).remove (hke hp)
    · have hd : cache'.mapReissuedAssetData[name]?.isSome = true ↔
          reissue.strName = name ∨ cache.mapReissuedAssetData[name]?.isSome = true := by
        rw [hmap, TreeMap.getElem?_insert]
        by_cases hname : reissue.strName = name <;> simp [hname]
      simp only [hd, h.pending, hma, or_and_right, exists_or, exists_eq_left', htx,
        isSome_reissueAt_iff hat]

/-- Where no data is pending, no place is kept. -/
theorem NotedAt.replace (h : NotedAt env txOf name placed place cache)
    (hn : cache.mapReissuedAssetData[name]? = none) :
    NotedAt env txOf name placed place' cache := by
  refine ⟨h.reissued, fun _ out entry he hname => ?_, h.pending⟩
  have hm : (cache.newReissues.marks out).marked = true := by
    rw [DirtyPair.Marks.marked, Bool.or_eq_true]
    exact he.imp (fun ha => Option.isSome_iff_exists.2 ⟨entry, ha⟩)
      fun hre => Option.isSome_iff_exists.2 ⟨entry, hre⟩
  have hr : (reissueAt env name (txOf out.hash)).isSome = true := by
    rw [← hname]
    exact h.reissued out entry he
  have hso := h.pending.2 ⟨out, hm, hr⟩
  rw [hn] at hso
  cases hso

theorem NotedAt.flush (h : NotedAt env txOf name placed place cache)
    (hb : NotedAt env txOf name placed place passets) :
    NotedAt env txOf name placed place (cache.flush passets) where
  reissued := h.reissued.flush hb.reissued
  place := fun hp => (h.place hp).flush (hb.place hp)
  pending := by
    have hd : (cache.flush passets).mapReissuedAssetData[name]? =
        cache.mapReissuedAssetData[name]?.or passets.mapReissuedAssetData[name]? :=
      getElem?_foldl_insert _ _ _
    have hm : ∀ out, ((cache.flush passets).newReissues.marks out).marked =
        ((cache.newReissues.marks out).marked || (passets.newReissues.marks out).marked) := by
      intro out
      rw [← DirtyPair.Marks.marked_keepOnto, ← marks_flush]
      rfl
    simp only [hd, hm, Option.isSome_or, Bool.or_eq_true, h.pending, hb.pending,
      or_and_right, exists_or]

end Noted

section Rows

variable {env : Env} {unset : Int} {p : CAssetsCache} {s : AssetStore} {name : Str}

/-- A dump without pending data of an asset leaves it the row of its issue. -/
theorem db_dumpAssets_of_none (h : p.mapReissuedAssetData[name]? = none) :
    (dumpAssets env unset p s).assetData.db[name]? =
      (dumpNewAssets env p.newAssets s).assetData.db[name]? := by
  refine dumpAssets_invariant (fun t => t.db[name]? =
    (dumpNewAssets env p.newAssets s).assetData.db[name]?) rfl ?_
  intro t n entry asset ht hd
  have hne : name ≠ n := by
    rintro rfl
    rw [h] at hd
    cases hd
  have hkey : id name ≠ id n := hne
  rw [← ht]
  exact Table.getElem?_insert_of_ne hkey _ _

/-- A dump with pending data of an asset writes its row from one of the entries. -/
theorem db_dumpAssets_of_some {asset : CNewAsset} (h : p.mapReissuedAssetData[name]? = some asset)
    (hke : p.newAssets.toRemove.contains name = false)
    (he : ∃ out entry, ((p.newReissues.marks out).added = some entry ∨
      (p.newReissues.marks out).removed = some entry) ∧ entry.reissue.strName = name)
    {α : Type} (f : CDatabasedAssetData → α) (value : α)
    (hv : p.newReissues.All fun _ entry => entry.reissue.strName = name →
      f (reissuedData unset asset entry) = value) :
    (dumpAssets env unset p s).assetData.db[name]?.map f = some value := by
  have hse : ∀ (t : Table Str Str CDatabasedAssetData compare) out entry,
      (p.newReissues.marks out).added = some entry ∨ (p.newReissues.marks out).removed = some entry →
      entry.reissue.strName = name →
      (p.mapReissuedAssetData[entry.reissue.strName]?.elim t fun asset =>
        t.overwrite id entry.reissue.strName (reissuedData unset asset entry)).db[name]?.map f =
          some value := by
    intro t out entry hm hname
    rw [hname, h]
    change (t.db.insert name _)[name]?.map f = _
    rw [TreeMap.getElem?_insert_self, Option.map_some]
    exact congrArg some (hv out entry hm hname)
  have ho : ∀ (t : Table Str Str CDatabasedAssetData compare) (entry : CAssetCacheReissueAsset),
      entry.reissue.strName ≠ name →
      (p.mapReissuedAssetData[entry.reissue.strName]?.elim t fun asset =>
        t.overwrite id entry.reissue.strName (reissuedData unset asset entry)).db[name]?.map f =
          t.db[name]?.map f := by
    intro t entry hne
    cases p.mapReissuedAssetData[entry.reissue.strName]? with
    | none => rfl
    | some asset' =>
      have hkey : id name ≠ id entry.reissue.strName := Ne.symm hne
      exact congrArg (Option.map f) (Table.getElem?_insert_of_ne hkey _ _)
  refine observe_replay_of_sets p.newReissues
    (fun s' : AssetStore => s'.assetData.db[name]?.map f) (fun entry => entry.reissue.strName = name)
    (some value) ?_ ?_ ?_ ?_ he (dumpBalances env p (dumpNewAssets env p.newAssets s))
  · intro s' out entry hm hname
    rw [assetData_dumpAddedReissue]
    exact hse _ out entry (Or.inl hm) hname
  · intro s' out entry _ hne
    rw [assetData_dumpAddedReissue]
    exact ho _ entry hne
  · intro s' out entry hm hname
    have hsk : p.newAssets.toRemove.contains entry.reissue.strName = false := by
      rw [hname]
      exact hke
    rw [assetData_dumpRemovedReissue, if_neg (by simp [hsk])]
    exact hse _ out entry (Or.inr hm) hname
  · intro s' out entry _ hne
    rw [assetData_dumpRemovedReissue]
    split
    · rfl
    · exact ho _ entry hne

end Rows

section Blocks

variable {rules : BlockRules} {env : Env} {txOf : UInt256 → CTransaction} {name : Str}
  {placed : Prop} {g : AssetGlobals} {mempool : MempoolAssets} {nHeight : Nat} {blockHash : UInt256}
  {tx : CTransaction} {live : Option CDatabasedAssetData} {vtx : List CTransaction}
  {view : CCoinsViewCache} {cache : CAssetsCache} {asset : CNewAsset} {block : Int × UInt256}

theorem stored_of_lookup (h : cache.getAssetMetaDataIfExists g name = some (asset, some block)) :
    ∃ data, (cache.slot name).stored g name = some data ∧ data.place = block := by
  rw [getAssetMetaDataIfExists_eq] at h
  split at h
  · cases h
  · obtain ⟨data, hst, hd⟩ := Option.map_eq_some_iff.1 h
    obtain ⟨-, hp⟩ := Prod.mk.inj hd
    exact ⟨data, hst, Option.some.inj hp⟩

theorem LiveAt.place_of_lookup (h : LiveAt name placed g live (cache.slot name)) (hp : placed)
    (hm : cache.getAssetMetaDataIfExists g name = some (asset, some block)) :
    live.map CDatabasedAssetData.place = some block := by
  obtain ⟨data, hst, hd⟩ := stored_of_lookup hm
  have hn : name ∉ g.passets.newAssets.toRemove := by
    intro hme
    have hc : g.passets.newAssets.toRemove.contains name = true := hme
    rw [AssetSlot.stored, hc, Bool.or_true, if_pos rfl] at hst
    cases hst
  rw [← h.place hp hn, hst, Option.map_some, hd]

/-- One transaction of a block, connected. -/
theorem notedAt_connectTx {fUndo : Bool} {c c' : Connected} (hname : name ≠ [])
    (hre : env.fReindex = false) (hc : tx.isCoinBase = true → NoAssetOuts tx)
    (htx : txOf tx.hash = tx) (hl : LiveAt name placed g live (c.st.cache.slot name))
    (h : NotedAt env txOf name placed (live.map CDatabasedAssetData.place) c.st.cache)
    (hco : connectTx rules env g mempool nHeight blockHash fUndo c tx = .ok c') :
    NotedAt env txOf name placed (((assetActions env tx).foldl
      (AssetAction.apply name nHeight blockHash) live).map CDatabasedAssetData.place) c'.st.cache := by
  obtain ⟨ha, -⟩ := admitted_of_connectTx hc hco
  have hn := h.step htx (fun hp _ asset block hm => hl.place_of_lookup hp hm)
    (logStep_connectTx hc hco)
  rcases @actions_cases env name hname tx with
    ⟨r, hat, hr, hac, -⟩ | ⟨hat, hi⟩ | ⟨-, -, hid⟩
  · have hpl : ((assetActions env tx).foldl (AssetAction.apply name nHeight blockHash) live).map
        CDatabasedAssetData.place = live.map CDatabasedAssetData.place := by
      rw [hac, List.foldl_cons, List.foldl_nil, AssetAction.apply, if_pos hr, Option.map_map]
      rfl
    rw [hpl]
    exact hn
  · -- the issue leaves the log alone, and nothing is pending in front of it
    have hno : c.st.cache.mapReissuedAssetData[name]? = none :=
      hl.reissued_eq_none (stored_of_admitted hre ha hi)
    refine NotedAt.replace hn ?_
    rcases logStep_connectTx hc hco with
      hsa | ⟨reissue, verifier, asset, asset', entry, ho, -⟩
    · rw [(Prod.mk.inj hsa).2]
      exact hno
    · rw [issuesAt, assetActions_of_reissueAt ho] at hi
      cases hi
  · rw [foldl_apply_of_ne hid]
    exact hn

/-- The rule of invariants for the asset cache while a block is taken back. -/
theorem cache_disconnectTransactions_invariant {vtxundo : List CTxUndo}
    {vUndoData : List (Str × CBlockAssetUndo)} {d : Disconnected}
    (P : List CTransaction → CAssetsCache → Prop)
    (ha : ∀ tx ∈ vtx, env.areAssetsDeployed = true ∨ NoAssetOuts tx)
    (hb : ∀ name, AssetSlot.Named g name {})
    (h : disconnectTransactions env g nHeight ⟨view, {}⟩ vtx vtxundo vUndoData = some d)
    (h0 : P [] {})
    (hstep : ∀ post tx txundo c c', tx ∈ vtx → (∀ tx ∈ post, tx ∈ vtx) → P post c.st.cache →
      (∀ name, (c.st.cache.slot name).Named g name) →
      (∀ name, c.st.cache.slot name = undoSlot env g name (vUndoData.lookup name) post {}) →
      disconnectTx env g nHeight vUndoData c (tx, txundo) = some c' → P (tx :: post) c'.st.cache) :
    P vtx d.st.cache := by
  have he : ∀ name, (CAssetsCache.slot {} name).Proper name ∧ CAssetsCache.slot {} name =
      undoSlot env g name (vUndoData.lookup name) [] {} := by
    intro name
    exact ⟨proper_empty, rfl⟩
  refine (disconnectTransactions_invariant (fun post d => (∀ tx ∈ post, tx ∈ vtx) ∧
    (∀ name, (d.st.cache.slot name).Proper name ∧ d.st.cache.slot name =
      undoSlot env g name (vUndoData.lookup name) post {}) ∧ P post d.st.cache) h
    ⟨by simp, he, h0⟩ ?_).2.2
  rintro post tx txundo c c' htx ⟨hp, hsl, hP⟩ hd
  have hn : ∀ name, (c.st.cache.slot name).Named g name :=
    fun name => (hsl name).1.named (hb name)
  refine ⟨List.forall_mem_cons.2 ⟨htx, hp⟩, fun name => ?_,
    hstep post tx txundo c c' htx hp hP hn (fun name => (hsl name).2) hd⟩
  have hslo := @slot_disconnectTx env g tx nHeight vUndoData c c' txundo name (ha tx htx)
    hn hd
  refine ⟨?_, ?_⟩
  · rw [hslo]
    exact proper_foldl_disconnectAt (hsl name).1 (hb name)
  · rw [hslo, (hsl name).2]
    rfl

end Blocks

section Runs

variable (rules : BlockRules) (env : Env) (txOf : UInt256 → CTransaction) (placed : Prop)
  (name : Str)

/-- The undo data of the blocks of a chain, the tip first. -/
def UndoChain (startHeight : Nat) : List LinkedBlock → Prop
  | [] => True
  | linked :: rest => UndoSound env name (liveData rules env name startHeight rest) linked.block.vtx
      (linked.vUndoAssetData.lookup name) ∧ UndoChain startHeight rest

/-- What keeps the data of an asset in step with the chain. A hash names one transaction. A name that
the tip has marked as removed is issued at most once in a block. A block is taken back only as far as
its undo data goes. With `placed`, no dump has to write a reissue of data that was pending already,
for which the source has no height. -/
def MetadataGuard (st : ChainState) : ChainEvent → Prop
  | .connect _ _ block => (∀ tx ∈ block.vtx, txOf tx.hash = tx) ∧
      (name ∈ st.store.passets.newAssets.toRemove → (blockIssued env block).count name ≤ 1)
  | .disconnect => ∀ linked rest, st.active = linked :: rest →
      Undoable env name (liveData rules env name st.startHeight rest)
        st.store.passets.mapReissuedAssetData[name]? linked.block.vtx
  | .dumpCacheToDatabase _ => placed → st.store.passets.newReissues.All fun _ entry =>
      entry.reissue.strName = name → entry.block.isSome = true
  | .load _ => True

structure MetadataSound (st : ChainState) : Prop where
  tip : TipLive placed (st.live rules env name) (st.store.passets.slot name)
    st.store.assetData.db[name]?
  noted : NotedAt env txOf name placed ((st.live rules env name).map CDatabasedAssetData.place)
    st.store.passets
  undo : UndoChain rules env name st.startHeight st.active
  ids : ∀ linked ∈ st.active, ∀ tx ∈ linked.block.vtx, txOf tx.hash = tx

variable {rules env txOf placed name} {st st' : ChainState}

theorem metadataSound_initial (sizes : CacheSizes) (coins : TreeMap COutPoint Coin)
    (startHeight : Nat) :
    MetadataSound rules env txOf placed name (ChainState.initial sizes coins startHeight) where
  tip := by
    change TipLive placed none (CAssetsCache.slot {} name) _
    have hr : (ChainState.initial sizes coins startHeight).store.assetData.db[name]? = none := by
      change (∅ : StrMap CDatabasedAssetData)[name]? = none
      simp
    exact tipLive_empty
  noted := notedAt_empty
  undo := trivial
  ids := by simp [ChainState.initial]

theorem metadataSound_connect {mempool : MempoolAssets} {node : NodeState} {block : CBlock}
    (hname : name ≠ []) (hre : env.fReindex = false)
    (hfl : env.areCoinbaseCheckAssetsDeployed = true) (ht : TipSound env st)
    (h : MetadataSound rules env txOf placed name st)
    (hg : MetadataGuard rules env txOf placed name st (.connect mempool node block))
    (hstep : st.step rules env (.connect mempool node block) = some st') :
    MetadataSound rules env txOf placed name st' := by
  obtain ⟨hid, ho⟩ := hg
  obtain ⟨conn, hche, hconn, rfl⟩ := exists_of_step_connect hstep
  have hch := (transactions_of_checkBlock hche).2.2
  have hc : ∀ tx ∈ block.vtx, tx.isCoinBase = true → NoAssetOuts tx :=
    fun tx htx => noAssetOuts_of_coinbase hfl (hch tx htx)
  have hba : LiveAt name placed (st.store.globals env) (st.live rules env name) {} :=
    h.tip.liveAt ht.rows
  have hp : name ∈ (st.store.globals env).passets.newAssets.toRemove →
      (st.store.globals env).passets.mapReissuedAssetData[name]? = none :=
    fun hm => h.tip.pending (mem_toRemove_iff.1 hm)
  obtain ⟨hi, hl, hn⟩ := cache_connectTransactions_invariant
    (fun pre cache => IssuedAt env (st.store.globals env) name pre (cache.slot name) ∧
      LiveAt name placed (st.store.globals env) (liveAfter env name (st.tipHeight + 1)
        (block.header.getHash rules.params) (st.live rules env name) pre) (cache.slot name) ∧
      NotedAt env txOf name placed ((liveAfter env name (st.tipHeight + 1)
        (block.header.getHash rules.params) (st.live rules env name) pre).map
          CDatabasedAssetData.place) cache) hc ht.named hconn
    (by rw [slot_empty]; exact ⟨issuedAt_nil, hba, notedAt_empty⟩) (by
      rintro pre tx post fUndo c c' hv ⟨hi, hl, hn⟩ hco hsl
      have hm : tx ∈ block.vtx := by rw [hv]; simp
      obtain ⟨ha, -⟩ := admitted_of_connectTx (hc tx hm) hco
      rw [hsl, liveAfter_concat]
      refine ⟨issuedAt_step hi (hch tx hm) ha,
        liveAt_step hname hre hp (hc tx hm) (hch tx hm) ?_ hi hl
          hco,
        notedAt_connectTx hname hre (hc tx hm) (hid tx hm) hl hn hco⟩
      intro hr
      have hcou := ho hr
      have hsp : blockIssued env block =
          (pre ++ [tx]).flatMap (issuedNames env) ++ post.flatMap (issuedNames env) := by
        simp [blockIssued, hv]
      rw [hsp, List.count_append] at hcou
      omega)
  have hf : (conn.st.cache.slot name).asset.added.isSome = true →
      AssetSlot.stored (st.store.globals env) name {} = none := by
    intro had
    have hu := hi.fresh (hi.added.1 had)
    rw [known_eq hre] at hu
    simpa using hu
  have hcon := (connectedAt_connectTransactions hc ht.named hconn).2.1 name hname
  refine ⟨?_, ?_, ⟨?_, h.undo⟩, List.forall_mem_cons.2 ⟨hid, h.ids⟩⟩
  · change TipLive placed _ ((conn.st.cache.flush st.store.passets).slot name) _
    rw [slot_flush]
    exact h.tip.connect ht.rows hl hf
  · refine NotedAt.flush hn ?_
    cases his : block.vtx.any (issuesAt env name) with
    | true =>
      -- an asset that the block issues has no pending data below
      refine h.noted.replace ?_
      have hu := hcon.fresh his
      rw [known_eq hre, Option.isSome_eq_false_iff, Option.isNone_iff_eq_none,
        stored_empty ht.rows] at hu
      have hd := h.tip.data
      have hkn := h.tip.known
      rw [hu] at hd hkn
      have hnon : st.live rules env name = none := by simpa using hkn.symm
      rw [hnon, Option.map_none, Option.or_none] at hd
      exact hd
    | false =>
      have hno : ∀ tx ∈ block.vtx, issuesAt env name tx = false := by simpa using his
      have hpl : (liveAfter env name (st.tipHeight + 1) (block.header.getHash rules.params)
          (st.live rules env name) block.vtx).map CDatabasedAssetData.place =
          (st.live rules env name).map CDatabasedAssetData.place := by
        rw [liveAfter_of_not_issues hname hno, Option.map_map]
        rfl
      have hb := h.noted
      rw [← hpl] at hb
      exact hb
  · refine undoSound_of_connectedAt hre hba (h.tip.data_globals ht.rows) ?_ hcon
    rw [stored_empty ht.rows]
    exact h.tip.known

theorem metadataSound_disconnect (hname : name ≠ []) (hr : env.fReindex = false)
    (hti : TipSound env st) (h : MetadataSound rules env txOf placed name st)
    (hg : MetadataGuard rules env txOf placed name st .disconnect)
    (hstep : st.step rules env .disconnect = some st') :
    MetadataSound rules env txOf placed name st' := by
  obtain ⟨linked, rest, d, ha, hd, -, rfl⟩ := exists_of_step_disconnect hstep
  have hu := hg linked rest ha
  have hids := h.ids
  have hasse := hti.assets
  rw [ha] at hids hasse
  obtain ⟨hid, hids⟩ := List.forall_mem_cons.1 hids
  obtain ⟨hass, -⟩ := List.forall_mem_cons.1 hasse
  have hc := h.undo
  rw [ha] at hc
  obtain ⟨hun, hc⟩ := hc
  have hl : st.live rules env name = liveAfter env name (st.startHeight + rest.length + 1)
      (linked.block.header.getHash rules.params) (liveData rules env name st.startHeight rest)
      linked.block.vtx := by
    rw [ChainState.live, ha, liveData]
  have ht := h.tip
  have hn := h.noted
  rw [hl] at ht hn
  have he : ∀ name, (CAssetsCache.slot {} name).Proper name := by
    intro name
    exact proper_empty
  -- where the block does not issue the asset, its place has been the same all along
  have hsa : linked.block.vtx.any (issuesAt env name) = false →
      (liveAfter env name (st.startHeight + rest.length + 1)
        (linked.block.header.getHash rules.params) (liveData rules env name st.startHeight rest)
        linked.block.vtx).map CDatabasedAssetData.place =
        (liveData rules env name st.startHeight rest).map CDatabasedAssetData.place := by
    intro hi
    rw [liveAfter_of_not_issues hname (by simpa using hi), Option.map_map]
    rfl
  refine ⟨?_, ?_, hc, hids⟩
  · change TipLive placed _ ((d.st.cache.flush st.store.passets).slot name) _
    have hslo := slot_disconnectTransactions hass he hti.named hd name
    rw [slot_flush, hslo]
    exact ht.disconnect hname hr hti.rows hun hu
  · refine NotedAt.flush ?_ ?_
    · refine cache_disconnectTransactions_invariant (fun _ cache => NotedAt env txOf name placed
        ((liveData rules env name st.startHeight rest).map CDatabasedAssetData.place) cache) hass
        hti.named hd notedAt_empty ?_
      intro post tx txundo c c' htx hpo hn hna hsl hdi
      refine hn.step (hid tx htx) ?_ (logStep_disconnectTx hna hdi)
      intro hpl hreissue asset block hm
      cases hi : linked.block.vtx.any (issuesAt env name) with
      | true =>
        have hrs := (hu.issued hi).2
        rw [List.filterMap_eq_nil_iff.1 hrs tx htx] at hreissue
        cases hreissue
      | false =>
        have hno : ∀ tx ∈ post, issuesAt env name tx = false := by
          have hal : ∀ tx ∈ linked.block.vtx, issuesAt env name tx = false := by simpa using hi
          exact fun tx htx => hal tx (hpo tx htx)
        obtain ⟨data, hst, rfl⟩ := stored_of_lookup hm
        have hass : (c.st.cache.slot name).asset = AssetSlot.asset {} := by
          rw [hsl]
          exact asset_undoSlot hno
        rw [stored_congr hass, stored_empty hti.rows] at hst
        have hp := ht.place hpl
        rw [hst, hsa hi] at hp
        exact hp.symm
    · cases hi : linked.block.vtx.any (issuesAt env name) with
      | true => exact hn.replace (hu.issued hi).1
      | false =>
        rw [hsa hi] at hn
        exact hn

/-- A dump writes what the tip stores. -/
theorem metadataSound_dump {unset : Int} (h : MetadataSound rules env txOf placed name st)
    (hg : MetadataGuard rules env txOf placed name st (.dumpCacheToDatabase unset)) :
    MetadataSound rules env txOf placed name
      { st with store := st.store.dumpCacheToDatabase env unset } := by
  refine ⟨?_, ?_, h.undo, h.ids⟩
  · change TipLive placed (st.live rules env name)
      (CAssetsCache.slot (st.store.dumpCacheToDatabase env unset).passets name)
      (st.store.dumpCacheToDatabase env unset).assetData.db[name]?
    rw [restricted_dumpCacheToDatabase.1, slot_empty, assetData_dumpCacheToDatabase]
    have hl : st.store.passets.mapReissuedAssetData[name]? =
        (st.store.passets.slot name).reissued := rfl
    cases hr : st.store.passets.mapReissuedAssetData[name]? with
    | none =>
      rw [hl] at hr
      have hro : (dumpAssets env unset st.store.passets st.store).assetData.db[name]? =
          (st.store.passets.slot name).tipStored st.store.assetData.db[name]? := by
        rw [db_dumpAssets_of_none hr, db_dumpNewAssets]
        change (st.store.passets.slot name).asset.added.elim
          ((st.store.passets.slot name).asset.removed.elim _ fun _ => none) _ = _
        rw [AssetSlot.tipStored]
        rcases h.tip.exclusive with ha | hre
        · rw [ha]
          cases (st.store.passets.slot name).asset.removed <;> rfl
        · rw [hre]
          cases (st.store.passets.slot name).asset.added <;> rfl
      have hd := h.tip.data
      rw [hr, Option.none_or] at hd
      rw [hro]
      exact ⟨h.tip.known, hd, h.tip.place, h.tip.flagged, Or.inl rfl, by simp⟩
    | some asset =>
      have hke : (st.store.passets.slot name).asset.removed = none := by
        cases hre : (st.store.passets.slot name).asset.removed with
        | none => rfl
        | some entry =>
          have hn := h.tip.pending (by rw [hre]; rfl)
          rw [← hl, hr] at hn
          cases hn
      have hc : st.store.passets.newAssets.toRemove.contains name = false := by
        rw [← TreeMap.isSome_getElem?_eq_contains]
        exact Option.isSome_eq_false_iff.2 (Option.isNone_iff_eq_none.2 hke)
      have hd := h.tip.data
      rw [← hl, hr, Option.some_or] at hd
      obtain ⟨data, hli, rfl⟩ := Option.map_eq_some_iff.1 hd.symm
      -- the pending data has an entry to go with
      have he : ∃ out entry, ((st.store.passets.newReissues.marks out).added = some entry ∨
          (st.store.passets.newReissues.marks out).removed = some entry) ∧
          entry.reissue.strName = name := by
        obtain ⟨out, hm, hat⟩ := h.noted.pending.1 (by rw [hr]; rfl)
        rw [DirtyPair.Marks.marked, Bool.or_eq_true] at hm
        obtain ⟨entry, he⟩ : ∃ entry, (st.store.passets.newReissues.marks out).added = some entry ∨
            (st.store.passets.newReissues.marks out).removed = some entry := by
          rcases hm with hm | hm
          · obtain ⟨entry, he⟩ := Option.isSome_iff_exists.1 hm
            exact ⟨entry, Or.inl he⟩
          · obtain ⟨entry, he⟩ := Option.isSome_iff_exists.1 hm
            exact ⟨entry, Or.inr he⟩
        refine ⟨out, entry, he, ?_⟩
        obtain ⟨⟨reissue, verifier⟩, hso⟩ :=
          Option.isSome_iff_exists.1 (h.noted.reissued out entry he)
        obtain ⟨hrn, -⟩ := class_of_reissueAt hso
        rw [← hrn] at hso
        rw [← hrn]
        exact (isSome_reissueAt_iff hso).1 hat
      have hro : (dumpAssets env unset st.store.passets st.store).assetData.db[name]?.map
          CDatabasedAssetData.asset = some data.asset :=
        db_dumpAssets_of_some hr hc he CDatabasedAssetData.asset data.asset
          fun _ _ _ _ => rfl
      rw [hli]
      refine ⟨?_, hro, fun hp => ?_, by rw [← hli]; exact h.tip.flagged, Or.inl rfl, by simp⟩
      · obtain ⟨row, hso, -⟩ := Option.map_eq_some_iff.1 hro
        rw [hso]
        rfl
      · refine db_dumpAssets_of_some hr hc he CDatabasedAssetData.place data.place ?_
        intro out entry hma hrn
        obtain ⟨block, hb⟩ := Option.isSome_iff_exists.1 (hg hp out entry hma hrn)
        have hpl := h.noted.place hp out entry hma hrn block hb
        rw [hli] at hpl
        rw [Option.some.inj hpl, CDatabasedAssetData.place, reissuedData, hb]
        rfl
  · change NotedAt env txOf name placed _ (st.store.dumpCacheToDatabase env unset).passets
    exact notedAt_empty

theorem metadataSound_step {event : ChainEvent} (hname : name ≠ []) (hr : env.fReindex = false)
    (hf : env.areCoinbaseCheckAssetsDeployed = true) (ht : TipSound env st)
    (h : MetadataSound rules env txOf placed name st)
    (hg : MetadataGuard rules env txOf placed name st event)
    (hstep : st.step rules env event = some st') :
    MetadataSound rules env txOf placed name st' := by
  cases event with
  | connect mempool node block =>
    exact metadataSound_connect hname hr hf ht h hg hstep
  | disconnect => exact metadataSound_disconnect hname hr ht h hg hstep
  | dumpCacheToDatabase unset =>
    cases hstep
    exact metadataSound_dump h hg
  | load row =>
    cases hstep
    refine ⟨?_, ?_, h.undo, h.ids⟩
    · have hro : (st.store.load env row).assetData.db[name]? = st.store.assetData.db[name]? := by
        cases row with
        | assetData other => exact congrArg (·[name]?) Table.db_lookup
        | verifier other => rfl
        | addressQualifier key => rfl
        | restrictedAddress key => rfl
        | globalRestriction other => rfl
      have hp : (st.store.load env row).passets = st.store.passets := by cases row <;> rfl
      rw [hro, hp]
      exact h.tip
    · have hp : (st.store.load env row).passets = st.store.passets := by cases row <;> rfl
      rw [hp]
      exact h.noted

theorem metadataSound_reachable (hname : name ≠ []) (hre : env.fReindex = false)
    (hf : env.areCoinbaseCheckAssetsDeployed = true)
    (h : Reachable rules env (MetadataGuard rules env txOf placed name) st) :
    MetadataSound rules env txOf placed name st := by
  induction h with
  | initial sizes coins startHeight => exact metadataSound_initial sizes coins startHeight
  | step event hr hg hstep ih =>
    exact metadataSound_step hname hre hf (tipSound_reachable hf hr) ih hg hstep

theorem stored_passets {s : AssetStore} :
    (s.passets.slot name).stored (s.globals env) name = AssetSlot.stored (s.globals env) name {} := by
  have hc : (s.globals env).passets.newAssets.toRemove.contains name =
      (s.passets.slot name).asset.removed.isSome := by
    rw [← TreeMap.isSome_getElem?_eq_contains]
    rfl
  have ha : (s.globals env).passets.newAssets.toAdd[name]? = (s.passets.slot name).asset.added := rfl
  rw [AssetSlot.stored, AssetSlot.stored, hc, ha]
  cases (s.passets.slot name).asset.removed with
  | some entry => rfl
  | none => cases (s.passets.slot name).asset.added <;> rfl

/-- The lookups at the tip, in `passets` and in a new cache on top of it, find an asset exactly while
the active chain has one, and with the data of its issue and all reissues. As long as every dump had
the heights it needed, they also find the height and the hash of the block of the issue, unless there
is a reissue that is not dumped yet. -/
theorem lookups_eq_live (hname : name ≠ []) (hreindex : env.fReindex = false)
    (hflag : env.areCoinbaseCheckAssetsDeployed = true)
    (h : Reachable rules env (MetadataGuard rules env txOf placed name) st) :
    ∀ cache, cache = {} ∨ cache = st.store.passets →
      cache.checkIfAssetExists env (st.store.globals env) name = (st.live rules env name).isSome ∧
      (cache.getAssetMetaDataIfExists (st.store.globals env) name).map Prod.fst =
        (st.live rules env name).map CDatabasedAssetData.asset ∧
      (placed → (cache.getAssetMetaDataIfExists (st.store.globals env) name =
          (st.live rules env name).map (fun data => (data.asset, some data.place)) ↔
        st.store.passets.mapReissuedAssetData[name]? = none)) := by
  have ht := tipSound_reachable hflag h
  have hso := metadataSound_reachable hname hreindex hflag h
  intro cache hc
  have hsl : (cache.slot name).stored (st.store.globals env) name =
      (st.store.passets.slot name).tipStored st.store.assetData.db[name]? := by
    rcases hc with rfl | rfl
    · rw [slot_empty, stored_empty ht.rows]
    · rw [stored_passets, stored_empty ht.rows]
  have hr : (cache.slot name).reissued.or
      (st.store.globals env).passets.mapReissuedAssetData[name]? =
      (st.store.passets.slot name).reissued := by
    have hg : (st.store.globals env).passets.mapReissuedAssetData[name]? =
        (st.store.passets.slot name).reissued := rfl
    rw [hg]
    rcases hc with rfl | rfl
    · rw [slot_empty]
      rfl
    · cases (st.store.passets.slot name).reissued <;> rfl
  refine ⟨?_, ?_, fun hpl => ?_⟩
  · rw [checkIfAssetExists_eq, known_eq hreindex, hsl]
    exact hso.tip.known
  · rw [getAssetMetaDataIfExists_map, data_eq, hsl, hr]
    exact hso.tip.data
  · rw [getAssetMetaDataIfExists_eq, hr, hsl]
    change _ ↔ (st.store.passets.slot name).reissued = none
    cases hpe : (st.store.passets.slot name).reissued with
    | some asset =>
      cases st.live rules env name with
      | none => simp
      | some data => simp
    | none =>
      refine iff_of_true ?_ rfl
      have hd := hso.tip.data
      have hp := hso.tip.place hpl
      rw [hpe, Option.none_or] at hd
      cases hst : (st.store.passets.slot name).tipStored st.store.assetData.db[name]? with
      | none =>
        rw [hst] at hd
        rw [Option.map_eq_none_iff.1 hd.symm]
      | some row =>
        rw [hst] at hd hp
        obtain ⟨data, hl, ha⟩ := Option.map_eq_some_iff.1 hd.symm
        rw [hl] at hp
        rw [hl, Option.map_some, Option.map_some, ha, Option.some.inj hp]

end Runs

/-- A block that reissues the asset of `issueBlock`. -/
def reissueAfterBlock : CBlock :=
  ⟨sampleHeader, [{ sampleCoinbase with hash := 14 },
    chainedReissue 13 ⟨11, 1⟩ ⟨11, 2⟩ (800 * coin) sampleReissue]⟩

/-- The transactions of the two blocks by their hashes. -/
def issueReissueTx (hash : UInt256) : CTransaction :=
  ((issueBlock.vtx ++ reissueAfterBlock.vtx).find? fun tx => tx.hash = hash).getD sampleCoinbase

/-- The amount at the tip after the two blocks. -/
theorem nAmount_reissueAfterBlock :
    (fundedStart.run sampleRules runEnv [connectEvent issueBlock, connectEvent reissueAfterBlock]).map
      (fun st => (getAssetMetaDataIfExists (st.store.globals runEnv) {}
        (str "MUSIC")).map (·.1.nAmount)) = some (some (2 * coin)) := by
  decide +kernel

theorem lookups_eq_live_reissueAfterBlock :
    ∃ st, fundedStart.run sampleRules runEnv [connectEvent issueBlock,
        connectEvent reissueAfterBlock] = some st ∧
      CAssetsCache.checkIfAssetExists runEnv (st.store.globals runEnv) {} (str "MUSIC") =
        (st.live sampleRules runEnv (str "MUSIC")).isSome ∧
      (CAssetsCache.getAssetMetaDataIfExists (st.store.globals runEnv) {} (str "MUSIC")).map Prod.fst =
        (st.live sampleRules runEnv (str "MUSIC")).map CDatabasedAssetData.asset := by
  obtain ⟨st, hru, -⟩ := Option.map_eq_some_iff.1 nAmount_reissueAfterBlock
  refine ⟨st, hru, ?_⟩
  simp only [ChainState.run, List.foldlM_cons, List.foldlM_nil, Option.bind_eq_bind,
    Option.bind_eq_some_iff] at hru
  obtain ⟨first, hfirst, last, hl, hre⟩ := hru
  cases hre
  have hr : Reachable sampleRules runEnv
      (MetadataGuard sampleRules runEnv issueReissueTx True (str "MUSIC")) st := by
    refine .step (connectEvent reissueAfterBlock)
      (.step (connectEvent issueBlock) (.initial _ _ _) ⟨?_, fun _ => ?_⟩ hfirst) ⟨?_, fun _ => ?_⟩ hl
    · decide +kernel
    · decide +kernel
    · decide +kernel
    · decide +kernel
  obtain ⟨he, hd, -⟩ := lookups_eq_live (by decide) rfl rfl hr {} (Or.inl rfl)
  exact ⟨he, hd⟩

/-- After both blocks are taken back the asset does not exist, but its data is still found. -/
theorem lookups_reissueAfterBlock_undone : ∃ st, Reachable sampleRules runEnv (fun _ _ => True) st ∧
      CAssetsCache.checkIfAssetExists runEnv (st.store.globals runEnv) {} (str "MUSIC") = false ∧
      (CAssetsCache.getAssetMetaDataIfExists (st.store.globals runEnv) {} (str "MUSIC")).isSome =
        true := by
  have hr : (fundedStart.run sampleRules runEnv [connectEvent issueBlock,
      connectEvent reissueAfterBlock, .disconnect, .disconnect]).map (fun st =>
        (checkIfAssetExists runEnv (st.store.globals runEnv) {} (str "MUSIC"),
          (getAssetMetaDataIfExists (st.store.globals runEnv) {} (str "MUSIC")).isSome)) =
      some (false, true) := by
    decide +kernel
  obtain ⟨st, hst, hl⟩ := Option.map_eq_some_iff.1 hr
  obtain ⟨he, hd⟩ := Prod.mk.inj hl
  exact ⟨st, reachable_run (.initial _ _ _) hst, he, hd⟩

end Cmusic
