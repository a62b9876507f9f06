import Cmusic.CacheRuns

/-! The lookups of verifier strings, over every run of the caches. -/
namespace Cmusic

open Std CAssetsCache DirtyPair

/-- One call that writes or removes the verifier of an asset. -/
structure VerifierOp where
  fRemove : Bool
  entry : CAssetCacheRestrictedVerifiers

/-- The verifier after the call, for a caller who expects the last one to count. -/
def VerifierOp.value (op : VerifierOp) : Option Str :=
  if op.fRemove then CAssetsCache.undoneVerifier op.entry else some op.entry.verifier

/-- The calls for each asset: those on the cache of the block, and those that the last flush with
any of them brought into force. -/
abbrev VerifierHistory := PlainMap Str (List VerifierOp)

namespace VerifierHistory

def call (h : VerifierHistory) (assetName : Str) (op : VerifierOp) : VerifierHistory :=
  h.write assetName ((h.pending assetName).getD [] ++ [op])

def step (h : VerifierHistory) : CacheEvent → VerifierHistory
  | .addRestrictedVerifier assetName verifier => h.call assetName ⟨false, ⟨verifier, false⟩⟩
  | .removeRestrictedVerifier assetName verifier fUndoingReissue =>
    h.call assetName ⟨true, ⟨verifier, fUndoingReissue⟩⟩
  | .flush => h.flush
  | .newCache => h.discard
  | _ => h

def run (events : List CacheEvent) : VerifierHistory := events.foldl step (PlainMap.const [])

end VerifierHistory

/-- What the last of the calls wrote; an asset without a call has no verifier. -/
def lastValue (ops : List VerifierOp) : Option Str := ops.getLast?.bind VerifierOp.value

/-- A call replaces an earlier one only if that is of the other kind. -/
def keepOp (kept : Option VerifierOp) (op : VerifierOp) : Option VerifierOp :=
  match kept with
  | some first => if first.fRemove = op.fRemove then some first else some op
  | none => some op

/-- The first of the calls of one kind that the list ends with. -/
def keptOp (ops : List VerifierOp) : Option VerifierOp := ops.foldl keepOp none

def keptValue (ops : List VerifierOp) : Option Str := (keptOp ops).bind VerifierOp.value

/-- The marks of an asset whose kept call this is. -/
def keptMarks : Option VerifierOp → DirtyPair.Marks CAssetCacheRestrictedVerifiers
  | none => {}
  | some op => if op.fRemove then ⟨none, some op.entry⟩ else ⟨some op.entry, none⟩

theorem keptMarks_add (kept : Option VerifierOp) (entry : CAssetCacheRestrictedVerifiers) :
    (keptMarks kept).add entry = keptMarks (keepOp kept ⟨false, entry⟩) := by
  cases kept with
  | none => rfl
  | some first =>
    obtain ⟨fRemove, e⟩ := first
    cases fRemove <;> rfl

theorem keptMarks_remove (kept : Option VerifierOp) (entry : CAssetCacheRestrictedVerifiers) :
    (keptMarks kept).remove entry = keptMarks (keepOp kept ⟨true, entry⟩) := by
  cases kept with
  | none => rfl
  | some first =>
    obtain ⟨fRemove, e⟩ := first
    cases fRemove <;> rfl

theorem keptOp_concat (ops : List VerifierOp) (op : VerifierOp) :
    keptOp (ops ++ [op]) = keepOp (keptOp ops) op := by
  rw [keptOp, List.foldl_append]
  rfl

/-- After a call there is a kept one. -/
theorem value_keptMarks_concat (ops : List VerifierOp) (op : VerifierOp) :
    (keptMarks (keptOp (ops ++ [op]))).value (fun e => some e.verifier)
      undoneVerifier = some (keptValue (ops ++ [op])) := by
  have hke : ∃ first, keptOp (ops ++ [op]) = some first := by
    rw [keptOp_concat]
    unfold keepOp
    split
    · split <;> exact ⟨_, rfl⟩
    · exact ⟨_, rfl⟩
  obtain ⟨⟨fRemove, entry⟩, hfirst⟩ := hke
  rw [keptValue, hfirst]
  cases fRemove <;> rfl

variable {env : Env} {st : CacheState} {h : VerifierHistory}

/-- The layers hold the kept calls. No asset is issued or removed, so a dump leaves the verifiers
of other assets alone. -/
structure VerifiersRefined (st : CacheState) (h : VerifierHistory) : Prop where
  marks : ∀ name,
    st.cache.newRestrictedVerifier.marks name = keptMarks (keptOp ((h.pending name).getD []))
  refines : PlainMap.Refines (fun e => some e.verifier) CAssetsCache.undoneVerifier
    (fun name => st.store.verifier.db[name]?) st.cache.newRestrictedVerifier
    st.store.passets.newRestrictedVerifier (h.map keptValue)
  coherent : Table.Coherent id (fun _ => True) st.store.verifier
  cacheAssets : st.cache.newAssets = {}
  passetsAssets : st.store.passets.newAssets = {}

theorem verifiersRefined_initial (sizes : CacheSizes) :
    VerifiersRefined (CacheState.initial sizes) (PlainMap.const []) where
  marks name := marks_empty name
  refines := by
    refine ⟨fun name => ?_, fun name => ?_⟩
    · rw [show (CacheState.initial sizes).cache.newRestrictedVerifier = {} from rfl, marks_empty]
      rfl
    · rw [show (CacheState.initial sizes).store.passets.newRestrictedVerifier = {} from rfl,
        marks_empty]
      simp [DirtyPair.Marks.value, CacheState.initial, PlainMap.map, PlainMap.const, keptValue, keptOp]
  coherent := Table.coherent_empty sizes.verifiers
  cacheAssets := rfl
  passetsAssets := rfl

/-- A call on the cache of the block joins the calls of its asset. -/
theorem VerifiersRefined.call (hst : VerifiersRefined st h) {assetName : Str} {op : VerifierOp}
    {upper : DirtyPair Str CAssetCacheRestrictedVerifiers compare}
    (hse : upper.marks assetName = keptMarks (keepOp (keptOp ((h.pending assetName).getD [])) op))
    (ho : ∀ name, assetName ≠ name → upper.marks name = st.cache.newRestrictedVerifier.marks name) :
    VerifiersRefined { st with cache := { st.cache with newRestrictedVerifier := upper } }
      (h.call assetName op) where
  marks name := by
    by_cases hname : name = assetName
    · subst hname
      simp only [VerifierHistory.call, PlainMap.write, Function.update_self, Option.getD_some,
        keptOp_concat]
      exact hse
    · rw [ho name (Ne.symm hname), hst.marks]
      simp [VerifierHistory.call, PlainMap.write, hname]
  refines := by
    rw [VerifierHistory.call, PlainMap.map_write]
    refine hst.refines.write ?_ ho
    rw [hse, ← keptOp_concat, value_keptMarks_concat]
  coherent := hst.coherent
  cacheAssets := hst.cacheAssets
  passetsAssets := hst.passetsAssets

theorem VerifiersRefined.addRestrictedVerifier (hst : VerifiersRefined st h)
    (assetName verifier : Str) :
    VerifiersRefined (st.step env (.addRestrictedVerifier assetName verifier))
      (h.step (.addRestrictedVerifier assetName verifier)) := by
  refine hst.call ?_ fun name hne => marks_add_ne hne _ _
  rw [marks_add_self, hst.marks, keptMarks_add]

theorem VerifiersRefined.removeRestrictedVerifier (hst : VerifiersRefined st h)
    (assetName verifier : Str) (fUndoingReissue : Bool) :
    VerifiersRefined (st.step env (.removeRestrictedVerifier assetName verifier fUndoingReissue))
      (h.step (.removeRestrictedVerifier assetName verifier fUndoingReissue)) := by
  refine hst.call ?_ fun name hne => marks_remove_ne hne _ _
  rw [marks_remove_self, hst.marks, keptMarks_remove]

/-- A flush leaves the cache of the block as it is. -/
theorem VerifiersRefined.flush (hst : VerifiersRefined st h) :
    VerifiersRefined (st.step env .flush) (h.step .flush) where
  marks := hst.marks
  refines := by
    have hf := hst.refines.flush
    rw [← PlainMap.map_flush] at hf
    exact hf
  coherent := hst.coherent
  cacheAssets := hst.cacheAssets
  passetsAssets := by
    have ha : (st.step env .flush).store.passets.newAssets =
        st.cache.newAssets.flush st.store.passets.newAssets := rfl
    rw [ha, hst.cacheAssets, hst.passetsAssets]
    rfl

theorem VerifiersRefined.newCache (hst : VerifiersRefined st h) :
    VerifiersRefined (st.step env .newCache) (h.step .newCache) where
  marks name := marks_empty name
  refines := hst.refines.discard
  coherent := hst.coherent
  cacheAssets := rfl
  passetsAssets := hst.passetsAssets

/-- The row of an asset after one written mark. -/
theorem db_dumpAddedVerifier (t : Table Str Str Str compare) (name : Str)
    (entry : CAssetCacheRestrictedVerifiers) :
    (dumpAddedVerifier t name entry).db[name]? = some entry.verifier := by
  simp [dumpAddedVerifier, Table.overwrite]

theorem db_dumpRemovedVerifier (t : Table Str Str Str compare) (name : Str)
    (entry : CAssetCacheRestrictedVerifiers) :
    (dumpRemovedVerifier t name entry).db[name]? = undoneVerifier entry := by
  unfold dumpRemovedVerifier undoneVerifier
  split <;> simp [Table.overwrite, Table.erase]

theorem db_dumpAddedVerifier_ne {name n : Str} (hne : n ≠ name) (t : Table Str Str Str compare)
    (entry : CAssetCacheRestrictedVerifiers) :
    (dumpAddedVerifier t n entry).db[name]? = t.db[name]? := by
  have hkey : id name ≠ id n := Ne.symm hne
  exact Table.getElem?_insert_of_ne hkey t.db entry.verifier

theorem db_dumpRemovedVerifier_ne {name n : Str} (hne : n ≠ name) (t : Table Str Str Str compare)
    (entry : CAssetCacheRestrictedVerifiers) :
    (dumpRemovedVerifier t n entry).db[name]? = t.db[name]? := by
  unfold dumpRemovedVerifier
  split
  · exact db_dumpAddedVerifier_ne hne t entry
  · exact getElem?_erase_ne hne t.db

theorem coherent_dumpRemovedVerifier {t : Table Str Str Str compare}
    (ht : Table.Coherent id (fun _ => True) t) (name : Str)
    (entry : CAssetCacheRestrictedVerifiers) :
    Table.Coherent id (fun _ => True) (dumpRemovedVerifier t name entry) := by
  unfold dumpRemovedVerifier
  split
  · exact Table.coherent_overwrite ht _
  · exact Table.coherent_erase ht

theorem VerifiersRefined.dump (hst : VerifiersRefined st h) (unset : Int) :
    VerifiersRefined (st.step env (.dumpCacheToDatabase unset)) h := by
  have hp : (st.step env (.dumpCacheToDatabase unset)).store.passets = {} := rfl
  have hta : (st.step env (.dumpCacheToDatabase unset)).store.verifier =
      st.store.passets.newRestrictedVerifier.replay dumpAddedVerifier dumpRemovedVerifier
        st.store.verifier :=
    verifier_dumpCacheToDatabase (by rw [hst.passetsAssets])
  have hro : ∀ name, (st.step env (.dumpCacheToDatabase unset)).store.verifier.db[name]? =
      ((st.store.passets.newRestrictedVerifier.marks name).value (fun e => some e.verifier)
        undoneVerifier).getD st.store.verifier.db[name]? := by
    intro name
    have hr := st.store.passets.newRestrictedVerifier.observe_replay
      (fun t : Table Str Str Str compare => t.db[name]?) name (fun _ entry => some entry.verifier)
      (fun _ entry => undoneVerifier entry)
      (fun t entry _ => db_dumpAddedVerifier t name entry)
      (fun t n entry _ hne => db_dumpAddedVerifier_ne hne t entry)
      (fun t entry _ => db_dumpRemovedVerifier t name entry)
      (fun t n entry _ hne => db_dumpRemovedVerifier_ne hne t entry) st.store.verifier
    rw [hta, hr, DirtyPair.Marks.value]
    cases (st.store.passets.newRestrictedVerifier.marks name).removed with
    | some entry => rfl
    | none => cases (st.store.passets.newRestrictedVerifier.marks name).added <;> rfl
  refine ⟨hst.marks, ?_, ?_, hst.cacheAssets, by rw [hp]⟩
  · rw [hp]
    exact hst.refines.dump hro
  · rw [hta]
    exact replay_invariant (Table.Coherent id fun _ => True) _ hst.coherent
      (fun _ _ _ _ ht => Table.coherent_overwrite ht _)
      fun _ name entry _ ht => coherent_dumpRemovedVerifier ht name entry

/-- What else changes is not read here. -/
theorem VerifiersRefined.congr {st' : CacheState} (hst : VerifiersRefined st h)
    (hm : st'.cache.newRestrictedVerifier = st.cache.newRestrictedVerifier)
    (ha : st'.cache.newAssets = st.cache.newAssets)
    (hp : st'.store.passets = st.store.passets)
    (hdb : st'.store.verifier.db = st.store.verifier.db)
    (hc : Table.Coherent id (fun _ => True) st'.store.verifier) :
    VerifiersRefined st' h := by
  refine ⟨?_, ?_, hc, ?_, ?_⟩
  · rw [hm]
    exact hst.marks
  · rw [hm, hp, hdb]
    exact hst.refines
  · rw [ha, hst.cacheAssets]
  · rw [hp, hst.passetsAssets]

/-- Operations and lookups of another kind, and the lookup that may load a verifier. -/
theorem VerifiersRefined.withCache (hst : VerifiersRefined st h) {cache : CAssetsCache}
    (hm : cache.newRestrictedVerifier = st.cache.newRestrictedVerifier)
    (ha : cache.newAssets = st.cache.newAssets) :
    VerifiersRefined { st with cache } h :=
  hst.congr hm ha rfl rfl hst.coherent

theorem VerifiersRefined.withStore (hst : VerifiersRefined st h) {store : AssetStore}
    (hp : store.passets = st.store.passets) (hv : store.verifier = st.store.verifier) :
    VerifiersRefined { st with store } h :=
  hst.congr rfl rfl hp (congrArg Table.db hv) (hv ▸ hst.coherent)

theorem VerifiersRefined.getAssetVerifierStringIfExists (hst : VerifiersRefined st h) (name : Str)
    (fSkipTempCache : Bool) :
    VerifiersRefined (st.step env (.getAssetVerifierStringIfExists name fSkipTempCache)) h := by
  rcases store_getAssetVerifierStringIfExists st.store st.cache name fSkipTempCache with
    hsa | hl
  · exact hst.withStore (by rw [hsa]) (by rw [hsa])
  · simp only [CacheState.step, hl]
    exact hst.congr rfl rfl rfl Table.db_get (Table.coherent_get hst.coherent trivial)

/-- One event keeps the refinement. -/
theorem verifiersRefined_step (hst : VerifiersRefined st h) (event : CacheEvent) :
    VerifiersRefined (st.step env event) (h.step event) := by
  cases event with
  | addRestrictedAddress assetName address fFreeze => exact hst.withCache rfl rfl
  | removeRestrictedAddress assetName address fFreeze => exact hst.withCache rfl rfl
  | addGlobalRestricted assetName fFreeze => exact hst.withCache rfl rfl
  | removeGlobalRestricted assetName fFreeze => exact hst.withCache rfl rfl
  | addQualifierAddress assetName address fAdd =>
    obtain ⟨rootsAdd, rootsRemove, hr⟩ :=
      st.cache.exists_noteRootQualifier (qualifierType fAdd = .addQualifier) assetName address
    refine hst.withCache ?_ ?_ <;> simp only [addQualifierAddress, hr]
  | removeQualifierAddress assetName address fAdd =>
    obtain ⟨rootsAdd, rootsRemove, hr⟩ :=
      st.cache.exists_noteRootQualifier (qualifierType fAdd ≠ .addQualifier) assetName address
    refine hst.withCache ?_ ?_ <;> simp only [removeQualifierAddress, hr]
  | addRestrictedVerifier assetName verifier => exact hst.addRestrictedVerifier assetName verifier
  | removeRestrictedVerifier assetName verifier fUndoingReissue =>
    exact hst.removeRestrictedVerifier assetName verifier fUndoingReissue
  | flush => exact hst.flush
  | newCache => exact hst.newCache
  | dumpCacheToDatabase unset => exact hst.dump unset
  | checkForAddressRestriction restrictedName address fSkipTempCache =>
    rcases store_checkForAddressRestriction env st.store st.cache restrictedName address
      fSkipTempCache with heq | heq <;> exact hst.withStore (by rw [heq]) (by rw [heq])
  | checkForGlobalRestriction restrictedName fSkipTempCache =>
    rcases store_checkForGlobalRestriction st.store st.cache restrictedName fSkipTempCache with
      heq | heq <;> exact hst.withStore (by rw [heq]) (by rw [heq])
  | checkForAddressQualifier qualifierName address fSkipTempCache =>
    rcases store_checkForAddressQualifier env st.store st.cache qualifierName address
      fSkipTempCache with heq | heq <;> exact hst.withStore (by rw [heq]) (by rw [heq])
  | getAssetVerifierStringIfExists name fSkipTempCache =>
    exact hst.getAssetVerifierStringIfExists name fSkipTempCache

/-- A lookup answers what the kept call of the asset wrote. -/
theorem VerifiersRefined.fst_getAssetVerifierStringIfExists (hst : VerifiersRefined st h)
    (name : Str) :
    (st.store.getAssetVerifierStringIfExists st.cache name true).1 = keptValue (h.flushed name) := by
  have hr := @Table.fst_get Str Str Str compare _ id (fun _ => True) st.store.verifier name
    hst.coherent (fun _ _ _ _ heq => heq) trivial
  have hf := hst.refines.flushed name
  rw [DirtyPair.Marks.value, DirtyPair.marks] at hf
  simp only [AssetStore.getAssetVerifierStringIfExists, tempCache]
  refine Eq.trans ?_ hf
  cases st.store.passets.newRestrictedVerifier.toRemove[name]? with
  | some entry => rfl
  | none =>
    cases st.store.passets.newRestrictedVerifier.toAdd[name]? with
    | some entry => rfl
    | none => exact hr

/-- A lookup answers what the last flushed call wrote exactly when the first of the calls of one
kind that end the flushed ones wrote the same. -/
theorem getAssetVerifierStringIfExists_eq_lastValue_iff (sizes : CacheSizes)
    (events : List CacheEvent) (name : Str) :
    ((CacheState.run env sizes events).store.getAssetVerifierStringIfExists
        (CacheState.run env sizes events).cache name true).1 =
      lastValue ((VerifierHistory.run events).flushed name) ↔
    keptValue ((VerifierHistory.run events).flushed name) =
      lastValue ((VerifierHistory.run events).flushed name) := by
  have hr : VerifiersRefined (CacheState.run env sizes events) (VerifierHistory.run events) :=
    List.foldl_rel (verifiersRefined_initial sizes) fun event _ _ _ h => verifiersRefined_step h event
  rw [hr.fst_getAssetVerifierStringIfExists name]

/-- Two verifiers written to one asset in one block. -/
def rewrittenVerifier : List CacheEvent :=
  [.addRestrictedVerifier (str "$MUSIC") (str "true"),
    .addRestrictedVerifier (str "$MUSIC") (str "#KYC"), .flush]

theorem rewrittenVerifier_keeps_first :
    ((CacheState.run plainEnv smallSizes rewrittenVerifier).store.getAssetVerifierStringIfExists
        (CacheState.run plainEnv smallSizes rewrittenVerifier).cache (str "$MUSIC") true).1 =
      some (str "true") ∧
    lastValue ((VerifierHistory.run rewrittenVerifier).flushed (str "$MUSIC")) =
      some (str "#KYC") := by
  decide +kernel

end Cmusic
