import Cmusic.CacheRuns
import Cmusic.Lib.FlagLayers

/-! The lookups of freezes refine plain maps, over every run of the caches. -/
namespace Cmusic

open Std

/-- What the lookups of freezes are for: which addresses and which assets are frozen. -/
structure Freezes where
  addresses : PlainMap (Str × Str) Bool := PlainMap.const false
  assets : PlainMap Str Bool := PlainMap.const false

/-- A command sets its key, its undoing sets it the other way. -/
def Freezes.step (f : Freezes) : CacheEvent → Freezes
  | .addRestrictedAddress assetName address fFreeze =>
    { f with addresses := f.addresses.write (assetName, address) fFreeze }
  | .removeRestrictedAddress assetName address fFreeze =>
    { f with addresses := f.addresses.write (assetName, address) !fFreeze }
  | .addGlobalRestricted assetName fFreeze => { f with assets := f.assets.write assetName fFreeze }
  | .removeGlobalRestricted assetName fFreeze =>
    { f with assets := f.assets.write assetName !fFreeze }
  | .flush => ⟨f.addresses.flush, f.assets.flush⟩
  | .newCache => ⟨f.addresses.discard, f.assets.discard⟩
  | _ => f

def Freezes.run (events : List CacheEvent) : Freezes := events.foldl Freezes.step {}

/-- The event uses only keys of `K` with the cache of address freezes. -/
def CacheEvent.FreezeKey (K : Str × Str → Prop) : CacheEvent → Prop
  | .addRestrictedAddress assetName address _ => K (assetName, address)
  | .removeRestrictedAddress assetName address _ => K (assetName, address)
  | .checkForAddressRestriction restrictedName address _ => K (restrictedName, address)
  | _ => True

variable {env : Env} {K : Str × Str → Prop} {st : CacheState} {f : Freezes}

/-- The layers hold what the plain maps do. -/
structure FreezesRefined (env : Env) (K : Str × Str → Prop) (st : CacheState) (f : Freezes) :
    Prop where
  addresses : FlagLayers.Inv (rowHash env) K RestrictedType.freezeAddress .unfreezeAddress
    st.cache.newRestrictedAddress st.store.passets.newRestrictedAddress st.store.restrictedAddress
    f.addresses
  assets : FlagLayers.Inv id (fun _ => True) RestrictedType.globalFreeze .globalUnfreeze
    st.cache.newRestrictedGlobal st.store.passets.newRestrictedGlobal st.store.globalRestriction
    f.assets

theorem writes_dumpRestriction : FlagLayers.Writes (rowHash env) RestrictedType.freezeAddress
    .unfreezeAddress (dumpAddedRestriction env) (dumpRemovedRestriction env) :=
  ⟨fun _ _ => rfl, fun _ _ => rfl, fun _ _ => rfl, fun _ _ => rfl⟩

theorem writes_dumpGlobal : FlagLayers.Writes id RestrictedType.globalFreeze .globalUnfreeze
    dumpAddedGlobal dumpRemovedGlobal :=
  ⟨fun _ _ => rfl, fun _ _ => rfl, fun _ _ => rfl, fun _ _ => rfl⟩

theorem freezesRefined_initial (sizes : CacheSizes) :
    FreezesRefined env K (CacheState.initial sizes) {} :=
  ⟨FlagLayers.inv_empty sizes.restrictions, FlagLayers.inv_empty sizes.globalRestrictions⟩

theorem FreezesRefined.dump (h : FreezesRefined env K st f) (unset : Int) :
    FreezesRefined env K (st.step env (.dumpCacheToDatabase unset)) f := by
  obtain ⟨hp, -, hfreezes, hg⟩ := @restricted_dumpCacheToDatabase env unset st.store
  have ha := h.addresses.dump (by decide) writes_dumpRestriction
  have has := h.assets.dump (by decide) writes_dumpGlobal
  refine ⟨?_, ?_⟩
  · dsimp only [CacheState.step]
    rw [hp, hfreezes]
    exact ha
  · dsimp only [CacheState.step]
    rw [hp, hg]
    exact has

/-- The lookups may load rows. -/
theorem FreezesRefined.checkForAddressRestriction (h : FreezesRefined env K st f)
    {restrictedName address : Str} (hkey : K (restrictedName, address)) (fSkipTempCache : Bool) :
    FreezesRefined env K
      (st.step env (.checkForAddressRestriction restrictedName address fSkipTempCache)) f := by
  rcases store_checkForAddressRestriction env st.store st.cache restrictedName address
    fSkipTempCache with hsa | hl
  · simpa only [CacheState.step, hsa] using h
  · simp only [CacheState.step, hl]
    exact ⟨h.addresses.load Table.db_lookup (Table.coherent_lookup h.addresses.coherent hkey),
      h.assets⟩

theorem FreezesRefined.checkForGlobalRestriction (h : FreezesRefined env K st f)
    (restrictedName : Str) (fSkipTempCache : Bool) :
    FreezesRefined env K (st.step env (.checkForGlobalRestriction restrictedName fSkipTempCache))
      f := by
  rcases store_checkForGlobalRestriction st.store st.cache restrictedName fSkipTempCache with
    hsa | hl
  · simpa only [CacheState.step, hsa] using h
  · simp only [CacheState.step, hl]
    exact ⟨h.addresses,
      h.assets.load Table.db_lookup (Table.coherent_lookup h.assets.coherent trivial)⟩

/-- One event keeps the refinement. -/
theorem freezesRefined_step (h : FreezesRefined env K st f) {event : CacheEvent}
    (he : event.FreezeKey K) : FreezesRefined env K (st.step env event) (f.step event) := by
  cases event with
  | addRestrictedAddress assetName address fFreeze =>
    exact ⟨h.addresses.putAdd (by decide) he fFreeze, h.assets⟩
  | removeRestrictedAddress assetName address fFreeze =>
    exact ⟨h.addresses.putRemove (by decide) he fFreeze, h.assets⟩
  | addGlobalRestricted assetName fFreeze =>
    exact ⟨h.addresses, h.assets.putAdd (by decide) trivial fFreeze⟩
  | removeGlobalRestricted assetName fFreeze =>
    exact ⟨h.addresses, h.assets.putRemove (by decide) trivial fFreeze⟩
  | addQualifierAddress assetName address fAdd =>
    obtain ⟨rootsAdd, rootsRemove, hr⟩ :=
      st.cache.exists_noteRootQualifier (qualifierType fAdd = .addQualifier) assetName address
    simp only [CacheState.step, CAssetsCache.addQualifierAddress, hr]
    exact ⟨h.addresses, h.assets⟩
  | removeQualifierAddress assetName address fAdd =>
    obtain ⟨rootsAdd, rootsRemove, hr⟩ :=
      st.cache.exists_noteRootQualifier (qualifierType fAdd ≠ .addQualifier) assetName address
    simp only [CacheState.step, CAssetsCache.removeQualifierAddress, hr]
    exact ⟨h.addresses, h.assets⟩
  | addRestrictedVerifier assetName verifier => exact ⟨h.addresses, h.assets⟩
  | removeRestrictedVerifier assetName verifier fUndoingReissue => exact ⟨h.addresses, h.assets⟩
  | flush => exact ⟨h.addresses.flush, h.assets.flush⟩
  | newCache => exact ⟨h.addresses.discard, h.assets.discard⟩
  | dumpCacheToDatabase unset => exact h.dump unset
  | checkForAddressRestriction restrictedName address fSkipTempCache =>
    exact h.checkForAddressRestriction he fSkipTempCache
  | checkForGlobalRestriction restrictedName fSkipTempCache =>
    exact h.checkForGlobalRestriction restrictedName fSkipTempCache
  | checkForAddressQualifier qualifierName address fSkipTempCache =>
    rcases store_checkForAddressQualifier env st.store st.cache qualifierName address
      fSkipTempCache with heq | heq <;> simp only [CacheState.step, heq]
    · exact h
    · exact ⟨h.addresses, h.assets⟩
  | getAssetVerifierStringIfExists name fSkipTempCache =>
    rcases store_getAssetVerifierStringIfExists st.store st.cache name fSkipTempCache with
      heq | heq <;> simp only [CacheState.step, heq]
    · exact h
    · exact ⟨h.addresses, h.assets⟩

/-- A lookup that skips the cache of the block goes through the dirty sets of `passets` to the row
of the key. -/
theorem FreezesRefined.fst_checkForAddressRestriction (h : FreezesRefined env K st f)
    (hd : Table.Distinct (rowHash env) K) {restrictedName address : Str}
    (hkey : K (restrictedName, address)) :
    (st.store.checkForAddressRestriction env st.cache restrictedName address true).1 =
      f.addresses.flushed (restrictedName, address) := by
  have hr := Table.fst_lookup h.addresses.coherent hd hkey
  rw [← h.addresses.holds_eq, FlagLayers.holds, DirtyPair.Marks.value, DirtyPair.marks]
  simp only [AssetStore.checkForAddressRestriction, CAssetsCache.tempCache]
  cases st.store.passets.newRestrictedAddress.toRemove[(restrictedName, address)]? with
  | some type => rfl
  | none =>
    cases st.store.passets.newRestrictedAddress.toAdd[(restrictedName, address)]? with
    | some type => rfl
    | none => exact congrArg Option.isSome hr

theorem FreezesRefined.fst_checkForGlobalRestriction (h : FreezesRefined env K st f)
    (restrictedName : Str) :
    (st.store.checkForGlobalRestriction st.cache restrictedName true).1 =
      f.assets.flushed restrictedName := by
  have hr := @Table.fst_lookup Str Str Unit compare _ id (fun _ => True)
    st.store.globalRestriction restrictedName h.assets.coherent (fun _ _ _ _ heq => heq) trivial
  rw [← h.assets.holds_eq, FlagLayers.holds, DirtyPair.Marks.value, DirtyPair.marks]
  simp only [AssetStore.checkForGlobalRestriction, CAssetsCache.tempCache]
  cases st.store.passets.newRestrictedGlobal.toRemove[restrictedName]? with
  | some type => rfl
  | none =>
    cases st.store.passets.newRestrictedGlobal.toAdd[restrictedName]? with
    | some type => rfl
    | none => exact congrArg Option.isSome hr

/-- The lookups of freezes answer what the last flushed command on the key says, whatever the
caches of the rows hold. -/
theorem checkForRestriction_eq_flushed (sizes : CacheSizes) {events : List CacheEvent}
    (hdistinct : Table.Distinct (rowHash env) K) (hevents : ∀ event ∈ events, event.FreezeKey K)
    {restrictedName address : Str} (hkey : K (restrictedName, address)) :
    (((CacheState.run env sizes events).store.checkForAddressRestriction env
        (CacheState.run env sizes events).cache restrictedName address true).1 =
      (Freezes.run events).addresses.flushed (restrictedName, address)) ∧
    (((CacheState.run env sizes events).store.checkForGlobalRestriction
        (CacheState.run env sizes events).cache restrictedName true).1 =
      (Freezes.run events).assets.flushed restrictedName) := by
  have hr : FreezesRefined env K (CacheState.run env sizes events) (Freezes.run events) :=
    List.foldl_rel (freezesRefined_initial sizes) fun event he _ _ h =>
      freezesRefined_step h (hevents event he)
  exact ⟨hr.fst_checkForAddressRestriction hdistinct hkey,
    hr.fst_checkForGlobalRestriction restrictedName⟩

/-- A freeze that is dumped, and another one that evicts its row; both are undone, one of them in a
cache that is not flushed. -/
def frozenEvents : List CacheEvent :=
  [.addRestrictedAddress (str "$MUSIC") (str "X") true, .addGlobalRestricted (str "$MUSIC") true,
    .flush, .dumpCacheToDatabase 0, .newCache,
    .addRestrictedAddress (str "$MUSIC") (str "Y") true, .flush, .dumpCacheToDatabase 0, .newCache,
    .checkForAddressRestriction (str "$MUSIC") (str "X") false,
    .removeGlobalRestricted (str "$MUSIC") true, .flush, .newCache,
    .removeRestrictedAddress (str "$MUSIC") (str "X") true]

def frozenKeys (key : Str × Str) : Prop :=
  key = (str "$MUSIC", str "X") ∨ key = (str "$MUSIC", str "Y")

theorem distinct_frozenKeys : Table.Distinct (rowHash plainEnv) frozenKeys := by
  rintro k n (rfl | rfl) (rfl | rfl) heq
  · rfl
  · exact absurd heq (by decide)
  · exact absurd heq (by decide)
  · rfl

theorem checkForRestriction_eq_flushed_frozenEvents :
    (((CacheState.run plainEnv smallSizes frozenEvents).store.checkForAddressRestriction plainEnv
        (CacheState.run plainEnv smallSizes frozenEvents).cache (str "$MUSIC") (str "X") true).1 =
      true) ∧
    (((CacheState.run plainEnv smallSizes frozenEvents).store.checkForGlobalRestriction
        (CacheState.run plainEnv smallSizes frozenEvents).cache (str "$MUSIC") true).1 =
      false) := by
  have he : ∀ event ∈ frozenEvents, event.FreezeKey frozenKeys := by
    simp [frozenEvents, CacheEvent.FreezeKey, frozenKeys]
  exact checkForRestriction_eq_flushed smallSizes distinct_frozenKeys he (Or.inl rfl)

end Cmusic
