import Cmusic.CacheRuns
import Cmusic.Lib.FlagLayers
import Cmusic.QualifierNames

/-! The lookups of tags, over every run of the caches. -/
namespace Cmusic

open Std CAssetsCache

section RootQualifiers

variable {map below : PairMap (TreeSet Str)} {key key' : Str × Str} {asset asset' : Str}

/-- The asset is noted under the key. -/
def RootNoted (map : PairMap (TreeSet Str)) (key : Str × Str) (asset : Str) : Prop :=
  asset ∈ map[key]?.getD ∅

theorem not_rootNoted_empty : ¬RootNoted ∅ key asset := by
  simp [RootNoted]

theorem rootNoted_insert (map : PairMap (TreeSet Str)) (key : Str × Str) (asset : Str)
    (key' : Str × Str) (asset' : Str) :
    RootNoted (insertRootQualifier map key asset) key' asset' ↔
      (key' = key ∧ asset' = asset) ∨ RootNoted map key' asset' := by
  unfold RootNoted insertRootQualifier
  by_cases hkey : key' = key
  · simp [hkey, @eq_comm _ asset']
  · simp [Maps.getElem?_insert_of_ne hkey, hkey]

theorem rootNoted_erase (map : PairMap (TreeSet Str)) (key : Str × Str) (asset : Str)
    (key' : Str × Str) (asset' : Str) :
    RootNoted (eraseRootQualifier map key asset) key' asset' ↔
      ¬(key' = key ∧ asset' = asset) ∧ RootNoted map key' asset' := by
  unfold RootNoted eraseRootQualifier
  by_cases hkey : key' = key
  · simp [hkey, @eq_comm _ asset']
  · simp [Maps.getElem?_insert_of_ne hkey, hkey]

theorem rootNoted_foldl_insert (assets : TreeSet Str) (below : PairMap (TreeSet Str))
    (key key' : Str × Str) (asset : Str) :
    RootNoted (assets.foldl (fun below asset => insertRootQualifier below key asset) below) key'
        asset ↔
      (key' = key ∧ asset ∈ assets) ∨ RootNoted below key' asset := by
  rw [TreeSet.foldl_eq_foldl_toList, ← TreeSet.mem_toList]
  generalize assets.toList = l
  induction l generalizing below with
  | nil => simp
  | cons head l ih =>
    rw [List.foldl_cons, ih, rootNoted_insert, List.mem_cons]
    tauto

/-- A flush of root qualifiers is a union. -/
theorem rootNoted_flush (map below : PairMap (TreeSet Str)) (key : Str × Str) (asset : Str) :
    RootNoted (flushRootQualifiers map below) key asset ↔
      RootNoted map key asset ∨ RootNoted below key asset := by
  have hse : ∀ (b : PairMap (TreeSet Str)) (assets : TreeSet Str), map[key]? = some assets →
      RootNoted (assets.foldl (fun b asset => insertRootQualifier b key asset) b) key asset =
        (asset ∈ assets ∨ RootNoted b key asset) := by
    intro b assets _
    rw [eq_iff_iff, rootNoted_foldl_insert]
    simp
  have ho : ∀ (b : PairMap (TreeSet Str)) (n : Str × Str) (assets : TreeSet Str),
      map[n]? = some assets → n ≠ key → RootNoted (assets.foldl (fun b asset => insertRootQualifier b n asset) b) key
        asset = RootNoted b key asset := by
    intro b n assets _ hn
    rw [eq_iff_iff, rootNoted_foldl_insert]
    simp [hn.symm]
  have hf := DirtyPair.observe_foldl map (fun b : PairMap (TreeSet Str) => RootNoted b key asset)
    key (fun (noted : Prop) (assets : TreeSet Str) => asset ∈ assets ∨ noted) hse ho below
  refine (iff_of_eq hf).trans ?_
  unfold RootNoted
  cases map[key]? <;> simp

theorem hasRootQualifier_iff :
    hasRootQualifier map key = true ↔ ∃ asset, RootNoted map key asset := by
  unfold hasRootQualifier RootNoted
  cases map[key]? with
  | none => simp
  | some assets => simp [TreeSet.isEmpty_eq_false_iff_exists_mem]

end RootQualifiers

/-- What the lookups of tags are for: which addresses have which tags. Next to it, the keys that
were written by a flush since the last dump. -/
structure Tags where
  tags : PlainMap (Str × Str) Bool := PlainMap.const false
  undumped : Str × Str → Prop := fun _ => False

def Tags.step (f : Tags) : CacheEvent → Tags
  | .addQualifierAddress assetName address fAdd =>
    { f with tags := f.tags.write (assetName, address) fAdd }
  | .removeQualifierAddress assetName address fAdd =>
    { f with tags := f.tags.write (assetName, address) !fAdd }
  | .flush => ⟨f.tags.flush, fun key => (f.tags.pending key).isSome ∨ f.undumped key⟩
  | .newCache => { f with tags := f.tags.discard }
  | .dumpCacheToDatabase _ => { f with undumped := fun _ => False }
  | _ => f

def Tags.run (events : List CacheEvent) : Tags := events.foldl Tags.step {}

/-- The event uses only keys of `K` with the tags. -/
def CacheEvent.TagKey (K : Str × Str → Prop) : CacheEvent → Prop
  | .addQualifierAddress assetName address _ => K (assetName, address)
  | .removeQualifierAddress assetName address _ => K (assetName, address)
  | .checkForAddressQualifier qualifierName address _ => K (qualifierName, address)
  | _ => True

variable {env : Env} {K : Str × Str → Prop} {st : CacheState} {f : Tags} {assetName address : Str}
  {cache : CAssetsCache}

/-- The layers hold what the plain map does. The root map of `passets` has every sub qualifier
written since the last dump, added and removed ones alike. -/
structure TagsRefined (env : Env) (K : Str × Str → Prop) (st : CacheState) (f : Tags) : Prop where
  tags : FlagLayers.Inv (rowHash env) K QualifierType.addQualifier .removeQualifier
    st.cache.newQualifierAddress st.store.passets.newQualifierAddress st.store.addressQualifier
    f.tags
  undumped : ∀ key, f.undumped key ↔
    ((st.store.passets.newQualifierAddress.marks key).value (fun v => decide (v = .addQualifier))
      fun v => decide (v = .removeQualifier)).isSome
  cacheRoots : ∀ key name, RootNoted st.cache.mapRootQualifierAddressesAdd key name ∨
      RootNoted st.cache.mapRootQualifierAddressesRemove key name ↔
    isAssetNameASubQualifier name = true ∧ getParentName name = key.1 ∧
      (f.tags.pending (name, key.2)).isSome
  roots : ∀ key name, RootNoted st.store.passets.mapRootQualifierAddressesAdd key name ↔
    isAssetNameASubQualifier name = true ∧ getParentName name = key.1 ∧ f.undumped (name, key.2)

theorem writes_dumpQualifier : FlagLayers.Writes (rowHash env) QualifierType.addQualifier
    .removeQualifier (dumpAddedQualifier env) (dumpRemovedQualifier env) :=
  ⟨fun _ _ => rfl, fun _ _ => rfl, fun _ _ => rfl, fun _ _ => rfl⟩

theorem tagsRefined_initial (sizes : CacheSizes) :
    TagsRefined env K (CacheState.initial sizes) {} where
  tags := FlagLayers.inv_empty sizes.qualifiers
  undumped key := by
    have hm : (CacheState.initial sizes).store.passets.newQualifierAddress.marks key = {} :=
      DirtyPair.marks_empty key
    rw [hm]
    simp [DirtyPair.Marks.value]
  cacheRoots key name := by
    simp [CacheState.initial, not_rootNoted_empty, PlainMap.const]
  roots key name := by
    simp [CacheState.initial, not_rootNoted_empty]

/-- A tag of a sub qualifier is noted under its parent, added or removed. -/
theorem rootNoted_noteRootQualifier (cache : CAssetsCache) (added : Bool) (assetName address : Str)
    (key : Str × Str) (name : Str) :
    RootNoted (cache.noteRootQualifier added assetName address).mapRootQualifierAddressesAdd key
        name ∨
      RootNoted (cache.noteRootQualifier added assetName address).mapRootQualifierAddressesRemove
        key name ↔
    (isAssetNameASubQualifier name = true ∧ getParentName name = key.1 ∧
        (name, key.2) = (assetName, address)) ∨
      RootNoted cache.mapRootQualifierAddressesAdd key name ∨
      RootNoted cache.mapRootQualifierAddressesRemove key name := by
  obtain ⟨q, a⟩ := key
  unfold noteRootQualifier
  split
  next hsu =>
    constructor
    · exact Or.inr
    · rintro (⟨hname, -, heq⟩ | h)
      · obtain ⟨rfl, -⟩ := Prod.mk.inj heq
        simp [hname] at hsu
      · exact h
  next hsu =>
    have hsu : isAssetNameASubQualifier assetName = true := by simpa using hsu
    have hkey : ((q, a) = (getParentName assetName, address) ∧ name = assetName) ↔
        isAssetNameASubQualifier name = true ∧ getParentName name = q ∧
          (name, a) = (assetName, address) := by
      constructor
      · rintro ⟨heq, rfl⟩
        obtain ⟨rfl, rfl⟩ := Prod.mk.inj heq
        exact ⟨hsu, rfl, rfl⟩
      · rintro ⟨-, rfl, heq⟩
        obtain ⟨rfl, rfl⟩ := Prod.mk.inj heq
        exact ⟨rfl, rfl⟩
    split
    · simp only [rootNoted_insert, rootNoted_erase, ← hkey]
      tauto
    · simp only [rootNoted_insert, rootNoted_erase, ← hkey]
      tauto

/-- Both kinds of commands, on the cache of the block. -/
theorem TagsRefined.write (h : TagsRefined env K st f) {value added : Bool}
    {upper : DirtyPair (Str × Str) QualifierType pairCmp}
    (ht : FlagLayers.Inv (rowHash env) K QualifierType.addQualifier .removeQualifier upper
      st.store.passets.newQualifierAddress st.store.addressQualifier
      (f.tags.write (assetName, address) value)) :
    TagsRefined env K { st with cache :=
        { st.cache.noteRootQualifier added assetName address with newQualifierAddress := upper } }
      { f with tags := f.tags.write (assetName, address) value } where
  tags := ht
  undumped := h.undumped
  cacheRoots key name := by
    have hp : ((f.tags.write (assetName, address) value).pending (name, key.2)).isSome ↔
        (name, key.2) = (assetName, address) ∨ (f.tags.pending (name, key.2)).isSome := by
      by_cases heq : (name, key.2) = (assetName, address)
      · rw [heq]
        simp [PlainMap.write]
      · simp [PlainMap.write, heq]
    rw [rootNoted_noteRootQualifier, h.cacheRoots, hp]
    tauto
  roots := h.roots

theorem newQualifierAddress_noteRootQualifier {added : Bool} :
    (cache.noteRootQualifier added assetName address).newQualifierAddress =
      cache.newQualifierAddress := by
  obtain ⟨rootsAdd, rootsRemove, hr⟩ := cache.exists_noteRootQualifier added assetName address
  rw [hr]

theorem TagsRefined.addQualifierAddress (h : TagsRefined env K st f) (hkey : K (assetName, address))
    (fAdd : Bool) :
    TagsRefined env K (st.step env (.addQualifierAddress assetName address fAdd))
      (f.step (.addQualifierAddress assetName address fAdd)) := by
  refine h.write ?_
  rw [newQualifierAddress_noteRootQualifier]
  exact h.tags.putAdd (by decide) hkey fAdd

theorem TagsRefined.removeQualifierAddress (h : TagsRefined env K st f)
    (hkey : K (assetName, address)) (fAdd : Bool) :
    TagsRefined env K (st.step env (.removeQualifierAddress assetName address fAdd))
      (f.step (.removeQualifierAddress assetName address fAdd)) := by
  refine h.write ?_
  rw [newQualifierAddress_noteRootQualifier]
  exact h.tags.putRemove (by decide) hkey fAdd

/-- The removed root qualifiers join the added ones. -/
theorem TagsRefined.flush (h : TagsRefined env K st f) :
    TagsRefined env K (st.step env .flush) (f.step .flush) where
  tags := h.tags.flush
  undumped key := by
    have hm : (st.step env .flush).store.passets.newQualifierAddress.marks key =
        (st.cache.newQualifierAddress.marks key).onto
          (st.store.passets.newQualifierAddress.marks key) :=
      DirtyPair.marks_putFlush st.cache.newQualifierAddress st.store.passets.newQualifierAddress key
    rw [hm, DirtyPair.Marks.value_onto, h.tags.refines.pending]
    simp only [Tags.step, h.undumped, Option.isSome_or, Bool.or_eq_true]
  cacheRoots := h.cacheRoots
  roots key name := by
    have hr : (st.step env .flush).store.passets.mapRootQualifierAddressesAdd =
        flushRootQualifiers st.cache.mapRootQualifierAddressesRemove
          (flushRootQualifiers st.cache.mapRootQualifierAddressesAdd
            st.store.passets.mapRootQualifierAddressesAdd) := rfl
    have hc := h.cacheRoots key name
    rw [hr, rootNoted_flush, rootNoted_flush, h.roots]
    dsimp only [Tags.step]
    tauto

theorem TagsRefined.newCache (h : TagsRefined env K st f) :
    TagsRefined env K (st.step env .newCache) (f.step .newCache) where
  tags := h.tags.discard
  undumped := h.undumped
  cacheRoots key name := by
    simp [CacheState.step, Tags.step, PlainMap.discard, not_rootNoted_empty]
  roots := h.roots

theorem TagsRefined.dump (h : TagsRefined env K st f) (unset : Int) :
    TagsRefined env K (st.step env (.dumpCacheToDatabase unset))
      (f.step (.dumpCacheToDatabase unset)) := by
  obtain ⟨hp, ht, -, -⟩ := @restricted_dumpCacheToDatabase env unset st.store
  have hta := h.tags.dump (by decide) writes_dumpQualifier
  refine ⟨?_, fun key => ?_, h.cacheRoots, fun key name => ?_⟩
  · dsimp only [CacheState.step]
    rw [hp, ht]
    exact hta
  · dsimp only [CacheState.step]
    rw [hp, DirtyPair.marks_empty]
    simp [DirtyPair.Marks.value, Tags.step]
  · dsimp only [CacheState.step]
    rw [hp]
    simp [Tags.step, not_rootNoted_empty]

/-- What else changes is not read here. -/
theorem TagsRefined.withCache (h : TagsRefined env K st f)
    (ht : cache.newQualifierAddress = st.cache.newQualifierAddress)
    (ha : cache.mapRootQualifierAddressesAdd = st.cache.mapRootQualifierAddressesAdd)
    (hr : cache.mapRootQualifierAddressesRemove = st.cache.mapRootQualifierAddressesRemove) :
    TagsRefined env K { st with cache } f where
  tags := ht ▸ h.tags
  undumped := h.undumped
  cacheRoots := ha ▸ hr ▸ h.cacheRoots
  roots := h.roots

theorem TagsRefined.withStore (h : TagsRefined env K st f) {store : AssetStore}
    (hp : store.passets = st.store.passets)
    (hdb : store.addressQualifier.db = st.store.addressQualifier.db)
    (hc : Table.Coherent (rowHash env) K store.addressQualifier) :
    TagsRefined env K { st with store } f where
  tags := hp ▸ h.tags.load hdb hc
  undumped := hp ▸ h.undumped
  cacheRoots := h.cacheRoots
  roots := hp ▸ h.roots

theorem TagsRefined.checkForAddressQualifier (h : TagsRefined env K st f) {qualifierName : Str}
    (hkey : K (qualifierName, address)) (fSkipTempCache : Bool) :
    TagsRefined env K
      (st.step env (.checkForAddressQualifier qualifierName address fSkipTempCache)) f := by
  rcases store_checkForAddressQualifier env st.store st.cache qualifierName address
    fSkipTempCache with heq | heq <;> simp only [CacheState.step, heq]
  · exact h
  · exact h.withStore rfl Table.db_lookup (Table.coherent_lookup h.tags.coherent hkey)

/-- One event keeps the refinement. -/
theorem tagsRefined_step (h : TagsRefined env K st f) {event : CacheEvent}
    (he : event.TagKey K) : TagsRefined env K (st.step env event) (f.step event) := by
  cases event with
  | addRestrictedAddress assetName address fFreeze => exact h.withCache rfl rfl rfl
  | removeRestrictedAddress assetName address fFreeze => exact h.withCache rfl rfl rfl
  | addGlobalRestricted assetName fFreeze => exact h.withCache rfl rfl rfl
  | removeGlobalRestricted assetName fFreeze => exact h.withCache rfl rfl rfl
  | addQualifierAddress assetName address fAdd => exact h.addQualifierAddress he fAdd
  | removeQualifierAddress assetName address fAdd => exact h.removeQualifierAddress he fAdd
  | addRestrictedVerifier assetName verifier => exact h.withCache rfl rfl rfl
  | removeRestrictedVerifier assetName verifier fUndoingReissue => exact h.withCache rfl rfl rfl
  | flush => exact h.flush
  | newCache => exact h.newCache
  | dumpCacheToDatabase unset => exact h.dump unset
  | checkForAddressRestriction restrictedName address fSkipTempCache =>
    rcases store_checkForAddressRestriction env st.store st.cache restrictedName address
      fSkipTempCache with heq | heq <;> simp only [CacheState.step, heq]
    · exact h
    · exact h.withStore rfl rfl h.tags.coherent
  | checkForGlobalRestriction restrictedName fSkipTempCache =>
    rcases store_checkForGlobalRestriction st.store st.cache restrictedName fSkipTempCache with
      heq | heq <;> simp only [CacheState.step, heq]
    · exact h
    · exact h.withStore rfl rfl h.tags.coherent
  | checkForAddressQualifier qualifierName address fSkipTempCache =>
    exact h.checkForAddressQualifier he fSkipTempCache
  | getAssetVerifierStringIfExists name fSkipTempCache =>
    rcases store_getAssetVerifierStringIfExists st.store st.cache name fSkipTempCache with
      heq | heq <;> simp only [CacheState.step, heq]
    · exact h
    · exact h.withStore rfl rfl h.tags.coherent

/-- `name` continues `qualifier` with a slash. -/
def SubOf (qualifier name : Str) : Prop := (qualifier ++ str "/").isPrefixOf name = true

/-- The address has a tag of a sub qualifier. -/
def Tags.HasSub (f : Tags) (qualifier address : Str) : Prop :=
  ∃ name, SubOf qualifier name ∧ f.tags.flushed (name, address) = true

/-- The address has the tag, or that of a sub qualifier. -/
def Tags.Has (f : Tags) (qualifier address : Str) : Prop :=
  f.tags.flushed (qualifier, address) = true ∨ f.HasSub qualifier address

/-- Where the root map is right: a key written since the last dump has its tag or no tag of a sub
qualifier, and a key with a sub qualifier written since then has a tag. -/
structure Tags.RootsAgree (f : Tags) (qualifier address : Str) : Prop where
  self : f.undumped (qualifier, address) → f.HasSub qualifier address →
    f.tags.flushed (qualifier, address) = true
  sub : ¬f.undumped (qualifier, address) →
    (∃ name, SubOf qualifier name ∧ f.undumped (name, address)) → f.Has qualifier address

theorem rootQualifierRow_iff {db : PairMap Unit} {qualifier address : Str} :
    checkForAddressRootQualifier db (qualifier, address) = true ↔
      ∃ name, (name = qualifier ∨ SubOf qualifier name) ∧ db[(name, address)]?.isSome := by
  unfold checkForAddressRootQualifier SubOf
  simp only [List.any_eq_true, TreeMap.mem_keys, Bool.and_eq_true, Bool.or_eq_true,
    decide_eq_true_eq, TreeMap.mem_iff_isSome_getElem?]
  constructor
  · rintro ⟨⟨name, a⟩, hr, rfl, hname⟩
    exact ⟨name, hname, hr⟩
  · rintro ⟨name, hname, hr⟩
    exact ⟨(name, address), hr, rfl, hname⟩

section Lookup

variable (h : TagsRefined env K st f) {qualifier address : Str} {key : Str × Str}

include h

/-- A key written since the last dump is answered by its mark. -/
theorem TagsRefined.lookup_undumped (hse : f.undumped (qualifier, address)) :
    (st.store.checkForAddressQualifier env st.cache qualifier address true).1 =
      f.tags.flushed (qualifier, address) := by
  rw [h.undumped, DirtyPair.Marks.value, DirtyPair.marks] at hse
  rw [← h.tags.holds_eq, FlagLayers.holds, DirtyPair.Marks.value, DirtyPair.marks]
  simp only [AssetStore.checkForAddressQualifier, CAssetsCache.tempCache]
  cases hr : st.store.passets.newQualifierAddress.toRemove[(qualifier, address)]? with
  | some type => rfl
  | none =>
    cases ha : st.store.passets.newQualifierAddress.toAdd[(qualifier, address)]? with
    | some type => rfl
    | none => simp [hr, ha] at hse

/-- Another one by the root map and the rows. -/
theorem TagsRefined.lookup_dumped (hd : Table.Distinct (rowHash env) K)
    (hkey : K (qualifier, address)) (hse : ¬f.undumped (qualifier, address)) :
    (st.store.checkForAddressQualifier env st.cache qualifier address true).1 = true ↔
      (∃ name, RootNoted st.store.passets.mapRootQualifierAddressesAdd (qualifier, address) name) ∨
        ∃ name, (name = qualifier ∨ SubOf qualifier name) ∧
          st.store.addressQualifier.db[(name, address)]?.isSome := by
  have hro := Table.fst_lookup h.tags.coherent hd hkey
  rw [h.undumped, DirtyPair.Marks.value, DirtyPair.marks] at hse
  rw [checkForAddressQualifier_globals, CAssetsCache.checkForAddressQualifier]
  dsimp only [CAssetsCache.tempCache, AssetStore.globals]
  cases hr : st.store.passets.newQualifierAddress.toRemove[(qualifier, address)]? with
  | some type => simp [hr] at hse
  | none =>
    cases ha : st.store.passets.newQualifierAddress.toAdd[(qualifier, address)]? with
    | some type => simp [hr, ha] at hse
    | none =>
      rw [← hasRootQualifier_iff, ← rootQualifierRow_iff]
      have he : hasRootQualifier ∅ (qualifier, address) = false := rfl
      have hex : (Table.lookup (rowHash env) st.store.addressQualifier
            (qualifier, address)).1.isSome = true →
          checkForAddressRootQualifier st.store.addressQualifier.db (qualifier, address) = true := by
        intro hf
        rw [hro] at hf
        exact rootQualifierRow_iff.2 ⟨qualifier, Or.inl rfl, hf⟩
      change (hasRootQualifier ∅ (qualifier, address) || _ || _ || _) = true ↔ _
      simp only [he, Bool.false_or, Bool.or_eq_true, or_assoc]
      exact or_congr_right ⟨fun hf => hf.elim hex id, Or.inr⟩

/-- Unwritten keys have their tags in the database. -/
theorem TagsRefined.flushed_of_dumped (hse : ¬f.undumped key) :
    f.tags.flushed key = st.store.addressQualifier.db[key]?.isSome := by
  rw [h.undumped, Option.isSome_iff_ne_none, not_not] at hse
  rw [← h.tags.holds_eq, FlagLayers.holds, hse]
  rfl

theorem TagsRefined.undumped_key (hw : f.undumped key) : K key := by
  rw [h.undumped, DirtyPair.Marks.value] at hw
  cases hr : (st.store.passets.newQualifierAddress.marks key).removed with
  | some type => exact (h.tags.lowerKeys key type (Or.inr hr)).1
  | none =>
    cases ha : (st.store.passets.newQualifierAddress.marks key).added with
    | some type => exact (h.tags.lowerKeys key type (Or.inl ha)).1
    | none => simp [hr, ha] at hw

/-- A lookup says whether the address has a tag exactly where the root map agrees. -/
theorem TagsRefined.lookup_iff (hdi : Table.Distinct (rowHash env) K)
    (hna : ∀ key, K key → isAssetNameAQualifier key.1 false = true)
    (hkey : K (qualifier, address)) :
    ((st.store.checkForAddressQualifier env st.cache qualifier address true).1 = true ↔
      f.Has qualifier address) ↔ f.RootsAgree qualifier address := by
  by_cases hse : f.undumped (qualifier, address)
  · rw [h.lookup_undumped hse, Tags.Has]
    constructor
    · intro hi
      exact ⟨fun _ hsu => hi.2 (Or.inr hsu), fun hno => absurd hse hno⟩
    · intro ha
      exact ⟨Or.inl, fun hh => hh.elim id (ha.self hse)⟩
  · rw [h.lookup_dumped hdi hkey hse]
    by_cases hsu : ∃ name, SubOf qualifier name ∧ f.undumped (name, address)
    · have hn : ∃ name,
          RootNoted st.store.passets.mapRootQualifierAddressesAdd (qualifier, address) name := by
        obtain ⟨name, hname, hw⟩ := hsu
        obtain ⟨hqualifier, hp⟩ :=
          (isPrefixOf_iff_getParentName (hna _ (h.undumped_key hw)) qualifier).1 hname
        exact ⟨name, (h.roots _ name).2 ⟨hqualifier, hp, hw⟩⟩
      constructor
      · intro hi
        exact ⟨fun hw => absurd hw hse, fun _ _ => hi.1 (Or.inl hn)⟩
      · intro ha
        exact ⟨fun _ => ha.sub hse hsu, fun _ => Or.inl hn⟩
    · refine iff_of_true ?_ ⟨fun hw => absurd hw hse, fun _ hex => absurd hex hsu⟩
      have hd : ∀ name, name = qualifier ∨ SubOf qualifier name → f.tags.flushed (name, address) =
            st.store.addressQualifier.db[(name, address)]?.isSome := by
        rintro name (rfl | hname)
        · exact h.flushed_of_dumped hse
        · exact h.flushed_of_dumped fun hw => hsu ⟨name, hname, hw⟩
      constructor
      · rintro (⟨name, hn⟩ | ⟨name, hname, hr⟩)
        · obtain ⟨hqualifier, hp, hw⟩ := (h.roots _ name).1 hn
          have hname := (isPrefixOf_iff_getParentName (hna _ (h.undumped_key hw))
            qualifier).2 ⟨hqualifier, hp⟩
          exact absurd ⟨name, hname, hw⟩ hsu
        · rw [← hd name hname] at hr
          rcases hname with rfl | hname
          · exact Or.inl hr
          · exact Or.inr ⟨name, hname, hr⟩
      · rintro (ht | ⟨name, hname, ht⟩)
        · exact Or.inr ⟨qualifier, Or.inl rfl, (hd _ (Or.inl rfl)).symm.trans ht⟩
        · exact Or.inr ⟨name, Or.inr hname, (hd _ (Or.inr hname)).symm.trans ht⟩

end Lookup

/-- After every run, a lookup of a qualifier says whether the address has the tag or that of a sub
qualifier exactly where the root map agrees. -/
theorem checkForAddressQualifier_iff_has_iff (sizes : CacheSizes) {events : List CacheEvent}
    (hdistinct : Table.Distinct (rowHash env) K)
    (hnames : ∀ key, K key → isAssetNameAQualifier key.1 false = true)
    (hevents : ∀ event ∈ events, event.TagKey K) {qualifier address : Str}
    (hkey : K (qualifier, address)) :
    (((CacheState.run env sizes events).store.checkForAddressQualifier env
        (CacheState.run env sizes events).cache qualifier address true).1 = true ↔
      (Tags.run events).Has qualifier address) ↔
    (Tags.run events).RootsAgree qualifier address := by
  have hr : TagsRefined env K (CacheState.run env sizes events) (Tags.run events) :=
    List.foldl_rel (tagsRefined_initial sizes) fun event he _ _ h =>
      tagsRefined_step h (hevents event he)
  exact hr.lookup_iff hdistinct hnames hkey

/-- The tag of a sub qualifier is added in one block and removed in the next one. -/
def removedSubTag : List CacheEvent :=
  [.addQualifierAddress (str "#KYC/#US") (str "X") true, .flush, .newCache,
    .addQualifierAddress (str "#KYC/#US") (str "X") false, .flush]

def subTagKeys (key : Str × Str) : Prop :=
  key = (str "#KYC", str "X") ∨ key = (str "#KYC/#US", str "X")

theorem distinct_subTagKeys : Table.Distinct (rowHash plainEnv) subTagKeys := by
  rintro k n (rfl | rfl) (rfl | rfl) heq
  · rfl
  · exact absurd heq (by decide)
  · exact absurd heq (by decide)
  · rfl

/-- Once it is dumped, the removal is found. -/
theorem checkForAddressQualifier_iff_has_dumped : ((CacheState.run plainEnv smallSizes
        (removedSubTag ++ [.dumpCacheToDatabase 0])).store.checkForAddressQualifier plainEnv
        (CacheState.run plainEnv smallSizes (removedSubTag ++ [.dumpCacheToDatabase 0])).cache
        (str "#KYC") (str "X") true).1 = true ↔
      (Tags.run (removedSubTag ++ [.dumpCacheToDatabase 0])).Has (str "#KYC") (str "X") := by
  have hn : ∀ key, subTagKeys key → isAssetNameAQualifier key.1 false = true := by
    rintro key (rfl | rfl) <;> decide +kernel
  have he : ∀ event ∈ removedSubTag ++ [.dumpCacheToDatabase 0], event.TagKey subTagKeys := by
    simp [removedSubTag, CacheEvent.TagKey, subTagKeys]
  refine (checkForAddressQualifier_iff_has_iff smallSizes distinct_subTagKeys hn he
    (Or.inl rfl)).2 ⟨fun hw => hw.elim, ?_⟩
  rintro - ⟨name, -, hw⟩
  exact hw.elim

/-- Before that the address has no tag left, and the lookup of the root qualifier finds one. -/
theorem removedSubTag_still_found :
    ((CacheState.run plainEnv smallSizes removedSubTag).store.checkForAddressQualifier plainEnv
        (CacheState.run plainEnv smallSizes removedSubTag).cache (str "#KYC") (str "X") true).1 =
      true ∧
    ¬(Tags.run removedSubTag).Has (str "#KYC") (str "X") := by
  refine ⟨by decide +kernel, ?_⟩
  have hn : ∀ key, (Tags.run removedSubTag).tags.flushed key = false := by
    intro key
    by_cases hkey : key = (str "#KYC/#US", str "X") <;>
      simp [Tags.run, removedSubTag, Tags.step, PlainMap.flush, PlainMap.discard, PlainMap.write,
        PlainMap.const, hkey]
  rintro (ht | ⟨name, -, ht⟩)
  · simp [hn] at ht
  · simp [hn] at ht

end Cmusic
