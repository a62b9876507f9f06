import Cmusic.MetadataRefinement

/-! Bounds of the data of an asset along the issues and reissues that are accepted. -/
namespace Cmusic

open Fallible

/-- The amount of an asset is positive, in range and a multiple of its smallest unit. -/
structure CNewAsset.Bounded (asset : CNewAsset) : Prop where
  positive : 0 < asset.nAmount.toInt
  range : asset.nAmount ≤ maxMoney
  units : 0 ≤ asset.units.toInt ∧ asset.units.toInt ≤ 8
  divisible : (10 : ℤ) ^ (8 - asset.units.toInt).toNat ∣ asset.nAmount.toInt

section Checks

variable {env : Env} {g : AssetGlobals} {cache : CAssetsCache} {asset prev : CNewAsset}
  {reissue : CReissueAsset} {tx : CTransaction} {u : Unit}

theorem toInt_maxMoney : maxMoney.toInt = 17500000000000000 := by decide

/-- The unit check, for the units an asset can have. -/
theorem checkAmountWithUnits_iff {nAmount : CAmount} {units : Int8}
    (hun : 0 ≤ units.toInt ∧ units.toInt ≤ 8) :
    checkAmountWithUnits nAmount units = true ↔
      (10 : ℤ) ^ (8 - units.toInt).toNat ∣ nAmount.toInt := by
  have he : (8 - units.toInt).toNat ≤ 8 := by omega
  have hp : (10 : ℕ) ^ (8 - units.toInt).toNat < 2 ^ 63 :=
    lt_of_le_of_lt (Nat.pow_le_pow_right (by decide) he) (by decide)
  have hu : (Int64.ofNat (10 ^ (8 - units.toInt).toNat)).toInt =
      (10 : ℤ) ^ (8 - units.toInt).toNat := by
    rw [Int64.toInt_ofNat_of_lt hp]
    norm_cast
  change decide (nAmount % Int64.ofNat (10 ^ (8 - units.toInt).toNat) = 0) = true ↔ _
  rw [decide_eq_true_iff, ← Int64.toInt_inj, Int64.toInt_mod, hu]
  exact (Int.dvd_iff_tmod_eq_zero).symm

theorem bounded_of_checkNewAsset (h : checkNewAsset asset = .ok u) : asset.Bounded := by
  obtain ⟨-, -, hp, hr, ⟨hl, hh⟩, hd, -⟩ :=
    newAssetChecked_of_checkNewAsset h
  rw [Int64.not_le] at hp
  rw [gt_iff_lt, Int64.not_lt] at hr
  rw [Int8.not_lt] at hl
  rw [gt_iff_lt, Int8.not_lt] at hh
  have hu : 0 ≤ asset.units.toInt ∧ asset.units.toInt ≤ 8 :=
    ⟨Int8.le_iff_toInt_le.1 hl, Int8.le_iff_toInt_le.1 hh⟩
  exact ⟨Int64.lt_iff_toInt_lt.1 hp, hr, hu, (checkAmountWithUnits_iff hu).1 hd⟩

/-- What the checks of a reissue ask of the data before it. -/
structure ReissueAccepted (prev : CNewAsset) (reissue : CReissueAsset) : Prop where
  reissuable : prev.nReissuable ≠ 0
  amount : 0 ≤ reissue.nAmount.toInt ∧ reissue.nAmount < maxMoney
  range : prev.nAmount + reissue.nAmount ≤ maxMoney
  divisible : checkAmountWithUnits reissue.nAmount prev.units = true
  units : reissue.nUnits = -1 ∨ prev.units ≤ reissue.nUnits ∧ reissue.nUnits ≤ 8

theorem amount_of_checkReissueAsset (h : checkReissueAsset env reissue = .ok u) :
    (0 ≤ reissue.nAmount.toInt ∧ reissue.nAmount < maxMoney) ∧ reissue.nUnits ≤ 8 := by
  simp only [checkReissueAsset, failIf_bind_eq_ok] at h
  obtain ⟨ha, hu, -⟩ := h
  simp only [Bool.or_eq_false_iff, decide_eq_false_iff_not, Int64.not_lt, Int64.not_le,
    Int8.not_lt] at ha hu
  exact ⟨⟨Int64.le_iff_toInt_le.1 ha.1, ha.2⟩, hu.1⟩

theorem reissueAccepted_of_check (h : contextualCheckReissueAsset env g cache reissue tx = .ok u) :
    ∃ prev, (cache.slot reissue.strName).data g reissue.strName = some prev ∧
      ReissueAccepted prev reissue := by
  unfold contextualCheckReissueAsset at h
  split at h
  · cases h
  · obtain ⟨_, hc, h⟩ := bind_eq_ok.1 h
    obtain ⟨ha, hma⟩ := amount_of_checkReissueAsset hc
    split at h
    · cases h
    next prev block hm =>
      simp only [failIf_bind_eq_ok] at h
      obtain ⟨hf, hr, hd, hu, -⟩ := h
      refine ⟨prev, ?_, ?_, ha, ?_, ?_, ?_⟩
      · rw [← getAssetMetaDataIfExists_map, hm]
        rfl
      · simpa using hf
      · simpa using hr
      · simpa using hd
      · by_cases hke : reissue.nUnits = -1
        · exact Or.inl hke
        · refine Or.inr ⟨?_, hma⟩
          simpa [hke] using hu

/-- The sum of an amount in range and a reissue does not wrap. -/
theorem toInt_add_of_bounded (h : prev.Bounded)
    (ha : 0 ≤ reissue.nAmount.toInt ∧ reissue.nAmount < maxMoney) :
    (prev.nAmount + reissue.nAmount).toInt = prev.nAmount.toInt + reissue.nAmount.toInt := by
  have hr := Int64.le_iff_toInt_le.1 h.range
  have ha' := Int64.lt_iff_toInt_lt.1 ha.2
  have hp := h.positive
  rw [toInt_maxMoney] at hr ha'
  rw [Int64.toInt_add]
  exact Int.bmod_eq_of_le (by omega) (by omega)

theorem ReissueAccepted.bounded (h : ReissueAccepted prev reissue) (hpr : prev.Bounded) :
    (prev.applyReissue reissue).Bounded := by
  have hsu := toInt_add_of_bounded hpr h.amount
  have hu : prev.units.toInt ≤ (prev.applyReissue reissue).units.toInt ∧
      (prev.applyReissue reissue).units.toInt ≤ 8 := by
    rw [applyReissue_units]
    rcases h.units with hke | ⟨hl, hh⟩
    · rw [if_neg (not_not_intro hke)]
      exact ⟨le_refl _, hpr.units.2⟩
    · split
      · exact ⟨Int8.le_iff_toInt_le.1 hl, Int8.le_iff_toInt_le.1 hh⟩
      · exact ⟨le_refl _, hpr.units.2⟩
  refine ⟨?_, ?_, ⟨le_trans hpr.units.1 hu.1, hu.2⟩, ?_⟩
  · have hp := hpr.positive
    have ha := h.amount.1
    rw [applyReissue_nAmount, hsu]
    omega
  · rw [applyReissue_nAmount]
    exact h.range
  · -- both amounts are multiples of the old unit, and the new one is not larger
    have ha := (checkAmountWithUnits_iff hpr.units).1 h.divisible
    have he : (8 - (prev.applyReissue reissue).units.toInt).toNat ≤
        (8 - prev.units.toInt).toNat := by omega
    rw [applyReissue_nAmount, hsu]
    exact dvd_trans (pow_dvd_pow 10 he) (dvd_add hpr.divisible ha)

/-- The data after is the data before with more of the asset. -/
structure CNewAsset.Grows (asset asset' : CNewAsset) : Prop where
  amount : asset.nAmount ≤ asset'.nAmount
  units : asset.units ≤ asset'.units
  final : asset.nReissuable = 0 → asset' = asset

theorem ReissueAccepted.grows (h : ReissueAccepted prev reissue) (hp : prev.Bounded) :
    prev.Grows (prev.applyReissue reissue) := by
  refine ⟨?_, ?_, fun hz => absurd hz h.reissuable⟩
  · have ha := h.amount.1
    rw [applyReissue_nAmount, Int64.le_iff_toInt_le, toInt_add_of_bounded hp h.amount]
    omega
  · rw [applyReissue_units]
    rcases h.units with hke | ⟨hl, -⟩
    · rw [if_neg (not_not_intro hke)]
      exact Int8.le_refl _
    · split
      · exact hl
      · exact Int8.le_refl _

end Checks

/-- The asset state that issues and reissues work on: the store, and the cache of a block over it. -/
structure MetadataState where
  store : AssetStore
  cache : CAssetsCache := {}

section Runs

variable (env : Env) {asset : CNewAsset} {s : AssetStore} {cache : CAssetsCache} {address : Str}
  {before after : Option CNewAsset}

/-- `GetAssetMetaDataIfExists`. -/
def MetadataState.metadata (st : MetadataState) (name : Str) : Option CNewAsset :=
  (st.cache.getAssetMetaDataIfExists (st.store.globals env) name).map Prod.fst

/-- The steps of a history without disconnected blocks. A reissue is noted under an outpoint of its
own, and a dump happens between two blocks. -/
inductive MetadataStep : MetadataState → MetadataState → Prop where
  | issue {s : AssetStore} {cache : CAssetsCache} (asset : CNewAsset) (address : Str) (nHeight : Nat)
    (blockHash : UInt256) (mempool : MempoolAssets) (fCheckMempool : Bool)
    (h : contextualCheckNewAsset env (s.globals env) cache asset mempool fCheckMempool = .ok ()) :
    MetadataStep ⟨s, cache⟩
      ⟨s, cache.addNewAsset env (s.globals env) asset address nHeight blockHash⟩
  | reissue {s : AssetStore} {cache : CAssetsCache} (reissue : CReissueAsset) (tx : CTransaction)
    (address : Str) (out : COutPoint)
    (h : contextualCheckReissueAsset env (s.globals env) cache reissue tx = .ok ())
    (hout : (cache.newReissues.marks out).marked = false ∧
      (s.passets.newReissues.marks out).marked = false) :
    MetadataStep ⟨s, cache⟩ ⟨s, cache.addReissueAsset env (s.globals env) reissue address out⟩
  | flush {s : AssetStore} {cache : CAssetsCache} : MetadataStep ⟨s, cache⟩ ⟨s.flush cache, {}⟩
  | dumpCacheToDatabase {s : AssetStore} (unset : Int) :
    MetadataStep ⟨s, {}⟩ ⟨s.dumpCacheToDatabase env unset, {}⟩
  | load {s : AssetStore} {cache : CAssetsCache} (row : RowKey) :
    MetadataStep ⟨s, cache⟩ ⟨s.load env row, cache⟩

/-- Pending data comes with a reissue that is to be written. -/
def CAssetsCache.ReissuesNoted (cache : CAssetsCache) : Prop :=
  ∀ name, cache.mapReissuedAssetData[name]?.isSome = true → ∃ out entry,
    cache.newReissues.marks out = ⟨some entry, none⟩ ∧ entry.reissue.strName = name

/-- What the steps keep. -/
structure MetadataState.Sound (st : MetadataState) : Prop where
  rows : RowsSound st.store.assetData
  proper : ∀ name, (st.cache.slot name).Proper name ∧ (st.store.passets.slot name).Proper name
  kept : ∀ name, (st.cache.slot name).asset.removed = none ∧
    (st.store.passets.slot name).asset.removed = none
  fresh : ∀ name, (st.cache.slot name).asset.added.isSome = true →
    (st.store.passets.slot name).asset.added = none
  noted : st.cache.ReissuesNoted ∧ st.store.passets.ReissuesNoted
  apart : ∀ out, (st.cache.newReissues.marks out).marked = true →
    (st.store.passets.newReissues.marks out).marked = false

variable {env} {st st' : MetadataState}

theorem reissuesNoted_empty : CAssetsCache.ReissuesNoted {} := by
  intro name h
  simp at h

theorem metadata_eq_data (name : Str) :
    st.metadata env name = (st.cache.slot name).data (st.store.globals env) name :=
  getAssetMetaDataIfExists_map

/-- The data of an asset, layer by layer. -/
theorem MetadataState.Sound.metadata_eq (h : st.Sound) (name : Str) : st.metadata env name =
    ((st.cache.slot name).reissued.or (st.store.passets.slot name).reissued).or
      (((((st.cache.slot name).asset.added.or (st.store.passets.slot name).asset.added).map
        CAssetCacheNewAsset.databased).or st.store.assetData.db[name]?).map
          CDatabasedAssetData.asset) := by
  rw [metadata_eq_data, data_eq, stored_tip h.rows (h.kept name).1 (h.kept name).2]
  rfl

/-- What a step does to the data of one asset. -/
def MetadataChange (before after : Option CNewAsset) : Prop :=
  after = before ∨ (before = none ∧ ∃ asset, after = some asset ∧ checkNewAsset asset = .ok ()) ∨
    ∃ prev reissue, before = some prev ∧ after = some (prev.applyReissue reissue) ∧
      ReissueAccepted prev reissue

theorem MetadataState.Sound.named (h : st.Sound) {name : Str}
    (ha : st.metadata env name = some asset) : asset.strName = name := by
  rw [h.metadata_eq] at ha
  simp only [Option.or_eq_some_iff, Option.map_eq_some_iff] at ha
  rcases ha with (ho | ⟨-, hb⟩) | ⟨-, data, hd, rfl⟩
  · exact (h.proper name).1.reissued asset ho
  · exact (h.proper name).2.reissued asset hb
  · rcases hd with ⟨entry, he, rfl⟩ | ⟨-, hr⟩
    · rcases he with ho | ⟨-, hb⟩
      · exact (h.proper name).1.added entry ho
      · exact (h.proper name).2.added entry hb
    · exact h.rows.named name data hr

theorem step_issue {nHeight : Nat} {blockHash : UInt256} {mempool : MempoolAssets}
    {fCheckMempool : Bool} (hso : MetadataState.Sound ⟨s, cache⟩)
    (h : contextualCheckNewAsset env (s.globals env) cache asset mempool fCheckMempool = .ok ()) :
    MetadataState.Sound
        ⟨s, cache.addNewAsset env (s.globals env) asset address nHeight blockHash⟩ ∧
      ∀ name, MetadataChange (MetadataState.metadata env ⟨s, cache⟩ name)
        (MetadataState.metadata env
          ⟨s, cache.addNewAsset env (s.globals env) asset address nHeight blockHash⟩ name) := by
  simp only [contextualCheckNewAsset, failIf_bind_eq_ok] at h
  obtain ⟨-, h⟩ := h
  obtain ⟨_, hc, h⟩ := bind_eq_ok.1 h
  simp only [failIf_bind_eq_ok] at h
  obtain ⟨hnew, -⟩ := h
  rw [checkIfAssetExists_eq] at hnew
  have hre : env.fReindex = false := by
    cases hf : env.fReindex with
    | false => rfl
    | true => simp [AssetSlot.known, hf] at hnew
  -- nothing is stored under the name yet
  have hn := hnew
  rw [known_eq hre, stored_tip hso.rows (hso.kept _).1 (hso.kept _).2,
    Option.isSome_eq_false_iff, Option.isNone_iff_eq_none, Option.or_eq_none_iff,
    Option.map_eq_none_iff, Option.or_eq_none_iff] at hn
  obtain ⟨⟨how, hb⟩, hro⟩ := hn
  have hse := @slot_addNewAsset env (s.globals env) asset.strName cache asset address nHeight
    blockHash
  rw [if_pos rfl, AssetSlot.issue, if_neg (by simp [hnew])] at hse
  have ho : ∀ name, name ≠ asset.strName →
      (cache.addNewAsset env (s.globals env) asset address nHeight blockHash).slot name =
        cache.slot name := fun name hne =>
          (slot_addNewAsset asset address nHeight blockHash).trans (if_neg (Ne.symm hne))
  have hl : (cache.addNewAsset env (s.globals env) asset address nHeight blockHash).reissueLog =
      cache.reissueLog := besideIssues_reissueLog.addNewAssetOf (some (asset, address)) nHeight blockHash
  obtain ⟨hr, hd⟩ := Prod.mk.inj hl
  have hm : DirtyPair.Marks.add (cache.slot asset.strName).asset
      ⟨asset, address, nHeight, blockHash⟩ = ⟨some ⟨asset, address, nHeight, blockHash⟩, none⟩ := by
    rw [DirtyPair.Marks.add, how]
    rfl
  rw [hm] at hse
  have hs' : MetadataState.Sound
      ⟨s, cache.addNewAsset env (s.globals env) asset address nHeight blockHash⟩ := by
    refine ⟨hso.rows, fun name => ⟨?_, (hso.proper name).2⟩,
      fun name => ⟨?_, (hso.kept name).2⟩, fun name ha => ?_, ⟨?_, hso.noted.2⟩, ?_⟩
    · by_cases hname : name = asset.strName
      · subst hname
        rw [hse]
        refine ⟨fun entry he => ?_, (hso.proper _).1.reissued⟩
        cases he
        rfl
      · rw [ho name hname]
        exact (hso.proper name).1
    · by_cases hname : name = asset.strName
      · subst hname
        rw [hse]
      · rw [ho name hname]
        exact (hso.kept name).1
    · by_cases hname : name = asset.strName
      · subst hname
        exact hb
      · rw [ho name hname] at ha
        exact hso.fresh name ha
    · unfold CAssetsCache.ReissuesNoted
      rw [hr, hd]
      exact hso.noted.1
    · intro out hout
      rw [hr] at hout
      exact hso.apart out hout
  refine ⟨hs', fun name => ?_⟩
  by_cases hname : name = asset.strName
  · subst hname
    rw [hso.metadata_eq, hs'.metadata_eq, hse, how, hb, hro]
    cases (cache.slot asset.strName).reissued.or (s.passets.slot asset.strName).reissued with
    | some data => exact Or.inl rfl
    | none => exact Or.inr (Or.inl ⟨rfl, asset, rfl, hc⟩)
  · rw [hso.metadata_eq, hs'.metadata_eq, ho name hname]
    exact Or.inl rfl

theorem step_reissue {reissue : CReissueAsset} {tx : CTransaction} {out : COutPoint}
    (hso : MetadataState.Sound ⟨s, cache⟩)
    (h : contextualCheckReissueAsset env (s.globals env) cache reissue tx = .ok ())
    (hout : (cache.newReissues.marks out).marked = false ∧
      (s.passets.newReissues.marks out).marked = false) :
    MetadataState.Sound ⟨s, cache.addReissueAsset env (s.globals env) reissue address out⟩ ∧
      ∀ name, MetadataChange (MetadataState.metadata env ⟨s, cache⟩ name)
        (MetadataState.metadata env
          ⟨s, cache.addReissueAsset env (s.globals env) reissue address out⟩ name) := by
  obtain ⟨prev, hp, hac⟩ := reissueAccepted_of_check h
  have hse := @slot_addReissueAsset_self env (s.globals env) cache out reissue prev address hp
  have ho : ∀ name, name ≠ reissue.strName →
      (cache.addReissueAsset env (s.globals env) reissue address out).slot name = cache.slot name :=
    fun name hne => slot_addReissueAsset_ne (Ne.symm hne)
  have hb : MetadataState.metadata env ⟨s, cache⟩ reissue.strName = some prev :=
    (metadata_eq_data _).trans hp
  obtain ⟨⟨_, block⟩, hm, rfl⟩ := Option.map_eq_some_iff.1 hb
  have hr : (cache.addReissueAsset env (s.globals env) reissue address out).newReissues =
      cache.newReissues.add out ⟨reissue, address, out, block⟩ := by
    simp only [CAssetsCache.addReissueAsset, hm]
  -- the entry under the new outpoint
  have hma : (cache.newReissues.add out ⟨reissue, address, out, block⟩).marks out =
      ⟨some ⟨reissue, address, out, block⟩, none⟩ := by
    have hf := hout.1
    rw [DirtyPair.Marks.marked, Bool.or_eq_false_iff, Option.isSome_eq_false_iff,
      Option.isNone_iff_eq_none] at hf
    rw [DirtyPair.marks_add_self, DirtyPair.Marks.add, hf.1]
    rfl
  have hke : ∀ n, n ≠ out → (cache.newReissues.add out ⟨reissue, address, out, block⟩).marks n =
      cache.newReissues.marks n := fun n hne => DirtyPair.marks_add_ne (Ne.symm hne) _ _
  have hs' : MetadataState.Sound
      ⟨s, cache.addReissueAsset env (s.globals env) reissue address out⟩ := by
    refine ⟨hso.rows, fun name => ⟨?_, (hso.proper name).2⟩,
      fun name => ⟨?_, (hso.kept name).2⟩, fun name ha => ?_, ⟨fun name hname => ?_,
      hso.noted.2⟩, fun n hn => ?_⟩
    · by_cases hname : name = reissue.strName
      · subst hname
        rw [hse]
        refine ⟨(hso.proper _).1.added, fun asset has => ?_⟩
        cases has
        rw [applyReissue_strName]
        exact hso.named hb
      · rw [ho name hname]
        exact (hso.proper name).1
    · by_cases hname : name = reissue.strName
      · subst hname
        rw [hse]
        exact (hso.kept _).1
      · rw [ho name hname]
        exact (hso.kept name).1
    · by_cases hname : name = reissue.strName
      · subst hname
        rw [hse] at ha
        exact hso.fresh _ ha
      · rw [ho name hname] at ha
        exact hso.fresh name ha
    · rw [hr]
      by_cases heq : name = reissue.strName
      · exact ⟨out, _, hma, heq.symm⟩
      · have hsl : ((cache.addReissueAsset env (s.globals env) reissue address out).slot
            name).reissued.isSome = true := hname
        rw [ho name heq] at hsl
        obtain ⟨n, entry, hen, he⟩ := hso.noted.1 name hsl
        have hne : n ≠ out := by
          rintro rfl
          have hf := hout.1
          rw [hen] at hf
          cases hf
        exact ⟨n, entry, (hke n hne).trans hen, he⟩
    · rw [hr] at hn
      by_cases heq : n = out
      · rw [heq]
        exact hout.2
      · rw [hke n heq] at hn
        exact hso.apart n hn
  refine ⟨hs', fun name => ?_⟩
  by_cases hname : name = reissue.strName
  · subst hname
    refine Or.inr (Or.inr ⟨_, reissue, hb, ?_, hac⟩)
    rw [hs'.metadata_eq, hse]
    rfl
  · rw [hso.metadata_eq, hs'.metadata_eq, ho name hname]
    exact Or.inl rfl

/-- A sound store without a block on top. -/
theorem MetadataState.Sound.of_store (hr : RowsSound s.assetData)
    (hp : ∀ name, (s.passets.slot name).Proper name)
    (hke : ∀ name, (s.passets.slot name).asset.removed = none) (hn : s.passets.ReissuesNoted) :
    MetadataState.Sound ⟨s, {}⟩ where
  rows := hr
  proper := by
    intro name
    exact ⟨proper_empty, hp name⟩
  kept := by
    intro name
    exact ⟨rfl, hke name⟩
  fresh := by
    intro name h
    cases h
  noted := ⟨reissuesNoted_empty, hn⟩
  apart := by
    intro out h
    cases h

theorem sound_initial (sizes : CacheSizes) :
    MetadataState.Sound ⟨(CacheState.initial sizes).store, {}⟩ := by
  have he : ∀ name, CAssetsCache.slot (CacheState.initial sizes).store.passets name = {} :=
    slot_empty
  refine .of_store (rowsSound_empty sizes.assets) (fun name => ?_) (fun name => ?_) reissuesNoted_empty
  · rw [he]
    exact proper_empty
  · rw [he]

theorem step_flush (hso : MetadataState.Sound ⟨s, cache⟩) :
    MetadataState.Sound ⟨s.flush cache, {}⟩ ∧
      ∀ name, MetadataState.metadata env ⟨s.flush cache, {}⟩ name =
        MetadataState.metadata env ⟨s, cache⟩ name := by
  have hsl : ∀ name, (s.flush cache).passets.slot name =
      (cache.slot name).onto (s.passets.slot name) := fun name => slot_flush
  -- an asset is issued in one of the two layers only
  have ha : ∀ name, ((s.flush cache).passets.slot name).asset =
      ⟨(cache.slot name).asset.added.or (s.passets.slot name).asset.added, none⟩ := by
    intro name
    obtain ⟨ho, hb⟩ := hso.kept name
    have hfr := hso.fresh name
    rw [hsl, AssetSlot.onto, DirtyPair.Marks.keepOnto, ho]
    cases had : (cache.slot name).asset.added with
    | none =>
      have hm : ∀ m : DirtyPair.Marks CAssetCacheNewAsset, m.removed = none →
          m = ⟨m.added, none⟩ := by
        rintro ⟨added, _⟩ rfl
        rfl
      exact hm _ hb
    | some entry =>
      rw [had] at hfr
      rw [Option.elim_some, Option.elim_none, DirtyPair.Marks.add, hfr rfl]
      rfl
  have hs' : MetadataState.Sound ⟨s.flush cache, {}⟩ := by
    refine .of_store hso.rows (fun name => ?_) (fun name => ?_) fun name hname => ?_
    · rw [hsl]
      exact proper_onto (hso.proper name).1 (hso.proper name).2
    · rw [ha]
    · have hm : ∀ out, (s.flush cache).passets.newReissues.marks out =
          (cache.newReissues.marks out).keepOnto (s.passets.newReissues.marks out) :=
        fun out => DirtyPair.marks_flush _ _ out
      have hd : ((s.flush cache).passets.slot name).reissued.isSome = true := hname
      rw [hsl, AssetSlot.onto, Option.isSome_or, Bool.or_eq_true] at hd
      rcases hd with ho | hb
      · obtain ⟨out, entry, hen, he⟩ := hso.noted.1 name ho
        have hf := hso.apart out (by rw [hen]; rfl)
        rw [DirtyPair.Marks.marked, Bool.or_eq_false_iff, Option.isSome_eq_false_iff,
          Option.isNone_iff_eq_none] at hf
        refine ⟨out, entry, ?_, he⟩
        rw [hm, hen, DirtyPair.Marks.keepOnto, Option.elim_none, Option.elim_some,
          DirtyPair.Marks.add, hf.1]
        rfl
      · obtain ⟨out, entry, hen, he⟩ := hso.noted.2 name hb
        have hf : (cache.newReissues.marks out).marked = false := by
          rw [← Bool.not_eq_true]
          intro hma
          have hn := hso.apart out hma
          rw [hen] at hn
          cases hn
        rw [DirtyPair.Marks.marked, Bool.or_eq_false_iff, Option.isSome_eq_false_iff,
          Option.isNone_iff_eq_none, Option.isSome_eq_false_iff, Option.isNone_iff_eq_none] at hf
        refine ⟨out, entry, ?_, he⟩
        rw [hm, DirtyPair.Marks.eq_empty hf.1 hf.2, DirtyPair.Marks.keepOnto_empty, hen]
  refine ⟨hs', fun name => ?_⟩
  rw [hs'.metadata_eq, hso.metadata_eq, ha, hsl, slot_empty]
  rfl

theorem step_dump {unset : Int} (hso : MetadataState.Sound ⟨s, {}⟩) :
    MetadataState.Sound ⟨s.dumpCacheToDatabase env unset, {}⟩ ∧
      ∀ name, MetadataState.metadata env ⟨s.dumpCacheToDatabase env unset, {}⟩ name =
        MetadataState.metadata env ⟨s, {}⟩ name := by
  have he : (s.dumpCacheToDatabase env unset).passets = {} := restricted_dumpCacheToDatabase.1
  have hs' : MetadataState.Sound ⟨s.dumpCacheToDatabase env unset, {}⟩ := by
    refine .of_store (rowsSound_dumpCacheToDatabase hso.rows fun name => (hso.proper name).2)
      (fun name => ?_) (fun name => ?_) ?_
    · rw [he, slot_empty]
      exact proper_empty
    · rw [he, slot_empty]
    · rw [he]
      exact reissuesNoted_empty
  refine ⟨hs', fun name => ?_⟩
  rw [hs'.metadata_eq, hso.metadata_eq]
  rw [he, slot_empty, assetData_dumpCacheToDatabase]
  have hl : (s.passets.slot name).reissued = s.passets.mapReissuedAssetData[name]? := rfl
  rw [hl]
  cases hd : s.passets.mapReissuedAssetData[name]? with
  | none =>
    have hr : s.passets.newAssets.toRemove[name]? = none := (hso.kept name).2
    have ha : (s.passets.slot name).asset.added = s.passets.newAssets.toAdd[name]? := rfl
    rw [db_dumpAssets_of_none hd, db_dumpNewAssets, hr, ha]
    cases s.passets.newAssets.toAdd[name]? with
    | none => rfl
    | some entry => rfl
  | some asset =>
    obtain ⟨out, entry, hen, hname⟩ := hso.noted.2 name (by rw [hd]; rfl)
    have hr : s.passets.newAssets.toRemove.contains name = false := by
      rw [← Std.TreeMap.isSome_getElem?_eq_contains]
      exact Option.isSome_eq_false_iff.2 (Option.isNone_iff_eq_none.2 (hso.kept name).2)
    exact db_dumpAssets_of_some hd hr ⟨out, entry, Or.inl (by rw [hen]), hname⟩
      CDatabasedAssetData.asset asset fun _ _ _ _ => rfl

theorem step_load {row : RowKey} (hso : MetadataState.Sound ⟨s, cache⟩) :
    MetadataState.Sound ⟨s.load env row, cache⟩ ∧
      ∀ name, MetadataState.metadata env ⟨s.load env row, cache⟩ name =
        MetadataState.metadata env ⟨s, cache⟩ name := by
  obtain ⟨hr, hp, hke, hf, hn, ha⟩ := hso
  cases row with
  | assetData name =>
    have hs' : MetadataState.Sound ⟨s.load env (.assetData name), cache⟩ :=
      ⟨hr.lookup name, hp, hke, hf, hn, ha⟩
    refine ⟨hs', fun n => ?_⟩
    rw [hs'.metadata_eq, MetadataState.Sound.metadata_eq
      ⟨hr, hp, hke, hf, hn, ha⟩]
    dsimp only [AssetStore.load]
    rw [Table.db_lookup]
  | verifier name => exact ⟨⟨hr, hp, hke, hf, hn, ha⟩, fun _ => rfl⟩
  | addressQualifier key => exact ⟨⟨hr, hp, hke, hf, hn, ha⟩, fun _ => rfl⟩
  | restrictedAddress key => exact ⟨⟨hr, hp, hke, hf, hn, ha⟩, fun _ => rfl⟩
  | globalRestriction name => exact ⟨⟨hr, hp, hke, hf, hn, ha⟩, fun _ => rfl⟩

/-- What one step keeps and changes. -/
theorem sound_step (h : st.Sound) (hstep : MetadataStep env st st') :
    st'.Sound ∧ ∀ name, MetadataChange (st.metadata env name) (st'.metadata env name) := by
  cases hstep with
  | issue asset address nHeight blockHash mempool fCheckMempool hc => exact step_issue h hc
  | reissue reissue tx address out hc hout => exact step_reissue h hc hout
  | flush => exact (step_flush h).imp_right fun hsa name => Or.inl (hsa name)
  | dumpCacheToDatabase unset => exact (step_dump h).imp_right fun hsa name => Or.inl (hsa name)
  | load row => exact (step_load h).imp_right fun hsa name => Or.inl (hsa name)

theorem MetadataChange.bounded (h : MetadataChange before after)
    (hb : ∀ asset, before = some asset → asset.Bounded) :
    ∀ asset, after = some asset → asset.Bounded := by
  intro asset ha
  rcases h with rfl | ⟨-, new, rfl, hc⟩ | ⟨prev, reissue, hp, rfl, hac⟩
  · exact hb asset ha
  · cases ha
    exact bounded_of_checkNewAsset hc
  · cases ha
    exact hac.bounded (hb prev hp)

theorem MetadataChange.grows (h : MetadataChange before after) (hb : before = some asset)
    (hbo : asset.Bounded) : ∃ asset', after = some asset' ∧ asset.Grows asset' := by
  rcases h with rfl | ⟨hn, -⟩ | ⟨prev, reissue, hp, rfl, ha⟩
  · exact ⟨asset, hb, Int64.le_refl _, Int8.le_refl _, fun _ => rfl⟩
  · rw [hn] at hb
    cases hb
  · rw [hp] at hb
    cases hb
    exact ⟨_, rfl, ha.grows hbo⟩

theorem CNewAsset.Grows.trans {a b c : CNewAsset} (h : a.Grows b) (h' : b.Grows c) : a.Grows c where
  amount := Int64.le_trans h.amount h'.amount
  units := Int8.le_trans h.units h'.units
  final := by
    intro hz
    have hsa := h.final hz
    rw [hsa] at h'
    exact h'.final hz

open Relation in
/-- What a run keeps and how it changes the data of an asset. -/
theorem sound_run (h : ReflTransGen (MetadataStep env) st st') (hso : st.Sound)
    (hb : ∀ name asset, st.metadata env name = some asset → asset.Bounded) :
    st'.Sound ∧ (∀ name asset, st'.metadata env name = some asset → asset.Bounded) ∧
      ∀ name asset, st.metadata env name = some asset →
        ∃ asset', st'.metadata env name = some asset' ∧ asset.Grows asset' := by
  induction h with
  | refl =>
    exact ⟨hso, hb, fun name asset ha =>
      ⟨asset, ha, Int64.le_refl _, Int8.le_refl _, fun _ => rfl⟩⟩
  | tail _ hstep ih =>
    obtain ⟨hmid, hm, hg⟩ := ih
    obtain ⟨hnext, hc⟩ := sound_step hmid hstep
    refine ⟨hnext, fun name => (hc name).bounded (hm name), fun name asset ha => ?_⟩
    obtain ⟨mid, hmi, hfirst⟩ := hg name asset ha
    obtain ⟨last, hl, hse⟩ := (hc name).grows hmi (hm name mid hmi)
    exact ⟨last, hl, hfirst.trans hse⟩

theorem metadata_initial (sizes : CacheSizes) (name : Str) :
    MetadataState.metadata env ⟨(CacheState.initial sizes).store, {}⟩ name = none := by
  have he : CAssetsCache.slot (CacheState.initial sizes).store.passets name = {} := slot_empty name
  have hr : (CacheState.initial sizes).store.assetData.db[name]? = none :=
    Std.TreeMap.getElem?_emptyc
  rfl

open Relation in
/-- The data of an asset along every history of accepted issues and reissues. The amount stays
positive, in range and divisible, no sum of a reissue wraps, amount and units never fall, and an
asset whose flag is 0 is never reissued again. -/
theorem metadata_of_run {sizes : CacheSizes} {name : Str} {asset : CNewAsset}
    (hrun : ReflTransGen (MetadataStep env) ⟨(CacheState.initial sizes).store, {}⟩ st)
    (hasset : st.metadata env name = some asset) :
    asset.Bounded ∧ (∀ reissue, checkReissueAsset env reissue = .ok () →
        (asset.nAmount + reissue.nAmount).toInt = asset.nAmount.toInt + reissue.nAmount.toInt) ∧
      ∀ st', ReflTransGen (MetadataStep env) st st' →
        (∃ asset', st'.metadata env name = some asset' ∧ asset.nAmount ≤ asset'.nAmount ∧
          asset.units ≤ asset'.units) ∧
        (asset.nReissuable = 0 → ∀ reissue tx, reissue.strName = name →
          contextualCheckReissueAsset env (st'.store.globals env) st'.cache reissue tx ≠ .ok ()) := by
  obtain ⟨hso, hb, -⟩ := sound_run hrun (sound_initial sizes) fun name asset h => by
    rw [metadata_initial] at h
    cases h
  have ht := hb name asset hasset
  refine ⟨ht, fun reissue hreissue => ?_, fun st' hr' => ?_⟩
  · exact toInt_add_of_bounded ht (amount_of_checkReissueAsset hreissue).1
  · obtain ⟨-, -, hg⟩ := sound_run hr' hso hb
    obtain ⟨asset', ha', ham, hu, hf⟩ := hg name asset hasset
    refine ⟨⟨asset', ha', ham, hu⟩, fun hz reissue tx hname hc => ?_⟩
    obtain ⟨prev, hp, ha⟩ := reissueAccepted_of_check hc
    rw [hname, ← metadata_eq_data, ha', hf hz] at hp
    cases hp
    exact ha.reissuable hz

/-- An asset that was issued, flushed and reissued. -/
def musicReissued : MetadataState :=
  let s := (CacheState.initial smallSizes).store
  let s := s.flush (CAssetsCache.addNewAsset sampleEnv (s.globals sampleEnv) {} wholeMusic [] 1 1)
  ⟨s, CAssetsCache.addReissueAsset sampleEnv (s.globals sampleEnv) {} sampleReissue [] ⟨13, 0⟩⟩

theorem metadata_of_run_musicReissued :
    ∃ asset, musicReissued.metadata sampleEnv (str "MUSIC") = some asset ∧ asset.Bounded ∧
      asset.nAmount = 200000000 := by
  have ha : musicReissued.metadata sampleEnv (str "MUSIC") =
      some (wholeMusic.applyReissue sampleReissue) := by decide +kernel
  have hr : Relation.ReflTransGen (MetadataStep sampleEnv)
      ⟨(CacheState.initial smallSizes).store, {}⟩ musicReissued := by
    refine .tail (.tail (.single (.issue wholeMusic [] 1 1 {} false ?_)) .flush)
      (.reissue sampleReissue (payingReissue 0 sampleReissue) [] ⟨13, 0⟩ ?_ ?_)
    · decide +kernel
    · decide +kernel
    · decide +kernel
  exact ⟨_, ha, (metadata_of_run hr ha).1, by decide⟩

end Runs

end Cmusic
