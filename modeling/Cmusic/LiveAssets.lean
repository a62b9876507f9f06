import Cmusic.NameUniqueness

/-! The live data of an asset: its issue with the reissues of the active chain applied. -/
namespace Cmusic

open Fallible Std AssetSlot AssetAction

section Definitions

variable (rules : BlockRules) (env : Env) (name : Str)

/-- What an action makes of the live data of an asset. -/
def AssetAction.apply (nHeight : Nat) (blockHash : UInt256) (live : Option CDatabasedAssetData) :
    AssetAction → Option CDatabasedAssetData
  | .issue asset _ => if asset.strName = name then some ⟨asset, nHeight, blockHash⟩ else live
  | .verifier _ _ _ => live
  | .reissue data _ =>
    if data.strName = name then live.map fun d => { d with asset := d.asset.applyReissue data }
    else live

def liveAfter (nHeight : Nat) (blockHash : UInt256) (live : Option CDatabasedAssetData)
    (vtx : List CTransaction) : Option CDatabasedAssetData :=
  vtx.foldl (fun live tx =>
    (assetActions env tx).foldl (AssetAction.apply name nHeight blockHash) live) live

/-- The data of an asset along a chain, the tip first: that of its issue, with all reissues after it
applied, and the height and hash of the block of the issue. -/
def liveData (startHeight : Nat) : List LinkedBlock → Option CDatabasedAssetData
  | [] => none
  | linked :: rest => liveAfter env name (startHeight + rest.length + 1)
      (linked.block.header.getHash rules.params) (liveData startHeight rest) linked.block.vtx

def ChainState.live (st : ChainState) : Option CDatabasedAssetData :=
  liveData rules env name st.startHeight st.active

end Definitions

def CDatabasedAssetData.place (data : CDatabasedAssetData) : Int × UInt256 :=
  (data.nHeight, data.blockHash)

def CAssetCacheNewAsset.databased (entry : CAssetCacheNewAsset) : CDatabasedAssetData :=
  ⟨entry.asset, entry.blockHeight, entry.blockHash⟩

section Stored

variable (g : AssetGlobals) (name : Str)

/-- The data of an asset without pending reissues, with its height and block hash. -/
def AssetSlot.stored (slot : AssetSlot) : Option CDatabasedAssetData :=
  if slot.asset.removed.isSome || g.passets.newAssets.toRemove.contains name then none
  else (slot.asset.added <|> g.passets.newAssets.toAdd[name]?).map CAssetCacheNewAsset.databased <|>
    g.db.assetData name

variable {g name} {env : Env} {slot : AssetSlot} {cache : CAssetsCache}

theorem issuedData_eq :
    slot.issuedData g name = (slot.stored g name).map CDatabasedAssetData.asset := by
  unfold issuedData stored
  split
  · rfl
  · cases slot.asset.added <|> g.passets.newAssets.toAdd[name]? with
    | some entry => rfl
    | none => rfl

theorem known_eq (hr : env.fReindex = false) :
    slot.known env g name = (slot.stored g name).isSome := by
  unfold AssetSlot.known stored
  rw [if_neg (by simp [hr]), ← TreeMap.isSome_getElem?_eq_contains,
    ← TreeMap.isSome_getElem?_eq_contains]
  cases slot.asset.removed with
  | some entry => rfl
  | none =>
    cases g.passets.newAssets.toRemove[name]? with
    | some entry => rfl
    | none =>
      cases slot.asset.added with
      | some entry => rfl
      | none =>
        cases g.passets.newAssets.toAdd[name]? with
        | some entry => rfl
        | none => rfl

theorem data_eq : slot.data g name = (slot.reissued.or g.passets.mapReissuedAssetData[name]?).or
    ((slot.stored g name).map CDatabasedAssetData.asset) := by
  rw [AssetSlot.data, issuedData_eq]
  cases slot.reissued with
  | some asset => rfl
  | none => cases g.passets.mapReissuedAssetData[name]? <;> rfl

/-- `GetAssetMetaDataIfExists`, from the entries under the name. -/
theorem getAssetMetaDataIfExists_eq : cache.getAssetMetaDataIfExists g name =
    match (cache.slot name).reissued.or g.passets.mapReissuedAssetData[name]? with
    | some asset => some (asset, none)
    | none => ((cache.slot name).stored g name).map fun data => (data.asset, some data.place) := by
  unfold CAssetsCache.getAssetMetaDataIfExists stored
  simp only [CAssetsCache.slot, DirtyPair.marks, ← TreeMap.isSome_getElem?_eq_contains,
    Option.orElse_eq_orElse, Option.orElse_eq_or]
  cases cache.mapReissuedAssetData[name]?.or g.passets.mapReissuedAssetData[name]? with
  | some asset => rfl
  | none =>
    dsimp only
    split
    · rfl
    · cases cache.newAssets.toAdd[name]?.or g.passets.newAssets.toAdd[name]? with
      | some entry => rfl
      | none => rfl

theorem stored_congr {slot' : AssetSlot} (h : slot'.asset = slot.asset) :
    slot'.stored g name = slot.stored g name := by
  rw [stored, stored, h]

end Stored

section Flags

/-- The flag of the hash says whether there is one. -/
def HashFlagged (asset : CNewAsset) : Prop :=
  asset.nHasIPFS = if asset.strIPFSHash = [] then 0 else 1

variable {env : Env} {g : AssetGlobals} {cache : CAssetsCache} {asset : CNewAsset}

theorem hashFlagged_applyReissue (h : HashFlagged asset) (reissue : CReissueAsset) :
    HashFlagged (asset.applyReissue reissue) := by
  unfold HashFlagged at h ⊢
  rw [applyReissue_nHasIPFS, applyReissue_strIPFSHash]
  by_cases hh : reissue.strIPFSHash = []
  · simpa [hh] using h
  · simp [hh]

/-- A hash is only read behind its flag. -/
theorem strIPFSHash_of_assetFromScript {script : CScript} {address : Str}
    (h : assetFromScript env script = some (asset, address)) (hf : asset.nHasIPFS ≠ 1) :
    asset.strIPFSHash = [] := by
  simp only [assetFromScript, Option.bind_eq_bind, Option.bind_eq_some_iff] at h
  obtain ⟨nStartingIndex, -, read, hr, hre⟩ := h
  cases hre
  obtain ⟨⟨_, rest⟩, hru, rfl⟩ := Option.map_eq_some_iff.1 hr
  simp only [CNewAsset.unserialize, bind, StateT.bind, Option.bind_eq_some_iff] at hru
  obtain ⟨⟨strName, s₁⟩, -, ⟨nAmount, s₂⟩, -, ⟨units, s₃⟩, -, ⟨nReissuable, s₄⟩, -,
    ⟨nHasIPFS, s₅⟩, -, hru⟩ := hru
  split at hru
  next ho =>
    obtain ⟨⟨strIPFSHash, s₆⟩, -, hre⟩ := Option.bind_eq_some_iff.1 hru
    cases hre
    exact absurd ho hf
  · cases hru
    rfl

theorem hashFlagged_of_issueChecked {mempool : MempoolAssets} {address : Str}
    (h : IssueChecked env g cache mempool asset address) : HashFlagged asset := by
  obtain ⟨⟨script, hsc⟩, fCheckMempool, hc⟩ := h
  simp only [contextualCheckNewAsset, failIf_bind_eq_ok] at hc
  obtain ⟨-, hc⟩ := hc
  obtain ⟨_, ha, hc⟩ := bind_eq_ok.1 hc
  simp only [failIf_bind_eq_ok] at hc
  obtain ⟨-, -, hl, -⟩ := hc
  unfold HashFlagged
  rcases (newAssetChecked_of_checkNewAsset ha).hasIPFS with hz | ho
  · rw [hz, if_pos (strIPFSHash_of_assetFromScript hsc (by rw [hz]; decide))]
  · have hne : asset.strIPFSHash ≠ [] := by
      intro he
      simp [ho, he] at hl
    rw [ho, if_neg hne]

end Flags

section Apply

variable {env : Env} {name : Str} {nHeight : Nat} {blockHash : UInt256} {action : AssetAction}
  {actions : List AssetAction} {live : Option CDatabasedAssetData} {vtx : List CTransaction}
  {tx : CTransaction}

theorem apply_of_ne (h : action.assetName ≠ name) : action.apply name nHeight blockHash live = live := by
  cases action with
  | issue asset address => exact if_neg h
  | verifier assetName stored removed => rfl
  | reissue data verifier => exact if_neg h

theorem foldl_apply_of_ne (h : ∀ action ∈ actions, action.assetName ≠ name) :
    actions.foldl (AssetAction.apply name nHeight blockHash) live = live := by
  induction actions with
  | nil => rfl
  | cons action actions ih =>
    obtain ⟨hac, ha⟩ := List.forall_mem_cons.1 h
    rw [List.foldl_cons, apply_of_ne hac, ih ha]

/-- An issue makes an asset live, and nothing in a chain takes its data away again. -/
theorem isSome_apply (h : live.isSome = true ∨ action.issues name = true) :
    (action.apply name nHeight blockHash live).isSome = true := by
  cases action with
  | issue asset address =>
    dsimp only [AssetAction.apply]
    split
    · rfl
    next hne => exact h.resolve_right fun hi => hne (of_decide_eq_true hi)
  | verifier assetName stored removed => exact h.resolve_right (by simp [issues])
  | reissue data verifier =>
    have hso : live.isSome = true := h.resolve_right (by simp [issues])
    dsimp only [AssetAction.apply]
    split
    · rw [Option.isSome_map]
      exact hso
    · exact hso

theorem isSome_foldl_apply (h : live.isSome = true ∨ actions.any (issues name) = true) :
    (actions.foldl (AssetAction.apply name nHeight blockHash) live).isSome = true := by
  induction actions generalizing live with
  | nil => exact h.resolve_right (by simp)
  | cons action actions ih =>
    rw [List.any_cons, Bool.or_eq_true, ← or_assoc] at h
    exact ih (h.imp_left isSome_apply)

theorem isSome_liveAfter (h : live.isSome = true ∨ vtx.any (issuesAt env name) = true) :
    (liveAfter env name nHeight blockHash live vtx).isSome = true := by
  induction vtx generalizing live with
  | nil => exact h.resolve_right (by simp)
  | cons tx vtx ih =>
    rw [List.any_cons, Bool.or_eq_true, ← or_assoc] at h
    exact ih (h.imp_left isSome_foldl_apply)

theorem liveAfter_concat : liveAfter env name nHeight blockHash live (vtx ++ [tx]) =
    (assetActions env tx).foldl (AssetAction.apply name nHeight blockHash)
      (liveAfter env name nHeight blockHash live vtx) := by
  simp [liveAfter, List.foldl_append]

/-- A block without an issue applies its reissues. -/
theorem liveAfter_of_not_issues (hname : name ≠ [])
    (h : ∀ tx ∈ vtx, issuesAt env name tx = false) :
    liveAfter env name nHeight blockHash live vtx =
      live.map fun d => { d with asset := applyAll d.asset (reissuesAt env name vtx) } := by
  induction vtx generalizing live with
  | nil => simp [liveAfter, reissuesAt, applyAll]
  | cons tx vtx ih =>
    obtain ⟨htx, hv⟩ := List.forall_mem_cons.1 h
    have hc : liveAfter env name nHeight blockHash live (tx :: vtx) =
        liveAfter env name nHeight blockHash
          ((assetActions env tx).foldl (AssetAction.apply name nHeight blockHash) live) vtx := rfl
    rcases @actions_cases env name hname tx with
      ⟨r, hat, hr, ha, -⟩ | ⟨-, hissues⟩ | ⟨hat, -, hi⟩
    · rw [hc, ih hv, ha, reissuesAt_cons_some hat, List.foldl_cons, List.foldl_nil,
        AssetAction.apply, if_pos hr, Option.map_map]
      rfl
    · rw [htx] at hissues
      cases hissues
    · rw [hc, ih hv, foldl_apply_of_ne hi, reissuesAt_cons_none hat]

end Apply

section Connect

variable (env : Env) (name : Str)

/-- The entries of a block under a name stand for its live data. While the tip has marked the name
as removed, an asset that the block issues cannot be seen, so it cannot be reissued either. -/
structure LiveAt (placed : Prop) (g : AssetGlobals) (live : Option CDatabasedAssetData)
    (slot : AssetSlot) : Prop where
  removed : slot.asset.removed = none
  known : name ∉ g.passets.newAssets.toRemove → (slot.stored g name).isSome = live.isSome
  data : name ∉ g.passets.newAssets.toRemove → slot.data g name = live.map CDatabasedAssetData.asset
  place : placed → name ∉ g.passets.newAssets.toRemove →
    (slot.stored g name).map CDatabasedAssetData.place = live.map CDatabasedAssetData.place
  added : name ∈ g.passets.newAssets.toRemove →
    slot.asset.added.map CAssetCacheNewAsset.databased = live
  reissued : name ∈ g.passets.newAssets.toRemove → slot.reissued = none
  flagged : ∀ d, live = some d → HashFlagged d.asset

variable {env name} {placed : Prop} {g : AssetGlobals} {live : Option CDatabasedAssetData}
  {slot slot' : AssetSlot} {nHeight : Nat} {blockHash : UInt256} {actions : List AssetAction}

theorem LiveAt.congr (h : LiveAt name placed g live slot) (ha : slot'.asset = slot.asset)
    (hr : slot'.reissued = slot.reissued) : LiveAt name placed g live slot' where
  removed := ha ▸ h.removed
  known := by
    rw [stored_congr ha]
    exact h.known
  data := by
    rw [data_eq, stored_congr ha, hr, ← data_eq]
    exact h.data
  place := by
    rw [stored_congr ha]
    exact h.place
  added := ha ▸ h.added
  reissued := hr ▸ h.reissued
  flagged := h.flagged

theorem contains_eq_false {κ ν : Type} {cmp : κ → κ → Ordering} {t : TreeMap κ ν cmp} {k : κ}
    (h : k ∉ t) : t.contains k = false := by
  rw [Bool.eq_false_iff]
  exact h

/-- Where nothing is stored under a name that is not marked as removed, there are no entries. -/
theorem entries_of_stored_eq_none (h : slot.stored g name = none)
    (hr : slot.asset.removed = none) (hn : name ∉ g.passets.newAssets.toRemove) :
    slot.asset.added = none ∧ g.passets.newAssets.toAdd[name]? = none ∧ g.db.assetData name = none := by
  rw [stored, hr, contains_eq_false hn] at h
  cases ha : slot.asset.added with
  | some entry => simp [ha] at h
  | none =>
    cases hb : g.passets.newAssets.toAdd[name]? with
    | some entry => simp [ha, hb] at h
    | none => exact ⟨rfl, rfl, by simpa [ha, hb] using h⟩

/-- Where nothing is stored under a name, no data is pending either. -/
theorem LiveAt.reissued_eq_none (h : LiveAt name placed g live slot)
    (hst : slot.stored g name = none) : slot.reissued = none := by
  by_cases hm : name ∈ g.passets.newAssets.toRemove
  · exact h.reissued hm
  · have hl : live = none := by
      have hkn := h.known hm
      rw [hst] at hkn
      exact Option.isNone_iff_eq_none.1 (by simpa using hkn.symm)
    have hd := h.data hm
    rw [hl, data_eq, hst, Option.map_none, Option.or_none, Option.or_eq_none_iff] at hd
    exact hd.1

/-- The issue of an asset that is not known. -/
theorem LiveAt.issue {asset : CNewAsset} {address : Str} (h : LiveAt name placed g live slot)
    (hst : slot.stored g name = none) (hma : name ∈ g.passets.newAssets.toRemove → live = none)
    (hf : HashFlagged asset) :
    LiveAt name placed g (some ⟨asset, nHeight, blockHash⟩)
      { slot with asset := slot.asset.add ⟨asset, address, nHeight, blockHash⟩ } := by
  have ha : slot.asset.added = none := by
    by_cases hme : name ∈ g.passets.newAssets.toRemove
    · have hmap := h.added hme
      rwa [hma hme, Option.map_eq_none_iff] at hmap
    · exact (entries_of_stored_eq_none hst h.removed hme).1
  have hm : slot.asset.add ⟨asset, address, nHeight, blockHash⟩ =
      ⟨some ⟨asset, address, nHeight, blockHash⟩, none⟩ := by
    rw [DirtyPair.Marks.add, ha]
    rfl
  have hnew : name ∉ g.passets.newAssets.toRemove → stored g name
      { slot with asset := ⟨some ⟨asset, address, nHeight, blockHash⟩, none⟩ } =
        some ⟨asset, nHeight, blockHash⟩ := by
    intro hn
    rw [stored, contains_eq_false hn]
    rfl
  rw [hm]
  refine ⟨rfl, fun hn => ?_, fun hn => ?_, fun _ hn => ?_, fun _ => rfl, h.reissued, ?_⟩
  · simp [hnew hn]
  · have hl : live = none := by
      have hkn := h.known hn
      rw [hst] at hkn
      exact Option.isNone_iff_eq_none.1 (by simpa using hkn.symm)
    have hda := h.data hn
    rw [hl, data_eq, hst, Option.map_none, Option.or_none, Option.or_eq_none_iff] at hda
    rw [data_eq, hnew hn, hda.1, hda.2]
    rfl
  · rw [hnew hn]
  · rintro d hd
    cases hd
    exact hf

/-- The reissue of an asset that is known. -/
theorem LiveAt.reissue {asset : CNewAsset} (h : LiveAt name placed g live slot)
    (hp : name ∈ g.passets.newAssets.toRemove → g.passets.mapReissuedAssetData[name]? = none)
    (hda : slot.data g name = some asset) (data : CReissueAsset) :
    LiveAt name placed g
      (live.map fun d => { d with asset := d.asset.applyReissue data })
      { slot with reissued := some (asset.applyReissue data) } := by
  have hn : name ∉ g.passets.newAssets.toRemove := by
    intro hm
    have hc : g.passets.newAssets.toRemove.contains name = true := hm
    have hst : slot.stored g name = none := by
      rw [stored, hc, Bool.or_true, if_pos rfl]
    rw [data_eq, h.reissued hm, hp hm, hst] at hda
    cases hda
  have hl := h.data hn
  rw [hda] at hl
  obtain ⟨d, hd, rfl⟩ := Option.map_eq_some_iff.1 hl.symm
  subst hd
  refine ⟨h.removed, h.known, fun _ => rfl, h.place, fun hm => absurd hm hn,
    fun hm => absurd hm hn, ?_⟩
  rintro d' hd'
  cases hd'
  exact hashFlagged_applyReissue (h.flagged d rfl) data

/-- The actions of a transaction that does not reissue the asset. -/
theorem liveAt_foldl_issues (hrei : env.fReindex = false) (h : LiveAt name placed g live slot)
    (hno : ∀ action ∈ actions, action.reissues name = false)
    (ho : actions.countP (issues name) ≤ 1)
    (hfr : actions.any (issues name) = true → slot.stored g name = none)
    (hm : actions.any (issues name) = true → name ∈ g.passets.newAssets.toRemove → live = none)
    (hfl : ∀ asset address, .issue asset address ∈ actions → HashFlagged asset) :
    LiveAt name placed g (actions.foldl (AssetAction.apply name nHeight blockHash) live)
      (actions.foldl (connectAt env g name · nHeight blockHash) slot) := by
  induction actions generalizing live slot with
  | nil => exact h
  | cons action actions ih =>
    obtain ⟨hac, ha⟩ := List.forall_mem_cons.1 hno
    rw [List.any_cons] at hfr hm
    rw [List.countP_cons] at ho
    rw [List.foldl_cons, List.foldl_cons]
    have hf : ∀ asset address, .issue asset address ∈ actions → HashFlagged asset :=
      fun asset address hme => hfl asset address (List.mem_cons_of_mem _ hme)
    cases hi : action.issues name with
    | true =>
      cases action with
      | verifier assetName stored removed => cases hi
      | reissue data verifier => cases hi
      | issue asset address =>
        have hse : (AssetAction.issue asset address).assetName = name := of_decide_eq_true hi
        have hst := hfr (by rw [hi]; rfl)
        have hc : slot.connectAt env g name nHeight blockHash (.issue asset address) =
            { slot with asset := slot.asset.add ⟨asset, address, nHeight, blockHash⟩ } := by
          rw [connectAt, if_pos hse]
          simp only [connect, AssetSlot.issue, known_eq hrei, hst]
          rfl
        have hap : (AssetAction.issue asset address).apply name nHeight blockHash live =
            some ⟨asset, nHeight, blockHash⟩ := if_pos hse
        have hre : actions.any (issues name) = false := by
          rw [hi, if_pos rfl] at ho
          have hz : actions.countP (issues name) = 0 := by omega
          rw [List.any_eq_false]
          exact List.countP_eq_zero.1 hz
        rw [hc, hap]
        refine ih (h.issue hst (hm (by rw [hi]; rfl)) (hfl asset address
          List.mem_cons_self)) ha (by omega) ?_ ?_ hf
        · simp [hre]
        · simp [hre]
    | false =>
      have has : (slot.connectAt env g name nHeight blockHash action).asset = slot.asset :=
        asset_connectAt_of_not_issues hi
      have hr : (slot.connectAt env g name nHeight blockHash action).reissued = slot.reissued := by
        unfold connectAt
        split
        next hname =>
          cases action with
          | issue asset address => exact absurd hname (of_decide_eq_false hi)
          | verifier assetName stored removed => rfl
          | reissue data verifier => exact absurd hname (of_decide_eq_false hac)
        · rfl
      have hap : action.apply name nHeight blockHash live = live := by
        cases action with
        | issue asset address => exact if_neg (of_decide_eq_false hi)
        | verifier assetName stored removed => rfl
        | reissue data verifier => exact if_neg (of_decide_eq_false hac)
      rw [hi, Bool.false_or] at hfr hm
      rw [hap]
      refine ih (h.congr has hr) ha (by omega) ?_ hm hf
      rw [stored_congr has]
      exact hfr

theorem count_issuedName : (actions.filterMap issuedName).count name =
      actions.countP (issues name) := by
  induction actions with
  | nil => rfl
  | cons action actions ih =>
    cases action with
    | issue asset address =>
      rw [List.filterMap_cons, List.countP_cons, ← ih]
      by_cases hname : asset.strName = name
      · simp [issuedName, issues, hname]
      · simp [issuedName, issues, hname]
    | verifier assetName stored removed =>
      rw [List.filterMap_cons_none rfl, List.countP_cons_of_neg (by simp [issues]), ih]
    | reissue data verifier =>
      rw [List.filterMap_cons_none rfl, List.countP_cons_of_neg (by simp [issues]), ih]

variable {rules : BlockRules} {mempool : MempoolAssets} {tx : CTransaction}
  {pre : List CTransaction}

/-- An asset that a connected transaction issues is not stored in front of it. -/
theorem stored_of_admitted {cache : CAssetsCache} (hr : env.fReindex = false)
    (had : Admitted env g cache tx) (hi : issuesAt env name tx = true) :
    (cache.slot name).stored g name = none := by
  have hf := had.not_known hi
  rw [known_eq hr] at hf
  simpa using hf

/-- One transaction of a block, connected. -/
theorem liveAt_step {fUndo : Bool} {c c' : Connected} (hname : name ≠ [])
    (hrei : env.fReindex = false)
    (hp : name ∈ g.passets.newAssets.toRemove → g.passets.mapReissuedAssetData[name]? = none)
    (hco : tx.isCoinBase = true → NoAssetOuts tx)
    (hch : checkTransaction env tx true false true = .ok ())
    (ho : name ∈ g.passets.newAssets.toRemove →
      ((pre ++ [tx]).flatMap (issuedNames env)).count name ≤ 1)
    (his : IssuedAt env g name pre (c.st.cache.slot name))
    (h : LiveAt name placed g live (c.st.cache.slot name))
    (hcon : connectTx rules env g mempool nHeight blockHash fUndo c tx = .ok c') :
    LiveAt name placed g
      ((assetActions env tx).foldl (AssetAction.apply name nHeight blockHash) live)
      ((assetActions env tx).foldl (connectAt env g name · nHeight blockHash)
        (c.st.cache.slot name)) := by
  obtain ⟨ha, -⟩ := admitted_of_connectTx hco hcon
  rcases @actions_cases env name hname tx with
    ⟨r, hat, hr, hac, -⟩ | ⟨hat, hi⟩ | ⟨-, -, hid⟩
  · obtain ⟨asset, hd, -⟩ :=
      ha.known r.1 r.2 (by rw [hac]; exact List.mem_singleton_self _)
    rw [hr] at hd
    obtain ⟨has, hre, -⟩ :=
      @connectAt_reissue env g name (c.st.cache.slot name) nHeight blockHash asset r.1 r.2 hr hd
    have hap : (reissue r.1 r.2).apply name nHeight blockHash live =
        live.map fun d => { d with asset := d.asset.applyReissue r.1 } := if_pos hr
    rw [hac, List.foldl_cons, List.foldl_nil, List.foldl_cons, List.foldl_nil, hap]
    exact (h.reissue hp hd r.1).congr has hre
  · have hn := (issuedNames_of_checkTransaction hch).1
    have hin : name ∈ issuedNames env tx := (issuesAt_iff hch).1 hi
    have hu := stored_of_admitted hrei ha hi
    refine liveAt_foldl_issues hrei h (reissues_eq_false hat) ?_ (fun _ => hu) ?_ ?_
    · rw [← count_issuedName, ← hn]
      exact List.nodup_iff_count_le_one.1 (issuedNames_of_checkTransaction hch).2 name
    · intro _ hm
      -- the name is not issued earlier in the block
      have hc := ho hm
      have hpo : 0 < (issuedNames env tx).count name := List.count_pos_iff.2 hin
      rw [List.flatMap_append, List.count_append] at hc
      have hz : (pre.flatMap (issuedNames env)).count name = 0 := by
        have hsa : [tx].flatMap (issuedNames env) = issuedNames env tx := by simp
        rw [hsa] at hc
        omega
      have hnon : (c.st.cache.slot name).asset.added = none := by
        rw [← Option.isNone_iff_eq_none, ← Option.isSome_eq_false_iff, Bool.eq_false_iff]
        exact fun hso => List.count_eq_zero.1 hz (his.added.1 hso)
      rw [← h.added hm, hnon]
      rfl
    · intro asset address hm
      rcases classChecked_of_connectTx hco hcon with ⟨-, u, hclass⟩ | hno
      · exact hashFlagged_of_issueChecked (issueChecked_of_contextualCheckAssetClass hclass hm)
      · rw [assetActions_of_noAssetOuts hno] at hm
        cases hm
  · rw [foldl_apply_of_ne hid, foldl_connectAt_of_ne hid]
    exact h

end Connect

section Tip

/-- What the tip stores about an asset, from the marks of `passets` and the row. -/
def AssetSlot.tipStored (p : AssetSlot) (row : Option CDatabasedAssetData) :
    Option CDatabasedAssetData :=
  if p.asset.removed.isSome then none
  else (p.asset.added.map CAssetCacheNewAsset.databased).or row

/-- The tip stands for the live data of an asset. With `placed`, its height and block hash are those
of the issue as well. -/
structure TipLive (placed : Prop) (live : Option CDatabasedAssetData) (p : AssetSlot)
    (row : Option CDatabasedAssetData) : Prop where
  known : (p.tipStored row).isSome = live.isSome
  data : p.reissued.or ((p.tipStored row).map CDatabasedAssetData.asset) =
    live.map CDatabasedAssetData.asset
  place : placed →
    (p.tipStored row).map CDatabasedAssetData.place = live.map CDatabasedAssetData.place
  flagged : ∀ d, live = some d → HashFlagged d.asset
  exclusive : p.asset.added = none ∨ p.asset.removed = none
  pending : p.asset.removed.isSome = true → p.reissued = none

variable {env : Env} {name : Str} {placed : Prop} {live live' : Option CDatabasedAssetData}
  {p slot : AssetSlot} {row : Option CDatabasedAssetData} {s : AssetStore}

theorem tipLive_empty : TipLive placed none {} none where
  known := rfl
  data := rfl
  place := fun _ => rfl
  flagged := by simp
  exclusive := Or.inl rfl
  pending := by simp

theorem stored_tip (h : RowsSound s.assetData) (hr : slot.asset.removed = none)
    (hb : (s.passets.slot name).asset.removed = none) :
    slot.stored (s.globals env) name = ((slot.asset.added.or (s.passets.slot name).asset.added).map
        CAssetCacheNewAsset.databased).or s.assetData.db[name]? := by
  have hc : (s.globals env).passets.newAssets.toRemove.contains name = false := by
    rw [← TreeMap.isSome_getElem?_eq_contains]
    exact Option.isSome_eq_false_iff.2 (Option.isNone_iff_eq_none.2 hb)
  rw [stored, hr, hc, assetData_globals h]
  simp only [Option.orElse_eq_orElse, Option.orElse_eq_or]
  rfl

theorem stored_empty (h : RowsSound s.assetData) : stored (s.globals env) name {} =
    (s.passets.slot name).tipStored s.assetData.db[name]? := by
  cases hr : (s.passets.slot name).asset.removed with
  | some entry =>
    have hc : (s.globals env).passets.newAssets.toRemove.contains name = true := by
      rw [← TreeMap.isSome_getElem?_eq_contains]
      exact Option.isSome_iff_exists.2 ⟨entry, hr⟩
    rw [stored, hc, tipStored, hr]
    rfl
  | none =>
    rw [stored_tip h rfl hr, tipStored, hr]
    rfl

theorem mem_toRemove_iff : name ∈ (s.globals env).passets.newAssets.toRemove ↔
    (s.passets.slot name).asset.removed.isSome = true :=
  TreeMap.mem_iff_isSome_getElem?

theorem TipLive.data_globals (h : RowsSound s.assetData)
    (ht : TipLive placed live (s.passets.slot name) s.assetData.db[name]?) :
    AssetSlot.data (s.globals env) name {} = live.map CDatabasedAssetData.asset := by
  rw [data_eq, stored_empty h]
  exact ht.data

theorem TipLive.liveAt (h : RowsSound s.assetData)
    (ht : TipLive placed live (s.passets.slot name) s.assetData.db[name]?) :
    LiveAt name placed (s.globals env) live {} := by
  refine ⟨rfl, fun _ => ?_, fun _ => ht.data_globals h, fun hp _ => ?_, fun hm => ?_,
    fun _ => rfl, ht.flagged⟩
  · rw [stored_empty h]
    exact ht.known
  · rw [stored_empty h]
    exact ht.place hp
  · have hkn := ht.known
    rw [mem_toRemove_iff] at hm
    rw [tipStored, if_pos hm] at hkn
    exact (Option.isNone_iff_eq_none.1 (by simpa using hkn.symm)).symm

/-- A connected block, flushed. -/
theorem TipLive.connect (h : RowsSound s.assetData)
    (ht : TipLive placed live (s.passets.slot name) s.assetData.db[name]?)
    (hsl : LiveAt name placed (s.globals env) live' slot)
    (hf : slot.asset.added.isSome = true → stored (s.globals env) name {} = none) :
    TipLive placed live' (slot.onto (s.passets.slot name)) s.assetData.db[name]? := by
  have hm : (slot.onto (s.passets.slot name)).asset =
      slot.asset.added.elim (s.passets.slot name).asset (s.passets.slot name).asset.add := by
    rw [AssetSlot.onto, DirtyPair.Marks.keepOnto, hsl.removed]
    rfl
  cases hr : (s.passets.slot name).asset.removed with
  | some entry =>
    have hso : (s.passets.slot name).asset.removed.isSome = true := by rw [hr]; rfl
    have hme := (@mem_toRemove_iff env name s).2 hso
    have hre : (slot.onto (s.passets.slot name)).reissued = none := by
      rw [AssetSlot.onto, hsl.reissued hme, ht.pending hso]
      rfl
    have hl := hsl.added hme
    have hb : (s.passets.slot name).asset.added = none :=
      ht.exclusive.resolve_right (by simp [hr])
    cases ha : slot.asset.added with
    | none =>
      rw [ha, Option.elim_none] at hm
      rw [ha, Option.map_none] at hl
      have hst : (slot.onto (s.passets.slot name)).tipStored s.assetData.db[name]? = none := by
        rw [tipStored, hm, if_pos hso]
      refine ⟨?_, ?_, fun _ => ?_, hsl.flagged, ?_, fun _ => hre⟩
      · rw [hst, ← hl]
      · rw [hst, hre, ← hl]
        rfl
      · rw [hst, ← hl]
      · rw [hm]
        exact ht.exclusive
    | some new =>
      rw [ha, Option.elim_some, DirtyPair.Marks.add, hb] at hm
      rw [ha, Option.map_some] at hl
      have hst : (slot.onto (s.passets.slot name)).tipStored s.assetData.db[name]? =
          some new.databased := by
        rw [tipStored, hm]
        rfl
      refine ⟨?_, ?_, fun _ => ?_, hsl.flagged, ?_, fun _ => hre⟩
      · rw [hst, ← hl]
      · rw [hst, hre, ← hl]
        rfl
      · rw [hst, ← hl]
      · rw [hm]
        exact Or.inr rfl
  | none =>
    have hno : name ∉ (s.globals env).passets.newAssets.toRemove := by
      rw [mem_toRemove_iff, hr]
      simp
    -- the marks of the block show through the flush as they did above the tip
    have hst : (slot.onto (s.passets.slot name)).tipStored s.assetData.db[name]? =
        slot.stored (s.globals env) name := by
      rw [stored_tip h hsl.removed hr, tipStored, hm]
      cases ha : slot.asset.added with
      | none =>
        rw [Option.elim_none, hr]
        rfl
      | some new =>
        have he := hf (by rw [ha]; rfl)
        have hb := (entries_of_stored_eq_none he rfl hno).2.1
        have hn : (s.passets.slot name).asset.added = none := hb
        rw [Option.elim_some, DirtyPair.Marks.add, hn]
        rfl
    refine ⟨?_, ?_, fun hp => ?_, hsl.flagged, ?_, ?_⟩
    · rw [hst]
      exact hsl.known hno
    · have hd := hsl.data hno
      rw [data_eq] at hd
      rw [hst]
      exact hd
    · rw [hst]
      exact hsl.place hp hno
    · rw [hm]
      cases slot.asset.added with
      | none => exact Or.inr hr
      | some new => exact Or.inr rfl
    · rw [hm]
      cases slot.asset.added with
      | none => simp [hr]
      | some new => simp [DirtyPair.Marks.add]

end Tip

section Undo

variable (env : Env) (name : Str)

/-- What the undo data of a block is worth, given the live data in front of the block. -/
structure UndoSound (live : Option CDatabasedAssetData) (vtx : List CTransaction)
    (item : Option CBlockAssetUndo) : Prop where
  issued : vtx.any (issuesAt env name) = true → live = none
  flagged : ∀ d, live = some d → HashFlagged d.asset
  item : vtx.any (issuesAt env name) = false → reissuesAt env name vtx ≠ [] →
    ∃ d verifier, live = some d ∧ item = firstItem d.asset verifier (reissuesAt env name vtx)

/-- When a block can be taken back without a trace: an issue only while no reissued data is pending
and the block does not reissue the asset, and reissues only as far as their undo item goes. -/
structure Undoable (live : Option CDatabasedAssetData) (pending : Option CNewAsset)
    (vtx : List CTransaction) : Prop where
  issued : vtx.any (issuesAt env name) = true → pending = none ∧ reissuesAt env name vtx = []
  reissued : vtx.any (issuesAt env name) = false → reissuesAt env name vtx ≠ [] →
    ∀ d, live = some d → d.asset.nReissuable = 1 ∧
      UnitsCovered d.asset (reissuesAt env name vtx) ∧ HashCovered d.asset (reissuesAt env name vtx)

variable {env name} {placed : Prop} {live : Option CDatabasedAssetData} {s : AssetStore}
  {vtx : List CTransaction} {item : Option CBlockAssetUndo} {nHeight : Nat} {blockHash : UInt256}

theorem undoSound_of_connectedAt {slot : AssetSlot} {g : AssetGlobals}
    (hr : env.fReindex = false) (h : LiveAt name placed g live {})
    (hda : AssetSlot.data g name {} = live.map CDatabasedAssetData.asset)
    (hkn : (stored g name {}).isSome = live.isSome)
    (hc : ConnectedAt env g name vtx slot item) : UndoSound env name live vtx item where
  issued := by
    intro hi
    have hf := hc.fresh hi
    rw [known_eq hr, hkn] at hf
    simpa using hf
  flagged := h.flagged
  item := by
    intro hi hrs
    obtain ⟨asset, hb, -, -, hit⟩ := hc.reissued hi hrs
    rw [hda] at hb
    obtain ⟨d, hd, rfl⟩ := Option.map_eq_some_iff.1 hb
    exact ⟨d, _, hd, hit⟩

/-- A block that is taken back, flushed. -/
theorem TipLive.disconnect (hname : name ≠ []) (hrei : env.fReindex = false)
    (h : RowsSound s.assetData)
    (ht : TipLive placed (liveAfter env name nHeight blockHash live vtx) (s.passets.slot name)
      s.assetData.db[name]?)
    (hund : UndoSound env name live vtx item)
    (hun : Undoable env name live (s.passets.slot name).reissued vtx) :
    TipLive placed live ((undoSlot env (s.globals env) name item vtx {}).onto (s.passets.slot name))
      s.assetData.db[name]? := by
  cases hi : vtx.any (issuesAt env name) with
  | true =>
    obtain ⟨hp, hrs⟩ := hun.issued hi
    have hno : ∀ tx ∈ vtx, reissueAt env name tx = none := List.filterMap_eq_nil_iff.1 hrs
    obtain ⟨hre, hg, -⟩ := @undoSlot_issues env (s.globals env) name item vtx {} hrei hno
      (Or.inl rfl)
    have hl : live = none := hund.issued hi
    -- the asset was known at the tip, so only a removal can hide it
    have hrem : (undoSlot env (s.globals env) name item vtx {}).asset.removed.isSome = true := by
      have hkn := ht.known
      rw [isSome_liveAfter (Or.inr hi)] at hkn
      have hb : (s.passets.slot name).asset.removed = none := by
        cases hm : (s.passets.slot name).asset.removed with
        | none => rfl
        | some entry => simp [tipStored, hm] at hkn
      by_contra hn
      rw [Bool.not_eq_true, Option.isSome_eq_false_iff, Option.isNone_iff_eq_none] at hn
      have hu := hg (Or.inr hi)
      rw [known_eq hrei, stored_tip h hn hb] at hu
      rw [tipStored, hb] at hkn
      cases ha : (undoSlot env (s.globals env) name item vtx {}).asset.added with
      | some entry => simp [ha] at hu
      | none =>
        rw [ha, Option.none_or] at hu
        rw [if_neg (by simp), hu] at hkn
        cases hkn
    obtain ⟨entry, he⟩ := Option.isSome_iff_exists.1 hrem
    have hma : ((undoSlot env (s.globals env) name item vtx {}).onto
        (s.passets.slot name)).asset.added = none ∧
        ((undoSlot env (s.globals env) name item vtx {}).onto
          (s.passets.slot name)).asset.removed.isSome = true := by
      simp only [AssetSlot.onto, DirtyPair.Marks.keepOnto, he, Option.elim_some,
        DirtyPair.Marks.remove, true_and]
      generalize (Option.elim _ _ _ : DirtyPair.Marks CAssetCacheNewAsset).removed = old
      cases old <;> rfl
    have hn : ((undoSlot env (s.globals env) name item vtx {}).onto
        (s.passets.slot name)).reissued = none := by
      rw [AssetSlot.onto, hre, hp]
      rfl
    have hst : ((undoSlot env (s.globals env) name item vtx {}).onto
        (s.passets.slot name)).tipStored s.assetData.db[name]? = none := if_pos hma.2
    rw [hl]
    refine ⟨?_, ?_, fun _ => ?_, by simp, Or.inl hma.1, fun _ => hn⟩
    · rw [hst]
    · rw [hst, hn]
      rfl
    · rw [hst]
  | false =>
    have hno : ∀ tx ∈ vtx, issuesAt env name tx = false := by simpa using hi
    rw [liveAfter_of_not_issues hname hno] at ht
    by_cases hrs : reissuesAt env name vtx = []
    · have hsa : (live.map fun d => { d with asset := applyAll d.asset (reissuesAt env name vtx) }) =
          live := by
        rw [hrs]
        cases live with
        | none => rfl
        | some d => rfl
      rw [hsa] at ht
      rw [undoSlot_idle hname hno hrs]
      exact ht
    · obtain ⟨d, verifier, rfl, hit⟩ := hund.item hi hrs
      obtain ⟨hr, hc⟩ := hun.reissued hi hrs d rfl
      have hd : AssetSlot.data (s.globals env) name {} =
          some (applyAll d.asset (reissuesAt env name vtx)) := ht.data_globals h
      have hst : ((s.passets.slot name).tipStored s.assetData.db[name]?).isSome = true := ht.known
      have hkn : AssetSlot.known env (s.globals env) name {} = true := by
        rw [known_eq hrei, stored_empty h]
        exact hst
      have hba := (@undoAll_applyAll_iff d.asset _ verifier hrs
        ⟨hr, hund.flagged d rfl⟩).2 hc
      rw [← hit] at hba
      rw [undoSlot_reissues hname hno hkn hd, if_neg hrs, hba]
      refine ⟨?_, rfl, fun hpl => ?_, hund.flagged, ht.exclusive, fun hm => ?_⟩
      · exact ht.known
      · exact ht.place hpl
      · change (s.passets.slot name).asset.removed.isSome = true at hm
        rw [tipStored, if_pos hm] at hst
        cases hst

end Undo

end Cmusic
