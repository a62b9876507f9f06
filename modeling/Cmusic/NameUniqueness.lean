import Cmusic.Authority
import Cmusic.ChainRuns

/-! Names of assets along a run: which of them can be issued a second time. -/
namespace Cmusic

open Fallible Std AssetSlot

variable (env : Env)

def AssetAction.issuedName : AssetAction → Option Str
  | .issue asset _ => some asset.strName
  | _ => none

/-- The names the outputs of a block create. -/
def blockIssued (block : CBlock) : List Str := block.vtx.flatMap (issuedNames env)

/-- The names the outputs of the active chain create. -/
def ChainState.issued (st : ChainState) : List Str :=
  st.active.flatMap fun linked => blockIssued env linked.block

/-- The name a unique output creates. -/
def uniqueName (out : CTxOut) : Option Str :=
  if isScriptNewUniqueAsset env out.scriptPubKey then
    (assetFromScript env out.scriptPubKey).map (·.1.strName)
  else none

section Outputs

variable {env} {tx : CTransaction}

theorem issuedNames_of_single {asset : CNewAsset} (h : SingleIssue env tx asset) :
    issuedNames env tx = [asset.strName] := by
  obtain ⟨address, hla⟩ := h.last
  obtain ⟨out, hout, hsc⟩ := exists_mem_lastScript h.nonempty
  have hm : asset.strName ∈ issuedNames env tx := by
    refine List.mem_filterMap.2 ⟨out, hout, ?_⟩
    rw [hsc, hla]
    rfl
  have hl : (issuedNames env tx).length ≤ 1 := by
    have hc : tx.vout.countP
        (fun out => ((assetFromScript env out.scriptPubKey).map (·.1.strName)).isSome) ≤
        tx.vout.countP fun out => CScript.isNewAsset out.scriptPubKey := by
      refine List.countP_mono_left fun out _ hso => ?_
      obtain ⟨p, hp⟩ := Option.isSome_iff_exists.1 (Option.isSome_map.symm.trans hso)
      exact isNewAsset_of_assetFromScript hp
    rw [issuedNames, List.length_filterMap_eq_countP]
    exact hc.trans_eq h.issues
  rcases hn : issuedNames env tx with _ | ⟨name, _ | ⟨next, rest⟩⟩
  · simp [hn] at hm
  · simpa [hn, eq_comm] using hm
  · simp [hn] at hl

/-- The names of the unique outputs read so far differ, and they are noted. -/
structure UniqueNoted (env : Env) (outs : List CTxOut) (scan : CTransaction.UniqueScan) : Prop where
  nodup : (outs.filterMap (uniqueName env)).Nodup
  noted : ∀ name ∈ outs.filterMap (uniqueName env), scan.setUniqueAssets.contains name = true

theorem uniqueNoted_step {outs : List CTxOut} {scan scan' : CTransaction.UniqueScan} {out : CTxOut}
    (h : UniqueNoted env outs scan) (hstep : CTransaction.uniqueScanStep env scan out = .ok scan') :
    UniqueNoted env (outs ++ [out]) scan' := by
  unfold CTransaction.uniqueScanStep at hstep
  split at hstep
  next hunique =>
    split at hstep
    · cases hstep
    next asset address ha =>
      simp only [failIf_bind_eq_ok, pure_eq_ok] at hstep
      obtain ⟨-, hnew, rfl⟩ := hstep
      have hse : uniqueName env out = some asset.strName := by
        simp [uniqueName, hunique, ha]
      have hsp : (outs ++ [out]).filterMap (uniqueName env) =
          outs.filterMap (uniqueName env) ++ [asset.strName] := by
        simp [List.filterMap_append, hse]
      constructor
      · rw [hsp, List.nodup_append]
        refine ⟨h.nodup, List.nodup_singleton _, ?_⟩
        intro name hname other ho heq
        have hc := h.noted name hname
        rw [heq, List.mem_singleton.1 ho, hnew] at hc
        cases hc
      · intro name hname
        rw [hsp, List.mem_append] at hname
        rw [TreeSet.contains_insert, Bool.or_eq_true]
        rcases hname with hol | hl
        · exact Or.inr (h.noted name hol)
        · exact Or.inl (by simp [List.mem_singleton.1 hl])
  next hunique =>
    cases hstep
    have hsa : (outs ++ [out]).filterMap (uniqueName env) = outs.filterMap (uniqueName env) := by
      simp [List.filterMap_append, uniqueName, hunique]
    exact ⟨hsa ▸ h.nodup, hsa ▸ h.noted⟩

theorem issuedName_issueActions (payload : Option (CNewAsset × Str)) :
    (issueActions payload).filterMap AssetAction.issuedName =
      (payload.map (·.1.strName)).toList := by
  cases payload with
  | none => rfl
  | some p => rfl

theorem issuedName_uniqueActions (vout : List CTxOut) :
    (vout.flatMap fun out => if isScriptNewUniqueAsset env out.scriptPubKey then
        issueActions (assetFromScript env out.scriptPubKey) else []).filterMap
      AssetAction.issuedName = vout.filterMap (uniqueName env) := by
  induction vout with
  | nil => rfl
  | cons out vout ih =>
    rw [List.flatMap_cons, List.filterMap_append, ih, List.filterMap_cons]
    unfold uniqueName
    split
    · rw [issuedName_issueActions]
      cases (assetFromScript env out.scriptPubKey).map (·.1.strName) <;> rfl
    · rfl

theorem issuedName_verifierActions (assetName : Str) :
    (verifierActions env assetName tx).filterMap AssetAction.issuedName = [] := by
  unfold verifierActions
  split <;> rfl

/-- The issues of a checked transaction are those of its class, and no name is issued twice. -/
theorem issuedNames_of_checkAssetClass {use : RestrictedUse} (h : checkAssetClass env tx = .ok use) :
    issuedNames env tx = (assetActions env tx).filterMap AssetAction.issuedName ∧
      (issuedNames env tx).Nodup := by
  have hsi : ∀ asset address, SingleIssue env tx asset →
      assetFromScript env tx.lastScript = some (asset, address) →
      issuedNames env tx = ((assetFromScript env tx.lastScript).map (·.1.strName)).toList ∧
        (issuedNames env tx).Nodup := by
    intro asset address hi hl
    rw [issuedNames_of_single hi, hl]
    exact ⟨rfl, List.nodup_singleton _⟩
  unfold assetActions
  cases routed_of_checkAssetClass h with
  | newAsset hnew hverify =>
    obtain ⟨asset, hi, -⟩ := verifyNewAsset_ok hverify
    obtain ⟨address, hl⟩ := hi.last
    rw [if_pos hnew, issuedName_issueActions]
    exact hsi asset address hi hl
  | reissue hnew hreissue hverify =>
    obtain ⟨his, -⟩ := verifyReissueAsset_ok hverify
    rw [his, hnew, if_neg (by decide), if_pos hreissue]
    cases reissueAssetFromScript env tx.lastScript with
    | none => exact ⟨rfl, List.nodup_nil⟩
    | some p => exact ⟨rfl, List.nodup_nil⟩
  | unique hnew hreissue hunique hverify =>
    obtain ⟨scan, hsc, -, -, ha⟩ := exists_of_verifyNewUniqueAsset hverify
    have hn : UniqueNoted env tx.vout scan := foldlM_invariant (UniqueNoted env) hsc
      ⟨List.nodup_nil, by simp⟩ fun _ _ _ _ => uniqueNoted_step
    have hna : issuedNames env tx = tx.vout.filterMap (uniqueName env) := by
      refine List.filterMap_congr fun out hout => ?_
      cases hp : assetFromScript env out.scriptPubKey with
      | none => simp [uniqueName, hp]
      | some p => simp [uniqueName, hp, ha out hout p hp]
    simp only [hnew, hreissue, hunique, Bool.false_eq_true, if_false, if_true]
    rw [issuedName_uniqueActions, hna]
    exact ⟨rfl, hn.nodup⟩
  | msgChannel hnew hreissue hunique hchannel hverify =>
    obtain ⟨asset, hi, -⟩ := verifyNewMsgChannelAsset_ok hverify
    obtain ⟨address, hl⟩ := hi.last
    simp only [hnew, hreissue, hunique, hchannel, Bool.false_eq_true, if_false, if_true]
    rw [issuedName_issueActions, msgChannelAssetFromScript,
      if_pos (Bool.and_eq_true_iff.1 hchannel).2]
    exact hsi asset address hi hl
  | qualifier hnew hreissue hunique hchannel hqualifier hverify =>
    obtain ⟨asset, hi, -⟩ := verifyNewQualfierAsset_ok hverify
    obtain ⟨address, hl⟩ := hi.last
    simp only [hnew, hreissue, hunique, hchannel, hqualifier, Bool.false_eq_true, if_false, if_true]
    rw [issuedName_issueActions, qualifierAssetFromScript,
      if_pos (Bool.and_eq_true_iff.1 hqualifier).2]
    exact hsi asset address hi hl
  | restricted hnew hreissue hunique hchannel hqualifier hrestricted hverify =>
    obtain ⟨asset, hi, -⟩ := verifyNewRestrictedAsset_ok hverify
    obtain ⟨address, hl⟩ := hi.last
    simp only [hnew, hreissue, hunique, hchannel, hqualifier, hrestricted, Bool.false_eq_true,
      if_false, if_true]
    rw [List.filterMap_append, issuedName_verifierActions, List.append_nil, issuedName_issueActions,
      restrictedAssetFromScript, if_pos (Bool.and_eq_true_iff.1 hrestricted).2]
    exact hsi asset address hi hl
  | plain hnew hreissue hunique hchannel hqualifier hrestricted hplain =>
    have hno : issuedNames env tx = [] := (names_eq_nil_of_checkPlainOut hplain).1
    simp only [hnew, hreissue, hunique, hchannel, hqualifier, hrestricted, Bool.false_eq_true,
      if_false, hno]
    exact ⟨rfl, List.nodup_nil⟩

theorem issuedNames_of_checkTransaction (h : checkTransaction env tx true false true = .ok ()) :
    issuedNames env tx = (assetActions env tx).filterMap AssetAction.issuedName ∧
      (issuedNames env tx).Nodup := by
  obtain ⟨use, hclass⟩ := routed_of_checkTransaction h
  exact issuedNames_of_checkAssetClass hclass

theorem issuesAt_iff (h : checkTransaction env tx true false true = .ok ()) {name : Str} :
    issuesAt env name tx = true ↔ name ∈ issuedNames env tx := by
  rw [(issuedNames_of_checkTransaction h).1, issuesAt, List.any_eq_true, List.mem_filterMap]
  refine exists_congr fun action => and_congr_right fun _ => ?_
  cases action with
  | issue asset address => simp [AssetAction.issuedName]
  | verifier assetName stored removed => simp [AssetAction.issuedName]
  | reissue data verifier => simp [AssetAction.issuedName]

end Outputs

section Slots

variable {env} {g : AssetGlobals} {name : Str} {nHeight : Nat} {blockHash : UInt256}
  {actions : List AssetAction} {action : AssetAction} {slot : AssetSlot} {tx : CTransaction}
  {item : Option CBlockAssetUndo} {vtx : List CTransaction}

theorem asset_connectAt_of_not_issues (h : action.issues name = false) :
    (slot.connectAt env g name nHeight blockHash action).asset = slot.asset := by
  unfold connectAt
  split
  next hname =>
    cases action with
    | issue asset address => exact absurd hname (of_decide_eq_false h)
    | verifier assetName stored removed => rfl
    | reissue data verifier =>
      simp only [connect, reissue]
      split
      · rfl
      · cases verifier <;> rfl
  · rfl

theorem asset_disconnectAt_of_not_issues (h : action.issues name = false) :
    (slot.disconnectAt env g name item action).asset = slot.asset := by
  unfold disconnectAt
  split
  next hname =>
    cases action with
    | issue asset address => exact absurd hname (of_decide_eq_false h)
    | verifier assetName stored removed => rfl
    | reissue data verifier =>
      simp only [disconnect, removeReissue]
      split
      · split
        · rfl
        · exact asset_undoVerifier
      · rfl
  · rfl

/-- An issue adds its asset where none is known, and nothing takes a mark away. -/
theorem asset_connectAt_of_issues (h : action.issues name = true) :
    ((slot.connectAt env g name nHeight blockHash action).asset = slot.asset ∧
        slot.known env g name = true) ∨
      ∃ entry, (slot.connectAt env g name nHeight blockHash action).asset = slot.asset.add entry := by
  cases action with
  | issue asset address =>
    have hname : (AssetAction.issue asset address).assetName = name := of_decide_eq_true h
    rw [connectAt, if_pos hname]
    simp only [connect, AssetSlot.issue]
    split
    next hkn => exact Or.inl ⟨rfl, hkn⟩
    · exact Or.inr ⟨_, rfl⟩
  | verifier assetName stored removed => cases h
  | reissue data verifier => cases h

/-- The marks of an asset while the actions of a transaction are connected. -/
theorem asset_foldl_connectAt (hr : slot.asset.removed = none) :
    (actions.foldl (connectAt env g name · nHeight blockHash) slot).asset.removed = none ∧
      (slot.asset.added.isSome = true →
        (actions.foldl (connectAt env g name · nHeight blockHash) slot).asset.added.isSome = true) ∧
      (slot.known env g name = false → actions.any (AssetAction.issues name) = true →
        (actions.foldl (connectAt env g name · nHeight blockHash) slot).asset.added.isSome = true) ∧
      (actions.any (AssetAction.issues name) = false →
        (actions.foldl (connectAt env g name · nHeight blockHash) slot).asset = slot.asset) := by
  induction actions generalizing slot with
  | nil => exact ⟨hr, id, by simp, fun _ => rfl⟩
  | cons action actions ih =>
    rw [List.foldl_cons, List.any_cons]
    cases hi : action.issues name with
    | false =>
      have hsa : (slot.connectAt env g name nHeight blockHash action).asset = slot.asset :=
        asset_connectAt_of_not_issues hi
      have hkn : (slot.connectAt env g name nHeight blockHash action).known env g name =
          slot.known env g name := known_congr hsa
      have hm := ih (hsa ▸ hr)
      rw [hsa, hkn] at hm
      exact hm
    | true =>
      rcases @asset_connectAt_of_issues env g name nHeight blockHash action slot hi with
        ⟨hsa, hkn⟩ | ⟨entry, had⟩
      · obtain ⟨hn, hso, -, -⟩ := ih (hsa ▸ hr)
        rw [hsa] at hso
        refine ⟨hn, hso, fun hu => ?_, by simp⟩
        rw [hkn] at hu
        cases hu
      · have hm : (slot.connectAt env g name nHeight blockHash action).asset.removed = none := by
          rw [had]
          rfl
        have ha : (slot.connectAt env g name nHeight blockHash action).asset.added.isSome =
            true := by
          rw [had]
          exact DirtyPair.Marks.isSome_add _ _
        obtain ⟨hn, hso, -, -⟩ := ih hm
        exact ⟨hn, fun _ => hso ha, fun _ _ => hso ha, by simp⟩

theorem asset_foldl_disconnectAt (h : actions.any (AssetAction.issues name) = false) :
    (actions.foldl (disconnectAt env g name · item) slot).asset = slot.asset := by
  induction actions generalizing slot with
  | nil => rfl
  | cons action actions ih =>
    rw [List.any_cons, Bool.or_eq_false_iff] at h
    rw [List.foldl_cons, ih h.2, asset_disconnectAt_of_not_issues h.1]

theorem asset_undoSlot (h : ∀ tx ∈ vtx, issuesAt env name tx = false) :
    (undoSlot env g name item vtx slot).asset = slot.asset := by
  induction vtx with
  | nil => rfl
  | cons tx vtx ih =>
    obtain ⟨htx, hv⟩ := List.forall_mem_cons.1 h
    rw [undoSlot_cons, asset_foldl_disconnectAt htx, ih hv]

end Slots

section Blocks

/-- What a name has become while the transactions of a block are connected. A name that the tip has
marked as removed may be issued again and again. -/
structure IssuedAt (g : AssetGlobals) (name : Str) (pre : List CTransaction) (slot : AssetSlot) :
    Prop where
  removed : slot.asset.removed = none
  added : slot.asset.added.isSome = true ↔ name ∈ pre.flatMap (issuedNames env)
  fresh : name ∈ pre.flatMap (issuedNames env) → AssetSlot.known env g name {} = false
  once : name ∉ g.passets.newAssets.toRemove → (pre.flatMap (issuedNames env)).count name ≤ 1

variable {env} {g : AssetGlobals} {name : Str} {nHeight : Nat} {blockHash : UInt256}
  {slot : AssetSlot} {tx : CTransaction} {pre : List CTransaction}

theorem issuedAt_nil : IssuedAt env g name [] {} where
  removed := rfl
  added := by simp
  fresh := by simp
  once := by simp

/-- A transaction of a block, connected. -/
theorem issuedAt_step {cache : CAssetsCache} (h : IssuedAt env g name pre (cache.slot name))
    (hch : checkTransaction env tx true false true = .ok ()) (hadm : Admitted env g cache tx) :
    IssuedAt env g name (pre ++ [tx]) ((assetActions env tx).foldl
      (connectAt env g name · nHeight blockHash) (cache.slot name)) := by
  obtain ⟨hr, hke, his, hid⟩ :=
    @asset_foldl_connectAt env g name nHeight blockHash (assetActions env tx) _ h.removed
  have hsp : (pre ++ [tx]).flatMap (issuedNames env) =
      pre.flatMap (issuedNames env) ++ issuedNames env tx := by simp
  by_cases hi : issuesAt env name tx = true
  · have hu := hadm.not_known hi
    have had := his hu hi
    have hin : name ∈ issuedNames env tx := (issuesAt_iff hch).1 hi
    refine ⟨hr, ?_, fun _ => ?_, fun hno => ?_⟩
    · rw [hsp, List.mem_append]
      exact ⟨fun _ => Or.inr hin, fun _ => had⟩
    · by_cases hb : name ∈ pre.flatMap (issuedNames env)
      · exact h.fresh hb
      · have hn : (cache.slot name).asset.added = none := by
          rw [← Option.isNone_iff_eq_none, ← Option.isSome_eq_false_iff, Bool.eq_false_iff]
          exact fun hso => hb (h.added.1 hso)
        rw [← known_of_asset (DirtyPair.Marks.eq_empty hn h.removed)]
        exact hu
    · -- a name that is not marked as removed is known once it is issued
      have hb : name ∉ pre.flatMap (issuedNames env) := by
        intro hm
        have hso := h.added.2 hm
        have hc : g.passets.newAssets.toRemove.contains name = false := by
          rw [Bool.eq_false_iff]
          exact hno
        simp [AssetSlot.known, h.removed, hc, hso] at hu
      rw [hsp, List.count_append, List.count_eq_zero.2 hb, Nat.zero_add]
      exact List.nodup_iff_count_le_one.1 (issuedNames_of_checkTransaction hch).2 name
  · have hno : name ∉ issuedNames env tx := fun hin => hi ((issuesAt_iff hch).2 hin)
    have hsa := hid (Bool.eq_false_iff.2 hi)
    refine ⟨hr, ?_, ?_, ?_⟩
    · rw [hsa, h.added, hsp, List.mem_append, or_iff_left hno]
    · rw [hsp, List.mem_append, or_iff_left hno]
      exact h.fresh
    · rw [hsp, List.count_append, List.count_eq_zero.2 hno, Nat.add_zero]
      exact h.once

variable {rules : BlockRules} {mempool : MempoolAssets} {view : CCoinsViewCache}
  {vtx : List CTransaction} {conn : Connected}

theorem issuedAt_connectTransactions (hf : env.areCoinbaseCheckAssetsDeployed = true)
    (hch : ∀ tx ∈ vtx, checkTransaction env tx true false true = .ok ())
    (hb : ∀ name, AssetSlot.Named g name {})
    (h : connectTransactions rules env g mempool nHeight blockHash ⟨view, {}⟩ vtx = .ok conn)
    (name : Str) : IssuedAt env g name vtx (conn.st.cache.slot name) := by
  refine cache_connectTransactions_invariant
    (fun pre cache => IssuedAt env g name pre (cache.slot name))
    (fun tx htx => noAssetOuts_of_coinbase hf (hch tx htx)) hb h ?_ ?_
  · rw [slot_empty]
    exact issuedAt_nil
  intro pre tx post fUndo c c' hv hp hc hsl
  have htx := hch tx (by rw [hv]; simp)
  rw [hsl]
  exact issuedAt_step hp htx
    (admitted_of_connectTx (noAssetOuts_of_coinbase hf htx) hc).1

end Blocks

section Runs

variable {env} {rules : BlockRules} {st st' : ChainState} {name : Str}

/-- Whether an asset exists at the tip, from the marks of `passets` and the row. -/
theorem known_tip {s : AssetStore} (h : RowsSound s.assetData) :
    AssetSlot.known env (s.globals env) name {} = if env.fReindex then true
      else if (s.passets.slot name).asset.removed.isSome then false
      else (s.passets.slot name).asset.added.isSome || s.assetData.db[name]?.isSome := by
  simp only [AssetSlot.known, CAssetsCache.slot, DirtyPair.marks, assetData_globals h,
    Option.isSome_none, Bool.false_eq_true, if_false, Bool.false_or,
    TreeMap.isSome_getElem?_eq_contains]
  rfl

/-- Marks that are not touched leave an asset known as it was. -/
theorem known_of_marks {s s' : AssetStore} (h : RowsSound s.assetData)
    (hr : s'.assetData = s.assetData)
    (hm : (s'.passets.slot name).asset = (s.passets.slot name).asset) :
    AssetSlot.known env (s'.globals env) name {} = AssetSlot.known env (s.globals env) name {} := by
  rw [known_tip (hr ▸ h), known_tip h, hr, hm]

/-- No name of the active chain is lost at the tip, and none is issued twice. -/
structure NamesSound (env : Env) (st : ChainState) : Prop where
  known : ∀ name ∈ st.issued env, AssetSlot.known env (st.store.globals env) name {} = true
  nodup : (st.issued env).Nodup

variable (env) in
/-- A block issues each name that the tip has marked as removed at most once. -/
def RemovedIssuedOnce (st : ChainState) : ChainEvent → Prop
  | .connect _ _ block => ∀ name ∈ st.store.passets.newAssets.toRemove,
      (blockIssued env block).count name ≤ 1
  | _ => True

section Connect

variable {mempool : MempoolAssets} {node : NodeState} {block : CBlock}

/-- A connected block: its names were not known before, and are known after it. -/
theorem issued_connect (hf : env.areCoinbaseCheckAssetsDeployed = true) (ht : TipSound env st)
    (hstep : st.step rules env (.connect mempool node block) = some st') :
    st'.issued env = blockIssued env block ++ st.issued env ∧
      (∀ name ∈ blockIssued env block, AssetSlot.known env (st.store.globals env) name {} = false ∧
        AssetSlot.known env (st'.store.globals env) name {} = true) ∧
      (∀ name, name ∉ blockIssued env block → AssetSlot.known env (st'.store.globals env) name {} =
          AssetSlot.known env (st.store.globals env) name {}) ∧
      ∀ name, name ∉ st.store.passets.newAssets.toRemove → (blockIssued env block).count name ≤ 1 := by
  obtain ⟨conn, hc, hco, rfl⟩ := exists_of_step_connect hstep
  have hi := issuedAt_connectTransactions hf (transactions_of_checkBlock hc).2.2
    ht.named hco
  have hsl : ∀ name, ((conn.st.cache.flush st.store.passets).slot name).asset =
      (conn.st.cache.slot name).asset.keepOnto (st.store.passets.slot name).asset := by
    intro name
    rw [slot_flush]
    rfl
  refine ⟨rfl, fun name hname => ⟨(hi name).fresh hname, ?_⟩, fun name hname => ?_,
    fun name => (hi name).once⟩
  · obtain ⟨entry, he⟩ := Option.isSome_iff_exists.1 ((hi name).added.2 hname)
    have hm : ((st.store.flush conn.st.cache).passets.slot name).asset =
        (st.store.passets.slot name).asset.add entry := by
      refine (hsl name).trans ?_
      rw [DirtyPair.Marks.keepOnto, (hi name).removed, he]
      rfl
    have hr : RowsSound (st.store.flush conn.st.cache).assetData := ht.rows
    rw [known_tip hr, hm, DirtyPair.Marks.isSome_add]
    simp [DirtyPair.Marks.add]
  · refine known_of_marks ht.rows rfl ?_
    have hn : (conn.st.cache.slot name).asset.added = none := by
      rw [← Option.isNone_iff_eq_none, ← Option.isSome_eq_false_iff, Bool.eq_false_iff]
      exact fun hso => hname ((hi name).added.1 hso)
    refine (hsl name).trans ?_
    rw [DirtyPair.Marks.keepOnto, (hi name).removed, hn]
    rfl

theorem nodup_issued_connect_iff (hfl : env.areCoinbaseCheckAssetsDeployed = true)
    (ht : TipSound env st) (h : NamesSound env st)
    (hstep : st.step rules env (.connect mempool node block) = some st') :
    (st'.issued env).Nodup ↔ RemovedIssuedOnce env st (.connect mempool node block) := by
  obtain ⟨hi, hf, -, hon⟩ := issued_connect hfl ht hstep
  have hd : ∀ name ∈ blockIssued env block, ∀ other ∈ st.issued env, name ≠ other := by
    rintro name hname other ho rfl
    have hu := (hf name hname).1
    rw [h.known name ho] at hu
    cases hu
  rw [hi, List.nodup_append]
  constructor
  · rintro ⟨hb, -, -⟩ name -
    exact List.nodup_iff_count_le_one.1 hb name
  · intro hr
    refine ⟨List.nodup_iff_count_le_one.2 fun name => ?_, h.nodup, hd⟩
    by_cases hm : name ∈ st.store.passets.newAssets.toRemove
    · exact hr name hm
    · exact hon name hm

end Connect

theorem namesSound_step {event : ChainEvent} (hfl : env.areCoinbaseCheckAssetsDeployed = true)
    (ht : TipSound env st) (h : NamesSound env st) (hallowed : RemovedIssuedOnce env st event)
    (hstep : st.step rules env event = some st') : NamesSound env st' := by
  cases event with
  | connect mempool node block =>
    obtain ⟨hi, hf, hke, -⟩ := issued_connect hfl ht hstep
    refine ⟨fun name hname => ?_, (nodup_issued_connect_iff hfl ht h hstep).2 hallowed⟩
    by_cases hbl : name ∈ blockIssued env block
    · exact (hf name hbl).2
    · rw [hi, List.mem_append, or_iff_right hbl] at hname
      rw [hke name hbl]
      exact h.known name hname
  | disconnect =>
    obtain ⟨linked, rest, d, ha, hd, -, rfl⟩ := exists_of_step_disconnect hstep
    have has := ht.assets linked (by rw [ha]; exact List.mem_cons_self)
    have hc := ht.checked linked (by rw [ha]; exact List.mem_cons_self)
    have hi : st.issued env = blockIssued env linked.block ++
        rest.flatMap fun linked => blockIssued env linked.block := by
      rw [ChainState.issued, ha]
      rfl
    have hn := h.nodup
    rw [hi, List.nodup_append] at hn
    obtain ⟨-, hres, hdi⟩ := hn
    refine ⟨fun name hname => ?_, hres⟩
    have hkn := h.known name (by rw [hi]; exact List.mem_append_right _ hname)
    rw [← hkn]
    refine known_of_marks ht.rows rfl ?_
    -- the block that is taken back did not issue the name
    have hnot : ∀ tx ∈ linked.block.vtx, issuesAt env name tx = false := by
      intro tx htx
      rw [Bool.eq_false_iff]
      intro his
      refine hdi name ?_ name hname rfl
      exact List.mem_flatMap.2 ⟨tx, htx, (issuesAt_iff (hc tx htx)).1 his⟩
    have he : ∀ name, (CAssetsCache.slot {} name).Proper name := by
      intro name
      exact proper_empty
    have hsl := slot_disconnectTransactions has he ht.named hd name
    have hass : (d.st.cache.slot name).asset = {} := by
      rw [hsl, asset_undoSlot hnot, slot_empty]
    change ((d.st.cache.flush st.store.passets).slot name).asset = _
    rw [slot_flush, AssetSlot.onto, hass]
    rfl
  | dumpCacheToDatabase unset =>
    cases hstep
    refine ⟨fun name hname => ?_, h.nodup⟩
    have hb := h.known name hname
    have ht' : TipSound env { st with store := st.store.dumpCacheToDatabase env unset } :=
      @tipSound_step rules env st _ (.dumpCacheToDatabase unset) hfl ht rfl
    rw [known_tip ht.rows] at hb
    rw [known_tip ht'.rows]
    cases hr : env.fReindex with
    | true => rfl
    | false =>
      simp only [hr, Bool.false_eq_true, if_false] at hb ⊢
      split at hb
      · cases hb
      next hre =>
        have hsl : (CAssetsCache.slot (st.store.dumpCacheToDatabase env unset).passets name) = {} := by
          rw [restricted_dumpCacheToDatabase.1, slot_empty]
        rw [hsl, assetData_dumpCacheToDatabase]
        refine isSome_dumpAssets ?_
        rw [db_dumpNewAssets]
        have hno : st.store.passets.newAssets.toRemove[name]? = none := by
          simpa [CAssetsCache.slot, DirtyPair.marks] using hre
        rw [hno]
        cases had : st.store.passets.newAssets.toAdd[name]? with
        | some entry => rfl
        | none => simpa [CAssetsCache.slot, DirtyPair.marks, had] using hb
  | load row =>
    have ht' := tipSound_step hfl ht hstep
    cases hstep
    refine ⟨fun name hname => ?_, h.nodup⟩
    have hb := h.known name hname
    rw [known_tip ht.rows] at hb
    rw [known_tip ht'.rows]
    cases row with
    | assetData n =>
      change (if env.fReindex then true else if _ then false else _ ||
        ((st.store.assetData.lookup id n).2.db[name]?).isSome) = true
      rw [Table.db_lookup]
      exact hb
    | verifier n => exact hb
    | addressQualifier key => exact hb
    | restrictedAddress key => exact hb
    | globalRestriction n => exact hb

theorem namesSound_reachable (hf : env.areCoinbaseCheckAssetsDeployed = true)
    (h : Reachable rules env (RemovedIssuedOnce env) st) : NamesSound env st := by
  induction h with
  | initial sizes coins startHeight =>
    exact ⟨by simp [ChainState.issued, ChainState.initial],
      by simp [ChainState.issued, ChainState.initial]⟩
  | step event hr hallowed hstep ih =>
    exact namesSound_step hf (tipSound_reachable hf hr) ih hallowed hstep

/-- The names of the active chain stay distinct exactly as long as no block issues a name twice that
the tip has marked as removed. -/
theorem nodup_issued_iff (hflag : env.areCoinbaseCheckAssetsDeployed = true)
    (h : Reachable rules env (RemovedIssuedOnce env) st) :
    (st.issued env).Nodup ∧ ∀ mempool node block st',
      st.step rules env (.connect mempool node block) = some st' →
      ((st'.issued env).Nodup ↔ RemovedIssuedOnce env st (.connect mempool node block)) := by
  have hn := namesSound_reachable hflag h
  refine ⟨hn.nodup, fun mempool node block st' hstep => ?_⟩
  exact nodup_issued_connect_iff hflag (tipSound_reachable hflag h) hn hstep

end Runs

/-- A block that issues an asset twice. -/
def twiceIssueBlock : CBlock :=
  ⟨sampleHeader, [sampleCoinbase, issueTx 11 sampleOutPoint (900 * coin) wholeMusic,
    issueTx 13 ⟨11, 1⟩ (800 * coin) wholeMusic]⟩

/-- The first block is taken back, and the second one has its names. -/
theorem issued_twiceIssueBlock :
    (fundedStart.run sampleRules runEnv [connectEvent issueBlock, .disconnect,
      connectEvent twiceIssueBlock]).map (ChainState.issued runEnv) =
        some [str "MUSIC", str "MUSIC"] := by
  decide +kernel

theorem nodup_issued_iff_twiceIssueBlock :
    ∃ st st', fundedStart.run sampleRules runEnv [connectEvent issueBlock, .disconnect] = some st ∧
      st.step sampleRules runEnv (connectEvent twiceIssueBlock) = some st' ∧
      (st.issued runEnv).Nodup ∧
      ((st'.issued runEnv).Nodup ↔ RemovedIssuedOnce runEnv st (connectEvent twiceIssueBlock)) := by
  obtain ⟨st', hru, -⟩ := Option.map_eq_some_iff.1 issued_twiceIssueBlock
  simp only [ChainState.run, List.foldlM_cons, List.foldlM_nil, Option.bind_eq_bind,
    Option.bind_eq_some_iff] at hru ⊢
  obtain ⟨first, hfirst, st, hst, last, hl, hre⟩ := hru
  cases hre
  have hr : Reachable sampleRules runEnv (RemovedIssuedOnce runEnv) st := by
    refine .step .disconnect (.step (connectEvent issueBlock) (.initial _ _ _) ?_ hfirst) trivial hst
    intro name hname
    exact absurd hname TreeMap.not_mem_emptyc
  obtain ⟨hn, hi⟩ := nodup_issued_iff rfl hr
  exact ⟨st, st', ⟨first, hfirst, st, hst, rfl⟩, hl, hn, hi {} sampleNode _ st' hl⟩

/-- After a reorganisation one block can issue a name twice. -/
theorem twiceIssueBlock_not_nodup :
    ∃ st, Reachable sampleRules runEnv (fun _ _ => True) st ∧ ¬(st.issued runEnv).Nodup := by
  obtain ⟨st, hr, hi⟩ := Option.map_eq_some_iff.1 issued_twiceIssueBlock
  refine ⟨st, reachable_run (.initial _ _ _) hr, ?_⟩
  rw [hi]
  decide

end Cmusic
