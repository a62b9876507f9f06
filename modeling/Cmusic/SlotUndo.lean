import Cmusic.ReissueUndo

/-! What connecting and disconnecting a block do to the entries under one name. -/
namespace Cmusic

open Fallible Std AssetSlot

variable (env : Env) (g : AssetGlobals) (name : Str)

/-- The reissues of an asset in a block, in order. -/
def reissuesAt (vtx : List CTransaction) : List Reissued := vtx.filterMap (reissueAt env name)

variable {env name} in
theorem reissuesAt_cons_none {tx : CTransaction} {vtx : List CTransaction}
    (h : reissueAt env name tx = none) : reissuesAt env name (tx :: vtx) = reissuesAt env name vtx :=
  List.filterMap_cons_none h

variable {env name} in
theorem reissuesAt_cons_some {tx : CTransaction} {vtx : List CTransaction} {r : Reissued}
    (h : reissueAt env name tx = some r) :
    reissuesAt env name (tx :: vtx) = r :: reissuesAt env name vtx :=
  List.filterMap_cons_some h

def AssetAction.issues : AssetAction → Bool
  | .issue asset _ => asset.strName = name
  | _ => false

def AssetAction.reissues : AssetAction → Bool
  | .reissue data _ => data.strName = name
  | _ => false

def AssetAction.verifies : AssetAction → Bool
  | .verifier assetName _ _ => assetName = name
  | _ => false

/-- Whether a transaction stores a verifier with an issue. -/
def verifiesAt (tx : CTransaction) : Bool := (assetActions env tx).any (AssetAction.verifies name)

section Idle

variable {env g name} {nHeight : Nat} {blockHash : UInt256} {item : Option CBlockAssetUndo}
  {actions : List AssetAction} {slot : AssetSlot}

theorem foldl_connectAt_of_ne (h : ∀ action ∈ actions, action.assetName ≠ name) :
    actions.foldl (connectAt env g name · nHeight blockHash) slot = slot :=
  List.foldlRecOn actions _ (motive := (· = slot)) rfl
    fun _ heq action hm => (if_neg (h action hm)).trans heq

theorem foldl_disconnectAt_of_ne (h : ∀ action ∈ actions, action.assetName ≠ name) :
    actions.foldl (disconnectAt env g name · item) slot = slot :=
  List.foldlRecOn actions _ (motive := (· = slot)) rfl
    fun _ heq action hm => (if_neg (h action hm)).trans heq

end Idle

section Cases

variable {env name} {tx : CTransaction}

/-- What a transaction can do to an asset: reissue it, issue it, or nothing. -/
theorem actions_cases (hname : name ≠ []) (tx : CTransaction) :
    (∃ r, reissueAt env name tx = some r ∧ r.1.strName = name ∧
        assetActions env tx = [.reissue r.1 r.2] ∧ issuesAt env name tx = false) ∨
      (reissueAt env name tx = none ∧ issuesAt env name tx = true) ∨
      (reissueAt env name tx = none ∧ issuesAt env name tx = false ∧
        ∀ action ∈ assetActions env tx, action.assetName ≠ name) := by
  cases hre : reissueAt env name tx with
  | some r =>
    have hac := assetActions_of_reissueAt hre
    refine Or.inl ⟨r, rfl, (class_of_reissueAt hre).1, hac, ?_⟩
    simp [issuesAt, hac]
  | none =>
    cases his : issuesAt env name tx with
    | true => exact Or.inr (Or.inl ⟨rfl, rfl⟩)
    | false =>
      refine Or.inr (Or.inr ⟨rfl, rfl, ?_⟩)
      intro action ha heq
      cases action with
      | issue asset address =>
        have hi : issuesAt env name tx = true :=
          List.any_eq_true.2 ⟨_, ha, decide_eq_true heq⟩
        rw [his] at hi
        cases hi
      | verifier assetName stored removed =>
        obtain rfl : assetName = name := heq
        rcases sound_of_mem_assetActions ha with he | hi
        · exact hname he
        · rw [his] at hi
          cases hi
      | reissue r v => exact not_reissue_of_reissueAt_eq_none hre heq ha

end Cases

section Issues

variable {env g name} {nHeight : Nat} {blockHash : UInt256} {item : Option CBlockAssetUndo}
  {action : AssetAction} {actions : List AssetAction} {slot : AssetSlot} {slot' : AssetSlot}
  {issued verified : Bool}

/-- The verifier is marked as removed together with its asset. -/
def VerifierGone (slot : AssetSlot) : Prop :=
  ∃ entry, slot.verifier.removed = some entry ∧ entry.fUndoingReissue = false

theorem reissues_eq_false {tx : CTransaction} (h : reissueAt env name tx = none) :
    ∀ action ∈ assetActions env tx, action.reissues name = false := by
  intro action hm
  cases action with
  | issue asset address => rfl
  | verifier assetName stored removed => rfl
  | reissue data verifier =>
    exact decide_eq_false fun hname => not_reissue_of_reissueAt_eq_none h hname hm

/-- An issue adds no reissued data and takes no verifier away. -/
theorem connectAt_issue (h : action.reissues name = false) (hr : slot.verifier.removed = none) :
    (slot.connectAt env g name nHeight blockHash action).reissued = slot.reissued ∧
      (slot.connectAt env g name nHeight blockHash action).verifier.removed = none ∧
      (action.verifies name = false →
        (slot.connectAt env g name nHeight blockHash action).verifier = slot.verifier) := by
  unfold connectAt
  split
  next hname =>
    cases action with
    | issue asset address =>
      simp only [connect, AssetSlot.issue]
      split
      · exact ⟨rfl, hr, fun _ => rfl⟩
      · exact ⟨rfl, hr, fun _ => rfl⟩
    | verifier assetName stored removed =>
      exact ⟨rfl, rfl, fun hno => absurd hname (of_decide_eq_false hno)⟩
    | reissue data verifier => exact absurd hname (of_decide_eq_false h)
  · exact ⟨rfl, hr, fun _ => rfl⟩

theorem foldl_connectAt_issues (h : ∀ action ∈ actions, action.reissues name = false)
    (hr : slot.verifier.removed = none) :
    (actions.foldl (connectAt env g name · nHeight blockHash) slot).reissued = slot.reissued ∧
      (actions.foldl (connectAt env g name · nHeight blockHash) slot).verifier.removed = none ∧
      (actions.any (AssetAction.verifies name) = false →
        (actions.foldl (connectAt env g name · nHeight blockHash) slot).verifier =
          slot.verifier) := by
  induction actions generalizing slot with
  | nil => exact ⟨rfl, hr, fun _ => rfl⟩
  | cons action actions ih =>
    obtain ⟨hac, ha⟩ := List.forall_mem_cons.1 h
    obtain ⟨hd, hn, hsa⟩ :=
      @connectAt_issue env g name nHeight blockHash action slot hac hr
    obtain ⟨hd', hn', hs'⟩ := ih ha hn
    refine ⟨hd'.trans hd, hn', fun hno => ?_⟩
    rw [List.any_cons, Bool.or_eq_false_iff] at hno
    exact (hs' hno.2).trans (hsa hno.1)

theorem known_removeIssue (hre : env.fReindex = false) (asset : CNewAsset) (address : Str) :
    (slot.removeIssue env g name asset address).known env g name = false := by
  unfold removeIssue
  split
  · have hr : (slot.asset.remove ⟨asset, address, 0, 0⟩).removed.isSome = true := by
      cases h : slot.asset.removed <;> simp [DirtyPair.Marks.remove, h]
    simp only [AssetSlot.known, hre, hr, Bool.false_eq_true, if_false, if_true]
  next hkn => simpa using hkn

/-- Where the verifier of an asset that is taken back may stand: not removed, or removed with it. -/
def Takeable (slot : AssetSlot) : Prop := slot.verifier.removed = none ∨ VerifierGone slot

theorem takeable_congr (h : slot'.verifier = slot.verifier) (hsl : Takeable slot) :
    Takeable slot' := by
  unfold Takeable VerifierGone at hsl ⊢
  rwa [h]

theorem verifierGone_clearVerifier (h : Takeable slot) (verifier : Str) :
    VerifierGone (slot.clearVerifier verifier false) := by
  rcases h with hn | ⟨entry, he, hf⟩
  · exact ⟨⟨verifier, false⟩, by simp [clearVerifier, DirtyPair.Marks.remove, hn], rfl⟩
  · exact ⟨entry, by simp [clearVerifier, DirtyPair.Marks.remove, he], hf⟩

variable (env g name) in
/-- What is left when issues and verifiers of an asset are taken back: the reissued data stays, an
issued asset becomes unknown, and a verifier goes with it. -/
structure TakenBack (issued verified : Bool) (slot slot' : AssetSlot) : Prop where
  reissued : slot'.reissued = slot.reissued
  known : slot.known env g name = false ∨ issued = true → slot'.known env g name = false
  verifier : VerifierGone slot' ∨ verified = false ∧ slot'.verifier = slot.verifier

theorem TakenBack.refl (slot : AssetSlot) : TakenBack env g name false false slot slot :=
  ⟨rfl, fun hor => hor.elim id nofun, Or.inr ⟨rfl, rfl⟩⟩

theorem TakenBack.takeable (h : TakenBack env g name issued verified slot slot')
    (hsl : Takeable slot) : Takeable slot' := by
  rcases h.verifier with hg | ⟨-, hsa⟩
  · exact Or.inr hg
  · exact takeable_congr hsa hsl

theorem TakenBack.trans {issued' verified' : Bool} {slot'' : AssetSlot}
    (h : TakenBack env g name issued verified slot slot')
    (h' : TakenBack env g name issued' verified' slot' slot'') :
    TakenBack env g name (issued || issued') (verified || verified') slot slot'' := by
  refine ⟨h'.reissued.trans h.reissued, fun hor => ?_, ?_⟩
  · rw [Bool.or_eq_true] at hor
    rcases hor with hb | hfirst | hr
    · exact h'.known (Or.inl (h.known (Or.inl hb)))
    · exact h'.known (Or.inl (h.known (Or.inr hfirst)))
    · exact h'.known (Or.inr hr)
  · rcases h'.verifier with hg | ⟨hn', hs'⟩
    · exact Or.inl hg
    · rcases h.verifier with ⟨entry, he, hf⟩ | ⟨hno, hsa⟩
      · exact Or.inl ⟨entry, hs' ▸ he, hf⟩
      · exact Or.inr ⟨by simp [hno, hn'], hs'.trans hsa⟩

theorem takenBack_disconnectAt (hr : env.fReindex = false) (h : action.reissues name = false)
    (hsl : Takeable slot) :
    TakenBack env g name (action.issues name) (action.verifies name) slot
      (slot.disconnectAt env g name item action) := by
  unfold disconnectAt
  split
  next hname =>
    cases action with
    | issue asset address =>
      refine ⟨?_, fun _ => known_removeIssue hr asset address, Or.inr ⟨rfl, ?_⟩⟩
      · simp only [disconnect, removeIssue, apply_ite reissued, ite_self]
      · simp only [disconnect, removeIssue, apply_ite verifier, ite_self]
    | verifier assetName stored removed =>
      exact ⟨rfl, fun hor => hor.elim id nofun, Or.inl (verifierGone_clearVerifier hsl removed)⟩
    | reissue data verifier => exact absurd hname (of_decide_eq_false h)
  next hname =>
    refine ⟨rfl, fun hor => hor.elim id fun hi => ?_, Or.inr ⟨?_, rfl⟩⟩
    · cases action with
      | issue asset address => exact absurd (of_decide_eq_true hi) hname
      | _ => cases hi
    · cases action with
      | verifier assetName stored removed => exact decide_eq_false hname
      | _ => rfl

theorem takenBack_foldl (hr : env.fReindex = false)
    (h : ∀ action ∈ actions, action.reissues name = false) (hsl : Takeable slot) :
    TakenBack env g name (actions.any (AssetAction.issues name))
      (actions.any (AssetAction.verifies name)) slot
      (actions.foldl (disconnectAt env g name · item) slot) := by
  induction actions generalizing slot with
  | nil => exact .refl slot
  | cons action actions ih =>
    obtain ⟨hac, ha⟩ := List.forall_mem_cons.1 h
    have hfirst := @takenBack_disconnectAt env g name item action slot hr hac hsl
    exact hfirst.trans (ih ha (hfirst.takeable hsl))

end Issues

/-- What `DisconnectBlock` does under one name: the transactions are taken back from the last to
the first, all with the undo item of the name. -/
def undoSlot (item : Option CBlockAssetUndo) (vtx : List CTransaction) (slot : AssetSlot) :
    AssetSlot :=
  vtx.foldr (fun tx slot => (assetActions env tx).foldl (AssetSlot.disconnectAt env g name · item) slot)
    slot

section Undo

variable {env g name} {item : Option CBlockAssetUndo} {vtx : List CTransaction} {slot : AssetSlot}
  {asset : CNewAsset}

theorem undoSlot_cons (tx : CTransaction) : undoSlot env g name item (tx :: vtx) slot =
    (assetActions env tx).foldl (disconnectAt env g name · item)
      (undoSlot env g name item vtx slot) := rfl

theorem reissued_undoVerifier : (slot.undoVerifier item).reissued = slot.reissued := by
  cases item with
  | none => rfl
  | some item => simp only [undoVerifier, clearVerifier, apply_ite reissued, ite_self]

theorem asset_undoVerifier : (slot.undoVerifier item).asset = slot.asset := by
  cases item with
  | none => rfl
  | some item => simp only [undoVerifier, clearVerifier, apply_ite AssetSlot.asset, ite_self]

/-- A block that issues the asset and does not reissue it, taken back. -/
theorem undoSlot_issues (hre : env.fReindex = false)
    (h : ∀ tx ∈ vtx, reissueAt env name tx = none) (hsl : Takeable slot) :
    TakenBack env g name (vtx.any (issuesAt env name)) (vtx.any (verifiesAt env name)) slot
      (undoSlot env g name item vtx slot) := by
  induction vtx with
  | nil => exact .refl slot
  | cons tx vtx ih =>
    obtain ⟨htx, hv⟩ := List.forall_mem_cons.1 h
    have hr := ih hv
    rw [List.any_cons, List.any_cons, Bool.or_comm, Bool.or_comm (verifiesAt env name tx)]
    exact hr.trans (takenBack_foldl hre (reissues_eq_false htx) (hr.takeable hsl))

theorem disconnectAt_reissue {data : CReissueAsset} {verifier : Option Str}
    (hname : data.strName = name) (hkn : slot.known env g name = true)
    (hd : slot.data g name = some asset) :
    slot.disconnectAt env g name item (.reissue data verifier) =
      { slot with reissued := some (asset.undoReissue data item) }.undoVerifier item := by
  have hse : (AssetAction.reissue data verifier).assetName = name := hname
  rw [disconnectAt, if_pos hse]
  simp only [disconnect, removeReissue, hkn, if_true, hd]

theorem undoVerifier_congr {slot' : AssetSlot} (h : slot'.verifier = slot.verifier) :
    (slot'.undoVerifier item).verifier = (slot.undoVerifier item).verifier := by
  cases item with
  | none => exact h
  | some item =>
    simp only [undoVerifier, clearVerifier, apply_ite verifier, h]

theorem undoVerifier_idem (slot' : AssetSlot) (h : slot'.verifier = (slot.undoVerifier item).verifier) :
    (slot'.undoVerifier item).verifier = (slot.undoVerifier item).verifier := by
  cases item with
  | none => exact h
  | some item =>
    simp only [undoVerifier] at h ⊢
    split at h
    next hf =>
      simp only [hf, if_true, clearVerifier, DirtyPair.Marks.remove] at h ⊢
      rw [h]
      cases slot.verifier.removed <;> rfl
    next hf =>
      simp only [hf, if_false, Bool.false_eq_true]
      exact h

/-- A block that reissues the asset and does not issue it, taken back. -/
theorem undoSlot_reissues (hname : name ≠ []) (h : ∀ tx ∈ vtx, issuesAt env name tx = false)
    (hkn : slot.known env g name = true) (hd : slot.data g name = some asset) :
    undoSlot env g name item vtx slot = { slot with
      reissued := if reissuesAt env name vtx = [] then slot.reissued
        else some (undoAll asset item (reissuesAt env name vtx))
      verifier := if reissuesAt env name vtx = [] then slot.verifier
        else (slot.undoVerifier item).verifier } := by
  induction vtx with
  | nil => rfl
  | cons tx vtx ih =>
    obtain ⟨htx, hv⟩ := List.forall_mem_cons.1 h
    have hm := ih hv
    rw [undoSlot_cons]
    generalize undoSlot env g name item vtx slot = mid at hm ⊢
    rcases @actions_cases env name hname tx with
      ⟨r, hat, hr, ha, -⟩ | ⟨-, hissues⟩ | ⟨hat, -, hi⟩
    · have hk' : mid.known env g name = true := by
        rw [hm]
        exact hkn
      have hd' : mid.data g name = some (undoAll asset item (reissuesAt env name vtx)) := by
        rw [hm]
        by_cases hrs : reissuesAt env name vtx = []
        · rw [if_pos hrs, hrs]
          exact hd
        · rw [if_neg hrs]
          rfl
      rw [reissuesAt_cons_some hat, ha, List.foldl_cons, List.foldl_nil,
        disconnectAt_reissue hr hk' hd', if_neg (List.cons_ne_nil _ _),
        if_neg (List.cons_ne_nil _ _), hm]
      refine AssetSlot.ext ?_ ?_ ?_
      · rw [asset_undoVerifier]
      · rw [reissued_undoVerifier, undoAll_cons]
      · by_cases hrs : reissuesAt env name vtx = []
        · exact undoVerifier_congr (if_pos hrs)
        · exact undoVerifier_idem _ (if_neg hrs)
    · rw [htx] at hissues
      cases hissues
    · rw [foldl_disconnectAt_of_ne hi, reissuesAt_cons_none hat, hm]

end Undo

/-- What the entries under a name are after a block was connected to an empty cache. An asset that
is not issued keeps its marks, and the undo item is the one of its first recorded reissue. -/
structure ConnectedAt (vtx : List CTransaction) (slot : AssetSlot) (item : Option CBlockAssetUndo) :
    Prop where
  data : slot.reissued.isSome = true ↔ reissuesAt env name vtx ≠ []
  unrecorded : reissuesAt env name vtx = [] → item = none
  removed : slot.verifier.removed = none
  fresh : vtx.any (issuesAt env name) = true → AssetSlot.known env g name {} = false
  issued : reissuesAt env name vtx = [] → vtx.any (verifiesAt env name) = false → slot.verifier = {}
  asset : vtx.any (issuesAt env name) = false → slot.asset = {}
  verifier : vtx.any (issuesAt env name) = false →
    slot.verifier.added.map CAssetCacheRestrictedVerifiers.verifier =
      (reissuesAt env name vtx).findSome? Prod.snd
  reissued : vtx.any (issuesAt env name) = false → reissuesAt env name vtx ≠ [] →
    ∃ asset, AssetSlot.data g name {} = some asset ∧ asset.nReissuable ≠ 0 ∧
      slot.reissued = some (applyAll asset (reissuesAt env name vtx)) ∧
      item = firstItem asset (AssetSlot.verifierString g name {}) (reissuesAt env name vtx)

section Connect

variable {env g name} {vtx : List CTransaction} {tx : CTransaction} {slot : AssetSlot}
  {item : Option CBlockAssetUndo} {nHeight : Nat} {blockHash : UInt256} {r : Reissued}
  {slot' : AssetSlot} {asset : CNewAsset}

theorem connectedAt_nil : ConnectedAt env g name [] {} none where
  data := by simp [reissuesAt]
  unrecorded := fun _ => rfl
  removed := rfl
  fresh := by simp
  issued := fun _ _ => rfl
  asset := fun _ => rfl
  verifier := fun _ => rfl
  reissued := by simp [reissuesAt]

theorem reissuesAt_concat_none (h : reissueAt env name tx = none) :
    reissuesAt env name (vtx ++ [tx]) = reissuesAt env name vtx := by
  simp [reissuesAt, List.filterMap_append, h]

theorem reissuesAt_concat_some (h : reissueAt env name tx = some r) :
    reissuesAt env name (vtx ++ [tx]) = reissuesAt env name vtx ++ [r] := by
  simp [reissuesAt, List.filterMap_append, h]

theorem any_concat {p : CTransaction → Bool} : (vtx ++ [tx]).any p = (vtx.any p || p tx) := by
  simp

theorem known_congr (h : slot'.asset = slot.asset) :
    slot'.known env g name = slot.known env g name := by
  rw [AssetSlot.known, AssetSlot.known, h]

theorem known_of_asset (h : slot.asset = {}) :
    slot.known env g name = AssetSlot.known env g name {} := known_congr h

theorem data_of_asset (h : slot.asset = {}) (hr : slot.reissued = none) :
    slot.data g name = AssetSlot.data g name {} := by
  rw [AssetSlot.data, AssetSlot.data, issuedData, issuedData, h, hr]

theorem connectAt_reissue {data : CReissueAsset} {verifier : Option Str}
    (hname : data.strName = name) (hd : slot.data g name = some asset) :
    (slot.connectAt env g name nHeight blockHash (.reissue data verifier)).asset = slot.asset ∧
      (slot.connectAt env g name nHeight blockHash (.reissue data verifier)).reissued =
        some (asset.applyReissue data) ∧
      (slot.connectAt env g name nHeight blockHash (.reissue data verifier)).verifier =
        verifier.elim slot.verifier fun v => slot.verifier.add ⟨v, false⟩ := by
  have hse : (AssetAction.reissue data verifier).assetName = name := hname
  rw [connectAt, if_pos hse]
  simp only [connect, reissue, hd]
  cases verifier with
  | none => exact ⟨rfl, rfl, rfl⟩
  | some v => exact ⟨rfl, rfl, rfl⟩

theorem itemAt_of_reissueAt (hat : reissueAt env name tx = some r)
    (hd : slot.data g name = some asset) : itemAt env g name slot tx =
      if changesData r then some (undoRecord asset (slot.verifierString g name) r) else none := by
  rw [itemAt, hat, Option.bind_some, hd]
  rfl

theorem verifierString_of_verifier (h : slot.verifier = slot'.verifier) :
    slot.verifierString g name = slot'.verifierString g name := by
  rw [AssetSlot.verifierString, AssetSlot.verifierString, h]

/-- While no verifier is stored, the old one is in force. -/
theorem ConnectedAt.verifierString (h : ConnectedAt env g name vtx slot item)
    (hi : vtx.any (issuesAt env name) = false)
    (hn : (reissuesAt env name vtx).findSome? Prod.snd = none) :
    slot.verifierString g name = AssetSlot.verifierString g name {} := by
  apply verifierString_of_verifier
  have ha : slot.verifier.added = none := by
    have hm := h.verifier hi
    rw [hn, Option.map_eq_none_iff] at hm
    exact hm
  exact DirtyPair.Marks.eq_empty ha h.removed

/-- The undo item after one more reissue. -/
theorem ConnectedAt.concat_item (h : ConnectedAt env g name vtx slot item)
    (his : vtx.any (issuesAt env name) = false) (hat : reissueAt env name tx = some r)
    (hd : slot.data g name = some (applyAll asset (reissuesAt env name vtx)))
    (hi : item = firstItem asset (AssetSlot.verifierString g name {}) (reissuesAt env name vtx)) :
    item.or (itemAt env g name slot tx) = firstItem asset (AssetSlot.verifierString g name {})
      (reissuesAt env name vtx ++ [r]) := by
  rw [firstItem_concat, ← hi, itemAt_of_reissueAt hat hd]
  cases hfirst : item with
  | some record => rfl
  | none =>
    -- nothing was recorded yet, so the reissue replaces the data from before the block
    rw [hfirst, eq_comm, firstItem_eq_none_iff] at hi
    obtain ⟨hu, hh, hn⟩ := unchanged_of_changesData_eq_false asset hi
    simp only [undoRecord, hu, hh, h.verifierString his hn]

/-- A reissue, connected. -/
theorem connectedAt_reissue (h : ConnectedAt env g name vtx slot item)
    (hat : reissueAt env name tx = some r) (hname : r.1.strName = name)
    (his : issuesAt env name tx = false)
    (hkn : ∃ asset, slot.data g name = some asset ∧ asset.nReissuable ≠ 0) :
    ConnectedAt env g name (vtx ++ [tx])
      (slot.connectAt env g name nHeight blockHash (.reissue r.1 r.2))
      (item.or (itemAt env g name slot tx)) := by
  obtain ⟨asset, hd, hrei⟩ := hkn
  obtain ⟨ha, hre, hv⟩ :=
    @connectAt_reissue env g name slot nHeight blockHash asset r.1 r.2 hname hd
  have hrs : reissuesAt env name (vtx ++ [tx]) = reissuesAt env name vtx ++ [r] :=
    reissuesAt_concat_some hat
  have han : (vtx ++ [tx]).any (issuesAt env name) = vtx.any (issuesAt env name) := by
    rw [any_concat, his, Bool.or_false]
  refine ⟨?_, ?_, ?_, ?_, ?_, ?_, ?_, ?_⟩
  · simp [hre, hrs]
  · simp [hrs]
  · rw [hv]
    cases r.2 with
    | none => exact h.removed
    | some v => rfl
  · rw [han]
    exact h.fresh
  · simp [hrs]
  · rw [han, ha]
    exact h.asset
  · rw [han, hv, hrs, List.findSome?_append]
    intro hno
    rw [← h.verifier hno]
    cases hr : r.2 with
    | none => simp [hr]
    | some v => cases had : slot.verifier.added <;> simp [hr, had, DirtyPair.Marks.add]
  · rw [han, hre, hrs]
    intro hno _
    by_cases ho : reissuesAt env name vtx = []
    · have hn : slot.reissued = none := by
        have hif := h.data
        simpa [ho] using hif
      have hb : AssetSlot.data g name {} = some asset := by
        rw [← data_of_asset (h.asset hno) hn, hd]
      refine ⟨asset, hb, hrei, by rw [applyAll_concat, ho]; rfl, ?_⟩
      refine h.concat_item hno hat ?_ ?_
      · rw [ho]
        exact hd
      · rw [ho]
        exact h.unrecorded ho
    · obtain ⟨first, hb, hfirst, hsl, hi⟩ := h.reissued hno ho
      have hal : slot.data g name = some (applyAll first (reissuesAt env name vtx)) := by
        rw [AssetSlot.data, hsl]
        rfl
      have hsa : asset = applyAll first (reissuesAt env name vtx) :=
        Option.some.inj (hd.symm.trans hal)
      refine ⟨first, hb, hfirst, by rw [applyAll_concat, hsa], ?_⟩
      exact h.concat_item hno hat hal hi

/-- A transaction that does not reissue the asset leaves no undo item for it. -/
theorem itemAt_of_none (hat : reissueAt env name tx = none) : itemAt env g name slot tx = none := by
  rw [itemAt, hat]
  rfl

/-- An issue, connected. -/
theorem connectedAt_issue (h : ConnectedAt env g name vtx slot item)
    (hat : reissueAt env name tx = none) (hi : issuesAt env name tx = true)
    (hf : slot.known env g name = false) :
    ConnectedAt env g name (vtx ++ [tx])
      ((assetActions env tx).foldl (connectAt env g name · nHeight blockHash) slot)
      (item.or (itemAt env g name slot tx)) := by
  have hrs : reissuesAt env name (vtx ++ [tx]) = reissuesAt env name vtx :=
    reissuesAt_concat_none hat
  have ha : (vtx ++ [tx]).any (issuesAt env name) = true := by
    rw [any_concat, hi, Bool.or_true]
  obtain ⟨hd, hr, hv⟩ :=
    @foldl_connectAt_issues env g name nHeight blockHash _ slot (reissues_eq_false hat) h.removed
  refine ⟨?_, ?_, hr, ?_, ?_, ?_, ?_, ?_⟩
  · rw [hd, hrs]
    exact h.data
  · rw [hrs, itemAt_of_none hat, Option.or_none]
    exact h.unrecorded
  · intro _
    cases hb : vtx.any (issuesAt env name) with
    | true => exact h.fresh hb
    | false =>
      rw [← known_of_asset (h.asset hb)]
      exact hf
  · rw [hrs, any_concat, Bool.or_eq_false_iff]
    rintro hn ⟨hno, hn'⟩
    rw [hv hn']
    exact h.issued hn hno
  · simp [ha]
  · simp [ha]
  · simp [ha]

/-- A transaction that has nothing to do with the asset, connected. -/
theorem connectedAt_idle (h : ConnectedAt env g name vtx slot item)
    (hat : reissueAt env name tx = none) (his : issuesAt env name tx = false)
    (hid : ∀ action ∈ assetActions env tx, action.assetName ≠ name) :
    ConnectedAt env g name (vtx ++ [tx]) slot (item.or (itemAt env g name slot tx)) := by
  have hrs : reissuesAt env name (vtx ++ [tx]) = reissuesAt env name vtx :=
    reissuesAt_concat_none hat
  have ha : (vtx ++ [tx]).any (issuesAt env name) = vtx.any (issuesAt env name) := by
    rw [any_concat, his, Bool.or_false]
  have hve : (vtx ++ [tx]).any (verifiesAt env name) = vtx.any (verifiesAt env name) := by
    have hno : verifiesAt env name tx = false := by
      rw [verifiesAt, List.any_eq_false]
      intro action hm hv
      cases action with
      | issue asset address => cases hv
      | verifier assetName stored removed => exact hid _ hm (of_decide_eq_true hv)
      | reissue data verifier => cases hv
    rw [any_concat, hno, Bool.or_false]
  have hi : item.or (itemAt env g name slot tx) = item := by
    rw [itemAt_of_none hat, Option.or_none]
  rw [hi]
  refine ⟨?_, ?_, h.removed, ?_, ?_, ?_, ?_, ?_⟩
  · rw [hrs]
    exact h.data
  · rw [hrs]
    exact h.unrecorded
  · rw [ha]
    exact h.fresh
  · rw [hrs, hve]
    exact h.issued
  · rw [ha]
    exact h.asset
  · rw [ha, hrs]
    exact h.verifier
  · rw [ha, hrs]
    exact h.reissued

end Connect

end Cmusic
