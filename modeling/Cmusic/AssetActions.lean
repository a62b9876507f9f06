import Cmusic.AssetSlots

/-! The actions of a transaction on the data of assets, in both directions. -/
namespace Cmusic

open Fallible Std AssetSlot CTransaction

variable (env : Env) (g : AssetGlobals) (name : Str)

/-- What a transaction does to the data of assets. The verifier that comes with an issue is read
from the first output that has one to be stored and from the last one to be removed. -/
inductive AssetAction where
  | issue (asset : CNewAsset) (address : Str)
  | verifier (assetName stored removed : Str)
  | reissue (reissue : CReissueAsset) (verifier : Option Str)

/-- The asset an action is about. -/
def AssetAction.assetName : AssetAction → Str
  | .issue asset _ => asset.strName
  | .verifier assetName _ _ => assetName
  | .reissue data _ => data.strName

namespace AssetSlot

variable (slot : AssetSlot)

/-- What connecting an action about this name does. -/
def connect (nHeight : Nat) (blockHash : UInt256) : AssetAction → AssetSlot
  | .issue asset address => slot.issue env g name ⟨asset, address, nHeight, blockHash⟩
  | .verifier _ stored _ => slot.setVerifier stored
  | .reissue reissue verifier => slot.reissue g name reissue verifier

/-- What disconnecting an action about this name does, given the undo item of the name. -/
def disconnect (item : Option CBlockAssetUndo) : AssetAction → AssetSlot
  | .issue asset address => slot.removeIssue env g name asset address
  | .verifier _ _ removed => slot.clearVerifier removed false
  | .reissue reissue _ => slot.removeReissue env g name reissue item

def connectAt (nHeight : Nat) (blockHash : UInt256) (action : AssetAction) : AssetSlot :=
  if action.assetName = name then slot.connect env g name nHeight blockHash action else slot

def disconnectAt (item : Option CBlockAssetUndo) (action : AssetAction) : AssetSlot :=
  if action.assetName = name then slot.disconnect env g name item action else slot

end AssetSlot

/-- The issue of a payload that can be read. -/
def issueActions (payload : Option (CNewAsset × Str)) : List AssetAction :=
  payload.toList.map fun (asset, address) => .issue asset address

def verifierText (out : CTxOut) : Str :=
  ((assetNullVerifierDataFromScript out.scriptPubKey).getD {}).verifierString

/-- The verifier that comes with a new restricted asset. -/
def verifierActions (assetName : Str) (tx : CTransaction) : List AssetAction :=
  match firstVerifierOut tx with
  | none => []
  | some out =>
    [.verifier assetName (verifierText out) (((tx.lastVerifierOut env).map verifierText).getD [])]

/-- What the class of a transaction does to the data of assets. -/
def assetActions (tx : CTransaction) : List AssetAction :=
  if tx.isNewAsset env then issueActions (assetFromScript env tx.lastScript)
  else if tx.isReissueAsset then
    (reissueAssetFromScript env tx.lastScript).toList.map fun (reissue, _) =>
      .reissue reissue (reissueVerifier tx reissue)
  else if tx.isNewUniqueAsset env then
    tx.vout.flatMap fun out =>
      if isScriptNewUniqueAsset env out.scriptPubKey then
        issueActions (assetFromScript env out.scriptPubKey)
      else []
  else if tx.isNewMsgChannelAsset env then
    issueActions (msgChannelAssetFromScript env tx.lastScript)
  else if tx.isNewQualifierAsset env then
    issueActions (qualifierAssetFromScript env tx.lastScript)
  else if tx.isNewRestrictedAsset env then
    let payload := restrictedAssetFromScript env tx.lastScript
    issueActions payload ++ verifierActions env (payload.getD ({}, [])).1.strName tx
  else []

section Classes

variable {env g name} {cache cache' : CAssetsCache} {nHeight : Nat} {blockHash : UInt256}
  {item : Option CBlockAssetUndo} {tx : CTransaction} {payload : Option (CNewAsset × Str)}
  {types : List AssetType} {script : CScript} {vUndoData : List (Str × CBlockAssetUndo)}

theorem slot_addNewAssetOf (h : payload.isSome = true) :
    (addNewAssetOf env g cache payload nHeight blockHash).slot name =
      (issueActions payload).foldl (connectAt env g name · nHeight blockHash)
        (cache.slot name) := by
  obtain ⟨⟨asset, address⟩, rfl⟩ := Option.isSome_iff_exists.1 h
  exact slot_addNewAsset asset address nHeight blockHash

theorem slot_removeNewAssetOf (h : removeNewAssetOf env g cache payload = some cache') :
    cache'.slot name = (issueActions payload).foldl (disconnectAt env g name · item)
      (cache.slot name) := by
  cases payload with
  | none => cases h
  | some p =>
    exact slot_removeNewAsset h

theorem slot_addVerifierOf (assetName : Str) :
    (addVerifierOf cache assetName tx).slot name = (verifierActions env assetName tx).foldl
      (connectAt env g name · nHeight blockHash) (cache.slot name) := by
  unfold addVerifierOf verifierActions
  cases firstVerifierOut tx with
  | none => rfl
  | some out =>
    exact slot_addRestrictedVerifier assetName _

theorem firstVerifierOut_of_lastVerifierOut {out : CTxOut} (h : tx.lastVerifierOut env = some out) :
    (firstVerifierOut tx).isSome = true := by
  unfold lastVerifierOut at h
  split at h
  · have hm := List.mem_of_getLast? h
    obtain ⟨hout, hv⟩ := List.mem_filter.1 hm
    rw [firstVerifierOut, List.find?_isSome]
    exact ⟨out, (List.mem_filter.1 hout).1, hv⟩
  · cases h

theorem slot_removeVerifierOf {assetName : Str}
    (h : removeVerifierOf env cache assetName tx = some cache') :
    cache'.slot name = (verifierActions env assetName tx).foldl
      (disconnectAt env g name · item) (cache.slot name) := by
  simp only [removeVerifierOf, Option.bind_eq_bind, Option.bind_eq_some_iff] at h
  obtain ⟨out, hout, verifier, hv, hr⟩ := h
  cases hr
  obtain ⟨first, hfirst⟩ := Option.isSome_iff_exists.1 (firstVerifierOut_of_lastVerifierOut hout)
  have ht : verifierText out = verifier.verifierString := by simp [verifierText, hv]
  simp only [verifierActions, hfirst, hout, Option.map_some, Option.getD_some, List.foldl_cons,
    List.foldl_nil, ht]
  exact slot_removeRestrictedVerifier assetName _ _

/-- A script of a typed issue can be read. -/
theorem assetFromScript_of_isScriptNewAssetOf (h : isScriptNewAssetOf env types script = true) :
    (assetFromScript env script).isSome = true := by
  unfold isScriptNewAssetOf at h
  cases hsc : assetFromScript env script with
  | none => simp [hsc] at h
  | some p => rfl

theorem slot_addUniqueAssets (vout : List CTxOut) :
    (vout.foldl (fun cache out => if isScriptNewUniqueAsset env out.scriptPubKey then
        addNewAssetOf env g cache (assetFromScript env out.scriptPubKey) nHeight blockHash
      else cache) cache).slot name =
    (vout.flatMap fun out => if isScriptNewUniqueAsset env out.scriptPubKey then
        issueActions (assetFromScript env out.scriptPubKey) else []).foldl
      (connectAt env g name · nHeight blockHash) (cache.slot name) := by
  induction vout generalizing cache with
  | nil => rfl
  | cons out vout ih =>
    rw [List.foldl_cons, ih, List.flatMap_cons, List.foldl_append]
    split
    next hunique =>
      rw [slot_addNewAssetOf (assetFromScript_of_isScriptNewAssetOf hunique)]
    · rfl

theorem slot_removeUniqueAssets {vout : List CTxOut}
    (h : vout.foldlM (fun cache out => if isScriptNewUniqueAsset env out.scriptPubKey then
        removeNewAssetOf env g cache (assetFromScript env out.scriptPubKey)
      else some cache) cache = some cache') :
    cache'.slot name = (vout.flatMap fun out => if isScriptNewUniqueAsset env out.scriptPubKey then
        issueActions (assetFromScript env out.scriptPubKey) else []).foldl
      (disconnectAt env g name · item) (cache.slot name) := by
  induction vout generalizing cache with
  | nil =>
    cases h
    rfl
  | cons out vout ih =>
    rw [List.foldlM_cons, Option.bind_eq_bind, Option.bind_eq_some_iff] at h
    obtain ⟨mid, hstep, hr⟩ := h
    rw [ih hr, List.flatMap_cons, List.foldl_append]
    split at hstep
    next hunique =>
      rw [if_pos hunique, slot_removeNewAssetOf hstep]
    next hunique =>
      cases hstep
      rw [if_neg hunique]
      rfl

/-- What the checks of a transaction say about the assets it acts on. -/
structure Admitted (env : Env) (g : AssetGlobals) (cache : CAssetsCache) (tx : CTransaction) :
    Prop where
  issue : tx.isNewAsset env = true → (assetFromScript env tx.lastScript).isSome = true
  reissue : tx.isNewAsset env = false → tx.isReissueAsset = true →
    (reissueAssetFromScript env tx.lastScript).isSome = true
  /-- A new asset does not exist yet. -/
  fresh : ∀ asset address, .issue asset address ∈ assetActions env tx →
    (cache.slot asset.strName).known env g asset.strName = false
  /-- A reissued asset is known and may be reissued. -/
  known : ∀ reissue verifier, .reissue reissue verifier ∈ assetActions env tx →
    ∃ asset, (cache.slot reissue.strName).data g reissue.strName = some asset ∧
      asset.nReissuable ≠ 0

theorem slot_addReissueOf {reissue : CReissueAsset} {address : Str} {asset : CNewAsset}
    (hp : reissueAssetFromScript env tx.lastScript = some (reissue, address))
    (hd : (cache.slot reissue.strName).data g reissue.strName = some asset)
    (ha : asset.strName = reissue.strName) :
    (addReissueOf env g cache tx).cache.slot name = (cache.slot name).connectAt env g name nHeight
      blockHash (.reissue reissue (reissueVerifier tx reissue)) := by
  unfold connectAt
  split
  next hname =>
    obtain rfl : reissue.strName = name := hname
    exact (addReissueOf_self hp hd ha).1
  next hne => exact addReissueOf_ne hp hd ha hne

/-- The payload of a typed issue can be read. -/
theorem isSome_typed (h : isScriptNewAssetOf env types script = true) :
    (if isScriptNewAssetOf env types script then assetFromScript env script else none).isSome =
      true := by
  rw [if_pos h]
  exact assetFromScript_of_isScriptNewAssetOf h

theorem slot_addClassAssets (h : Admitted env g cache tx)
    (hn : ∀ name, (cache.slot name).Named g name) :
    (addClassAssets env g cache tx nHeight blockHash).cache.slot name =
      (assetActions env tx).foldl (connectAt env g name · nHeight blockHash)
        (cache.slot name) := by
  have hkn := h.known
  unfold addClassAssets assetActions
  unfold assetActions at hkn
  split_ifs at hkn ⊢ with hi hreissue hunique hclass hclass hclass
  · rw [slot_of_core (core_addOwnerAsset _ _), slot_addNewAssetOf (h.issue hi)]
  · obtain ⟨⟨reissue, address⟩, hp⟩ := Option.isSome_iff_exists.1
      (h.reissue (Bool.eq_false_iff.2 hi) hreissue)
    simp only [hp, Option.toList_some, List.map_cons, List.map_nil, List.foldl_cons,
      List.foldl_nil, List.mem_singleton] at hkn ⊢
    obtain ⟨asset, hd, -⟩ := hkn _ _ rfl
    exact slot_addReissueOf hp hd (hn _ asset hd)
  · exact slot_addUniqueAssets tx.vout
  · exact slot_addNewAssetOf (isSome_typed (Bool.and_eq_true_iff.1 hclass).2)
  · exact slot_addNewAssetOf (isSome_typed (Bool.and_eq_true_iff.1 hclass).2)
  · have hp : (restrictedAssetFromScript env tx.lastScript).isSome = true :=
      isSome_typed (Bool.and_eq_true_iff.1 hclass).2
    rw [List.foldl_append, ← slot_addNewAssetOf hp]
    exact slot_addVerifierOf _
  · rfl

theorem slot_removeReissueOf (hn : ∀ name, (cache.slot name).Named g name)
    (h : removeReissueOf env g cache tx vUndoData = some cache') :
    cache'.slot name = ((reissueAssetFromScript env tx.lastScript).toList.map fun (reissue, _) =>
        AssetAction.reissue reissue (reissueVerifier tx reissue)).foldl
      (disconnectAt env g name · (vUndoData.lookup name)) (cache.slot name) := by
  cases hp : reissueAssetFromScript env tx.lastScript with
  | none => simp [removeReissueOf, hp] at h
  | some p =>
    exact removeReissueOf_slot hp (hn p.1.strName) h

theorem slot_removeClassAssets (hn : ∀ name, (cache.slot name).Named g name)
    (h : removeClassAssets env g cache tx vUndoData = some cache') :
    cache'.slot name = (assetActions env tx).foldl
      (disconnectAt env g name · (vUndoData.lookup name)) (cache.slot name) := by
  unfold removeClassAssets at h
  unfold assetActions
  split_ifs at h ⊢
  · obtain ⟨mid, hnew, ho⟩ := Option.bind_eq_some_iff.1 h
    rw [slot_of_core (core_removeOwnerOf ho), slot_removeNewAssetOf hnew]
  · exact slot_removeReissueOf hn h
  · exact slot_removeUniqueAssets h
  · exact slot_removeNewAssetOf h
  · exact slot_removeNewAssetOf h
  · obtain ⟨mid, hnew, hv⟩ := Option.bind_eq_some_iff.1 h
    rw [List.foldl_append, ← slot_removeNewAssetOf hnew, slot_removeVerifierOf hv]
  · cases h
    rfl

end Classes

section Names

variable {env g name} {slot : AssetSlot} {action : AssetAction}

/-- The data the cache of a block holds under a name carries that name. -/
structure AssetSlot.Proper (slot : AssetSlot) (name : Str) : Prop where
  added : ∀ entry, slot.asset.added = some entry → entry.asset.strName = name
  reissued : ∀ asset, slot.reissued = some asset → asset.strName = name

theorem proper_empty : AssetSlot.Proper {} name where
  added := by simp
  reissued := by simp

/-- With a proper cache and named data below it, all data is named. -/
theorem AssetSlot.Proper.named (h : slot.Proper name) (hba : AssetSlot.Named g name {}) :
    slot.Named g name := by
  intro asset hd
  unfold AssetSlot.data at hd
  cases hr : slot.reissued with
  | some reissued =>
    obtain rfl : reissued = asset := by simpa [hr] using hd
    exact h.reissued _ hr
  | none =>
    cases hb : g.passets.mapReissuedAssetData[name]? with
    | some below =>
      obtain rfl : below = asset := by simpa [hr, hb] using hd
      exact hba _ (by simp [AssetSlot.data, hb])
    | none =>
      have hi : slot.issuedData g name = some asset := by
        simpa [hr, hb] using hd
      unfold issuedData at hi
      split at hi
      · cases hi
      next hre =>
        cases ha : slot.asset.added with
        | some entry =>
          obtain rfl : entry.asset = asset := by simpa [ha] using hi
          exact h.added entry ha
        | none =>
          refine hba asset ?_
          have hp : g.passets.newAssets.toRemove.contains name = false := by
            simp only [Bool.or_eq_true, not_or, Bool.not_eq_true] at hre
            exact hre.2
          simpa [AssetSlot.data, issuedData, hb, hp, ha] using hi

theorem applyReissue_strName (asset : CNewAsset) (reissue : CReissueAsset) :
    (asset.applyReissue reissue).strName = asset.strName := by
  unfold CNewAsset.applyReissue
  simp only [apply_ite CNewAsset.strName, ite_self]

theorem proper_setVerifier (h : slot.Proper name) (verifier : Str) :
    (slot.setVerifier verifier).Proper name := ⟨h.added, h.reissued⟩

theorem proper_connectAt {nHeight : Nat} {blockHash : UInt256} (h : slot.Proper name)
    (hb : AssetSlot.Named g name {}) :
    (slot.connectAt env g name nHeight blockHash action).Proper name := by
  unfold connectAt
  split
  next hname =>
    cases action with
    | issue asset address =>
      change (slot.issue env g name _).Proper name
      unfold AssetSlot.issue
      split
      · exact h
      · refine ⟨fun entry he => ?_, h.reissued⟩
        cases ha : slot.asset.added with
        | some old =>
          obtain rfl : old = entry := by simpa [DirtyPair.Marks.add, ha] using he
          exact h.added _ ha
        | none =>
          obtain rfl := by simpa [DirtyPair.Marks.add, ha] using he
          exact hname
    | verifier assetName stored removed => exact proper_setVerifier h stored
    | reissue reissue verifier =>
      change (slot.reissue g name _ _).Proper name
      unfold AssetSlot.reissue
      split
      · exact h
      next asset hd =>
        have hp : AssetSlot.Proper { slot with reissued := some (asset.applyReissue reissue) }
            name := by
          refine ⟨h.added, fun asset' has => ?_⟩
          cases has
          rw [applyReissue_strName]
          exact h.named hb asset hd
        cases verifier with
        | none => exact hp
        | some verifier => exact proper_setVerifier hp verifier
  · exact h

theorem proper_disconnectAt {item : Option CBlockAssetUndo} (h : slot.Proper name)
    (hb : AssetSlot.Named g name {}) :
    (slot.disconnectAt env g name item action).Proper name := by
  unfold disconnectAt
  split
  next hname =>
    cases action with
    | issue asset address =>
      change (slot.removeIssue env g name _ _).Proper name
      unfold removeIssue
      split
      · exact ⟨fun _ he => (by cases he), h.reissued⟩
      · exact h
    | verifier assetName stored removed => exact ⟨h.added, h.reissued⟩
    | reissue reissue verifier =>
      change (slot.removeReissue env g name _ _).Proper name
      unfold removeReissue
      split
      · split
        · exact h
        next asset hd =>
          have hp : AssetSlot.Proper
              { slot with reissued := some (asset.undoReissue reissue item) } name := by
            refine ⟨h.added, fun asset' ha => ?_⟩
            cases ha
            rw [undoReissue_strName]
            exact h.named hb asset hd
          cases item with
          | none => exact hp
          | some item =>
            unfold undoVerifier
            dsimp only
            split
            · exact ⟨hp.added, hp.reissued⟩
            · exact hp
      · exact h
  · exact h

end Names

/-- The reissue of an asset in a transaction, with the verifier it sets. -/
def reissueAt (tx : CTransaction) : Option (CReissueAsset × Option Str) :=
  if !tx.isNewAsset env && tx.isReissueAsset then
    (reissueAssetFromScript env tx.lastScript).bind fun (reissue, _) =>
      if reissue.strName = name then some (reissue, reissueVerifier tx reissue) else none
  else none

/-- Whether a transaction issues an asset. -/
def issuesAt (tx : CTransaction) : Bool :=
  (assetActions env tx).any fun
    | .issue asset _ => asset.strName = name
    | _ => false

section Steps

variable {env g name} {cache : CAssetsCache} {tx : CTransaction} {nHeight : Nat}
  {blockHash : UInt256} {reissue : CReissueAsset} {address : Str} {verifier : Option Str}
  {payload : Option (CNewAsset × Str)} {action : AssetAction} {asset : CNewAsset} {u : Unit}

theorem Admitted.not_known (h : Admitted env g cache tx)
    (hi : issuesAt env name tx = true) : (cache.slot name).known env g name = false := by
  obtain ⟨action, hm, ha⟩ := List.any_eq_true.1 hi
  cases action with
  | issue asset address =>
    obtain rfl : asset.strName = name := of_decide_eq_true ha
    exact h.fresh asset address hm
  | verifier assetName stored removed => cases ha
  | reissue data verifier => cases ha

theorem Admitted.congr {cache' : CAssetsCache} (h : Admitted env g cache tx)
    (hsl : ∀ name, cache'.slot name = cache.slot name) : Admitted env g cache' tx where
  issue := h.issue
  reissue := h.reissue
  fresh := by
    intro asset address hm
    rw [hsl]
    exact h.fresh asset address hm
  known := by
    intro reissue verifier hm
    rw [hsl]
    exact h.known reissue verifier hm

theorem assetActions_of_reissue (hclass : (!tx.isNewAsset env && tx.isReissueAsset) = true)
    (hp : reissueAssetFromScript env tx.lastScript = some (reissue, address)) :
    assetActions env tx = [.reissue reissue (reissueVerifier tx reissue)] := by
  simp only [Bool.and_eq_true, Bool.not_eq_true'] at hclass
  simp [assetActions, hclass.1, hclass.2, hp]

theorem class_of_reissueAt (h : reissueAt env name tx = some (reissue, verifier)) :
    reissue.strName = name ∧ verifier = reissueVerifier tx reissue ∧
      (!tx.isNewAsset env && tx.isReissueAsset) = true ∧
      ∃ address, reissueAssetFromScript env tx.lastScript = some (reissue, address) := by
  unfold reissueAt at h
  split at h
  next hclass =>
    obtain ⟨⟨payload, address⟩, hp, h⟩ := Option.bind_eq_some_iff.1 h
    dsimp only at h
    split at h
    next hname =>
      cases h
      exact ⟨hname, rfl, hclass, address, hp⟩
    · cases h
  · cases h

/-- A reissue is the only action of its transaction. -/
theorem assetActions_of_reissueAt (h : reissueAt env name tx = some (reissue, verifier)) :
    assetActions env tx = [.reissue reissue verifier] := by
  obtain ⟨-, rfl, hclass, address, hp⟩ := class_of_reissueAt h
  exact assetActions_of_reissue hclass hp

theorem mem_issueActions (h : action ∈ issueActions payload) :
    ∃ asset address, action = .issue asset address := by
  obtain ⟨⟨asset, address⟩, -, rfl⟩ := List.mem_map.1 h
  exact ⟨asset, address, rfl⟩

/-- What is known about an action of a transaction: a reissue is the one the transaction is read
as, and a verifier comes with the issue of its asset. -/
def AssetAction.Sound (env : Env) (tx : CTransaction) : AssetAction → Prop
  | .issue _ _ => True
  | .reissue data stored => reissueAt env data.strName tx = some (data, stored)
  | .verifier assetName _ _ => assetName = [] ∨ issuesAt env assetName tx = true

theorem sound_of_mem_issueActions (h : action ∈ issueActions payload) : action.Sound env tx := by
  obtain ⟨_, _, rfl⟩ := mem_issueActions h
  trivial

theorem sound_of_mem_assetActions (h : action ∈ assetActions env tx) : action.Sound env tx := by
  have hm := h
  unfold assetActions at hm
  split_ifs at hm with hnew hreissue hunique hchannel hqualifier hrestricted
  · exact sound_of_mem_issueActions hm
  · obtain ⟨⟨data, address⟩, hp, rfl⟩ := List.mem_map.1 hm
    rw [Option.mem_toList] at hp
    simp [AssetAction.Sound, reissueAt, hnew, hreissue, hp]
  · obtain ⟨out, -, hout⟩ := List.mem_flatMap.1 hm
    split at hout
    · exact sound_of_mem_issueActions hout
    · cases hout
  · exact sound_of_mem_issueActions hm
  · exact sound_of_mem_issueActions hm
  · rcases List.mem_append.1 hm with hi | hv
    · exact sound_of_mem_issueActions hi
    · unfold verifierActions at hv
      split at hv
      · cases hv
      · obtain rfl := List.mem_singleton.1 hv
        -- without a payload the name is that of the null asset
        cases hp : restrictedAssetFromScript env tx.lastScript with
        | none => exact Or.inl rfl
        | some payload =>
          refine Or.inr (List.any_eq_true.2 ⟨.issue payload.1 payload.2, ?_, by simp⟩)
          simp [assetActions, hnew, hreissue, hunique, hchannel, hqualifier, hrestricted,
            issueActions, hp]
  · cases hm

/-- Without a reissue under the name, the actions under it are those of an issue. -/
theorem not_reissue_of_reissueAt_eq_none (h : reissueAt env name tx = none)
    (hname : reissue.strName = name) : .reissue reissue verifier ∉ assetActions env tx := by
  intro hm
  have hat : reissueAt env reissue.strName tx = some (reissue, verifier) :=
    sound_of_mem_assetActions hm
  rw [hname, h] at hat
  cases hat

theorem undo_addClassAssets : (addClassAssets env g cache tx nHeight blockHash).undo =
      if !tx.isNewAsset env && tx.isReissueAsset then (addReissueOf env g cache tx).undo else none := by
  unfold addClassAssets
  cases tx.isNewAsset env with
  | true => rfl
  | false =>
    cases tx.isReissueAsset with
    | true => rfl
    | false =>
      simp only [Bool.false_eq_true, if_false, Bool.not_false, Bool.and_false]
      repeat' split
      all_goals rfl

/-- The undo item that a transaction leaves for an asset. -/
def itemAt (env : Env) (g : AssetGlobals) (name : Str) (slot : AssetSlot) (tx : CTransaction) :
    Option CBlockAssetUndo :=
  (reissueAt env name tx).bind fun (reissue, verifier) =>
    (slot.data g name).bind fun asset => slot.undoItem g name asset reissue verifier

theorem lookup_addClassAssets (h : Admitted env g cache tx)
    (hn : ∀ name, (cache.slot name).Named g name) (hname : name ≠ []) :
    ((addClassAssets env g cache tx nHeight blockHash).undo.filter
      fun item => item.1 ≠ []).toList.lookup name = itemAt env g name (cache.slot name) tx := by
  rw [undo_addClassAssets]
  unfold itemAt reissueAt
  cases hclass : !tx.isNewAsset env && tx.isReissueAsset with
  | false => rfl
  | true =>
    have hnew : tx.isNewAsset env = false := by simp_all
    have hreissue : tx.isReissueAsset = true := by simp_all
    obtain ⟨⟨reissue, address⟩, hp⟩ := Option.isSome_iff_exists.1 (h.reissue hnew hreissue)
    obtain ⟨asset, hd, -⟩ := h.known reissue (reissueVerifier tx reissue)
      (by rw [assetActions_of_reissue hclass hp]; exact List.mem_singleton_self _)
    rw [if_pos rfl, if_pos rfl, (addReissueOf_self hp hd (hn _ _ hd)).2, hp]
    rcases eq_or_ne reissue.strName name with rfl | hne
    · simp only [Option.bind_some, if_true, hd]
      cases undoItem g reissue.strName (cache.slot reissue.strName) asset reissue
        (reissueVerifier tx reissue) with
      | none => rfl
      | some item => simp [Option.filter, hname]
    · simp only [Option.bind_some, if_neg hne, Option.bind_none]
      cases undoItem g reissue.strName (cache.slot reissue.strName) asset reissue
        (reissueVerifier tx reissue) with
      | none => rfl
      | some item =>
        by_cases he : reissue.strName = []
        · simp [he]
        · simp [he, hne.symm]

theorem payload_of_issue_mem (h : .issue asset address ∈ issueActions payload) :
    payload = some (asset, address) := by
  obtain ⟨⟨_, _⟩, hp, heq⟩ := List.mem_map.1 h
  cases heq
  exact Option.mem_toList.1 hp

variable {mempool : MempoolAssets} {fCheckMempool : Bool}

/-- What `CheckNewAsset` asks of an asset, besides the fixed amounts of some types. -/
structure NewAssetChecked (asset : CNewAsset) : Prop where
  name : isAssetNameOk asset.strName = true
  notOwner : isAssetNameAnOwner asset.strName = false
  positive : ¬ asset.nAmount ≤ 0
  range : ¬ asset.nAmount > maxMoney
  units : ¬ asset.units < 0 ∧ ¬ asset.units > 8
  divisible : checkAmountWithUnits asset.nAmount asset.units = true
  hasIPFS : asset.nHasIPFS = 0 ∨ asset.nHasIPFS = 1

theorem newAssetChecked_of_checkNewAsset (h : checkNewAsset asset = .ok u) :
    NewAssetChecked asset := by
  unfold checkNewAsset at h
  split at h
  · cases h
  next type ht =>
    have hname : isAssetNameOk asset.strName = true := by
      rw [isAssetNameOk, ht]
      rfl
    split at h
    iterate 4
      · obtain ⟨_, -, h⟩ := bind_eq_ok.1 h
        simp only [failIf_bind_eq_ok, failIf_eq_ok, Bool.or_eq_false_iff, decide_eq_false_iff_not,
          Bool.not_eq_false'] at h
        obtain ⟨ho, hp, hr, hu, hd, -, hf⟩ := h
        exact ⟨hname, ho, hp, hr, hu, hd,
          by simpa [or_iff_not_imp_left] using hf⟩
    · simp only [failIf_bind_eq_ok, failIf_eq_ok, Bool.or_eq_false_iff, decide_eq_false_iff_not,
        Bool.not_eq_false'] at h
      obtain ⟨ho, hp, hr, hu, hd, -, hf⟩ := h
      exact ⟨hname, ho, hp, hr, hu, hd,
        by simpa [or_iff_not_imp_left] using hf⟩

theorem known_of_contextualCheckNewAsset
    (h : contextualCheckNewAsset env g cache asset mempool fCheckMempool = .ok u) :
    (cache.slot asset.strName).known env g asset.strName = false := by
  obtain ⟨_, -, h⟩ := bind_eq_ok.1 h
  obtain ⟨_, -, h⟩ := bind_eq_ok.1 h
  rw [failIf_bind_eq_ok, checkIfAssetExists_eq] at h
  exact h.1

theorem data_of_contextualCheckReissueAsset
    (h : contextualCheckReissueAsset env g cache reissue tx = .ok u) :
    ∃ asset, (cache.slot reissue.strName).data g reissue.strName = some asset ∧
      asset.nReissuable ≠ 0 := by
  unfold contextualCheckReissueAsset at h
  split at h
  · cases h
  · obtain ⟨_, -, h⟩ := bind_eq_ok.1 h
    split at h
    · cases h
    next prevAsset block hm =>
      rw [failIf_bind_eq_ok] at h
      refine ⟨prevAsset, ?_, by simpa using h.1⟩
      rw [← getAssetMetaDataIfExists_map, hm]
      rfl

/-- An issue is read from an output, and its asset passed the contextual check. -/
def IssueChecked (env : Env) (g : AssetGlobals) (cache : CAssetsCache) (mempool : MempoolAssets)
    (asset : CNewAsset) (address : Str) : Prop :=
  (∃ script, assetFromScript env script = some (asset, address)) ∧
    ∃ fCheckMempool, contextualCheckNewAsset env g cache asset mempool fCheckMempool = .ok ()

theorem assetFromScript_of_typed {typed : Bool} {script : CScript} {p : CNewAsset × Str}
    (h : (if typed then assetFromScript env script else none) = some p) :
    ∃ script, assetFromScript env script = some p := by
  split at h
  · exact ⟨script, h⟩
  · cases h

/-- Only for unique assets the caller's wish to look at the memory pool is not passed on. -/
theorem exists_of_contextualCheckAssetClass
    (h : contextualCheckAssetClass env g cache tx mempool fCheckMempool = .ok u)
    (hm : .issue asset address ∈ assetActions env tx) :
    (∃ script, assetFromScript env script = some (asset, address)) ∧
      ∃ fCheck, contextualCheckNewAsset env g cache asset mempool fCheck = .ok () ∧
        (fCheck = fCheckMempool ∨ tx.isNewUniqueAsset env = true) := by
  unfold contextualCheckAssetClass at h
  unfold assetActions at hm
  -- both go through the classes in the same order
  split_ifs at h hm with hnew hreissue hunique
  · have hp := payload_of_issue_mem hm
    rw [hp] at h
    exact ⟨⟨_, hp⟩, _, mapError_eq_ok.1 h, Or.inl rfl⟩
  · obtain ⟨_, -, heq⟩ := List.mem_map.1 hm
    cases heq
  · obtain ⟨out, hout, hm⟩ := List.mem_flatMap.1 hm
    split at hm
    next hsc =>
      have hc := forM_eq_ok.1 (mapError_eq_ok.1 (mapError_eq_ok.1 h)) out hout
      have hp := payload_of_issue_mem hm
      rw [if_pos hsc, hp] at hc
      exact ⟨⟨_, hp⟩, _, hc, Or.inr hunique⟩
    · cases hm
  iterate 2
    · have hp := payload_of_issue_mem hm
      rw [hp] at h
      obtain ⟨_, -, h⟩ := bind_eq_ok.1 h
      exact ⟨assetFromScript_of_typed hp, _, mapError_eq_ok.1 (mapError_eq_ok.1 h), Or.inl rfl⟩
  · have hi : .issue asset address ∈
        issueActions (restrictedAssetFromScript env tx.lastScript) := by
      rcases List.mem_append.1 hm with hm | hm
      · exact hm
      · unfold verifierActions at hm
        split at hm
        · cases hm
        · cases List.mem_singleton.1 hm
    unfold contextualCheckRestrictedTx at h
    have hp := payload_of_issue_mem hi
    rw [hp] at h
    obtain ⟨_, -, h⟩ := bind_eq_ok.1 h
    obtain ⟨_, hr, h⟩ := bind_eq_ok.1 h
    cases payloadOr_eq_ok.1 hr
    obtain ⟨_, hc, -⟩ := bind_eq_ok.1 h
    exact ⟨assetFromScript_of_typed hp, _, mapError_eq_ok.1 (mapError_eq_ok.1 hc), Or.inl rfl⟩
  · cases hm

theorem issueChecked_of_contextualCheckAssetClass
    (h : contextualCheckAssetClass env g cache tx mempool fCheckMempool = .ok u)
    (hm : .issue asset address ∈ assetActions env tx) :
    IssueChecked env g cache mempool asset address := by
  obtain ⟨hsc, fCheck, hc, -⟩ := exists_of_contextualCheckAssetClass h hm
  exact ⟨hsc, fCheck, hc⟩

/-- What the contextual checks of the class say about its assets. -/
theorem admitted_of_contextualCheckAssetClass
    (h : contextualCheckAssetClass env g cache tx mempool fCheckMempool = .ok u) :
    Admitted env g cache tx where
  issue := by
    intro hnew
    rw [contextualCheckAssetClass, if_pos hnew] at h
    obtain ⟨payload, hp, -⟩ := bind_eq_ok.1 h
    rw [payloadOr_eq_ok.1 hp]
    rfl
  reissue := by
    intro hnew hreissue
    rw [contextualCheckAssetClass, hnew, if_neg (by decide), if_pos hreissue] at h
    obtain ⟨payload, hp, -⟩ := bind_eq_ok.1 h
    rw [payloadOr_eq_ok.1 hp]
    rfl
  fresh := by
    intro asset address hm
    obtain ⟨-, _, hc⟩ := issueChecked_of_contextualCheckAssetClass h hm
    exact known_of_contextualCheckNewAsset hc
  known := by
    intro reissue verifier hm
    obtain ⟨-, -, hclass, address, hp⟩ := class_of_reissueAt (sound_of_mem_assetActions hm)
    simp only [Bool.and_eq_true, Bool.not_eq_true'] at hclass
    rw [contextualCheckAssetClass, hclass.1, if_neg (by decide), if_pos hclass.2, hp] at h
    exact data_of_contextualCheckReissueAsset (mapError_eq_ok.1 (mapError_eq_ok.1 h))

end Steps

/-- No output of the transaction carries an asset. -/
def NoAssetOuts (tx : CTransaction) : Prop :=
  ∀ out ∈ tx.vout, CScript.isAssetScript out.scriptPubKey = none

section Transactions

variable {env g} {tx : CTransaction} {nHeight : Nat} {blockHash : UInt256} {rules : BlockRules}
  {mempool : MempoolAssets} {fUndo : Bool} {conn conn' : Connected}

theorem NoAssetOuts.lastScript (h : NoAssetOuts tx) :
    CScript.isAssetScript tx.lastScript = none := by
  unfold CTransaction.lastScript
  cases hl : tx.vout.getLast? with
  | none => rfl
  | some out => exact h out (List.mem_of_getLast? hl)

theorem NoAssetOuts.class (h : NoAssetOuts tx) :
    CScript.isNewAsset tx.lastScript = false ∧ tx.isReissueAsset = false := by
  have hl := h.lastScript
  constructor
  · simp [CScript.isNewAsset, CScript.isScriptNewAsset, CScript.assetScriptOf, hl]
  · simp [isReissueAsset, CScript.isReissueAsset, CScript.isScriptReissueAsset,
      CScript.assetScriptOf, hl]

theorem assetActions_of_noAssetOuts (h : NoAssetOuts tx) : assetActions env tx = [] := by
  obtain ⟨hnew, hreissue⟩ := h.class
  simp [assetActions, isNewAsset, isNewUniqueAsset, isNewMsgChannelAsset, isNewQualifierAsset,
    isNewRestrictedAsset, hnew, hreissue]

theorem admitted_of_noAssetOuts {cache : CAssetsCache} (h : NoAssetOuts tx) :
    Admitted env g cache tx := by
  have ha : assetActions env tx = [] := assetActions_of_noAssetOuts h
  obtain ⟨hnew, hreissue⟩ := h.class
  refine ⟨?_, ?_, ?_, ?_⟩
  · intro ht
    simp [isNewAsset, hnew] at ht
  · intro _ ht
    rw [hreissue] at ht
    cases ht
  · intro asset address hm
    rw [ha] at hm
    cases hm
  · intro reissue verifier hm
    rw [ha] at hm
    cases hm

theorem itemAt_of_noAssetOuts {name : Str} {slot : AssetSlot} (h : NoAssetOuts tx) :
    itemAt env g name slot tx = none := by
  simp [itemAt, reissueAt, h.class.2]

theorem noAssetOuts_of_checkNoAssets {u : Unit} (h : forM tx.vout checkNoAssets = .ok u) :
    NoAssetOuts tx := by
  intro out hout
  have hc := forM_eq_ok.1 h out hout
  simp only [checkNoAssets, rejectIf, failIf_bind_eq_ok] at hc
  simpa using hc.1

/-- An accepted transaction passed the contextual checks of its class, or carries no assets. -/
theorem classChecked_of_connectTx (hco : tx.isCoinBase = true → NoAssetOuts tx)
    (h : connectTx rules env g mempool nHeight blockHash fUndo conn tx = .ok conn') :
    (env.areAssetsDeployed = true ∧ ∃ u,
        contextualCheckAssetClass env g conn.st.cache tx mempool false = .ok u) ∨
      NoAssetOuts tx := by
  obtain ⟨nFees, st, txundo, undo, hi, -, -, -, -⟩ := connectTx_eq_ok.1 h
  split at hi
  next hcb => exact Or.inr (hco hcb)
  · obtain ⟨txfee, -, -, ha, -, -⟩ := connectInputs_eq_ok.1 hi
    unfold connectAssets at ha
    split at ha
    · exact Or.inr (noAssetOuts_of_checkNoAssets ha)
    next hd =>
      obtain ⟨_, hc, -⟩ := bind_eq_ok.1 ha
      obtain ⟨_, -, hc⟩ := bind_eq_ok.1 hc
      obtain ⟨_, -, hc⟩ := bind_eq_ok.1 hc
      obtain ⟨_, -, hc⟩ := bind_eq_ok.1 hc
      obtain ⟨u, hclass, -⟩ := bind_eq_ok.1 hc
      exact Or.inl ⟨by simpa using hd, u, hclass⟩

/-- An accepted transaction acts on assets as its class says, or carries none. -/
theorem admitted_of_connectTx (hc : tx.isCoinBase = true → NoAssetOuts tx)
    (h : connectTx rules env g mempool nHeight blockHash fUndo conn tx = .ok conn') :
    Admitted env g conn.st.cache tx ∧ (env.areAssetsDeployed = true ∨ NoAssetOuts tx) := by
  rcases classChecked_of_connectTx hc h with ⟨hd, u, hclass⟩ | hno
  · exact ⟨admitted_of_contextualCheckAssetClass hclass, Or.inl hd⟩
  · exact ⟨admitted_of_noAssetOuts hno, Or.inr hno⟩

/-- A connected transaction acts on each asset, and leaves its undo item. -/
theorem slot_connectTx {name : Str} (hcoi : tx.isCoinBase = true → NoAssetOuts tx)
    (hn : ∀ name, (conn.st.cache.slot name).Named g name)
    (h : connectTx rules env g mempool nHeight blockHash fUndo conn tx = .ok conn') :
    conn'.st.cache.slot name =
        (assetActions env tx).foldl (connectAt env g name · nHeight blockHash)
          (conn.st.cache.slot name) ∧
      (name ≠ [] → conn'.vUndoAssetData.lookup name = (conn.vUndoAssetData.lookup name).or
        (itemAt env g name (conn.st.cache.slot name) tx)) := by
  obtain ⟨ha, has⟩ := admitted_of_connectTx hcoi h
  obtain ⟨nFees, st, txundo, undo, -, -, -, hu, rfl⟩ := connectTx_eq_ok.1 h
  obtain ⟨cache, update, hco, hclass, ho, rfl⟩ := exists_cache_of_updateCoins hu
  have hc : ∀ name, cache.slot name = conn.st.cache.slot name := fun _ => slot_of_core hco
  have hsl : st.cache.slot name = update.cache.slot name := by
    rw [ho]
    exact besideCommands_slot.foldl_addOutAssets _
  rw [hsl, hclass, List.lookup_append, ← hc]
  split
  · have ha' := ha.congr hc
    have hn' : ∀ name, (cache.slot name).Named g name := by
      intro name
      rw [hc]
      exact hn name
    exact ⟨slot_addClassAssets ha' hn',
      fun hname => congrArg _ (lookup_addClassAssets ha' hn' hname)⟩
  next hof =>
    have hno := has.resolve_left hof
    rw [assetActions_of_noAssetOuts hno, itemAt_of_noAssetOuts hno]
    exact ⟨rfl, fun _ => rfl⟩

/-- A disconnected transaction takes its actions back. -/
theorem slot_disconnectTx {vUndoData : List (Str × CBlockAssetUndo)} {d d' : Disconnected}
    {txundo : Option CTxUndo} {name : Str} (ha : env.areAssetsDeployed = true ∨ NoAssetOuts tx)
    (hna : ∀ name, (d.st.cache.slot name).Named g name)
    (h : disconnectTx env g nHeight vUndoData d (tx, txundo) = some d') :
    d'.st.cache.slot name = (assetActions env tx).foldl
      (disconnectAt env g name · (vUndoData.lookup name)) (d.st.cache.slot name) := by
  rcases exists_cache_of_disconnectTx h with
    ⟨ho, hc⟩ | ⟨-, first, second, third, hfirst, hse, hn, hc⟩
  · rw [slot_of_core hc, assetActions_of_noAssetOuts (ha.resolve_left (by simp [ho]))]
    rfl
  · rw [slot_of_core hc, besideCommands_slot.removeNullOuts hn, slot_of_core hse,
      slot_removeClassAssets hna hfirst]

end Transactions

end Cmusic
