import Cmusic.CacheFrames
import Cmusic.CacheRuns
import Cmusic.QualifierNames

/-! The commands in the null-data outputs of a block: tags, freezes and global freezes. -/
namespace Cmusic

open Fallible Std CScript CTransaction

/-- What a null-data output asks for. -/
inductive NullCommand where
  | tag (assetName address : Str) (fAdd : Bool)
  | freeze (assetName address : Str) (fFreeze : Bool)
  | globalFreeze (assetName : Str) (fFreeze : Bool)

/-- The parts of the cache that the commands change. -/
@[ext]
structure CommandMarks where
  tags : DirtyPair (Str × Str) QualifierType pairCmp := {}
  freezes : DirtyPair (Str × Str) RestrictedType pairCmp := {}
  globals : DirtyPair Str RestrictedType compare := {}

def CAssetsCache.commandMarks (cache : CAssetsCache) : CommandMarks :=
  ⟨cache.newQualifierAddress, cache.newRestrictedAddress, cache.newRestrictedGlobal⟩

namespace CommandMarks

def add (marks : CommandMarks) : NullCommand → CommandMarks
  | .tag assetName address fAdd =>
    { marks with tags := marks.tags.putAdd (assetName, address) (qualifierType fAdd) }
  | .freeze assetName address fFreeze =>
    { marks with freezes := marks.freezes.putAdd (assetName, address) (freezeType fFreeze) }
  | .globalFreeze assetName fFreeze =>
    { marks with globals := marks.globals.putAdd assetName (globalFreezeType fFreeze) }

def undo (marks : CommandMarks) : NullCommand → CommandMarks
  | .tag assetName address fAdd =>
    { marks with tags := marks.tags.putRemove (assetName, address) (qualifierType fAdd) }
  | .freeze assetName address fFreeze =>
    { marks with freezes := marks.freezes.putRemove (assetName, address) (freezeType fFreeze) }
  | .globalFreeze assetName fFreeze =>
    { marks with globals := marks.globals.putRemove assetName (globalFreezeType fFreeze) }

end CommandMarks

variable (env : Env)

/-- The command of an output, by the type of the name it carries. -/
def nullCommand (txout : CTxOut) : Option NullCommand :=
  let script := txout.scriptPubKey
  if CScript.isNullAssetTxDataScript script then
    (assetNullDataFromScript env script).bind fun (data, address) =>
      match CTransaction.nameTypeOrInvalid data.assetName with
      | .restricted => some (.freeze data.assetName address (data.flag ≠ 0))
      | .qualifier | .subQualifier => some (.tag data.assetName address (data.flag ≠ 0))
      | _ => none
  else if CScript.isNullGlobalRestrictionAssetTxDataScript script then
    (globalAssetNullDataFromScript script).map fun data =>
      .globalFreeze data.assetName (data.flag ≠ 0)
  else none

/-- The commands of a transaction. -/
def nullCommands (tx : CTransaction) : List NullCommand := tx.vout.filterMap (nullCommand env)

section Frames

variable {env} {g : AssetGlobals} {cache cache' : CAssetsCache} {tx : CTransaction}
  {vUndoData : List (Str × CBlockAssetUndo)}

theorem commandMarks_of_core (h : cache'.core = cache.core) :
    cache'.commandMarks = cache.commandMarks := by
  have hm : cache'.core.commandMarks = cache.core.commandMarks := by rw [h]
  exact hm

theorem commandMarks_setBalance (pair : Str × Str) (nAmount : CAmount) :
    (cache.setBalance env pair nAmount).commandMarks = cache.commandMarks :=
  commandMarks_of_core (core_setBalance pair nAmount)

theorem besideIssues_commandMarks : BesideIssues CAssetsCache.commandMarks :=
  ⟨commandMarks_of_core, fun _ _ => rfl, fun _ _ => rfl⟩

theorem commandMarks_addReissueOf :
    (addReissueOf env g cache tx).cache.commandMarks = cache.commandMarks := by
  have hreissue : ∀ (reissue : CReissueAsset) address out,
      (cache.addReissueAsset env g reissue address out).commandMarks = cache.commandMarks := by
    intro reissue address out
    unfold CAssetsCache.addReissueAsset
    split
    · rfl
    · exact commandMarks_setBalance _ _
  unfold addReissueOf
  dsimp only
  split
  · exact hreissue _ _ _
  · exact hreissue _ _ _

/-- The class of a transaction adds no commands. -/
theorem commandMarks_addClassAssets (nHeight : Nat) (blockHash : UInt256) :
    (addClassAssets env g cache tx nHeight blockHash).cache.commandMarks = cache.commandMarks := by
  cases hclass : !tx.isNewAsset env && tx.isReissueAsset with
  | false => exact besideIssues_commandMarks.addClassAssets hclass nHeight blockHash
  | true =>
    simp only [Bool.and_eq_true, Bool.not_eq_true'] at hclass
    simp only [addClassAssets, hclass, Bool.false_eq_true, if_false, if_true]
    exact commandMarks_addReissueOf

theorem commandMarks_removeReissueOf (h : removeReissueOf env g cache tx vUndoData = some cache') :
    cache'.commandMarks = cache.commandMarks := by
  unfold removeReissueOf at h
  split at h
  · cases h
  · split at h
    · unfold CAssetsCache.removeReissueAsset at h
      split at h
      · cases h
      · dsimp only at h
        split at h
        · cases h
        · cases h
          rw [besideIssues_commandMarks.undoVerifier]
          exact commandMarks_setBalance _ _
    · cases h
      rfl

/-- Taking back the class of a transaction takes no commands back. -/
theorem commandMarks_removeClassAssets
    (h : removeClassAssets env g cache tx vUndoData = some cache') :
    cache'.commandMarks = cache.commandMarks := by
  cases hclass : !tx.isNewAsset env && tx.isReissueAsset with
  | false => exact besideIssues_commandMarks.removeClassAssets hclass h
  | true =>
    simp only [Bool.and_eq_true, Bool.not_eq_true'] at hclass
    simp only [removeClassAssets, hclass, Bool.false_eq_true, if_false, if_true] at h
    exact commandMarks_removeReissueOf h

end Frames

section Commands

variable {env} {g : AssetGlobals} {cache cache' : CAssetsCache} {tx : CTransaction} {txout : CTxOut}
  {script : CScript}

theorem not_isNullAssetTxDataScript_of_verifier
    (h : isNullAssetVerifierTxDataScript script = true) :
    isNullAssetTxDataScript script = false ∧
      isNullGlobalRestrictionAssetTxDataScript script = false := by
  simp only [isNullAssetVerifierTxDataScript, Bool.and_eq_true, decide_eq_true_eq] at h
  obtain ⟨⟨-, hki⟩, hg⟩ := h
  have hne : opReserved ≠ 0x14 := by decide
  simp [isNullAssetTxDataScript, isNullGlobalRestrictionAssetTxDataScript, hki, hg, hne]

theorem not_isNullGlobal_of_data (h : isNullAssetTxDataScript script = true) :
    isNullGlobalRestrictionAssetTxDataScript script = false := by
  simp only [isNullAssetTxDataScript, Bool.and_eq_true, decide_eq_true_eq] at h
  have hne : (0x14 : UInt8) ≠ opReserved := by decide
  simp [isNullGlobalRestrictionAssetTxDataScript, h.2, hne]

theorem nullCommand_eq_none (h : isNullAsset txout.scriptPubKey = false) :
    nullCommand env txout = none := by
  simp only [isNullAsset, Bool.or_eq_false_iff] at h
  simp [nullCommand, h.1.1, h.1.2]

theorem commandMarks_addQualifierAddress (assetName address : Str) (fAdd : Bool) :
    (cache.addQualifierAddress assetName address (qualifierType fAdd)).commandMarks =
      cache.commandMarks.add (.tag assetName address fAdd) := by
  obtain ⟨rootsAdd, rootsRemove, hr⟩ :=
    cache.exists_noteRootQualifier (qualifierType fAdd = .addQualifier) assetName address
  simp only [CAssetsCache.addQualifierAddress, hr]
  rfl

theorem commandMarks_removeQualifierAddress (assetName address : Str) (fAdd : Bool) :
    (cache.removeQualifierAddress assetName address (qualifierType fAdd)).commandMarks =
      cache.commandMarks.undo (.tag assetName address fAdd) := by
  obtain ⟨rootsAdd, rootsRemove, hr⟩ :=
    cache.exists_noteRootQualifier (qualifierType fAdd ≠ .addQualifier) assetName address
  simp only [CAssetsCache.removeQualifierAddress, hr]
  rfl

/-- The types as the source picks them, by a flag that is a number. -/
theorem qualifierType_eq (flag : Int8) :
    (if flag ≠ 0 then QualifierType.addQualifier else .removeQualifier) =
      qualifierType (flag ≠ 0) := by
  by_cases hf : flag = 0 <;> simp [qualifierType, hf]

theorem freezeType_eq (flag : Int8) :
    (if flag ≠ 0 then RestrictedType.freezeAddress else .unfreezeAddress) =
      freezeType (flag ≠ 0) := by
  by_cases hf : flag = 0 <;> simp [freezeType, hf]

theorem globalFreezeType_eq (flag : Int8) :
    (if flag ≠ 0 then RestrictedType.globalFreeze else .globalUnfreeze) =
      globalFreezeType (flag ≠ 0) := by
  by_cases hf : flag = 0 <;> simp [globalFreezeType, hf]

/-- A null-data output adds its command. A global one that cannot be read would still add a mark,
for the empty name. -/
theorem commandMarks_addNullOut
    (hr : isNullGlobalRestrictionAssetTxDataScript txout.scriptPubKey = true →
      (globalAssetNullDataFromScript txout.scriptPubKey).isSome = true) :
    (addNullOut env cache txout).commandMarks =
      (nullCommand env txout).toList.foldl CommandMarks.add cache.commandMarks := by
  unfold addNullOut nullCommand
  simp only [qualifierType_eq, freezeType_eq, globalFreezeType_eq]
  split
  · cases assetNullDataFromScript env txout.scriptPubKey with
    | none => rfl
    | some payload =>
      obtain ⟨data, address⟩ := payload
      dsimp only [Option.getD_some, Option.bind_some]
      cases nameTypeOrInvalid data.assetName with
      | qualifier => exact commandMarks_addQualifierAddress _ _ _
      | subQualifier => exact commandMarks_addQualifierAddress _ _ _
      | _ => rfl
  · split
    next hg =>
      obtain ⟨data, hd⟩ := Option.isSome_iff_exists.1 (hr hg)
      rw [hd]
      rfl
    · rfl

/-- Taking it back takes its command back. -/
theorem commandMarks_removeNullOut (h : removeNullOut env cache txout = some cache') :
    cache'.commandMarks =
      (nullCommand env txout).toList.foldl CommandMarks.undo cache.commandMarks := by
  unfold removeNullOut at h
  simp only [qualifierType_eq, freezeType_eq, globalFreezeType_eq] at h
  split at h
  next hv =>
    obtain ⟨hd, hg⟩ := not_isNullAssetTxDataScript_of_verifier hv
    cases h
    simp [nullCommand, hd, hg]
  · unfold nullCommand
    split at h
    next ht =>
      simp only [ht, if_true]
      cases hd : assetNullDataFromScript env txout.scriptPubKey with
      | none => simp [hd] at h
      | some payload =>
        obtain ⟨data, address⟩ := payload
        simp only [hd] at h
        dsimp only [Option.bind_some]
        cases hty : nameTypeOrInvalid data.assetName with
        | qualifier =>
          rw [hty] at h
          cases h
          exact commandMarks_removeQualifierAddress _ _ _
        | subQualifier =>
          rw [hty] at h
          cases h
          exact commandMarks_removeQualifierAddress _ _ _
        | _ =>
          rw [hty] at h
          cases h
          rfl
    next ht =>
      simp only [ht, Bool.false_eq_true, if_false]
      split at h
      next hg =>
        simp only [hg, if_true]
        cases hd : globalAssetNullDataFromScript txout.scriptPubKey with
        | none => simp [hd] at h
        | some data =>
          simp only [hd] at h
          cases h
          rfl
      next hg =>
        cases h
        simp [hg]

theorem isUnspendable_of_isNullAsset (h : isNullAsset script = true) :
    isUnspendable script = true := by
  have hh : script.head? = some opCmusicaiAsset := by
    have hfirst : byteAt script 0 = opCmusicaiAsset := by
      simp only [isNullAsset, isNullAssetTxDataScript,
        isNullGlobalRestrictionAssetTxDataScript, isNullAssetVerifierTxDataScript,
        Bool.or_eq_true, Bool.and_eq_true, decide_eq_true_eq] at h
      tauto
    cases script with
    | nil => exact absurd hfirst (by decide)
    | cons op script => simpa [byteAt] using hfirst
  simp [isUnspendable, hh]

/-- The unspendable null data is all null data. -/
theorem filterMap_nullAssetOuts (tx : CTransaction) :
    tx.nullAssetOuts.filterMap (nullCommand env) = nullCommands env tx := by
  rw [nullAssetOuts, List.filterMap_filter, nullCommands]
  refine List.filterMap_congr fun txout _ => ?_
  split
  · rfl
  next hno =>
    symm
    apply nullCommand_eq_none
    cases hn : isNullAsset txout.scriptPubKey with
    | false => rfl
    | true => simp [hn, isUnspendable_of_isNullAsset hn] at hno

/-- All null data of a transaction. -/
theorem commandMarks_removeNullOuts
    (hrestricted : env.areRestrictedAssetsDeployed = true ∨ nullCommands env tx = [])
    (h : removeNullOuts env cache tx = some cache') :
    cache'.commandMarks = (nullCommands env tx).foldl CommandMarks.undo cache.commandMarks := by
  unfold removeNullOuts at h
  split at h
  · have hl := foldlM_some_invariant (fun (pre : List CTxOut) c => c.commandMarks =
      (pre.filterMap (nullCommand env)).foldl CommandMarks.undo cache.commandMarks) h rfl ?_
    · rwa [filterMap_nullAssetOuts] at hl
    · intro pre out c c' hp hstep
      rw [commandMarks_removeNullOut hstep, hp, List.filterMap_append, List.foldl_append]
      cases hc : nullCommand env out <;> simp [hc]
  next ho =>
    cases h
    rw [hrestricted.resolve_left ho]
    rfl

/-- The second half of `AddCoins`. -/
theorem commandMarks_foldl_addOutAssets {outs : List (COutPoint × CTxOut)}
    (ha : env.areAssetsDeployed = true)
    (hre : ∀ out ∈ outs, isNullGlobalRestrictionAssetTxDataScript out.2.scriptPubKey = true →
        (globalAssetNullDataFromScript out.2.scriptPubKey).isSome = true) :
    (outs.foldl (fun cache (out, txout) => addOutAssets env g cache out txout) cache).commandMarks =
      ((outs.map Prod.snd).filterMap (nullCommand env)).foldl CommandMarks.add
        cache.commandMarks := by
  induction outs generalizing cache with
  | nil => rfl
  | cons output outs ih =>
    obtain ⟨out, txout⟩ := output
    obtain ⟨hfirst, hr⟩ := List.forall_mem_cons.1 hre
    rw [List.foldl_cons, ih hr]
    dsimp only [addOutAssets]
    rw [if_pos ha, commandMarks_addNullOut hfirst, commandMarks_of_core (core_addTransferOut _ _)]
    cases hc : nullCommand env txout <;> simp [hc]

end Commands

/-- The command changes what is found at the tip. -/
def NullCommand.Changes (g : AssetGlobals) : NullCommand → Prop
  | .tag assetName address fAdd =>
    ({} : CAssetsCache).checkForAddressQualifier g assetName address true = !fAdd
  | .freeze assetName address fFreeze =>
    ({} : CAssetsCache).checkForAddressRestriction g assetName address true = !fFreeze
  | .globalFreeze assetName fFreeze =>
    ({} : CAssetsCache).checkForGlobalRestriction g assetName true = !fFreeze

section Admission

variable {env} {g : AssetGlobals} {cache : CAssetsCache} {tx : CTransaction} {txout : CTxOut}
  {u : Unit} {mempool : MempoolAssets}

/-- The common end of the three checks. -/
theorem eq_not_of_flag {flag : Int8} {found : Bool} {already missing : Str}
    (h : (do
      verifyNullAssetDataFlag flag
      if flag ≠ 0 then failIf found already else failIf (!found) missing : Except Str Unit) =
        .ok u) : found = !decide (flag ≠ 0) := by
  obtain ⟨-, -, h⟩ := bind_eq_ok.1 h
  split at h
  next hf =>
    rw [failIf_eq_ok] at h
    simp [h, hf]
  next hf =>
    simpa [hf] using h

theorem assetNameType_of_nameTypeOrInvalid {name : Str} {type : AssetType}
    (h : nameTypeOrInvalid name = type) (hvalid : type ≠ .invalid) :
    assetNameType name = some type := by
  unfold nameTypeOrInvalid at h
  cases hname : assetNameType name with
  | none =>
    rw [hname] at h
    exact absurd h.symm hvalid
  | some found =>
    rw [hname] at h
    exact congrArg some h

theorem changes_of_contextualCheckNullAssetTxOut {command : NullCommand}
    (h : contextualCheckNullAssetTxOut env g cache txout = .ok u)
    (hd : isNullAssetTxDataScript txout.scriptPubKey = true)
    (hc : nullCommand env txout = some command) : command.Changes g := by
  unfold contextualCheckNullAssetTxOut at h
  simp only [nullCommand, hd, if_true] at hc
  obtain ⟨⟨data, address⟩, hp, hc⟩ := Option.bind_eq_some_iff.1 hc
  rw [hp] at h
  dsimp only at h hc
  have hta : ∀ type, nameTypeOrInvalid data.assetName = type →
      type = .qualifier ∨ type = .subQualifier →
      NullCommand.Changes g (.tag data.assetName address (data.flag ≠ 0)) := by
    intro type ht hki
    have hname := assetNameType_of_nameTypeOrInvalid ht (by rintro rfl; simp at hki)
    rw [isAssetNameAQualifier_of_type hname hki, if_pos rfl] at h
    exact eq_not_of_flag h
  cases ht : nameTypeOrInvalid data.assetName with
  | restricted =>
    rw [ht] at hc
    cases hc
    obtain ⟨hno, hrestricted⟩ :=
      isAssetNameAnRestricted_of_type (assetNameType_of_nameTypeOrInvalid ht (by decide))
    rw [hno, hrestricted] at h
    exact eq_not_of_flag h
  | qualifier =>
    rw [ht] at hc
    cases hc
    exact hta _ ht (Or.inl rfl)
  | subQualifier =>
    rw [ht] at hc
    cases hc
    exact hta _ ht (Or.inr rfl)
  | _ =>
    rw [ht] at hc
    cases hc

theorem changes_of_contextualCheckGlobalAssetTxOut
    (h : contextualCheckGlobalAssetTxOut g cache txout = .ok u) :
    ∃ data, globalAssetNullDataFromScript txout.scriptPubKey = some data ∧
      NullCommand.Changes g (.globalFreeze data.assetName (data.flag ≠ 0)) := by
  unfold contextualCheckGlobalAssetTxOut at h
  split at h
  · simp at h
  next data hd => exact ⟨data, hd, eq_not_of_flag h⟩

/-- What the checks say about the null data of an accepted transaction. -/
structure CommandsAdmitted (env : Env) (g : AssetGlobals) (tx : CTransaction) : Prop where
  deployed : nullCommands env tx ≠ [] →
    env.areAssetsDeployed = true ∧ env.areRestrictedAssetsDeployed = true
  readable : ∀ txout ∈ tx.vout,
    CScript.isNullGlobalRestrictionAssetTxDataScript txout.scriptPubKey = true →
      (globalAssetNullDataFromScript txout.scriptPubKey).isSome = true
  changes : ∀ command ∈ nullCommands env tx, command.Changes g

theorem commandsAdmitted_of_isNullAsset
    (h : ∀ txout ∈ tx.vout, isNullAsset txout.scriptPubKey = false) :
    CommandsAdmitted env g tx where
  deployed hso := by
    refine absurd (List.filterMap_eq_nil_iff.2 fun txout hout => ?_) hso
    exact nullCommand_eq_none (h txout hout)
  readable txout hout hg := by
    have hn := h txout hout
    simp [isNullAsset, hg] at hn
  changes command hm := by
    obtain ⟨txout, hout, hc⟩ := List.mem_filterMap.1 hm
    rw [nullCommand_eq_none (h txout hout)] at hc
    cases hc

theorem of_checkNullAssetOut (h : checkNullAssetOut env g cache txout = .ok u) :
    (isNullGlobalRestrictionAssetTxDataScript txout.scriptPubKey = true →
      (globalAssetNullDataFromScript txout.scriptPubKey).isSome = true) ∧
    ∀ command, nullCommand env txout = some command →
      env.areRestrictedAssetsDeployed = true ∧ command.Changes g := by
  unfold checkNullAssetOut at h
  dsimp only at h
  split at h
  next hn =>
    simp only [rejectIf, failIf_bind_eq_ok, Bool.not_eq_false'] at h
    obtain ⟨hde, h⟩ := h
    split at h
    next hd =>
      have hche := mapError_eq_ok.1 h
      refine ⟨fun hg => ?_, fun command hc => ⟨hde, ?_⟩⟩
      · rw [not_isNullGlobal_of_data hd] at hg
        cases hg
      · exact changes_of_contextualCheckNullAssetTxOut hche hd hc
    next hd =>
      split at h
      next hg =>
        obtain ⟨data, hr, hch⟩ :=
          changes_of_contextualCheckGlobalAssetTxOut (mapError_eq_ok.1 h)
        refine ⟨fun _ => by rw [hr]; rfl, fun command hc => ⟨hde, ?_⟩⟩
        simp only [nullCommand, hd, hg, hr, Bool.false_eq_true, if_false, if_true,
          Option.map_some, Option.some.injEq] at hc
        rw [← hc]
        exact hch
      next hg =>
        refine ⟨fun ht => absurd ht hg, fun command hc => ?_⟩
        simp [nullCommand, hd, hg] at hc
  next hn =>
    have hno : isNullAsset txout.scriptPubKey = false := by simpa using hn
    refine ⟨fun hg => ?_, fun command hc => ?_⟩
    · simp [isNullAsset, hg] at hno
    · rw [nullCommand_eq_none hno] at hc
      cases hc

/-- A transaction whose asset checks pass. -/
theorem commandsAdmitted_of_checkTxAssets {view : CCoinsViewCache} {fCheckMempool : Bool}
    {pairs : List (Str × UInt256)} (ha : env.areAssetsDeployed = true)
    (h : checkTxAssets env g cache tx view mempool fCheckMempool = .ok pairs) :
    CommandsAdmitted env g tx := by
  simp only [checkTxAssets, rejectIf, failIf_bind_eq_ok] at h
  obtain ⟨-, h⟩ := h
  obtain ⟨totalInputs, -, h⟩ := bind_eq_ok.1 h
  obtain ⟨outs, hsc, -⟩ := bind_eq_ok.1 h
  have hout : ∀ txout ∈ tx.vout, checkNullAssetOut env g cache txout = .ok () := by
    intro txout hm
    obtain ⟨c, c', hstep⟩ := step_ok_of_foldlM hsc txout hm
    simp only [scanAssetOutput, rejectIf, failIf_bind_eq_ok] at hstep
    obtain ⟨-, hstep⟩ := hstep
    obtain ⟨_, hn, -⟩ := bind_eq_ok.1 hstep
    exact hn
  refine ⟨fun hso => ?_, fun txout hm => (of_checkNullAssetOut (hout txout hm)).1, ?_⟩
  · obtain ⟨command, hc⟩ := List.exists_mem_of_ne_nil _ hso
    obtain ⟨txout, hm, hc⟩ := List.mem_filterMap.1 hc
    exact ⟨ha, ((of_checkNullAssetOut (hout txout hm)).2 command hc).1⟩
  · intro command hc
    obtain ⟨txout, hm, hc⟩ := List.mem_filterMap.1 hc
    exact ((of_checkNullAssetOut (hout txout hm)).2 command hc).2

/-- A connected transaction; the coinbase skips the checks. -/
theorem commandsAdmitted_of_connectTx {rules : BlockRules} {nHeight : Nat} {blockHash : UInt256}
    {fUndo : Bool} {conn conn' : Connected}
    (hco : tx.isCoinBase = true → CommandsAdmitted env g tx)
    (h : connectTx rules env g mempool nHeight blockHash fUndo conn tx = .ok conn') :
    CommandsAdmitted env g tx := by
  obtain ⟨nFees, st, txundo, undo, hi, -⟩ := connectTx_eq_ok.1 h
  split at hi
  next hcb => exact hco hcb
  · obtain ⟨txfee, -, -, ha, -⟩ := connectInputs_eq_ok.1 hi
    unfold connectAssets at ha
    split at ha
    · refine commandsAdmitted_of_isNullAsset fun txout hm => ?_
      have hn := forM_eq_ok.1 ha txout hm
      simp only [checkNoAssets, rejectIf, failIf_bind_eq_ok, failIf_eq_ok] at hn
      exact hn.2
    next hd =>
      obtain ⟨pairs, hc, -⟩ := bind_eq_ok.1 ha
      exact commandsAdmitted_of_checkTxAssets (by simpa using hd) hc

end Admission

end Cmusic
