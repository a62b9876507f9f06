import Cmusic.NullCommands
import Cmusic.AssetRoundTrip

/-! A block connected and taken back, seen from the tags and the freezes. -/
namespace Cmusic

open Fallible Std CAssetsCache

variable {env : Env} {g : AssetGlobals} {tx : CTransaction} {vtx : List CTransaction}
  {nHeight : Nat} {blockHash : UInt256} {rules : BlockRules} {mempool : MempoolAssets}

section Blocks

/-- A connected transaction adds its commands. -/
theorem commandMarks_connectTx {fUndo : Bool} {conn conn' : Connected}
    (ha : CommandsAdmitted env g tx)
    (h : connectTx rules env g mempool nHeight blockHash fUndo conn tx = .ok conn') :
    conn'.st.cache.commandMarks =
      (nullCommands env tx).foldl CommandMarks.add conn.st.cache.commandMarks := by
  obtain ⟨nFees, st, txundo, undo, -, -, -, hu, rfl⟩ := connectTx_eq_ok.1 h
  obtain ⟨cache, update, hc, hclass, ho, -⟩ := exists_cache_of_updateCoins hu
  rw [ho, ← commandMarks_of_core hc, hclass]
  cases hd : env.areAssetsDeployed with
  | true =>
    have hr : ∀ out ∈ tx.outpoints,
        CScript.isNullGlobalRestrictionAssetTxDataScript out.2.scriptPubKey = true →
          (globalAssetNullDataFromScript out.2.scriptPubKey).isSome = true := by
      intro out hout
      refine ha.readable out.2 ?_
      rw [← outpoints_map_snd tx]
      exact List.mem_map_of_mem hout
    simp only [if_true]
    rw [commandMarks_foldl_addOutAssets hd hr, commandMarks_addClassAssets, outpoints_map_snd]
    rfl
  | false =>
    have hn : nullCommands env tx = [] := by
      by_contra hso
      rw [(ha.deployed hso).1] at hd
      cases hd
    rw [hn]
    simp [addOutAssets, hd]

variable {vUndoData : List (Str × CBlockAssetUndo)} {g' : AssetGlobals}

/-- A disconnected transaction takes them back. -/
theorem commandMarks_disconnectTx {d d' : Disconnected} {txundo : Option CTxUndo}
    (ha : CommandsAdmitted env g tx)
    (h : disconnectTx env g' nHeight vUndoData d (tx, txundo) = some d') :
    d'.st.cache.commandMarks =
      (nullCommands env tx).foldl CommandMarks.undo d.st.cache.commandMarks := by
  rcases exists_cache_of_disconnectTx h with
    ⟨ho, hc⟩ | ⟨-, first, second, third, hfirst, hse, hnu, hc⟩
  · have hn : nullCommands env tx = [] := by
      by_contra hso
      rw [(ha.deployed hso).1] at ho
      cases ho
    rw [commandMarks_of_core hc, hn]
    rfl
  · have hrestricted : env.areRestrictedAssetsDeployed = true ∨ nullCommands env tx = [] := by
      by_cases hn : nullCommands env tx = []
      · exact Or.inr hn
      · exact Or.inl (ha.deployed hn).2
    rw [commandMarks_of_core hc, commandMarks_removeNullOuts hrestricted hnu,
      commandMarks_of_core hse, commandMarks_removeClassAssets hfirst]

/-- A block connected to an empty cache. -/
theorem commandMarks_connectTransactions {view : CCoinsViewCache} {conn : Connected}
    (hc : ∀ tx ∈ vtx, tx.isCoinBase = true → CommandsAdmitted env g tx)
    (h : connectTransactions rules env g mempool nHeight blockHash ⟨view, {}⟩ vtx = .ok conn) :
    conn.st.cache.commandMarks = (vtx.flatMap (nullCommands env)).foldl CommandMarks.add {} ∧
      ∀ tx ∈ vtx, CommandsAdmitted env g tx := by
  refine connectTransactions_invariant (fun pre c => c.st.cache.commandMarks =
    (pre.flatMap (nullCommands env)).foldl CommandMarks.add {} ∧
      ∀ tx ∈ pre, CommandsAdmitted env g tx) h ⟨rfl, by simp⟩ ?_
  rintro pre tx post c c' rfl ⟨hm, ha⟩ htx
  have hnew : CommandsAdmitted env g tx := commandsAdmitted_of_connectTx (hc tx (by simp)) htx
  refine ⟨?_, ?_⟩
  · rw [commandMarks_connectTx hnew htx, hm, List.flatMap_append, List.foldl_append]
    simp
  · intro tx' hme
    rcases List.mem_append.1 hme with hp | hl
    · exact ha tx' hp
    · obtain rfl := List.mem_singleton.1 hl
      exact hnew

/-- A block taken back: the commands of later transactions first. -/
theorem commandMarks_disconnectTransactions {st : CoinState} {vtxundo : List CTxUndo}
    {d : Disconnected} (ha : ∀ tx ∈ vtx, CommandsAdmitted env g tx)
    (h : disconnectTransactions env g' nHeight st vtx vtxundo vUndoData = some d) :
    d.st.cache.commandMarks =
      (vtx.reverse.flatMap (nullCommands env)).foldl CommandMarks.undo st.cache.commandMarks := by
  refine disconnectTransactions_invariant (fun post d => d.st.cache.commandMarks =
    (post.reverse.flatMap (nullCommands env)).foldl CommandMarks.undo st.cache.commandMarks) h rfl ?_
  intro post tx txundo c c' hme hm hstep
  rw [commandMarks_disconnectTx (ha tx hme) hstep, hm, List.reverse_cons,
    List.flatMap_append, List.foldl_append]
  simp

end Blocks

/-- The commands on one key of one of the three dirty sets. -/
structure CommandKind (τ : Type) [DecidableEq τ] where
  flagOf : NullCommand → Option Bool
  type : Bool → τ
  marks : CommandMarks → DirtyPair.Marks τ
  type_injective : type true ≠ type false
  empty : marks {} = {}
  add : ∀ m command, marks (m.add command) = match flagOf command with
    | some fOn => ⟨some (type fOn), none⟩
    | none => marks m
  undo : ∀ m command, marks (m.undo command) = match flagOf command with
    | some fOn => ⟨none, some (type fOn)⟩
    | none => marks m
  flush : ∀ cache passets : CAssetsCache, marks (cache.flush passets).commandMarks =
    (marks cache.commandMarks).onto (marks passets.commandMarks)

namespace CommandKind

variable {τ : Type} [DecidableEq τ] (kind : CommandKind τ)
  {commands added undone : List NullCommand} {fOn : Bool}

/-- The flag of the key, over what is found below. -/
def flag (m : CommandMarks) (below : Bool) : Bool :=
  (kind.marks m).flag (kind.type true) (kind.type false) below

theorem flag_flush (cache passets : CAssetsCache) (below : Bool) :
    kind.flag (cache.flush passets).commandMarks below =
      kind.flag cache.commandMarks (kind.flag passets.commandMarks below) := by
  rw [flag, kind.flush, DirtyPair.Marks.flag_onto]
  rfl

/-- Undone commands that all say the same leave one mark, if there are any on the key. -/
theorem marks_foldl_undo (m : CommandMarks)
    (ha : ∀ command ∈ commands, ∀ flag, kind.flagOf command = some flag → flag = fOn) :
    (∃ command ∈ commands, kind.flagOf command = some fOn) ∧
        kind.marks (commands.foldl CommandMarks.undo m) = ⟨none, some (kind.type fOn)⟩ ∨
      (∀ command ∈ commands, ¬kind.flagOf command = some fOn) ∧
        kind.marks (commands.foldl CommandMarks.undo m) = kind.marks m := by
  refine DirtyPair.observe_list_foldl kind.marks (fun command => kind.flagOf command = some fOn) _
    (fun command _ hf m => ?_) (fun command hm hno m => ?_) m
  · rw [kind.undo, hf]
  · cases hf : kind.flagOf command with
    | none => rw [kind.undo, hf]
    | some flag => exact absurd (ha command hm flag hf ▸ hf) hno

theorem marks_foldl_add_of_none (m : CommandMarks)
    (hn : ∀ command ∈ commands, kind.flagOf command = none) :
    kind.marks (commands.foldl CommandMarks.add m) = kind.marks m := by
  induction commands generalizing m with
  | nil => rfl
  | cons command commands ih =>
    obtain ⟨hc, hr⟩ := List.forall_mem_cons.1 hn
    rw [List.foldl_cons, ih _ hr, kind.add, hc]

/-- The flag after a block is connected and taken back, where the commands on the key agree. The
undo has no old value: it sets the flag against the commands. -/
theorem flag_roundTrip (had : ∀ command ∈ added, command ∈ undone)
    (ha : ∀ command ∈ undone, ∀ flag, kind.flagOf command = some flag → flag = fOn)
    (below : Bool) :
    (∃ command ∈ undone, kind.flagOf command = some fOn) ∧
        kind.flag (undone.foldl CommandMarks.undo {})
          (kind.flag (added.foldl CommandMarks.add {}) below) = !fOn ∨
      (∀ command ∈ undone, kind.flagOf command = none) ∧
        kind.flag (undone.foldl CommandMarks.undo {})
          (kind.flag (added.foldl CommandMarks.add {}) below) = below := by
  rcases kind.marks_foldl_undo {} ha with ⟨hc, hm⟩ | ⟨hno, hm⟩
  · refine Or.inl ⟨hc, ?_⟩
    rw [flag, hm]
    cases fOn with
    | false => exact decide_eq_true rfl
    | true => exact decide_eq_false kind.type_injective
  · have hn : ∀ command ∈ undone, kind.flagOf command = none := by
      intro command hme
      cases hf : kind.flagOf command with
      | none => rfl
      | some flag =>
        rw [ha command hme flag hf] at hf
        exact absurd hf (hno command hme)
    have he : kind.marks (added.foldl CommandMarks.add {}) = kind.marks {} :=
      kind.marks_foldl_add_of_none {} fun command hme => hn command (had command hme)
    refine Or.inr ⟨hn, ?_⟩
    rw [flag, hm, flag, he, kind.empty, DirtyPair.Marks.flag_empty, DirtyPair.Marks.flag_empty]

/-- The flag is back where each command was against it. -/
theorem flag_restored {found : Bool} (had : ∀ command ∈ added, command ∈ undone)
    (hc : ∀ command ∈ undone, ∀ flag, kind.flagOf command = some flag → found = !flag) :
    kind.flag (undone.foldl CommandMarks.undo {})
      (kind.flag (added.foldl CommandMarks.add {}) found) = found := by
  have ha : ∀ command ∈ undone, ∀ flag, kind.flagOf command = some flag → flag = !found := by
    intro command hm flag hf
    rw [hc command hm flag hf, Bool.not_not]
  rcases kind.flag_roundTrip had ha found with ⟨-, hf⟩ | ⟨-, hf⟩
  · rw [hf, Bool.not_not]
  · exact hf

end CommandKind

/-- The tag of a qualifier on an address. -/
def tagKind (qualifier address : Str) : CommandKind QualifierType where
  flagOf
    | .tag assetName address' fAdd =>
      if (assetName, address') = (qualifier, address) then some fAdd else none
    | _ => none
  type := qualifierType
  marks m := m.tags.marks (qualifier, address)
  type_injective := by decide
  empty := DirtyPair.marks_empty _
  add m command := by
    cases command with
    | tag assetName address' fAdd =>
      dsimp only [CommandMarks.add]
      rw [DirtyPair.marks_putAdd]
      split_ifs <;> rfl
    | _ => rfl
  undo m command := by
    cases command with
    | tag assetName address' fAdd =>
      dsimp only [CommandMarks.undo]
      rw [DirtyPair.marks_putRemove]
      split_ifs <;> rfl
    | _ => rfl
  flush cache passets := DirtyPair.marks_putFlush _ _ _

/-- The freeze of an address for a restricted asset. -/
def freezeKind (restrictedName address : Str) : CommandKind RestrictedType where
  flagOf
    | .freeze assetName address' fFreeze =>
      if (assetName, address') = (restrictedName, address) then some fFreeze else none
    | _ => none
  type := freezeType
  marks m := m.freezes.marks (restrictedName, address)
  type_injective := by decide
  empty := DirtyPair.marks_empty _
  add m command := by
    cases command with
    | freeze assetName address' fFreeze =>
      dsimp only [CommandMarks.add]
      rw [DirtyPair.marks_putAdd]
      split_ifs <;> rfl
    | _ => rfl
  undo m command := by
    cases command with
    | freeze assetName address' fFreeze =>
      dsimp only [CommandMarks.undo]
      rw [DirtyPair.marks_putRemove]
      split_ifs <;> rfl
    | _ => rfl
  flush cache passets := DirtyPair.marks_putFlush _ _ _

/-- The freeze of a whole restricted asset. -/
def globalKind (restrictedName : Str) : CommandKind RestrictedType where
  flagOf
    | .globalFreeze assetName fFreeze => if assetName = restrictedName then some fFreeze else none
    | _ => none
  type := globalFreezeType
  marks m := m.globals.marks restrictedName
  type_injective := by decide
  empty := DirtyPair.marks_empty _
  add m command := by
    cases command with
    | globalFreeze assetName fFreeze =>
      dsimp only [CommandMarks.add]
      rw [DirtyPair.marks_putAdd]
      split_ifs <;> rfl
    | _ => rfl
  undo m command := by
    cases command with
    | globalFreeze assetName fFreeze =>
      dsimp only [CommandMarks.undo]
      rw [DirtyPair.marks_putRemove]
      split_ifs <;> rfl
    | _ => rfl
  flush cache passets := DirtyPair.marks_putFlush _ _ _

section Tip

variable (g) (cache : CAssetsCache) (name address : Str)

/-- Whether the address has the very tag, and not only one of a sub qualifier. -/
def AssetGlobals.tagged : Bool :=
  (tagKind name address).flag g.passets.commandMarks (g.db.addressQualifier (name, address))

theorem frozen_eq_flag : g.frozen name address =
    (freezeKind name address).flag g.passets.commandMarks
      (g.db.restrictedAddress (name, address)) := by
  unfold CommandKind.flag DirtyPair.Marks.flag DirtyPair.Marks.value
  simp only [AssetGlobals.frozen, checkForAddressRestriction, tempCache,
    freezeKind, DirtyPair.marks, commandMarks]
  cases g.passets.newRestrictedAddress.toRemove[(name, address)]? with
  | some type => rfl
  | none => cases g.passets.newRestrictedAddress.toAdd[(name, address)]? <;> rfl

theorem globallyFrozen_eq_flag : g.globallyFrozen name =
    (globalKind name).flag g.passets.commandMarks (g.db.globalRestriction name) := by
  unfold CommandKind.flag DirtyPair.Marks.flag DirtyPair.Marks.value
  simp only [AssetGlobals.globallyFrozen, checkForGlobalRestriction,
    tempCache, globalKind, DirtyPair.marks, commandMarks]
  cases g.passets.newRestrictedGlobal.toRemove[name]? with
  | some type => rfl
  | none => cases g.passets.newRestrictedGlobal.toAdd[name]? <;> rfl

/-- The lookup of a tag finds more than the very tag. -/
theorem tagged_eq_false {g : AssetGlobals} {name address : Str}
    (h : ({} : CAssetsCache).checkForAddressQualifier g name address true = false) :
    g.tagged name address = false := by
  unfold AssetGlobals.tagged CommandKind.flag DirtyPair.Marks.flag DirtyPair.Marks.value
  simp only [checkForAddressQualifier, tempCache] at h
  simp only [tagKind, DirtyPair.marks, commandMarks]
  cases hr : g.passets.newQualifierAddress.toRemove[(name, address)]? with
  | some type => simpa [hr, qualifierType] using h
  | none =>
    cases ha : g.passets.newQualifierAddress.toAdd[(name, address)]? with
    | some type => simpa [hr, ha, qualifierType] using h
    | none =>
      simp [hr, ha] at h
      simp [h]

/-- A flush brings the marks of a cache into force. -/
theorem tagged_flush : (g.flush cache).tagged name address =
    (tagKind name address).flag cache.commandMarks (g.tagged name address) :=
  (tagKind name address).flag_flush cache g.passets _

theorem frozen_flush : (g.flush cache).frozen name address =
    (freezeKind name address).flag cache.commandMarks (g.frozen name address) := by
  rw [frozen_eq_flag, frozen_eq_flag]
  exact (freezeKind name address).flag_flush cache g.passets _

theorem globallyFrozen_flush : (g.flush cache).globallyFrozen name =
    (globalKind name).flag cache.commandMarks (g.globallyFrozen name) := by
  rw [globallyFrozen_eq_flag, globallyFrozen_eq_flag]
  exact (globalKind name).flag_flush cache g.passets _

end Tip

section Keys

variable {qualifier name address : Str} {command : NullCommand} {flag : Bool}

theorem flagOf_tagKind : (tagKind qualifier address).flagOf command = some flag ↔
    command = .tag qualifier address flag := by
  cases command <;> simp [tagKind, and_assoc]

theorem flagOf_freezeKind : (freezeKind name address).flagOf command = some flag ↔
    command = .freeze name address flag := by
  cases command <;> simp [freezeKind, and_assoc]

theorem flagOf_globalKind : (globalKind name).flagOf command = some flag ↔
    command = .globalFreeze name flag := by
  cases command <;> simp [globalKind]

end Keys

section RoundTrip

variable {node : NodeState} {view view' : CCoinsViewCache} {block : CBlock} {conn : Connected}
  {st' : CoinState}

/-- The commands of a block that is connected to an empty cache, flushed, and taken back on another
empty cache. All of them are taken back, those of a genesis block without having been added. -/
theorem exists_commands_of_roundTrip
    (hcoi : ∀ tx ∈ block.vtx, tx.isCoinBase = true → CommandsAdmitted env g tx)
    (hcon : connectBlock rules env g mempool node nHeight ⟨view, {}⟩ block = .ok conn)
    (hdi : (disconnectBlock env (g.flush conn.st.cache) nHeight ⟨view', {}⟩ block
      conn.vtxundo conn.vUndoAssetData).state? = some st') :
    ∃ added undone : List NullCommand, (∀ command ∈ added, command ∈ undone) ∧
      (∀ command, command ∈ undone ↔ ∃ tx ∈ block.vtx, command ∈ nullCommands env tx) ∧
      (∀ command ∈ undone, command.Changes g) ∧
      conn.st.cache.commandMarks = added.foldl CommandMarks.add {} ∧
      st'.cache.commandMarks = undone.foldl CommandMarks.undo {} := by
  obtain ⟨d, hd, rfl⟩ := disconnectTransactions_of_state hdi
  obtain ⟨hch, hc⟩ := connectBlock_cases hcon
  have hme (command : NullCommand) : command ∈ block.vtx.reverse.flatMap (nullCommands env) ↔
      ∃ tx ∈ block.vtx, command ∈ nullCommands env tx := by
    simp only [List.mem_flatMap, List.mem_reverse]
  have hco : (∀ tx ∈ block.vtx, CommandsAdmitted env g tx) ∧
      ∃ added : List NullCommand, (∀ command ∈ added, ∃ tx ∈ block.vtx,
        command ∈ nullCommands env tx) ∧
        conn.st.cache.commandMarks = added.foldl CommandMarks.add {} := by
    rcases hc with rfl | hc
    · -- the genesis block: without undo data only a coinbase can be taken back
      obtain ⟨hh, -, -⟩ := transactions_of_checkBlock hch
      obtain ⟨tx, htx⟩ := List.length_eq_one_iff.1 (length_of_disconnectTransactions hd).symm
      refine ⟨fun tx' hme => hcoi tx' hme ?_, [], by simp, rfl⟩
      rw [htx] at hh hme
      obtain rfl := List.mem_singleton.1 hme
      simpa using hh
    · obtain ⟨had, ha⟩ := commandMarks_connectTransactions hcoi hc
      exact ⟨ha, _, fun command hin => List.mem_flatMap.1 hin, had⟩
  obtain ⟨ha, added, had, hm⟩ := hco
  refine ⟨added, _, fun command hin => (hme command).2 (had command hin), hme, ?_, hm,
    commandMarks_disconnectTransactions ha hd⟩
  intro command hin
  obtain ⟨tx, htx, hcom⟩ := (hme command).1 hin
  exact (ha tx htx).changes command hcom

/-- A block that is connected and disconnected leaves every freeze as it was, however often it froze
or unfroze the same key. The disconnect must succeed: a block whose amounts wrap is never taken back. -/
theorem frozen_flush_disconnectBlock
    (hcoinbase : ∀ tx ∈ block.vtx, tx.isCoinBase = true →
      ∀ txout ∈ tx.vout, CScript.isNullAsset txout.scriptPubKey = false)
    (hconnect : connectBlock rules env g mempool node nHeight ⟨view, {}⟩ block = .ok conn)
    (hdisconnect : (disconnectBlock env (g.flush conn.st.cache) nHeight ⟨view', {}⟩ block
      conn.vtxundo conn.vUndoAssetData).state? = some st') (name : Str) :
    (∀ address, ((g.flush conn.st.cache).flush st'.cache).frozen name address =
        g.frozen name address) ∧
      ((g.flush conn.st.cache).flush st'.cache).globallyFrozen name = g.globallyFrozen name := by
  obtain ⟨added, undone, ha, -, hc, hm, hm'⟩ := exists_commands_of_roundTrip
    (fun tx hme hcb => commandsAdmitted_of_isNullAsset (hcoinbase tx hme hcb)) hconnect hdisconnect
  refine ⟨fun address => ?_, ?_⟩
  · rw [frozen_flush, frozen_flush, hm, hm']
    refine (freezeKind name address).flag_restored ha fun command hme flag hf => ?_
    obtain rfl := flagOf_freezeKind.1 hf
    exact hc _ hme
  · rw [globallyFrozen_flush, globallyFrozen_flush, hm, hm']
    refine (globalKind name).flag_restored ha fun command hme flag hf => ?_
    obtain rfl := flagOf_globalKind.1 hf
    exact hc _ hme

end RoundTrip

/-- A transaction that spends a coin and a token, keeps both and carries null data. -/
def commandTx (hash : UInt256) (coinIn tokenIn : COutPoint) (change : CAmount) (token : CTxOut)
    (commands : List CTxOut) : CTransaction where
  hash := hash
  nVersion := 2
  vin := [⟨coinIn, [], 0xffffffff⟩, ⟨tokenIn, [], 0xffffffff⟩]
  vout := [⟨change, sampleScript⟩, token] ++ commands
  nLockTime := 0

/-- Null data for the address of the samples. -/
def sampleCommand (name : String) (flag : Int8) : CTxOut :=
  ⟨0, CNullAssetTxData.constructTransaction ⟨str name, flag⟩
    (getScriptForNullAssetDataDestination (List.replicate 20 1))⟩

theorem isNullAsset_sampleCoinbase :
    ∀ txout ∈ sampleCoinbase.vout, CScript.isNullAsset txout.scriptPubKey = false := by
  decide +kernel

/-- Two transactions that freeze the same address, and the first one the whole asset. -/
def freezingBlock : CBlock where
  header := sampleHeader
  vtx := [sampleCoinbase, commandTx 11 sampleOutPoint ownerOutPoint (900 * coin) sampleOwner
      [sampleCommand "$MUSIC" 1,
        ⟨0, CNullAssetTxData.constructGlobalRestrictionTransaction ⟨str "$MUSIC", 1⟩⟩],
    commandTx 13 ⟨11, 0⟩ ⟨11, 1⟩ (800 * coin) sampleOwner [sampleCommand "$MUSIC" 1]]

theorem isSome_tipAfter_freezingBlock :
    (tipAfter ownedGlobals ownedBase freezingBlock).isSome = true := by
  decide +kernel

theorem frozen_flush_disconnectBlock_freezingBlock :
    ∃ conn st', connectSample ownedGlobals ownedBase freezingBlock = .ok conn ∧
      (disconnectSample ownedGlobals freezingBlock conn).state? = some st' ∧
      ∀ name, (∀ address, ((ownedGlobals.flush conn.st.cache).flush st'.cache).frozen name address =
          ownedGlobals.frozen name address) ∧
        ((ownedGlobals.flush conn.st.cache).flush st'.cache).globallyFrozen name =
          ownedGlobals.globallyFrozen name := by
  obtain ⟨g', hg'⟩ := Option.isSome_iff_exists.1 isSome_tipAfter_freezingBlock
  obtain ⟨conn, st', hc, hst, -⟩ := exists_of_tipAfter hg'
  refine ⟨conn, st', hc, hst, frozen_flush_disconnectBlock ?_ hc hst⟩
  intro tx htx hcb
  have ho : ∀ tx ∈ freezingBlock.vtx.tail, tx.isCoinBase = false := by decide
  rcases List.mem_cons.1 htx with rfl | ht
  · exact isNullAsset_sampleCoinbase
  · rw [ho tx ht] at hcb
    cases hcb

section RoundTrip

variable {node : NodeState} {view view' : CCoinsViewCache} {block : CBlock} {conn : Connected}
  {st' : CoinState}

/-- Tags come back exactly when each tag that the block takes away is there under its own name. The
check also finds a tag where the address has a sub qualifier only, and the undo then sets the tag of
the root. As above, the disconnect must succeed. -/
theorem tagged_flush_disconnectBlock_iff
    (hcoinbase : ∀ tx ∈ block.vtx, tx.isCoinBase = true → CommandsAdmitted env g tx)
    (hconnect : connectBlock rules env g mempool node nHeight ⟨view, {}⟩ block = .ok conn)
    (hdisconnect : (disconnectBlock env (g.flush conn.st.cache) nHeight ⟨view', {}⟩ block
      conn.vtxundo conn.vUndoAssetData).state? = some st') :
    (∀ qualifier address, ((g.flush conn.st.cache).flush st'.cache).tagged qualifier address =
        g.tagged qualifier address) ↔
      ∀ tx ∈ block.vtx, ∀ qualifier address,
        NullCommand.tag qualifier address false ∈ nullCommands env tx →
          g.tagged qualifier address = true := by
  obtain ⟨added, undone, ha, hu, hc, hm, hm'⟩ :=
    exists_commands_of_roundTrip hcoinbase hconnect hdisconnect
  simp only [tagged_flush, hm, hm']
  constructor
  · intro hb tx htx qualifier address hme
    have hme := (hu _).2 ⟨tx, htx, hme⟩
    have hfo : ({} : CAssetsCache).checkForAddressQualifier g qualifier address true = true :=
      hc _ hme
    have hag : ∀ command ∈ undone, ∀ flag,
        (tagKind qualifier address).flagOf command = some flag → flag = false := by
      intro command hin flag hf
      obtain rfl := flagOf_tagKind.1 hf
      have ho : ({} : CAssetsCache).checkForAddressQualifier g qualifier address true = !flag :=
        hc _ hin
      rw [hfo] at ho
      simpa using ho.symm
    rw [← hb qualifier address]
    rcases (tagKind qualifier address).flag_roundTrip ha hag (g.tagged qualifier address) with
      ⟨-, hf⟩ | ⟨hn, -⟩
    · exact hf
    · have hno := hn _ hme
      rw [flagOf_tagKind.2 rfl] at hno
      cases hno
  · intro ht qualifier address
    refine (tagKind qualifier address).flag_restored ha fun command hme flag hf => ?_
    obtain rfl := flagOf_tagKind.1 hf
    cases flag with
    | false =>
      obtain ⟨tx, htx, hco⟩ := (hu _).1 hme
      exact ht tx htx qualifier address hco
    | true => exact tagged_eq_false (hc _ hme)

end RoundTrip

/-- A thousand coins, and the token of a qualifier. -/
def qualifierBase : TreeMap COutPoint Coin :=
  ((∅ : TreeMap COutPoint Coin).insert sampleOutPoint ⟨⟨1000 * coin, sampleScript⟩, 1, false⟩).insert
    ownerOutPoint ⟨sampleTransfer "#KYC" coin, 1, false⟩

/-- The address of the samples has the tag of a sub qualifier only. -/
def subTaggedGlobals : AssetGlobals where
  passets := {}
  db := { (sampleGlobals { strName := str "#KYC", nAmount := coin, units := 0 }).db with
    assetAddressQuantity := fun pair => if pair.1 = str "#KYC" then some coin else none
    addressQualifier := fun pair => pair.1 = str "#KYC/#US"
    addressRootQualifier := fun pair => pair.1 = str "#KYC" }

/-- The tag of the root is taken away from an address that does not have it. -/
def untaggingBlock : CBlock where
  header := sampleHeader
  vtx := [sampleCoinbase, commandTx 11 sampleOutPoint ownerOutPoint (900 * coin)
    (sampleTransfer "#KYC" coin) [sampleCommand "#KYC" 0]]

theorem tagged_tipAfter_untaggingBlock :
    (tipAfter subTaggedGlobals qualifierBase untaggingBlock).map
        (AssetGlobals.tagged · (str "#KYC") (scriptAddress sampleEnv sampleScript)) = some true := by
  decide +kernel

theorem tagged_flush_disconnectBlock_iff_untaggingBlock :
    ∃ conn st', connectSample subTaggedGlobals qualifierBase untaggingBlock = .ok conn ∧
      (disconnectSample subTaggedGlobals untaggingBlock conn).state? = some st' ∧
      ((∀ qualifier address, ((subTaggedGlobals.flush conn.st.cache).flush st'.cache).tagged
          qualifier address = subTaggedGlobals.tagged qualifier address) ↔
        ∀ tx ∈ untaggingBlock.vtx, ∀ qualifier address,
          NullCommand.tag qualifier address false ∈ nullCommands sampleEnv tx →
            subTaggedGlobals.tagged qualifier address = true) := by
  obtain ⟨g', hg', -⟩ := Option.map_eq_some_iff.1 tagged_tipAfter_untaggingBlock
  obtain ⟨conn, st', hc, hst, -⟩ := exists_of_tipAfter hg'
  refine ⟨conn, st', hc, hst, tagged_flush_disconnectBlock_iff ?_ hc hst⟩
  intro tx htx hcb
  have ho : ∀ tx ∈ untaggingBlock.vtx.tail, tx.isCoinBase = false := by decide
  rcases List.mem_cons.1 htx with rfl | ht
  · exact commandsAdmitted_of_isNullAsset isNullAsset_sampleCoinbase
  · rw [ho tx ht] at hcb
    cases hcb

/-- An address with a sub qualifier only has the tag of the root after the block is taken back. -/
theorem untaggingBlock_leaves_tag :
    ∃ conn st', connectSample subTaggedGlobals qualifierBase untaggingBlock = .ok conn ∧
      (disconnectSample subTaggedGlobals untaggingBlock conn).state? = some st' ∧
      subTaggedGlobals.tagged (str "#KYC") (scriptAddress sampleEnv sampleScript) = false ∧
      ((subTaggedGlobals.flush conn.st.cache).flush st'.cache).tagged (str "#KYC")
        (scriptAddress sampleEnv sampleScript) = true := by
  obtain ⟨g', hg', ht⟩ := Option.map_eq_some_iff.1 tagged_tipAfter_untaggingBlock
  obtain ⟨conn, st', hc, hst, rfl⟩ := exists_of_tipAfter hg'
  exact ⟨conn, st', hc, hst, by decide +kernel, ht⟩

end Cmusic
