import Cmusic.SlotUndo
import Cmusic.Inflation

/-! A block connected and taken back, seen from each asset. -/
namespace Cmusic

open Fallible Std AssetSlot

variable (env : Env) (g : AssetGlobals) (name : Str)

/-- What holds of an asset whose issue and reissues passed their checks, and of a name without
an asset. -/
structure AssetRecord.Sound (name : Str) (record : AssetRecord) : Prop where
  named : ∀ asset, record.data = some asset → asset.strName = name
  known : ∀ asset, record.data = some asset → record.known = true
  reissuable : ∀ asset, record.data = some asset → asset.nReissuable = 0 ∨ asset.nReissuable = 1
  hash : ∀ asset, record.data = some asset →
    asset.nHasIPFS = if asset.strIPFSHash = [] then 0 else 1
  unverified : record.known = false → record.verifier = none
  verified : ∀ asset, record.data = some asset →
    CTransaction.nameTypeOrInvalid name = .restricted → record.verifier.isSome = true

/-- `Flush` at the end of `ConnectTip` and `DisconnectTip`. -/
def AssetGlobals.flush (cache : CAssetsCache) : AssetGlobals :=
  { g with passets := cache.flush g.passets }

/-- The entries of a cache brought onto those of the layer below. -/
def AssetSlot.onto (slot below : AssetSlot) : AssetSlot where
  asset := slot.asset.keepOnto below.asset
  reissued := slot.reissued.or below.reissued
  verifier := slot.verifier.onto below.verifier

section Flush

variable {env g name} {cache passets : CAssetsCache} {slot below : AssetSlot}

theorem slot_flush : (cache.flush passets).slot name = (cache.slot name).onto (passets.slot name) := by
  unfold CAssetsCache.slot AssetSlot.onto
  congr 1
  · exact DirtyPair.marks_flush _ _ _
  · exact DirtyPair.getElem?_foldl_insert _ _ _
  · exact DirtyPair.marks_putFlush _ _ _

theorem proper_onto (h : slot.Proper name) (hb : below.Proper name) :
    (slot.onto below).Proper name where
  added := by
    intro entry he
    simp only [AssetSlot.onto, DirtyPair.Marks.keepOnto] at he
    cases hr : slot.asset.removed with
    | some removed => simp [hr, DirtyPair.Marks.remove] at he
    | none =>
      cases ha : slot.asset.added with
      | none => exact hb.added entry (by simpa [hr, ha] using he)
      | some added =>
        simp only [hr, ha, Option.elim_none, Option.elim_some, DirtyPair.Marks.add] at he
        cases hke : below.asset.added with
        | some kept => exact hb.added entry (by simpa [hke] using he)
        | none => exact h.added entry (by simpa [hke, ha] using he)
  reissued := by
    intro asset has
    simp only [AssetSlot.onto, Option.or_eq_some_iff] at has
    rcases has with ho | ⟨-, hke⟩
    · exact h.reissued asset ho
    · exact hb.reissued asset hke

end Flush

section Records

variable {env g name} {vtx : List CTransaction} {slot : AssetSlot} {item : Option CBlockAssetUndo}
  {cache undone : CAssetsCache}

theorem undoSlot_idle (hname : name ≠ []) (hno : ∀ tx ∈ vtx, issuesAt env name tx = false)
    (hrs : reissuesAt env name vtx = []) : undoSlot env g name item vtx slot = slot := by
  induction vtx with
  | nil => rfl
  | cons tx vtx ih =>
    obtain ⟨htx, hv⟩ := List.forall_mem_cons.1 hno
    rcases @actions_cases env name hname tx with ⟨r, hat, -⟩ | ⟨-, hissues⟩ | ⟨hat, -, hi⟩
    · rw [reissuesAt_cons_some hat] at hrs
      cases hrs
    · rw [htx] at hissues
      cases hissues
    · rw [undoSlot_cons, ih hv (reissuesAt_cons_none hat ▸ hrs), foldl_disconnectAt_of_ne hi]

end Records

section Blocks

variable {env g} {rules : BlockRules} {mempool : MempoolAssets} {nHeight : Nat}
  {blockHash : UInt256} {vtx : List CTransaction} {conn : Connected} {actions : List AssetAction}
  {slot : AssetSlot} {view : CCoinsViewCache}

theorem proper_foldl_connectAt {name : Str} (h : slot.Proper name)
    (hb : AssetSlot.Named g name {}) :
    (actions.foldl (connectAt env g name · nHeight blockHash) slot).Proper name :=
  List.foldlRecOn actions _ (motive := (AssetSlot.Proper · name)) h
    fun _ h _ _ => proper_connectAt h hb

theorem proper_foldl_disconnectAt {name : Str} {item : Option CBlockAssetUndo}
    (h : slot.Proper name) (hb : AssetSlot.Named g name {}) :
    (actions.foldl (disconnectAt env g name · item) slot).Proper name :=
  List.foldlRecOn actions _ (motive := (AssetSlot.Proper · name)) h
    fun _ h _ _ => proper_disconnectAt h hb

theorem proper_undoSlot {name : Str} {item : Option CBlockAssetUndo} (h : slot.Proper name)
    (hb : AssetSlot.Named g name {}) : (undoSlot env g name item vtx slot).Proper name := by
  induction vtx with
  | nil => exact h
  | cons tx vtx ih => exact proper_foldl_disconnectAt ih hb

/-- One transaction of a block, connected. -/
theorem connectedAt_step {tx : CTransaction} {fUndo : Bool} {conn' : Connected} {name : Str}
    (hname : name ≠ []) (hc : tx.isCoinBase = true → NoAssetOuts tx)
    (hn : ∀ name, (conn.st.cache.slot name).Named g name)
    (h : ConnectedAt env g name vtx (conn.st.cache.slot name) (conn.vUndoAssetData.lookup name))
    (htx : connectTx rules env g mempool nHeight blockHash fUndo conn tx = .ok conn') :
    ConnectedAt env g name (vtx ++ [tx]) (conn'.st.cache.slot name)
      (conn'.vUndoAssetData.lookup name) := by
  obtain ⟨hsl, hl⟩ := @slot_connectTx env g tx nHeight blockHash rules mempool fUndo conn conn'
    name hc hn htx
  obtain ⟨had, -⟩ := admitted_of_connectTx hc htx
  rw [hsl, hl hname]
  rcases @actions_cases env name hname tx with
    ⟨r, hat, hr, hac, hi⟩ | ⟨hat, hi⟩ | ⟨hat, hi, hid⟩
  · have hkn := had.known r.1 r.2 (by rw [hac]; exact List.mem_singleton_self _)
    rw [hr] at hkn
    rw [hac]
    exact connectedAt_reissue h hat hr hi hkn
  · exact connectedAt_issue h hat hi (had.not_known hi)
  · rw [foldl_connectAt_of_ne hid]
    exact connectedAt_idle h hat hi hid

/-- A block connected to an empty cache. -/
theorem connectedAt_connectTransactions
    (hco : ∀ tx ∈ vtx, tx.isCoinBase = true → NoAssetOuts tx)
    (hb : ∀ name, AssetSlot.Named g name {})
    (h : connectTransactions rules env g mempool nHeight blockHash ⟨view, {}⟩ vtx = .ok conn) :
    (∀ name, (conn.st.cache.slot name).Proper name) ∧
      (∀ name, name ≠ [] → ConnectedAt env g name vtx (conn.st.cache.slot name)
        (conn.vUndoAssetData.lookup name)) ∧
      ∀ tx ∈ vtx, env.areAssetsDeployed = true ∨ NoAssetOuts tx := by
  refine connectTransactions_invariant (fun pre c => (∀ name, (c.st.cache.slot name).Proper name) ∧
      (∀ name, name ≠ [] → ConnectedAt env g name pre (c.st.cache.slot name)
        (c.vUndoAssetData.lookup name)) ∧
      ∀ tx ∈ pre, env.areAssetsDeployed = true ∨ NoAssetOuts tx) h ?_ ?_
  · refine ⟨fun name => ?_, fun name _ => ?_, by simp⟩
    · rw [slot_empty]
      exact proper_empty
    · rw [slot_empty]
      exact connectedAt_nil
  · rintro pre tx post c c' rfl ⟨hp, hc, ha⟩ htx
    have hcb := hco tx (by simp)
    have hn : ∀ name, (c.st.cache.slot name).Named g name :=
      fun name => (hp name).named (hb name)
    refine ⟨fun name => ?_, fun name hname => ?_, fun tx' ht' => ?_⟩
    · rw [(slot_connectTx hcb hn htx).1]
      exact proper_foldl_connectAt (hp name) (hb name)
    · exact connectedAt_step hname hcb hn (hc name hname) htx
    · rcases List.mem_append.1 ht' with hpr | hl
      · exact ha tx' hpr
      · obtain rfl := List.mem_singleton.1 hl
        exact (admitted_of_connectTx hcb htx).2

/-- A block taken back, under every name. -/
theorem slot_disconnectTransactions {st : CoinState} {vtxundo : List CTxUndo}
    {vUndoData : List (Str × CBlockAssetUndo)} {d : Disconnected}
    (ha : ∀ tx ∈ vtx, env.areAssetsDeployed = true ∨ NoAssetOuts tx)
    (hp : ∀ name, (st.cache.slot name).Proper name) (hb : ∀ name, AssetSlot.Named g name {})
    (h : disconnectTransactions env g nHeight st vtx vtxundo vUndoData = some d) (name : Str) :
    d.st.cache.slot name =
      undoSlot env g name (vUndoData.lookup name) vtx (st.cache.slot name) := by
  refine (disconnectTransactions_invariant (fun post d => ∀ name,
    (d.st.cache.slot name).Proper name ∧ d.st.cache.slot name =
      undoSlot env g name (vUndoData.lookup name) post (st.cache.slot name)) h
    (fun name => ⟨hp name, rfl⟩) ?_ name).2
  intro post tx txundo c c' htx hsl hstep name
  have hslo := @slot_disconnectTx env g tx nHeight vUndoData c c' txundo name (ha tx htx)
    (fun name => (hsl name).1.named (hb name)) hstep
  refine ⟨?_, ?_⟩
  · rw [hslo]
    exact proper_foldl_disconnectAt (hsl name).1 (hb name)
  · rw [hslo, (hsl name).2]
    rfl

end Blocks

/-- An asset without decimals that may be reissued. -/
def wholeMusic : CNewAsset := { sampleMusic with units := 0, nReissuable := 1 }

/-- A reissue that spends a coin and the owner token, burns 10 coins and gives change. -/
def chainedReissue (hash : UInt256) (coinIn ownerIn : COutPoint) (change : CAmount)
    (reissue : CReissueAsset) : CTransaction where
  hash := hash
  nVersion := 2
  vin := [⟨coinIn, [], 0xffffffff⟩, ⟨ownerIn, [], 0xffffffff⟩]
  vout := [⟨10 * coin, CScript.payToPubKeyHash reissueBurnKey⟩, ⟨change, sampleScript⟩, sampleOwner,
    ⟨0, reissue.constructTransaction sampleScript⟩]
  nLockTime := 0

def connectSample (g : AssetGlobals) (base : TreeMap COutPoint Coin) (block : CBlock) :
    Checked Connected :=
  connectBlock sampleRules sampleEnv g {} sampleNode 10 ⟨{ base }, {}⟩ block

def disconnectSample (g : AssetGlobals) (block : CBlock) (conn : Connected) : DisconnectResult :=
  disconnectBlock sampleEnv (g.flush conn.st.cache) 10 ⟨{ base := conn.st.view.flush }, {}⟩ block
    conn.vtxundo conn.vUndoAssetData

/-- What the tip is after a block is connected and disconnected, with a flush after each. -/
def tipAfter (g : AssetGlobals) (base : TreeMap COutPoint Coin) (block : CBlock) :
    Option AssetGlobals :=
  match connectSample g base block with
  | .ok conn => (disconnectSample g block conn).state?.map fun st =>
      (g.flush conn.st.cache).flush st.cache
  | .error _ => none

theorem exists_of_tipAfter {g g' : AssetGlobals} {base : TreeMap COutPoint Coin} {block : CBlock}
    (h : tipAfter g base block = some g') :
    ∃ conn st', connectSample g base block = .ok conn ∧
      (disconnectSample g block conn).state? = some st' ∧
      (g.flush conn.st.cache).flush st'.cache = g' := by
  unfold tipAfter at h
  split at h
  next conn hc =>
    obtain ⟨st', hst, rfl⟩ := Option.map_eq_some_iff.1 h
    exact ⟨conn, st', hc, hst, rfl⟩
  · cases h

end Cmusic
