import Cmusic.AssetRoundTrip
import Cmusic.CacheRuns

/-! Runs of the active chain: blocks are connected and disconnected at the tip, and the asset cache
goes to the databases in between. -/
namespace Cmusic

open Fallible Std DirtyPair

/-- A block of the active chain with the undo data that was written for it. -/
structure LinkedBlock where
  block : CBlock
  vtxundo : List CTxUndo
  vUndoAssetData : List (Str × CBlockAssetUndo)

/-- The tip of a node. `active` holds the blocks since the start of the run, the tip first. -/
structure ChainState where
  coins : TreeMap COutPoint Coin
  store : AssetStore
  startHeight : Nat
  active : List LinkedBlock := []

/-- A row that a lookup puts into a row cache. -/
inductive RowKey where
  | assetData (name : Str)
  | verifier (name : Str)
  | addressQualifier (key : Str × Str)
  | restrictedAddress (key : Str × Str)
  | globalRestriction (name : Str)

/-- What can happen at the tip. The clock, the block index and the memory pool of a connect are not
part of the state. -/
inductive ChainEvent where
  | connect (mempool : MempoolAssets) (node : NodeState) (block : CBlock)
  | disconnect
  | dumpCacheToDatabase (unset : Int)
  | load (row : RowKey)

variable (rules : BlockRules) (env : Env)

def AssetStore.flush (s : AssetStore) (cache : CAssetsCache) : AssetStore :=
  { s with passets := cache.flush s.passets }

def AssetStore.load (s : AssetStore) : RowKey → AssetStore
  | .assetData name => { s with assetData := (s.assetData.lookup id name).2 }
  | .verifier name => { s with verifier := (s.verifier.get id name).2 }
  | .addressQualifier key =>
    { s with addressQualifier := (s.addressQualifier.lookup (rowHash env) key).2 }
  | .restrictedAddress key =>
    { s with restrictedAddress := (s.restrictedAddress.lookup (rowHash env) key).2 }
  | .globalRestriction name => { s with globalRestriction := (s.globalRestriction.lookup id name).2 }

namespace ChainState

def tipHeight (st : ChainState) : Nat := st.startHeight + st.active.length

/-- `ConnectTip` and `DisconnectTip` for a block that is accepted or taken back cleanly: a new block
cache over the tip, and its flush. The genesis block is in front of every run. -/
def step (st : ChainState) : ChainEvent → Option ChainState
  | .connect mempool node block =>
    if block.header.getHash rules.params = rules.params.hashGenesisBlock then none
    else match connectBlock rules env (st.store.globals env) mempool node (st.tipHeight + 1)
        ⟨{ base := st.coins }, {}⟩ block with
      | .error _ => none
      | .ok conn => some { st with
          coins := conn.st.view.flush
          store := st.store.flush conn.st.cache
          active := ⟨block, conn.vtxundo, conn.vUndoAssetData⟩ :: st.active }
  | .disconnect =>
    match st.active with
    | [] => none
    | linked :: rest =>
      match disconnectBlock env (st.store.globals env) st.tipHeight ⟨{ base := st.coins }, {}⟩
          linked.block linked.vtxundo linked.vUndoAssetData with
      | .ok d => some { st with
          coins := d.view.flush
          store := st.store.flush d.cache
          active := rest }
      | _ => none
  | .dumpCacheToDatabase unset => some { st with store := st.store.dumpCacheToDatabase env unset }
  | .load row => some { st with store := st.store.load env row }

/-- A tip without assets, over the given coins. -/
def initial (sizes : CacheSizes) (coins : TreeMap COutPoint Coin) (startHeight : Nat) : ChainState where
  coins := coins
  store := (CacheState.initial sizes).store
  startHeight := startHeight

end ChainState

/-- The states a run can reach by steps that are all allowed. -/
inductive Reachable (Allowed : ChainState → ChainEvent → Prop) : ChainState → Prop where
  | initial (sizes : CacheSizes) (coins : TreeMap COutPoint Coin) (startHeight : Nat) :
    Reachable Allowed (ChainState.initial sizes coins startHeight)
  | step {st st' : ChainState} (event : ChainEvent) (h : Reachable Allowed st)
    (hallowed : Allowed st event) (hstep : st.step rules env event = some st') :
    Reachable Allowed st'

/-- The steps of a list of events. -/
def ChainState.run (st : ChainState) (events : List ChainEvent) : Option ChainState :=
  events.foldlM (ChainState.step rules env) st

variable {rules env} {st st' : ChainState}

theorem reachable_run {events : List ChainEvent} (h : Reachable rules env (fun _ _ => True) st)
    (hru : st.run rules env events = some st') : Reachable rules env (fun _ _ => True) st' :=
  foldlM_some_invariant (fun _ st => Reachable rules env (fun _ _ => True) st) hru h
    fun _ event _ _ hr hstep => .step event hr trivial hstep

/-- What a connect step is made of. -/
theorem exists_of_step_connect {mempool : MempoolAssets} {node : NodeState} {block : CBlock}
    (h : st.step rules env (.connect mempool node block) = some st') :
    ∃ conn, checkBlock rules env node block = .ok () ∧
      connectTransactions rules env (st.store.globals env) mempool (st.tipHeight + 1)
        (block.header.getHash rules.params) ⟨{ base := st.coins }, {}⟩ block.vtx = .ok conn ∧
      st' = { st with
        coins := conn.st.view.flush
        store := st.store.flush conn.st.cache
        active := ⟨block, conn.vtxundo, conn.vUndoAssetData⟩ :: st.active } := by
  dsimp only [ChainState.step] at h
  split at h
  · cases h
  next hg =>
    split at h
    · cases h
    next conn hc =>
      cases h
      obtain ⟨_, hch, hc⟩ := bind_eq_ok.1 hc
      simp only [if_neg hg] at hc
      exact ⟨conn, hch, hc, rfl⟩

/-- What a disconnect step is made of. -/
theorem exists_of_step_disconnect (h : st.step rules env .disconnect = some st') :
    ∃ linked rest d, st.active = linked :: rest ∧
      disconnectTransactions env (st.store.globals env) st.tipHeight ⟨{ base := st.coins }, {}⟩
        linked.block.vtx linked.vtxundo linked.vUndoAssetData = some d ∧ d.fClean = true ∧
      st' = { st with
        coins := d.st.view.flush
        store := st.store.flush d.st.cache
        active := rest } := by
  dsimp only [ChainState.step] at h
  split at h
  · cases h
  next linked rest ha =>
    unfold disconnectBlock at h
    split at h
    next st₁ hst =>
      cases h
      split at hst
      · cases hst
      next d hd =>
        split at hst
        next hc =>
          cases hst
          exact ⟨linked, rest, d, ha, hd, hc, rfl⟩
        · cases hst
    · cases h

section Rows

/-- The cached rows are those of the table, and each is the row of the asset it names. -/
structure RowsSound (t : Table Str Str CDatabasedAssetData compare) : Prop where
  coherent : t.Coherent id fun _ => True
  named : ∀ (name : Str) row, t.db[name]? = some row → row.asset.strName = name

variable {t : Table Str Str CDatabasedAssetData compare} {name : Str} {row : CDatabasedAssetData}

theorem rowsSound_empty (maxSize : Nat) : RowsSound { cache := { maxSize } } where
  coherent := Table.coherent_empty maxSize
  named := by simp

theorem named_insert (h : RowsSound t) (hr : row.asset.strName = name) (n : Str)
    (found : CDatabasedAssetData) (hf : (t.db.insert name row)[n]? = some found) :
    found.asset.strName = n := by
  rw [Maps.getElem?_insert_eq] at hf
  split at hf
  next heq =>
    cases hf
    rw [hr, heq]
  · exact h.named n found hf

theorem RowsSound.write (h : RowsSound t) (hr : row.asset.strName = name) :
    RowsSound (t.write id name row) :=
  ⟨Table.coherent_write h.coherent trivial row, named_insert h hr⟩

theorem RowsSound.overwrite (h : RowsSound t) (hr : row.asset.strName = name) :
    RowsSound (t.overwrite id name row) :=
  ⟨Table.coherent_overwrite h.coherent row, named_insert h hr⟩

theorem RowsSound.erase (h : RowsSound t) (name : Str) : RowsSound (t.erase id name) where
  coherent := Table.coherent_erase h.coherent
  named := by
    intro n found hf
    refine h.named n found ?_
    rw [Table.erase, TreeMap.getElem?_erase] at hf
    split at hf
    · cases hf
    · exact hf

theorem RowsSound.lookup (h : RowsSound t) (name : Str) : RowsSound (t.lookup id name).2 where
  coherent := Table.coherent_lookup h.coherent trivial
  named := by
    rw [Table.db_lookup]
    exact h.named

theorem RowsSound.fst_lookup (h : RowsSound t) (name : Str) : (t.lookup id name).1 = t.db[name]? :=
  Table.fst_lookup h.coherent (fun _ _ _ _ heq => heq) trivial

end Rows

section Dump

variable {unset : Int} {p : CAssetsCache} {s : AssetStore}

theorem assetData_mapQuantity (f : PairMap CAmount → PairMap CAmount) :
    (s.mapQuantity env f).assetData = s.assetData := by
  unfold AssetStore.mapQuantity
  split <;> rfl

theorem assetData_dumpCacheToDatabase :
    (s.dumpCacheToDatabase env unset).assetData = (dumpAssets env unset s.passets s).assetData := by
  unfold AssetStore.dumpCacheToDatabase
  dsimp only [dumpSpends]
  rw [assetData_mapQuantity]

/-- What a removed asset does to the rows. -/
theorem assetData_dumpRemovedAsset (name : Str) (entry : CAssetCacheNewAsset) :
    (dumpRemovedAsset env s name entry).assetData = s.assetData.erase id name := by
  rw [dumpRemovedAsset, assetData_mapQuantity]

theorem assetData_dumpAddedAsset (name : Str) (entry : CAssetCacheNewAsset) :
    (dumpAddedAsset env s name entry).assetData =
      s.assetData.write id name ⟨entry.asset, entry.blockHeight, entry.blockHash⟩ := by
  rw [dumpAddedAsset, assetData_mapQuantity]

/-- A reissue or an undone one writes the reissued data, or nothing. -/
theorem assetData_dumpAddedReissue (out : COutPoint) (entry : CAssetCacheReissueAsset) :
    (dumpAddedReissue env unset p s out entry).assetData =
      p.mapReissuedAssetData[entry.reissue.strName]?.elim s.assetData fun asset =>
        s.assetData.overwrite id entry.reissue.strName (reissuedData unset asset entry) := by
  unfold dumpAddedReissue
  dsimp only
  split
  next hn => rw [hn]; rfl
  next asset hso => rw [assetData_mapQuantity, hso]; rfl

theorem assetData_dumpRemovedReissue (out : COutPoint) (entry : CAssetCacheReissueAsset) :
    (dumpRemovedReissue env unset p s out entry).assetData =
      if p.newAssets.toRemove.contains entry.reissue.strName then s.assetData
      else p.mapReissuedAssetData[entry.reissue.strName]?.elim s.assetData fun asset =>
        s.assetData.overwrite id entry.reissue.strName (reissuedData unset asset entry) := by
  unfold dumpRemovedReissue
  dsimp only
  split
  · rfl
  · split
    next hn => rw [hn]; rfl
    next asset hso => rw [assetData_mapQuantity, hso]; rfl

/-- The rule of invariants for the part of a dump that writes the rows. -/
theorem dumpAssets_invariant (P : Table Str Str CDatabasedAssetData compare → Prop)
    (h : P (dumpNewAssets env p.newAssets s).assetData)
    (hstep : ∀ t name entry asset, P t → p.mapReissuedAssetData[name]? = some asset →
      P (t.overwrite id name (reissuedData unset asset entry))) :
    P (dumpAssets env unset p s).assetData := by
  have he : ∀ (t : Table Str Str CDatabasedAssetData compare) (entry : CAssetCacheReissueAsset),
      P t → P (p.mapReissuedAssetData[entry.reissue.strName]?.elim t fun asset =>
        t.overwrite id entry.reissue.strName (reissuedData unset asset entry)) := by
    intro t entry ht
    cases hd : p.mapReissuedAssetData[entry.reissue.strName]? with
    | none => exact ht
    | some asset => exact hstep t _ entry asset ht hd
  have hb : P (dumpBalances env p (dumpNewAssets env p.newAssets s)).assetData := by
    rw [dumpBalances, assetData_mapQuantity]
    exact h
  refine foldl_invariant (fun s' : AssetStore => P s'.assetData) _
    (foldl_invariant (fun s' : AssetStore => P s'.assetData) _ hb ?_) ?_
  · intro s' out entry _ hs
    rw [assetData_dumpAddedReissue]
    exact he _ entry hs
  · intro s' out entry _ hs
    rw [assetData_dumpRemovedReissue]
    split
    · exact hs
    · exact he _ entry hs

/-- A dump of named data leaves sound rows. -/
theorem rowsSound_dumpCacheToDatabase (h : RowsSound s.assetData)
    (hp : ∀ name, (s.passets.slot name).Proper name) :
    RowsSound (s.dumpCacheToDatabase env unset).assetData := by
  rw [assetData_dumpCacheToDatabase]
  have hr : RowsSound (s.passets.newAssets.toRemove.foldl (dumpRemovedAsset env) s).assetData := by
    refine foldl_invariant (fun s' : AssetStore => RowsSound s'.assetData) _ h ?_
    intro s' name entry _ hs
    rw [assetData_dumpRemovedAsset]
    exact hs.erase name
  have hnew : RowsSound (dumpNewAssets env s.passets.newAssets s).assetData := by
    refine foldl_invariant (fun s' : AssetStore => RowsSound s'.assetData) _ hr ?_
    intro s' name entry he hs
    rw [assetData_dumpAddedAsset]
    exact hs.write ((hp name).added entry he)
  refine dumpAssets_invariant RowsSound hnew ?_
  intro t name entry asset ht hd
  exact ht.overwrite ((hp name).reissued asset hd)

/-- The row of an asset after the issued and removed ones are dumped. -/
theorem db_dumpNewAssets (d : DirtyPair Str CAssetCacheNewAsset compare) (name : Str) :
    (dumpNewAssets env d s).assetData.db[name]? =
      d.toAdd[name]?.elim (d.toRemove[name]?.elim s.assetData.db[name]? fun _ => none) fun entry =>
        some ⟨entry.asset, entry.blockHeight, entry.blockHash⟩ := by
  unfold dumpNewAssets
  rw [observe_foldl d.toAdd (fun s' : AssetStore => s'.assetData.db[name]?) name
      (fun _ entry => some ⟨entry.asset, entry.blockHeight, entry.blockHash⟩) ?_ ?_,
    observe_foldl d.toRemove (fun s' : AssetStore => s'.assetData.db[name]?) name
      (fun _ _ => none) ?_ ?_]
  · intro s' entry _
    rw [assetData_dumpRemovedAsset]
    exact TreeMap.getElem?_erase_self
  · intro s' n entry _ hne
    rw [assetData_dumpRemovedAsset]
    exact getElem?_erase_ne hne _
  · intro s' entry _
    rw [assetData_dumpAddedAsset]
    exact TreeMap.getElem?_insert_self
  · intro s' n entry _ hne
    rw [assetData_dumpAddedAsset]
    have hkey : id name ≠ id n := Ne.symm hne
    exact Table.getElem?_insert_of_ne hkey _ _

/-- A row that is there after the issues stays. -/
theorem isSome_dumpAssets {name : Str}
    (h : (dumpNewAssets env p.newAssets s).assetData.db[name]?.isSome = true) :
    (dumpAssets env unset p s).assetData.db[name]?.isSome = true := by
  refine dumpAssets_invariant (fun t => t.db[name]?.isSome = true) h ?_
  intro t n entry asset ht _
  rw [Table.overwrite, TreeMap.getElem?_insert]
  split
  · rfl
  · exact ht

end Dump

section Sound

variable (env) in
/-- What the tip keeps: data is stored under its own name, and the blocks of the chain were
checked. -/
structure TipSound (st : ChainState) : Prop where
  proper : ∀ name, (st.store.passets.slot name).Proper name
  rows : RowsSound st.store.assetData
  checked : ∀ linked ∈ st.active, ∀ tx ∈ linked.block.vtx,
    checkTransaction env tx true false true = .ok ()
  assets : ∀ linked ∈ st.active, ∀ tx ∈ linked.block.vtx,
    env.areAssetsDeployed = true ∨ NoAssetOuts tx

theorem assetData_globals {s : AssetStore} (h : RowsSound s.assetData) (name : Str) :
    (s.globals env).db.assetData name = s.assetData.db[name]? :=
  h.fst_lookup name

theorem TipSound.named (h : TipSound env st) (name : Str) :
    AssetSlot.Named (st.store.globals env) name {} := by
  intro asset hd
  simp only [AssetSlot.data, AssetSlot.issuedData, assetData_globals h.rows] at hd
  cases hr : st.store.passets.mapReissuedAssetData[name]? with
  | some reissued =>
    obtain rfl : reissued = asset := by simpa [AssetStore.globals, hr] using hd
    exact (h.proper name).reissued _ hr
  | none =>
    cases ha : st.store.passets.newAssets.toAdd[name]? with
    | some entry =>
      have he : entry.asset = asset := by
        simp [AssetStore.globals, hr, ha] at hd
        exact hd.2
      rw [← he]
      exact (h.proper name).added entry ha
    | none =>
      simp [AssetStore.globals, hr, ha] at hd
      obtain ⟨-, row, hro, rfl⟩ := hd
      exact h.rows.named name row hro

theorem noAssetOuts_of_coinbase {tx : CTransaction}
    (hf : env.areCoinbaseCheckAssetsDeployed = true)
    (h : checkTransaction env tx true false true = .ok ()) (hc : tx.isCoinBase = true) :
    NoAssetOuts tx := by
  simp only [checkTransaction, rejectIf, bind_eq_ok, checkTxInShape, hc, if_true] at h
  obtain ⟨_, -, _, -, _, -, _, -, _, -, _, -, _, ⟨_, -, _, -, ha⟩, -⟩ := h
  simp only [hf, Bool.true_and, failIf_eq_ok, List.any_eq_false, Bool.or_eq_true, not_or] at ha
  intro out hout
  have hsc := (ha out hout).1
  rwa [Bool.not_eq_true, Option.isSome_eq_false_iff, Option.isNone_iff_eq_none] at hsc

/-- The rule of invariants for the asset cache while a block is connected. -/
theorem cache_connectTransactions_invariant {g : AssetGlobals} {mempool : MempoolAssets}
    {nHeight : Nat} {blockHash : UInt256} {view : CCoinsViewCache} {vtx : List CTransaction}
    {conn : Connected} (P : List CTransaction → CAssetsCache → Prop)
    (hc : ∀ tx ∈ vtx, tx.isCoinBase = true → NoAssetOuts tx)
    (hb : ∀ name, AssetSlot.Named g name {})
    (h : connectTransactions rules env g mempool nHeight blockHash ⟨view, {}⟩ vtx = .ok conn)
    (h0 : P [] {})
    (hstep : ∀ pre tx post fUndo c c', vtx = pre ++ tx :: post → P pre c.st.cache →
      connectTx rules env g mempool nHeight blockHash fUndo c tx = .ok c' →
      (∀ name, c'.st.cache.slot name = (assetActions env tx).foldl
        (AssetSlot.connectAt env g name · nHeight blockHash) (c.st.cache.slot name)) →
      P (pre ++ [tx]) c'.st.cache) :
    P vtx conn.st.cache := by
  refine (connectTransactions_invariant (fun pre c => (∀ name, (c.st.cache.slot name).Proper name) ∧
      P pre c.st.cache) h ⟨fun name => ?_, h0⟩ ?_).2
  · rw [slot_empty]
    exact proper_empty
  · rintro pre tx post c c' hv ⟨hp, hP⟩ htx
    have hcb := hc tx (by rw [hv]; simp)
    have hsl : ∀ name, c'.st.cache.slot name = (assetActions env tx).foldl
        (AssetSlot.connectAt env g name · nHeight blockHash) (c.st.cache.slot name) :=
      fun name => (slot_connectTx hcb (fun n => (hp n).named (hb n)) htx).1
    refine ⟨fun name => ?_, hstep pre tx post _ c c' hv hP htx hsl⟩
    rw [hsl]
    exact proper_foldl_connectAt (hp name) (hb name)

theorem tipSound_initial (sizes : CacheSizes) (coins : TreeMap COutPoint Coin) (startHeight : Nat) :
    TipSound env (ChainState.initial sizes coins startHeight) where
  proper := by
    intro name
    change (CAssetsCache.slot {} name).Proper name
    exact proper_empty
  rows := rowsSound_empty sizes.assets
  checked := by simp [ChainState.initial]
  assets := by simp [ChainState.initial]

theorem tipSound_step {event : ChainEvent} (hf : env.areCoinbaseCheckAssetsDeployed = true)
    (h : TipSound env st) (hstep : st.step rules env event = some st') : TipSound env st' := by
  cases event with
  | connect mempool node block =>
    obtain ⟨conn, hch, hco, rfl⟩ := exists_of_step_connect hstep
    have hc := (transactions_of_checkBlock hch).2.2
    obtain ⟨hp, -, ha⟩ := connectedAt_connectTransactions
      (fun tx htx => noAssetOuts_of_coinbase hf (hc tx htx)) h.named hco
    refine ⟨fun name => ?_, h.rows, ?_, ?_⟩
    · change ((conn.st.cache.flush st.store.passets).slot name).Proper name
      rw [slot_flush]
      exact proper_onto (hp name) (h.proper name)
    · exact List.forall_mem_cons.2 ⟨hc, h.checked⟩
    · exact List.forall_mem_cons.2 ⟨ha, h.assets⟩
  | disconnect =>
    obtain ⟨linked, rest, d, hac, hd, -, rfl⟩ := exists_of_step_disconnect hstep
    have ha := h.assets
    have hc := h.checked
    rw [hac] at ha hc
    obtain ⟨ht, ha⟩ := List.forall_mem_cons.1 ha
    have he : ∀ name, (CAssetsCache.slot {} name).Proper name := by
      intro name
      exact proper_empty
    have hsl := slot_disconnectTransactions ht he h.named hd
    refine ⟨fun name => ?_, h.rows, (List.forall_mem_cons.1 hc).2, ha⟩
    change ((d.st.cache.flush st.store.passets).slot name).Proper name
    rw [slot_flush, hsl name]
    refine proper_onto ?_ (h.proper name)
    exact proper_undoSlot (he name) (h.named name)
  | dumpCacheToDatabase unset =>
    cases hstep
    refine ⟨fun name => ?_, rowsSound_dumpCacheToDatabase h.rows h.proper, h.checked, h.assets⟩
    exact proper_empty
  | load row =>
    cases hstep
    cases row with
    | assetData name => exact ⟨h.proper, h.rows.lookup name, h.checked, h.assets⟩
    | verifier name => exact ⟨h.proper, h.rows, h.checked, h.assets⟩
    | addressQualifier key => exact ⟨h.proper, h.rows, h.checked, h.assets⟩
    | restrictedAddress key => exact ⟨h.proper, h.rows, h.checked, h.assets⟩
    | globalRestriction name => exact ⟨h.proper, h.rows, h.checked, h.assets⟩

theorem tipSound_reachable {Allowed : ChainState → ChainEvent → Prop}
    (hf : env.areCoinbaseCheckAssetsDeployed = true) (h : Reachable rules env Allowed st) :
    TipSound env st := by
  induction h with
  | initial sizes coins startHeight => exact tipSound_initial sizes coins startHeight
  | step event _ _ hstep ih => exact tipSound_step hf ih hstep

end Sound

/-- The key hash of the address to which regtest burns the fee of an issue. -/
def issueBurnKey : Str :=
  [221, 163, 210, 23, 151, 255, 38, 203, 138, 233, 167, 105, 189, 198, 140, 244, 86, 127, 91, 186]

def runEnv : Env := burnEnv issueBurnKey [37, 163, 251, 43]

/-- An issue that spends a coin, burns 50 coins and gives change. -/
def issueTx (hash : UInt256) (coinIn : COutPoint) (change : CAmount) (asset : CNewAsset) :
    CTransaction where
  hash := hash
  nVersion := 2
  vin := [⟨coinIn, [], 0xffffffff⟩]
  vout := [⟨50 * coin, CScript.payToPubKeyHash issueBurnKey⟩, ⟨change, sampleScript⟩,
    ⟨0, asset.constructOwnerTransaction sampleScript⟩, ⟨0, asset.constructTransaction sampleScript⟩]
  nLockTime := 0

/-- A tip with a thousand coins and no assets. -/
def fundedStart : ChainState :=
  .initial smallSizes
    ((∅ : TreeMap COutPoint Coin).insert sampleOutPoint ⟨⟨1000 * coin, sampleScript⟩, 1, false⟩) 9

def connectEvent (block : CBlock) : ChainEvent := .connect {} sampleNode block

/-- A block that issues an asset. -/
def issueBlock : CBlock :=
  ⟨sampleHeader, [sampleCoinbase, issueTx 11 sampleOutPoint (900 * coin) wholeMusic]⟩

end Cmusic
