import Cmusic.AddressIndex
import Cmusic.Inflation
import Cmusic.StillValid

/-! What the indexes hold once a block has been connected and disconnected again. -/
namespace Cmusic

open Fallible Std CScript CTransaction CCoinsViewCache IndexUpdates

section Items

variable (flags : IndexFlags) (env : Env) (nHeight : Nat) {tx : CTransaction}

/-- The updates for the inputs, given the coins they spend. -/
def spendUpdatesOf (i : Nat) (tx : CTransaction) (coins : List Coin) : IndexUpdates :=
  .concat ((tx.vin.zip coins).zipIdx.map fun item =>
    spendUpdate flags env nHeight i tx.hash item.2 item.1.1.prevout item.1.2.out)

def undoSpendUpdatesOf (i : Nat) (tx : CTransaction) (coins : List Coin) : IndexUpdates :=
  .concat ((tx.vin.zip coins).zipIdx.reverse.map fun item =>
    undoSpendUpdate flags env nHeight i tx.hash item.2 item.1.1.prevout item.1.2.out item.1.2.nHeight)

/-- What a transaction, the coins it spends and its place in the block add to the updates. -/
def connectItem (item : (CTransaction × List Coin) × Nat) : IndexUpdates :=
  (spendUpdatesOf flags env nHeight item.2 item.1.1 item.1.2).append
    (receiveUpdates flags env nHeight item.2 item.1.1)

def disconnectItem (item : (CTransaction × List Coin) × Nat) : IndexUpdates :=
  (undoReceiveUpdates flags env nHeight item.2 item.1.1).append
    (undoSpendUpdatesOf flags env nHeight item.2 item.1.1 item.1.2)

variable {flags env nHeight}

/-- The coins that each transaction finds for its inputs. -/
def SpentCoins (nHeight : Nat) : (COutPoint → Option Coin) → List (CTransaction × List Coin) → Prop
  | _, [] => True
  | coins, (tx, spent) :: items =>
    (tx.ledgerEntry nHeight).spent.map coins = spent.map some ∧
      SpentCoins nHeight ((tx.ledgerEntry nHeight).apply coins) items

theorem SpentCoins.concat {coins : COutPoint → Option Coin}
    {items : List (CTransaction × List Coin)} {spent : List Coin}
    (h : SpentCoins nHeight coins items)
    (htx : (tx.ledgerEntry nHeight).spent.map (Ledger.run coins
      (items.map fun item => item.1.ledgerEntry nHeight)) = spent.map some) :
    SpentCoins nHeight coins (items ++ [(tx, spent)]) := by
  induction items generalizing coins with
  | nil => exact ⟨htx, trivial⟩
  | cons item items ih => exact ⟨h.1, ih h.2 htx⟩

theorem spendUpdates_eq {view : CCoinsViewCache} {coins : List Coin} {i : Nat}
    (h : (tx.ledgerEntry nHeight).spent.map view.getCoin = coins.map some) :
    spendUpdates flags env nHeight i view tx = spendUpdatesOf flags env nHeight i tx coins := by
  unfold spendUpdates spendUpdatesOf
  cases hcb : tx.isCoinBase with
  | true =>
    have hn : coins = [] := by simpa [ledgerEntry, hcb] using h.symm
    simp [hn, concat]
  | false =>
    have hc : coins = tx.vin.map fun txin => view.accessCoin txin.prevout := by
      simp only [ledgerEntry, hcb, Bool.false_eq_true, if_false, List.map_map] at h
      have hg := congrArg (List.map fun coin => coin.getD Coin.cleared) h
      simpa [Function.comp_def, accessCoin] using hg.symm
    have hz : tx.vin.zip coins = tx.vin.map fun txin => (txin, view.accessCoin txin.prevout) := by
      rw [hc]
      simpa using List.zip_map' (f := id) (g := fun txin : CTxIn => view.accessCoin txin.prevout)
        (l := tx.vin)
    rw [if_neg (by decide), hz, List.zipIdx_map, List.map_map]
    rfl

end Items

section Collected

variable {flags : IndexFlags} {rules : BlockRules} {env : Env} {g : AssetGlobals}
  {mempool : MempoolAssets} {nHeight : Nat} {blockHash : UInt256} {base : TreeMap COutPoint Coin}
  {cache : CAssetsCache} {vtx : List CTransaction} {updates : IndexUpdates} {conn : Connected}
  {tx : CTransaction} {vUndoData : List (Str × CBlockAssetUndo)}

/-- The coins a connected transaction spends, and the view after it. -/
theorem spent_of_connectTx {coins : COutPoint → Option Coin} {fUndo : Bool} {c c' : Connected}
    (h : Follows base coins c.st.view) (hc : checkTransaction env tx true false true = .ok ())
    (hnew : NewId base tx.hash)
    (hstep : connectTx rules env g mempool nHeight blockHash fUndo c tx = .ok c') :
    ∃ spent, (tx.ledgerEntry nHeight).spent.map coins = spent.map some ∧
      Follows base ((tx.ledgerEntry nHeight).apply coins) c'.st.view ∧
      c'.vtxundo = if fUndo then c.vtxundo ++ [spent] else c.vtxundo := by
  obtain ⟨_, st, txundo, _, -, -, -, hu, rfl⟩ := connectTx_eq_ok.1 hstep
  refine ⟨txundo, ?_, follows_updateCoins h hnew hu, rfl⟩
  obtain ⟨mid, hsp, -⟩ := exists_of_updateCoins hu
  cases hcb : tx.isCoinBase with
  | true =>
    rw [hcb, if_pos rfl] at hsp
    cases hsp
    simp [ledgerEntry, hcb]
  | false =>
    rw [hcb, if_neg (by decide)] at hsp
    have hun := map_getCoin_of_spendInputs (nodup_of_checkTransaction hc)
      (haveCoin_of_connectTx hcb hstep) hsp
    simpa [ledgerEntry, hcb, Function.comp_def, h.getCoin] using hun.symm

/-- What the loop of `ConnectBlock` collects. -/
theorem exists_of_foldlM_connectTxIndexed (hnew : NewIds base vtx)
    (hch : ∀ tx ∈ vtx, checkTransaction env tx true false true = .ok ())
    (h : vtx.zipIdx.foldlM (connectTxIndexed flags rules env g mempool nHeight blockHash)
      ({ st := { view := { base }, cache } }, {}) = .ok (conn, updates)) :
    ∃ items : List (CTransaction × List Coin), items.map Prod.fst = vtx ∧
      conn.vtxundo = (items.map Prod.snd).tail ∧
      updates = .concat (items.zipIdx.map (connectItem flags env nHeight)) ∧
      SpentCoins nHeight (getCoin { base }) items := by
  have hm : vtx.zipIdx.map Prod.fst = vtx := List.zipIdx_map_fst 0 vtx
  have hr := foldlM_invariant_split (fun pre (acc : Connected × IndexUpdates) =>
    ∃ items : List (CTransaction × List Coin), items.map Prod.fst = pre.map Prod.fst ∧
      acc.1.vtxundo = (items.map Prod.snd).tail ∧
      acc.2 = .concat (items.zipIdx.map (connectItem flags env nHeight)) ∧
      SpentCoins nHeight (getCoin { base }) items ∧
      Follows base (Ledger.run (getCoin { base })
        (items.map fun item => item.1.ledgerEntry nHeight)) acc.1.st.view) h ?_ ?_
  · obtain ⟨items, ht, hun, hu, hsp, -⟩ := hr
    exact ⟨items, ht.trans hm, hun, hu, hsp⟩
  · exact ⟨[], rfl, rfl, rfl, trivial, tidy_of_empty base, rfl, rfl⟩
  · rintro pre ⟨tx, i⟩ post ⟨c, u⟩ ⟨c', u'⟩ hspl ⟨items, ht, hun, hu, hsp, hf⟩ hstep
    obtain ⟨conn', hco, hre⟩ := bind_eq_ok.1 hstep
    cases hre
    have htx : tx ∈ vtx := by
      have hme : tx ∈ vtx.zipIdx.map Prod.fst := by simp [hspl]
      rwa [hm] at hme
    have hi : items.length = i := by
      have hg : vtx.zipIdx[pre.length]? = some (tx, i) := by simp [hspl]
      simp only [List.getElem?_zipIdx, Option.map_eq_some_iff, Prod.mk.injEq] at hg
      obtain ⟨_, -, -, rfl⟩ := hg
      simpa using congrArg List.length ht
    obtain ⟨spent, hc, hnext, hu'⟩ := spent_of_connectTx hf (hch tx htx)
      (hnew.new tx htx) hco
    refine ⟨items ++ [(tx, spent)], by simp [ht], ?_, ?_, hsp.concat hc, ?_⟩
    · dsimp only
      rw [hu', hun]
      cases items with
      | nil => simp [← hi]
      | cons first rest => simp [← hi]
    · rw [List.zipIdx_append, List.map_append, concat_append, hi, ← hu,
        spendUpdates_eq (hf.getCoin ▸ hc), append_assoc]
      simp [concat_singleton, connectItem]
    · rw [List.map_append, Ledger.run_append]
      exact hnext

theorem getCoin_addCoin {view view' : CCoinsViewCache} {outpoint : COutPoint} {coin : Coin}
    {possibleOverwrite : Bool} (hsp : isUnspendable coin.out.scriptPubKey = false)
    (h : view.addCoin outpoint coin possibleOverwrite = some view') :
    view'.getCoin outpoint = some coin := by
  unfold addCoin at h
  split at h
  · cases h
  next hu =>
    rw [hsp, if_neg (by decide)] at h
    dsimp only [addSpendable] at h
    split at h
    · cases h
    · cases h
      rw [getCoin_insert, Function.update_self]
      simp [Option.filter, hu]

/-- Undo data that are put back as they are: they have a height, and are spendable. -/
def Restorable (coin : Coin) : Prop :=
  coin.nHeight ≠ 0 ∧ CScript.isUnspendable coin.out.scriptPubKey = false

theorem accessCoin_of_restoreInput {acc acc' : CoinState × Bool} {txin : CTxIn} {undo : Coin}
    (hu : Restorable undo) (h : restoreInput env g acc (txin, undo) = some acc') :
    completeUndo acc.1.view txin.prevout undo = some undo ∧
      acc'.1.view.accessCoin txin.prevout = undo := by
  have hc : completeUndo acc.1.view txin.prevout undo = some undo := if_neg hu.1
  refine ⟨hc, ?_⟩
  obtain ⟨⟨fClean, st⟩, ha, hr⟩ := Option.bind_eq_some_iff.1 h
  cases hr
  obtain ⟨coin, hco, ha⟩ := Option.bind_eq_some_iff.1 ha
  obtain rfl : undo = coin := Option.some.inj (hc.symm.trans hco)
  obtain ⟨view, had, ha⟩ := Option.bind_eq_some_iff.1 ha
  have hv : st.view = view := by
    split at ha
    · split at ha <;> cases ha <;> rfl
    · cases ha
      rfl
  rw [hv, accessCoin, getCoin_addCoin hu.2 had]
  rfl

/-- Steps that each add to the updates add up. -/
theorem updates_of_foldlM {σ α : Type} {step : σ × IndexUpdates → α → Option (σ × IndexUpdates)}
    {f : α → IndexUpdates} {items : List α} {acc acc' : σ × IndexUpdates}
    (h : items.foldlM step acc = some acc')
    (hstep : ∀ item ∈ items, ∀ a a', step a item = some a' → a'.2 = a.2.append (f item)) :
    acc'.2 = acc.2.append (.concat (items.map f)) := by
  induction items generalizing acc with
  | nil =>
    cases h
    exact append_empty.symm
  | cons item items ih =>
    obtain ⟨mid, hm, hr⟩ := Option.bind_eq_some_iff.1 h
    rw [ih hr fun item hi => hstep item (List.mem_cons_of_mem _ hi),
      hstep item List.mem_cons_self _ _ hm, append_assoc]
    rfl

theorem updates_of_restoreInputsIndexed {i : Nat} {c c' : Disconnected} {u u' : IndexUpdates}
    {txundo : CTxUndo} (hcoi : ∀ coin ∈ txundo, Restorable coin)
    (h : restoreInputsIndexed flags env g nHeight i c u tx txundo = some (c', u')) :
    u' = u.append (undoSpendUpdatesOf flags env nHeight i tx txundo) := by
  unfold restoreInputsIndexed at h
  split at h
  · cases h
  · obtain ⟨⟨s, last⟩, hl, hre⟩ := Option.bind_eq_some_iff.1 h
    cases hre
    refine updates_of_foldlM hl ?_
    rintro ⟨⟨txin, undo⟩, j⟩ hi ⟨acc, v⟩ ⟨acc', v'⟩ hstep
    obtain ⟨restored, hr, hre⟩ := Option.bind_eq_some_iff.1 hstep
    cases hre
    have hu := (List.of_mem_zip (List.fst_mem_of_mem_zipIdx (List.mem_reverse.1 hi))).2
    obtain ⟨hc, hco⟩ := accessCoin_of_restoreInput (hcoi undo hu) hr
    rw [hc, hco]
    rfl

theorem updates_of_disconnectTxIndexed {i : Nat} {acc : Disconnected × IndexUpdates}
    {c' : Disconnected} {u' : IndexUpdates} {txundo : Option CTxUndo}
    (hc : ∀ coin ∈ txundo.getD [], Restorable coin)
    (h : disconnectTxIndexed flags env g nHeight vUndoData acc ((tx, txundo), i) = some (c', u')) :
    u' = acc.2.append (disconnectItem flags env nHeight ((tx, txundo.getD []), i)) := by
  obtain ⟨asset, -, h⟩ := Option.bind_eq_some_iff.1 h
  cases txundo with
  | none =>
    cases h
    have hn : undoSpendUpdatesOf flags env nHeight i tx [] = {} := by
      simp [undoSpendUpdatesOf, concat]
    rw [disconnectItem, Option.getD_none, hn, append_empty]
  | some txundo =>
    rw [updates_of_restoreInputsIndexed hc h, append_assoc]
    rfl

/-- What the loop of `DisconnectBlock` collects. -/
theorem updates_of_disconnectTransactionsIndexed {st : CoinState} {vtxundo : List CTxUndo}
    {d : Disconnected} (hco : ∀ spent ∈ vtxundo, ∀ coin ∈ spent, Restorable coin)
    (h : disconnectTransactionsIndexed flags env g nHeight st vtx vtxundo vUndoData =
      some (d, updates)) :
    vtxundo.length + 1 = vtx.length ∧ updates =
      .concat ((vtx.zip ([] :: vtxundo)).zipIdx.reverse.map (disconnectItem flags env nHeight)) := by
  unfold disconnectTransactionsIndexed at h
  split at h
  · cases h
  next hl =>
    refine ⟨not_not.1 hl, ?_⟩
    have hi : (vtx.zip ([] :: vtxundo)).zipIdx =
        (vtx.zip (none :: vtxundo.map some)).zipIdx.map fun item =>
          ((item.1.1, item.1.2.getD []), item.2) := by
      have hu : ([] :: vtxundo : List CTxUndo) = (none :: vtxundo.map some).map (·.getD []) := by
        simp [Function.comp_def]
      rw [hu, List.zip_map_right, List.zipIdx_map]
      rfl
    have hr := updates_of_foldlM h fun item hit _ _ => updates_of_disconnectTxIndexed ?_
    · rw [hi, ← List.map_reverse, List.map_map]
      exact hr
    · obtain ⟨⟨tx, txundo⟩, i⟩ := item
      intro coin hc
      have hm : (tx, txundo) ∈ vtx.zip (none :: vtxundo.map some) :=
        List.fst_mem_of_mem_zipIdx (List.mem_reverse.1 hit)
      rcases List.mem_cons.1 (List.of_mem_zip hm).2 with rfl | hso
      · cases hc
      · obtain ⟨spent, hsp, rfl⟩ := List.mem_map.1 hso
        exact hco spent hsp coin hc

end Collected

section Membership

variable {flags : IndexFlags} {env : Env} {nHeight i : Nat} {tx : CTransaction} {coins : List Coin}
  {v : CAddressIndexKey × CAmount}

theorem mem_toList_map {α β : Type} {o : Option α} {f : α → β} {b : β} :
    b ∈ o.toList.map f ↔ ∃ a, o = some a ∧ b = f a := by
  cases o with
  | none => simp
  | some a => simp

theorem exists_mem_zipIdx {α : Type} {l : List α} {p : α → Prop} :
    (∃ x ∈ l.zipIdx, p x.1) ↔ ∃ a ∈ l, p a := by
  constructor
  · rintro ⟨x, hx, hp⟩
    exact ⟨x.1, List.fst_mem_of_mem_zipIdx hx, hp⟩
  · rintro ⟨a, ha, hp⟩
    rw [← List.zipIdx_map_fst 0 l] at ha
    obtain ⟨x, hx, rfl⟩ := List.mem_map.1 ha
    exact ⟨x, hx, hp⟩

theorem exists_mem_outpoints {p : COutPoint × CTxOut → Prop} :
    (∃ x ∈ tx.vout.zipIdx, p (⟨tx.hash, UInt32.ofNat x.2⟩, x.1)) ↔ ∃ o ∈ tx.outpoints, p o := by
  simp [outpoints]

theorem mem_address_spendUpdatesOf (hf : flags.fAddressIndex = true) :
    v ∈ (spendUpdatesOf flags env nHeight i tx coins).addressIndex ↔
      ∃ x ∈ (tx.vin.zip coins).zipIdx, ∃ a, indexedOut env x.1.2.out = some a ∧
        v = (a.indexKey nHeight i tx.hash x.2 true, a.amount * -1) := by
  simp only [spendUpdatesOf, concat, spendUpdate, hf, if_true, List.flatMap_map,
    List.mem_flatMap, mem_toList_map]

theorem mem_address_undoSpendUpdatesOf (hf : flags.fAddressIndex = true) :
    v ∈ (undoSpendUpdatesOf flags env nHeight i tx coins).addressIndex ↔
      ∃ x ∈ (tx.vin.zip coins).zipIdx, ∃ a, indexedOut env x.1.2.out = some a ∧
        v = if a.kind = .pubKey then (a.indexKey nHeight i tx.hash x.2 false, a.amount)
          else (a.indexKey nHeight i tx.hash x.2 true, a.amount * -1) := by
  simp only [undoSpendUpdatesOf, concat, undoSpendUpdate, hf, if_true,
    List.flatMap_map, List.mem_flatMap, mem_toList_map, List.mem_reverse]

theorem mem_address_receiveUpdates (hf : flags.fAddressIndex = true) :
    v ∈ (receiveUpdates flags env nHeight i tx).addressIndex ↔
      ∃ x ∈ tx.vout.zipIdx, ∃ a, indexedOut env x.1 = some a ∧
        v = (a.indexKey nHeight i tx.hash x.2 false, a.amount) := by
  simp only [receiveUpdates, concat, receiveUpdate, hf, if_true, List.flatMap_map,
    List.mem_flatMap, mem_toList_map]

theorem mem_address_undoReceiveUpdates (hf : flags.fAddressIndex = true) :
    v ∈ (undoReceiveUpdates flags env nHeight i tx).addressIndex ↔
      v ∈ (receiveUpdates flags env nHeight i tx).addressIndex := by
  simp only [undoReceiveUpdates, receiveUpdates, concat, undoReceiveUpdate, receiveUpdate,
    hf, if_true, List.flatMap_map, List.mem_flatMap, List.mem_reverse]

end Membership

section Unspent

variable {flags : IndexFlags} {env : Env} {nHeight i : Nat} {tx : CTransaction} {spent : List Coin}
  {coins : COutPoint → Option Coin} {rows : CAddressUnspentKey → Option CAddressUnspentValue}
  {op : CAddressUnspentKey × Option CAddressUnspentValue}

/-- Every coin has its row. -/
def CoinRows (env : Env) (rows : CAddressUnspentKey → Option CAddressUnspentValue)
    (coins : COutPoint → Option Coin) : Prop :=
  ∀ outpoint coin, coins outpoint = some coin → ∀ a, indexedOut env coin.out = some a →
    rows (a.unspentKey outpoint) = (a.unspentValue coin.out.scriptPubKey coin.nHeight).row

/-- The writes of a transaction and of its undo. -/
def unspentOps (updates : IndexUpdates) : List (CAddressUnspentKey × Option CAddressUnspentValue) :=
  updates.addressUnspentIndex.map fun u => (u.1, u.2.row)

theorem unspentKey_inj {a b : IndexedOut} {outpoint outpoint' : COutPoint}
    (h : a.unspentKey outpoint = b.unspentKey outpoint') : outpoint = outpoint' := by
  simp only [IndexedOut.unspentKey, CAddressUnspentKey.mk.injEq] at h
  cases outpoint
  simp_all

/-- An input finds its coin. -/
theorem coins_of_mem_zip (h : (tx.ledgerEntry nHeight).spent.map coins = spent.map some)
    {p : CTxIn × Coin} (hp : p ∈ tx.vin.zip spent) :
    p.1.prevout ∈ (tx.ledgerEntry nHeight).spent ∧ coins p.1.prevout = some p.2 := by
  cases hcb : tx.isCoinBase with
  | true =>
    have hn : spent = [] := by simpa [ledgerEntry, hcb] using h.symm
    simp [hn] at hp
  | false =>
    simp only [ledgerEntry, hcb, Bool.false_eq_true, if_false] at h ⊢
    refine ⟨List.mem_map_of_mem (List.of_mem_zip hp).1, ?_⟩
    obtain ⟨j, hj⟩ := List.mem_iff_getElem?.1 hp
    obtain ⟨hin, hc⟩ := List.getElem?_zip_eq_some.1 hj
    have hg := congrArg (·[j]?) h
    simpa [hin, hc] using hg

theorem mem_unspentOps_connectItem (hf : flags.fAddressIndex = true) :
    op ∈ unspentOps (connectItem flags env nHeight ((tx, spent), i)) ↔
      (∃ p ∈ tx.vin.zip spent, ∃ a, indexedOut env p.2.out = some a ∧
        op = (a.unspentKey p.1.prevout, none)) ∨
      ∃ o ∈ tx.outpoints, ∃ a, indexedOut env o.2 = some a ∧
        op = (a.unspentKey o.1, (a.unspentValue o.2.scriptPubKey nHeight).row) := by
  simp only [unspentOps, connectItem, spendUpdatesOf, receiveUpdates, append,
    concat, spendUpdate, receiveUpdate, hf, if_true, List.map_append,
    List.mem_append, List.flatMap_map, List.map_flatMap, List.map_map, List.mem_flatMap,
    mem_toList_map]
  exact or_congr
    (exists_mem_zipIdx (p := fun p : CTxIn × Coin => ∃ a, indexedOut env p.2.out = some a ∧
      op = (a.unspentKey p.1.prevout, none)))
    (exists_mem_outpoints (p := fun o => ∃ a, indexedOut env o.2 = some a ∧
      op = (a.unspentKey o.1, (a.unspentValue o.2.scriptPubKey nHeight).row)))

/-- No input of the transaction spends an output that pays to a public key. -/
def KeyFree (env : Env) (item : CTransaction × List Coin) : Prop :=
  ∀ p ∈ item.1.vin.zip item.2, ∀ a, indexedOut env p.2.out = some a → a.kind ≠ .pubKey

theorem mem_unspentOps_disconnectItem (hf : flags.fAddressIndex = true)
    (hki : KeyFree env (tx, spent)) :
    op ∈ unspentOps (disconnectItem flags env nHeight ((tx, spent), i)) ↔
      (∃ o ∈ tx.outpoints, ∃ a, indexedOut env o.2 = some a ∧ op = (a.unspentKey o.1, none)) ∨
      ∃ p ∈ tx.vin.zip spent, ∃ a, indexedOut env p.2.out = some a ∧
        op = (a.unspentKey p.1.prevout, (a.unspentValue p.2.out.scriptPubKey p.2.nHeight).row) := by
  simp only [unspentOps, disconnectItem, undoReceiveUpdates, undoSpendUpdatesOf, append,
    concat, undoReceiveUpdate, undoSpendUpdate, hf, if_true, List.map_append,
    List.mem_append, List.flatMap_map, List.map_flatMap, List.map_map, List.mem_flatMap,
    List.mem_reverse, mem_toList_map]
  refine or_congr (exists_mem_outpoints (p := fun o => ∃ a, indexedOut env o.2 = some a ∧
    op = (a.unspentKey o.1, none))) (Iff.trans ?_ exists_mem_zipIdx)
  refine exists_congr fun x => and_congr_right fun hx => exists_congr fun a => and_congr_right fun ha => ?_
  dsimp only [Function.comp_apply]
  rw [if_neg (hki x.1 (List.fst_mem_of_mem_zipIdx hx) a ha)]

/-- The rows that a transaction touches are put back when it is taken back. -/
theorem write_unspentOps (hf : flags.fAddressIndex = true)
    (hsp : (tx.ledgerEntry nHeight).spent.map coins = spent.map some)
    (hr : CoinRows env rows coins)
    (hnew : ∀ key : CAddressUnspentKey, key.txhash = tx.hash → rows key = none)
    (hki : KeyFree env (tx, spent)) :
    Batch.write (Batch.write rows (unspentOps (connectItem flags env nHeight ((tx, spent), i))))
      (unspentOps (disconnectItem flags env nHeight ((tx, spent), i))) = rows := by
  refine Batch.write_write_eq (fun op hop => ?_) (fun op hop => ?_)
  · rcases (mem_unspentOps_disconnectItem hf hki).1 hop with
      ⟨o, ho, a, ha, rfl⟩ | ⟨p, hp, a, ha, rfl⟩
    · exact (hnew _ (hash_of_mem_outpoints ho)).symm
    · exact (hr _ _ (coins_of_mem_zip hsp hp).2 a ha).symm
  · rcases (mem_unspentOps_connectItem hf).1 hop with ⟨p, hp, a, ha, rfl⟩ | ⟨o, ho, a, ha, rfl⟩
    · exact List.mem_map.2 ⟨_, (mem_unspentOps_disconnectItem hf hki).2
        (Or.inr ⟨p, hp, a, ha, rfl⟩), rfl⟩
    · exact List.mem_map.2 ⟨_, (mem_unspentOps_disconnectItem hf hki).2
        (Or.inl ⟨o, ho, a, ha, rfl⟩), rfl⟩

/-- A transaction leaves a row for every coin. -/
theorem coinRows_write (hf : flags.fAddressIndex = true) (hl : tx.vout.length < 2 ^ 32)
    (hsp : (tx.ledgerEntry nHeight).spent.map coins = spent.map some)
    (hr : CoinRows env rows coins)
    (hab : ∀ outpoint : COutPoint, outpoint.hash = tx.hash → coins outpoint = none) :
    CoinRows env (Batch.write rows (unspentOps (connectItem flags env nHeight ((tx, spent), i))))
      ((tx.ledgerEntry nHeight).apply coins) := by
  intro outpoint coin hco a ha
  rcases Ledger.create_eq_some hco with hol | hc
  · rw [Ledger.spend_apply] at hol
    split at hol
    · cases hol
    next hke =>
      -- the coin is neither spent nor of this transaction, so its row is not touched
      rw [Batch.write_of_notMem, hr outpoint coin hol a ha]
      intro hm
      obtain ⟨op, hop, hkey⟩ := List.mem_map.1 hm
      rcases (mem_unspentOps_connectItem hf).1 hop with ⟨p, hp, b, hb, rfl⟩ | ⟨o, ho, b, hb, rfl⟩
      · exact hke (unspentKey_inj hkey ▸ (coins_of_mem_zip hsp hp).1)
      · obtain rfl := unspentKey_inj hkey
        rw [hab _ (hash_of_mem_outpoints ho)] at hol
        cases hol
  · simp only [ledgerEntry, List.mem_map, List.mem_filter] at hc
    obtain ⟨⟨outpoint', out⟩, ⟨hout, -⟩, heq⟩ := hc
    obtain ⟨rfl, rfl⟩ := heq
    refine Batch.write_of_forall (List.mem_map.2 ⟨_, (mem_unspentOps_connectItem hf).2
      (Or.inr ⟨_, hout, a, ha, rfl⟩), rfl⟩) fun op hop hkey => ?_
    rcases (mem_unspentOps_connectItem hf).1 hop with ⟨p, hp, b, hb, rfl⟩ | ⟨o, ho, b, hb, rfl⟩
    · have hn := hab p.1.prevout (unspentKey_inj hkey ▸ hash_of_mem_outpoints hout)
      rw [(coins_of_mem_zip hsp hp).2] at hn
      cases hn
    · obtain ⟨place, other⟩ := o
      obtain rfl := unspentKey_inj hkey
      have hsa := (getElem?_of_mem_outpoints hl ho).symm.trans
        (getElem?_of_mem_outpoints hl hout)
      cases hsa
      cases ha.symm.trans hb
      rfl

/-- A transaction leaves no row for the id of another one. -/
theorem write_unspentOps_of_ne (hf : flags.fAddressIndex = true) {key : CAddressUnspentKey}
    (hne : key.txhash ≠ tx.hash) (hn : rows key = none) :
    Batch.write rows (unspentOps (connectItem flags env nHeight ((tx, spent), i))) key = none := by
  by_cases hm : key ∈ (unspentOps (connectItem flags env nHeight ((tx, spent), i))).map Prod.fst
  · refine Batch.write_of_forall hm fun op hop hkey => ?_
    rcases (mem_unspentOps_connectItem hf).1 hop with ⟨p, hp, b, hb, rfl⟩ | ⟨o, ho, b, hb, rfl⟩
    · rfl
    · exact (hne (hkey ▸ hash_of_mem_outpoints ho)).elim
  · rw [Batch.write_of_notMem hm, hn]

theorem apply_of_hash_ne {outpoint : COutPoint} (hne : outpoint.hash ≠ tx.hash)
    (hn : coins outpoint = none) : (tx.ledgerEntry nHeight).apply coins outpoint = none := by
  rw [Ledger.Entry.apply, Ledger.create_of_notMem fun hm => hne (hash_of_mem_keys hm),
    Ledger.spend_apply, hn, ite_self]

/-- The rows of the unspent outputs are put back transaction by transaction. -/
theorem undone_unspentOps (hf : flags.fAddressIndex = true)
    {items : List ((CTransaction × List Coin) × Nat)}
    (hsp : SpentCoins nHeight coins (items.map Prod.fst)) (hr : CoinRows env rows coins)
    (hn : (items.map fun item => item.1.1.hash).Nodup)
    (hl : ∀ item ∈ items, item.1.1.vout.length < 2 ^ 32)
    (hnew : ∀ item ∈ items, ∀ key : CAddressUnspentKey, key.txhash = item.1.1.hash → rows key = none)
    (ha : ∀ item ∈ items, ∀ outpoint : COutPoint, outpoint.hash = item.1.1.hash →
      coins outpoint = none)
    (hki : ∀ item ∈ items, KeyFree env item.1) :
    Batch.Undone rows (items.map fun item => (unspentOps (connectItem flags env nHeight item),
      unspentOps (disconnectItem flags env nHeight item))) := by
  induction items generalizing rows coins with
  | nil => trivial
  | cons item items ih =>
    obtain ⟨⟨tx, spent⟩, i⟩ := item
    rw [List.map_cons, List.nodup_cons] at hn
    have ho : ∀ item ∈ items, item.1.1.hash ≠ tx.hash := by
      intro item hi heq
      exact hn.1 (heq ▸ List.mem_map_of_mem (f := fun item => item.1.1.hash) hi)
    refine ⟨write_unspentOps hf hsp.1 hr (hnew _ List.mem_cons_self)
      (hki _ List.mem_cons_self), ih hsp.2 ?_ hn.2 ?_ ?_ ?_ ?_⟩
    · exact coinRows_write hf (hl _ List.mem_cons_self) hsp.1 hr
        (ha _ List.mem_cons_self)
    · exact fun item hi => hl item (List.mem_cons_of_mem _ hi)
    · intro item hi key hkey
      exact write_unspentOps_of_ne hf (hkey ▸ ho item hi)
        (hnew item (List.mem_cons_of_mem _ hi) key hkey)
    · intro item hi outpoint hh
      exact apply_of_hash_ne (hh ▸ ho item hi)
        (ha item (List.mem_cons_of_mem _ hi) outpoint hh)
    · exact fun item hi => hki item (List.mem_cons_of_mem _ hi)

end Unspent

section Addresses

variable {flags : IndexFlags} {env : Env} {nHeight : Nat} {rows : CAddressIndexKey → Option CAmount}
  {items : List (CTransaction × List Coin)} {tx : CTransaction} {spent : List Coin} {i : Nat}
  {v : CAddressIndexKey × CAmount}

theorem txhash_of_mem_disconnectItem (hf : flags.fAddressIndex = true)
    (h : v ∈ (disconnectItem flags env nHeight ((tx, spent), i)).addressIndex) :
    v.1.txhash = tx.hash := by
  rcases List.mem_append.1 h with h | h
  · rw [mem_address_undoReceiveUpdates hf] at h
    obtain ⟨x, -, a, -, rfl⟩ := (mem_address_receiveUpdates hf).1 h
    rfl
  · obtain ⟨x, -, a, -, rfl⟩ := (mem_address_undoSpendUpdatesOf hf).1 h
    split <;> rfl

/-- Without spent public keys, every key that is written is erased. -/
theorem mem_disconnectItem_of_connectItem (hf : flags.fAddressIndex = true)
    (hki : KeyFree env (tx, spent))
    (h : v ∈ (connectItem flags env nHeight ((tx, spent), i)).addressIndex) :
    v ∈ (disconnectItem flags env nHeight ((tx, spent), i)).addressIndex := by
  rcases List.mem_append.1 h with h | h
  · obtain ⟨x, hx, a, ha, rfl⟩ := (mem_address_spendUpdatesOf hf).1 h
    refine List.mem_append_right _ ((mem_address_undoSpendUpdatesOf hf).2 ⟨x, hx, a, ha, ?_⟩)
    rw [if_neg (hki x.1 (List.fst_mem_of_mem_zipIdx hx) a ha)]
  · exact List.mem_append_left _ ((mem_address_undoReceiveUpdates hf).2 h)

/-- The row of a spent public key is not erased. -/
theorem notMem_disconnectItem (hf : flags.fAddressIndex = true)
    (hit : ((tx, spent), i) ∈ items.zipIdx) (hl : tx.vin.length < 2 ^ 32)
    {x : (CTxIn × Coin) × Nat} (hx : x ∈ (tx.vin.zip spent).zipIdx) {a : IndexedOut}
    (ha : indexedOut env x.1.2.out = some a) (hki : a.kind = .pubKey)
    {item : (CTransaction × List Coin) × Nat} (ho : item ∈ items.zipIdx)
    (hv : v ∈ (disconnectItem flags env nHeight item).addressIndex) :
    v.1 ≠ a.indexKey nHeight i tx.hash x.2 true := by
  obtain ⟨⟨tx', spent'⟩, i'⟩ := item
  intro heq
  rcases List.mem_append.1 hv with hv | hv
  · rw [mem_address_undoReceiveUpdates hf] at hv
    obtain ⟨y, -, b, -, rfl⟩ := (mem_address_receiveUpdates hf).1 hv
    simp [IndexedOut.indexKey] at heq
  · obtain ⟨y, hy, b, hb, rfl⟩ := (mem_address_undoSpendUpdatesOf hf).1 hv
    split at heq
    · simp [IndexedOut.indexKey] at heq
    next hne =>
      simp only [IndexedOut.indexKey, CAddressIndexKey.mk.injEq] at heq
      obtain ⟨-, -, -, -, rfl, -, hi, -⟩ := heq
      -- the place in the block gives the transaction, and the place in it the input
      have hat : items[i']? = some (tx', spent') := List.mem_zipIdx_iff_getElem?.1 ho
      have ha' : items[i']? = some (tx, spent) := List.mem_zipIdx_iff_getElem?.1 hit
      obtain ⟨rfl, rfl⟩ := Prod.mk.inj (Option.some.inj (hat.symm.trans ha'))
      rw [List.mem_zipIdx_iff_getElem?] at hx hy
      have hbo : ∀ (z : (CTxIn × Coin) × Nat),
          (tx'.vin.zip spent')[z.2]? = some z.1 → z.2 < 2 ^ 32 := by
        intro z hz
        have hlt := (List.getElem?_eq_some_iff.1 hz).1
        rw [List.length_zip] at hlt
        omega
      have hp : y.2 = x.2 := by
        have hn := congrArg UInt32.toNat hi
        rwa [UInt32.toNat_ofNat_of_lt' (hbo y hy), UInt32.toNat_ofNat_of_lt' (hbo x hx)] at hn
      rw [hp] at hy
      have hin : y.1 = x.1 := Option.some.inj (hy.symm.trans hx)
      rw [hin, ha] at hb
      exact hne (Option.some.inj hb ▸ hki)

/-- Under new ids the index of addresses is restored exactly when no public key is spent. -/
theorem write_address_iff (hf : flags.fAddressIndex = true)
    (hl : ∀ item ∈ items, item.1.vin.length < 2 ^ 32)
    (hnew : ∀ item ∈ items, ∀ key : CAddressIndexKey, key.txhash = item.1.hash → rows key = none) :
    Batch.write (Batch.write rows ((concat (items.zipIdx.map
        (connectItem flags env nHeight))).addressIndex.map fun u => (u.1, some u.2)))
      ((concat (items.zipIdx.reverse.map
        (disconnectItem flags env nHeight))).addressIndex.map fun u => (u.1, none)) = rows ↔
      ∀ item ∈ items, KeyFree env item := by
  have hm : ∀ item ∈ items.zipIdx, item.1 ∈ items := fun item => List.fst_mem_of_mem_zipIdx
  constructor
  · rintro hr ⟨tx, spent⟩ hi p hp a ha hki
    obtain ⟨⟨item, i⟩, hpl, rfl⟩ := exists_mem_zipIdx (p := (· = (tx, spent))) |>.2 ⟨_, hi, rfl⟩
    obtain ⟨x, hx, rfl⟩ := exists_mem_zipIdx (p := (· = p)) |>.2 ⟨p, hp, rfl⟩
    have hw : (a.indexKey nHeight i tx.hash x.2 true, a.amount * -1) ∈
        (concat (items.zipIdx.map (connectItem flags env nHeight))).addressIndex := by
      refine List.mem_flatMap.2 ⟨_, List.mem_map_of_mem hpl, List.mem_append_left _ ?_⟩
      exact (mem_address_spendUpdatesOf hf).2 ⟨x, hx, a, ha, rfl⟩
    have hkey := congrFun hr (a.indexKey nHeight i tx.hash x.2 true)
    rw [hnew _ hi _ rfl, Batch.write_of_notMem] at hkey
    · obtain ⟨op, hop, -, hva⟩ := @Batch.exists_of_write _ _ _ rows _ _
        (List.mem_map_of_mem (f := Prod.fst)
          (List.mem_map_of_mem (f := fun u : CAddressIndexKey × CAmount => (u.1, some u.2)) hw))
      obtain ⟨u, -, rfl⟩ := List.mem_map.1 hop
      rw [hkey] at hva
      cases hva
    · intro he
      simp only [List.mem_map, concat, List.mem_flatMap] at he
      obtain ⟨_, ⟨v, ⟨_, ⟨other, ho, rfl⟩, hv⟩, rfl⟩, hsa⟩ := he
      exact notMem_disconnectItem hf hpl (hl _ hi) hx ha hki
        (List.mem_reverse.1 ho) hv hsa
  · intro hki
    refine Batch.write_write_eq (fun op hop => ?_) (fun op hop => ?_)
    · simp only [List.mem_map, concat, List.mem_flatMap, List.mem_reverse] at hop
      obtain ⟨v, ⟨_, ⟨item, hi, rfl⟩, hv⟩, rfl⟩ := hop
      exact (hnew item.1 (hm item hi) _ (txhash_of_mem_disconnectItem hf hv)).symm
    · simp only [List.mem_map, concat, List.mem_flatMap] at hop
      obtain ⟨v, ⟨_, ⟨item, hi, rfl⟩, hv⟩, rfl⟩ := hop
      simp only [List.mem_map, concat, List.mem_flatMap, List.mem_reverse]
      exact ⟨_, ⟨v, ⟨_, ⟨item, hi, rfl⟩, mem_disconnectItem_of_connectItem hf
        (hki item.1 (hm item hi)) hv⟩, rfl⟩, rfl⟩

end Addresses

section Block

variable {flags : IndexFlags} {rules : BlockRules} {env : Env} {g g' : AssetGlobals}
  {mempool : MempoolAssets} {node : NodeState} {nHeight : Nat} {base : TreeMap COutPoint Coin}
  {cache : CAssetsCache} {block : CBlock} {conn : Connected} {rows rows' rows'' : IndexRows}
  {st : CoinState} {vUndoData : List (Str × CBlockAssetUndo)} {result : DisconnectResult}
  {coins : COutPoint → Option Coin} {items : List (CTransaction × List Coin)}
  {item : CTransaction × List Coin} {p : CTxIn × Coin} {vtx : List CTransaction}

/-- Where a spent coin comes from. -/
theorem SpentCoins.source (h : SpentCoins nHeight coins items) (hi : item ∈ items)
    (hp : p ∈ item.1.vin.zip item.2) :
    item.1.isCoinBase = false ∧ (coins p.1.prevout = some p.2 ∨
      ∃ other ∈ items, (p.1.prevout, p.2) ∈ (other.1.ledgerEntry nHeight).created) := by
  induction items generalizing coins with
  | nil => cases hi
  | cons first items ih =>
    rcases List.mem_cons.1 hi with rfl | hi
    · obtain ⟨hsp, hc⟩ := coins_of_mem_zip h.1 hp
      refine ⟨?_, Or.inl hc⟩
      cases hcb : item.1.isCoinBase with
      | true => simp [ledgerEntry, hcb] at hsp
      | false => rfl
    · obtain ⟨hcb, hso⟩ := ih h.2 hi
      refine ⟨hcb, ?_⟩
      rcases hso with hc | ⟨other, ho, hcr⟩
      · rcases Ledger.create_eq_some hc with hc | hcr
        · rw [Ledger.spend_apply] at hc
          split at hc
          · cases hc
          · exact Or.inl hc
        · exact Or.inr ⟨first, List.mem_cons_self, hcr⟩
      · exact Or.inr ⟨other, List.mem_cons_of_mem _ ho, hcr⟩

/-- The indexes fit the coins below the block: every coin has its row, and neither coins nor rows
are there for the ids of the block. The coins are spendable, and none is from the genesis block. -/
structure IndexFits (env : Env) (nHeight : Nat) (base : TreeMap COutPoint Coin)
    (vtx : List CTransaction) (rows : IndexRows) : Prop where
  ids : NewIds base vtx
  height : nHeight ≠ 0
  coins : ∀ outpoint coin, CCoinsViewCache.getCoin { base } outpoint = some coin →
    coin.nHeight ≠ 0 ∧ CScript.isUnspendable coin.out.scriptPubKey = false
  unspent : CoinRows env rows.addressUnspentIndex (CCoinsViewCache.getCoin { base })
  newUnspent : ∀ tx ∈ vtx, ∀ key : CAddressUnspentKey, key.txhash = tx.hash →
    rows.addressUnspentIndex key = none
  newAddress : ∀ tx ∈ vtx, ∀ key : CAddressIndexKey, key.txhash = tx.hash →
    rows.addressIndex key = none

/-- An input of the block may spend the output: it is a coin below the block or an output of it. -/
def Spendable (base : TreeMap COutPoint Coin) (vtx : List CTransaction) (prevout : COutPoint)
    (out : CTxOut) : Prop :=
  (CCoinsViewCache.getCoin { base } prevout).map Coin.out = some out ∨
    ∃ tx ∈ vtx, (prevout, out) ∈ tx.outpoints

/-- No input of the block spends an output that pays to a public key. -/
def NoPubKeySpent (base : TreeMap COutPoint Coin) (vtx : List CTransaction) : Prop :=
  ∀ tx ∈ vtx, tx.isCoinBase = false → ∀ txin ∈ tx.vin, ∀ out,
    Spendable base vtx txin.prevout out → CScript.isPayToPublicKey out.scriptPubKey = false

theorem exists_kind_pubKey_iff {out : CTxOut} :
    (∃ a, indexedOut env out = some a ∧ a.kind = .pubKey) ↔
      isPayToPublicKey out.scriptPubKey = true := by
  unfold indexedOut
  dsimp only
  constructor
  · rintro ⟨a, ha, hki⟩
    split_ifs at ha with hsc hh hkey
    · cases ha
      cases hki
    · cases ha
      cases hki
    · exact hkey
    · obtain ⟨_, -, rfl⟩ := Option.map_eq_some_iff.1 ha
      cases hki
  · intro hkey
    have hl : out.scriptPubKey.length = 35 ∨ out.scriptPubKey.length = 67 := by
      unfold isPayToPublicKey at hkey
      split_ifs at hkey with h35 h67
      · exact Or.inl h35
      · exact Or.inr h67
    have hsc : isPayToScriptHash out.scriptPubKey = false := by
      rcases hl with h | h <;> simp [isPayToScriptHash, h]
    have hh : isPayToPublicKeyHash out.scriptPubKey = false := by
      rcases hl with h | h <;> simp [isPayToPublicKeyHash, h]
    rw [hsc, hh, hkey, if_neg (by decide), if_neg (by decide), if_pos rfl]
    exact ⟨_, rfl, rfl⟩

theorem mem_created_iff {tx : CTransaction} {outpoint : COutPoint} {coin : Coin} :
    (outpoint, coin) ∈ (tx.ledgerEntry nHeight).created ↔ ∃ out, (outpoint, out) ∈ tx.outpoints ∧
      isUnspendable out.scriptPubKey = false ∧ coin = ⟨out, nHeight, tx.isCoinBase⟩ := by
  simp only [ledgerEntry, List.mem_map, List.mem_filter, Prod.exists, Prod.mk.injEq]
  constructor
  · rintro ⟨_, out, ⟨hout, hsp⟩, rfl, rfl⟩
    exact ⟨out, hout, by simpa using hsp, rfl⟩
  · rintro ⟨out, hout, hsp, rfl⟩
    exact ⟨_, out, ⟨hout, by simpa using hsp⟩, rfl, rfl⟩

theorem Spendable.unique (hi : NewIds base vtx) (hl : ∀ tx ∈ vtx, tx.vout.length < 2 ^ 32)
    {prevout : COutPoint} {out out' : CTxOut} (h : Spendable base vtx prevout out)
    (h' : Spendable base vtx prevout out') : out = out' := by
  have hn : ∀ tx ∈ vtx, ∀ o, (prevout, o) ∈ tx.outpoints → getCoin { base } prevout = none :=
    fun tx htx o ho => hi.new tx htx prevout (hash_of_mem_outpoints ho)
  rcases h with h | ⟨tx, htx, ho⟩ <;> rcases h' with h' | ⟨tx', ht', ho'⟩
  · exact Option.some.inj (h.symm.trans h')
  · rw [hn tx' ht' out' ho'] at h
    cases h
  · rw [hn tx htx out ho] at h'
    cases h'
  · have hh : prevout.hash = tx.hash := hash_of_mem_outpoints ho
    have hh' : prevout.hash = tx'.hash := hash_of_mem_outpoints ho'
    obtain rfl := List.inj_on_of_nodup_map hi.nodup htx ht' (hh.symm.trans hh')
    exact Option.some.inj ((getElem?_of_mem_outpoints (hl tx htx) ho).symm.trans
      (getElem?_of_mem_outpoints (hl tx htx) ho'))

theorem SpentCoins.spendable (h : SpentCoins nHeight (getCoin { base }) items)
    (ht : items.map Prod.fst = vtx) (hi : item ∈ items) (hp : p ∈ item.1.vin.zip item.2) :
    item.1.isCoinBase = false ∧ Spendable base vtx p.1.prevout p.2.out := by
  obtain ⟨hcb, hc | ⟨other, ho, hcr⟩⟩ := h.source hi hp
  · exact ⟨hcb, Or.inl (by rw [hc]; rfl)⟩
  · obtain ⟨out, hout, -, hc⟩ := mem_created_iff.1 hcr
    exact ⟨hcb, Or.inr ⟨other.1, ht ▸ List.mem_map_of_mem ho, by rw [hc]; exact hout⟩⟩

theorem SpentCoins.length (h : SpentCoins nHeight coins items) (hi : item ∈ items) :
    item.2.length = if item.1.isCoinBase then 0 else item.1.vin.length := by
  induction items generalizing coins with
  | nil => cases hi
  | cons first items ih =>
    rcases List.mem_cons.1 hi with rfl | hi
    · have hl := congrArg List.length h.1
      rw [List.length_map, List.length_map] at hl
      rw [← hl, ledgerEntry]
      split <;> simp
    · exact ih h.2 hi

/-- The coins of the inputs are the outputs they may spend. -/
theorem noPubKeySpent_iff (hid : NewIds base vtx) (hl : ∀ tx ∈ vtx, tx.vout.length < 2 ^ 32)
    (htxs : items.map Prod.fst = vtx)
    (hspe : SpentCoins nHeight (getCoin { base }) items) :
    (∀ item ∈ items, KeyFree env item) ↔ NoPubKeySpent base vtx := by
  constructor
  · intro h tx htx hcb txin ht out hout
    rw [← Bool.not_eq_true, ← @exists_kind_pubKey_iff env out]
    rintro ⟨a, ha, hki⟩
    rw [← htxs] at htx
    obtain ⟨item, hi, rfl⟩ := List.mem_map.1 htx
    have hin : (item.1.vin.zip item.2).map Prod.fst = item.1.vin :=
      List.map_fst_zip (by simp [hspe.length hi, hcb])
    rw [← hin] at ht
    obtain ⟨p, hp, rfl⟩ := List.mem_map.1 ht
    have hsa := Spendable.unique hid hl (hspe.spendable htxs hi hp).2 hout
    exact h item hi p hp a (hsa ▸ ha) hki
  · intro h item hi p hp a ha hki
    obtain ⟨hcb, hsp⟩ := hspe.spendable htxs hi hp
    have hn := h item.1 (htxs ▸ List.mem_map_of_mem hi) hcb p.1 (List.of_mem_zip hp).1 _ hsp
    rw [exists_kind_pubKey_iff.1 ⟨a, ha, hki⟩] at hn
    cases hn

/-- What a successful `DisconnectBlock` does to the index of addresses. -/
theorem disconnectBlockIndexed_eq {vtxundo : List CTxUndo} (hf : flags.fAddressIndex = true)
    (h : disconnectBlockIndexed flags env g nHeight st block vtxundo vUndoData rows = (result, rows'))
    (hr : result.state?.isSome) :
    ∃ d updates, disconnectTransactionsIndexed flags env g nHeight st block.vtx vtxundo vUndoData =
      some (d, updates) ∧ rows' = (rows.eraseAddressIndex updates).updateAddressUnspentIndex updates := by
  unfold disconnectBlockIndexed at h
  split at h
  · cases h
    cases hr
  next d updates hl =>
    rw [hf, if_pos rfl] at h
    exact ⟨d, updates, hl, (Prod.mk.inj h).2.symm⟩

/-- The coinbase spends nothing, so that the undo data are all there is. -/
theorem SpentCoins.shape (h : SpentCoins nHeight coins items) (ht : items.map Prod.fst = vtx)
    (hh : vtx.head?.any isCoinBase = true) :
    items.map Prod.snd = [] :: (items.map Prod.snd).tail := by
  subst ht
  cases items with
  | nil => simp at hh
  | cons first rest =>
    have hcb : first.1.isCoinBase = true := by simpa using hh
    have hfirst := h.length List.mem_cons_self
    rw [hcb, if_pos rfl] at hfirst
    rw [List.map_cons, List.tail_cons, List.length_eq_zero_iff.1 hfirst]

/-- The coins that are spent can be put back as they are. -/
theorem SpentCoins.sound (h : SpentCoins nHeight (getCoin { base }) items)
    (hf : IndexFits env nHeight base vtx rows) :
    ∀ spent ∈ items.map Prod.snd, ∀ coin ∈ spent, Restorable coin := by
  intro spent hspe coin hc
  obtain ⟨item, hi, rfl⟩ := List.mem_map.1 hspe
  have hin : (item.1.vin.zip item.2).map Prod.snd = item.2 := by
    refine List.map_snd_zip ?_
    rw [h.length hi]
    split <;> omega
  rw [← hin] at hc
  obtain ⟨p, hp, rfl⟩ := List.mem_map.1 hc
  obtain ⟨-, hb | ⟨other, -, hcr⟩⟩ := h.source hi hp
  · exact hf.coins _ _ hb
  · obtain ⟨out, -, hsp, hc⟩ := mem_created_iff.1 hcr
    rw [hc]
    exact ⟨hf.height, hsp⟩

/-- The rows of the unspent outputs after a block has been connected and taken back. -/
theorem write_unspent_eq (hfl : flags.fAddressIndex = true) (ht : items.map Prod.fst = vtx)
    (hl : ∀ tx ∈ vtx, tx.vout.length < 2 ^ 32)
    (hsp : SpentCoins nHeight (getCoin { base }) items)
    (hf : IndexFits env nHeight base vtx rows) (hki : ∀ item ∈ items, KeyFree env item) :
    Batch.write (Batch.write rows.addressUnspentIndex (unspentOps (.concat
        (items.zipIdx.map (connectItem flags env nHeight)))))
      (unspentOps (.concat (items.zipIdx.reverse.map (disconnectItem flags env nHeight)))) =
      rows.addressUnspentIndex := by
  have hm : ∀ item ∈ items.zipIdx, item.1.1 ∈ vtx := fun item hi =>
    ht ▸ List.mem_map_of_mem (List.fst_mem_of_mem_zipIdx hi)
  have hu := @undone_unspentOps flags env nHeight _ rows.addressUnspentIndex hfl
    items.zipIdx (by rwa [List.zipIdx_map_fst]) hf.unspent ?_
    (fun item hi => hl _ (hm item hi))
    (fun item hi => hf.newUnspent _ (hm item hi))
    (fun item hi => hf.ids.new _ (hm item hi))
    (fun item hi => hki _ (List.fst_mem_of_mem_zipIdx hi))
  · have hr := hu.write_reverse
    simp only [← List.map_reverse, List.flatMap_map] at hr
    simpa only [unspentOps, concat, List.flatMap_map, List.map_flatMap] using hr
  · have hh : (items.zipIdx.map fun item => item.1.1.hash) = vtx.map CTransaction.hash := by
      calc (items.zipIdx.map fun item => item.1.1.hash)
          = ((items.zipIdx.map Prod.fst).map Prod.fst).map CTransaction.hash := by
            rw [List.map_map, List.map_map]
            rfl
        _ = _ := by rw [List.zipIdx_map_fst, ht]
    rw [hh]
    exact hf.ids.nodup

/-- A block that is taken back restores the index of addresses exactly when no input of it spends an
output that pays to a public key; nothing is said of a disconnect that fails. -/
theorem addressIndex_disconnectBlock_iff (hflag : flags.fAddressIndex = true)
    (hgenesis : block.header.getHash rules.params ≠ rules.params.hashGenesisBlock)
    (hfits : IndexFits env nHeight base block.vtx rows)
    (hconn : connectBlockIndexed flags rules env g mempool node nHeight { view := { base }, cache }
      block rows = .ok (conn, rows'))
    (hdisc : disconnectBlockIndexed flags env g' nHeight st block conn.vtxundo vUndoData rows' =
      (result, rows'')) (hresult : result.state?.isSome) :
    (rows''.addressIndex = rows.addressIndex ∧
      rows''.addressUnspentIndex = rows.addressUnspentIndex) ↔ NoPubKeySpent base block.vtx := by
  obtain ⟨hc, updates, hlo, hr'⟩ := connectBlockIndexed_eq_ok hgenesis hconn
  obtain ⟨hh, -, htxs⟩ := transactions_of_checkBlock hc
  have hl := fun tx htx => length_of_checkTransaction (htxs tx htx)
  obtain ⟨items, ht, hund, hu, hsp⟩ :=
    exists_of_foldlM_connectTxIndexed hfits.ids htxs hlo
  obtain ⟨d, updates', hl', rfl⟩ := disconnectBlockIndexed_eq hflag hdisc hresult
  have hco := hsp.sound hfits
  have hsh := hsp.shape ht hh
  rw [← hund] at hsh
  obtain ⟨-, hu'⟩ := updates_of_disconnectTransactionsIndexed
    (fun spent hm => hco spent (hsh ▸ List.mem_cons_of_mem _ hm)) hl'
  have hz : block.vtx.zip ([] :: conn.vtxundo) = items := by
    rw [← hsh, ← ht]
    exact (List.zip_of_prod rfl rfl).symm
  rw [hz] at hu'
  -- both batches, for the addresses and for the unspent outputs
  have hro : rows'.addressIndex =
        Batch.write rows.addressIndex (updates.addressIndex.map fun u => (u.1, some u.2)) ∧
      rows'.addressUnspentIndex = Batch.write rows.addressUnspentIndex (unspentOps updates) := by
    rw [hr', hflag, if_pos rfl]
    split <;> exact ⟨rfl, rfl⟩
  have htx : ∀ item ∈ items, item.1 ∈ block.vtx := fun item hi =>
    ht ▸ List.mem_map_of_mem hi
  have ha := @write_address_iff flags env nHeight rows.addressIndex items hflag
    (fun item hi => (hl item.1 (htx item hi)).1)
    (fun item hi => hfits.newAddress item.1 (htx item hi))
  have hki := @noPubKeySpent_iff env nHeight base items _ hfits.ids (fun tx h => (hl tx h).2)
    ht hsp
  rw [hki, ← hu, ← hu', ← hro.1] at ha
  constructor
  · rintro ⟨hr, -⟩
    exact ha.1 hr
  · intro hn
    refine ⟨ha.2 hn, ?_⟩
    have hun := write_unspent_eq hflag ht (fun tx h => (hl tx h).2) hsp hfits
      (hki.2 hn)
    rw [← hu, ← hu', ← hro.2] at hun
    exact hun

end Block

/-- The index of the unspent outputs that fits a set of coins. -/
def unspentRows (env : Env) (base : TreeMap COutPoint Coin) (key : CAddressUnspentKey) :
    Option CAddressUnspentValue :=
  (CCoinsViewCache.getCoin { base } ⟨key.txhash, key.index⟩).bind fun coin =>
    (indexedOut env coin.out).bind fun a =>
      if a.unspentKey ⟨key.txhash, key.index⟩ = key then
        (a.unspentValue coin.out.scriptPubKey coin.nHeight).row
      else none

variable {base : TreeMap COutPoint Coin}

theorem indexFits_unspentRows {env : Env} {nHeight : Nat} {vtx : List CTransaction}
    (hi : NewIds base vtx) (hh : nHeight ≠ 0)
    (hco : ∀ row ∈ base.toList, row.2.nHeight ≠ 0 ∧ isUnspendable row.2.out.scriptPubKey = false) :
    IndexFits env nHeight base vtx { addressUnspentIndex := unspentRows env base } where
  ids := hi
  height := hh
  coins outpoint coin hc := by
    rw [getCoin_of_not_cached TreeMap.getElem?_emptyc, baseCoin] at hc
    obtain ⟨hb, -⟩ := Option.filter_eq_some_iff.1 hc
    exact hco (outpoint, coin) (TreeMap.mem_toList_iff_getElem?_eq_some.2 hb)
  unspent outpoint coin hc a ha := by
    have ho : (⟨(a.unspentKey outpoint).txhash, (a.unspentKey outpoint).index⟩ : COutPoint) =
        outpoint := rfl
    simp only [unspentRows, ho, hc, ha, Option.bind_some, if_true]
  newUnspent tx htx key hkey := by
    simp only [unspentRows, hi.new tx htx ⟨key.txhash, key.index⟩ hkey, Option.bind_none]
  newAddress _ _ _ _ := rfl

def bothIndexes : IndexFlags := ⟨true, true⟩

/-- A block is connected and taken back, over the index that fits its coins. -/
def indexesAfter (base : TreeMap COutPoint Coin) (block : CBlock) : Option IndexRows :=
  match connectBlockIndexed bothIndexes sampleRules sampleEnv noAssets {} sampleNode 10 ⟨{ base }, {}⟩
      block { addressUnspentIndex := unspentRows sampleEnv base } with
  | .error _ => none
  | .ok (conn, rows) =>
    let after := disconnectBlockIndexed bothIndexes sampleEnv noAssets 10
      ⟨{ base := conn.st.view.flush }, {}⟩ block conn.vtxundo conn.vUndoAssetData rows
    after.1.state?.map fun _ => after.2

theorem exists_of_indexesAfter {block : CBlock} {rows : IndexRows}
    (h : indexesAfter base block = some rows) :
    ∃ conn rows' result, connectBlockIndexed bothIndexes sampleRules sampleEnv noAssets {} sampleNode 10
        { view := { base }, cache := {} } block
        { addressUnspentIndex := unspentRows sampleEnv base } = .ok (conn, rows') ∧
      disconnectBlockIndexed bothIndexes sampleEnv noAssets 10 ⟨{ base := conn.st.view.flush }, {}⟩ block
        conn.vtxundo conn.vUndoAssetData rows' = (result, rows) ∧ result.state?.isSome := by
  unfold indexesAfter at h
  split at h
  · cases h
  next conn rows' hc =>
    obtain ⟨st, hst, rfl⟩ := Option.map_eq_some_iff.1 h
    exact ⟨conn, rows', _, hc, rfl, Option.isSome_iff_exists.2 ⟨st, hst⟩⟩

/-- A payment, and a payment out of it. -/
def payBlock : CBlock :=
  ⟨sampleHeader, [sampleCoinbase, payTx 31 sampleOutPoint (900 * coin), payTx 32 ⟨31, 0⟩ (800 * coin)]⟩

theorem addressIndex_disconnectBlock_iff_payBlock :
    ∃ rows, indexesAfter twoCoins payBlock = some rows ∧ ((rows.addressIndex = (fun _ => none) ∧
        rows.addressUnspentIndex = unspentRows sampleEnv twoCoins) ↔
        NoPubKeySpent twoCoins payBlock.vtx) := by
  have hru : (indexesAfter twoCoins payBlock).isSome = true := by decide +kernel
  obtain ⟨rows, hr⟩ := Option.isSome_iff_exists.1 hru
  refine ⟨rows, hr, ?_⟩
  obtain ⟨conn, rows', result, hc, hd, hre⟩ := exists_of_indexesAfter hr
  exact addressIndex_disconnectBlock_iff rfl (by decide +kernel) (indexFits_unspentRows
    (newIds_of_keys (by decide +kernel) (by decide +kernel)) (by decide) (by decide +kernel)) hc hd hre

/-- A compressed public key and the check of its signature. -/
def keyScript : CScript := 33 :: 2 :: List.replicate 32 9 ++ [opCheckSig]

def keyBase : TreeMap COutPoint Coin :=
  (∅ : TreeMap COutPoint Coin).insert sampleOutPoint ⟨⟨1000 * coin, keyScript⟩, 1, false⟩

def keyOut : IndexedOut :=
  { kind := .pubKey, hashBytes := 2 :: List.replicate 32 9, amount := 1000 * coin }

/-- A coin that pays to a public key is spent. -/
def keyBlock : CBlock := ⟨sampleHeader, [sampleCoinbase, payTx 31 sampleOutPoint (900 * coin)]⟩

/-- The block is gone, but its spending is still there, and the coin is missing. -/
theorem keyBlock_leaves_spending :
    unspentRows sampleEnv keyBase (keyOut.unspentKey sampleOutPoint) = some ⟨1000 * coin, keyScript, 1⟩ ∧
      ∃ rows, indexesAfter keyBase keyBlock = some rows ∧
        rows.addressUnspentIndex (keyOut.unspentKey sampleOutPoint) = none ∧
        rows.addressIndex (keyOut.indexKey 10 1 31 0 true) = some (-1000 * coin) := by
  have hru : ((indexesAfter keyBase keyBlock).any fun rows =>
      rows.addressUnspentIndex (keyOut.unspentKey sampleOutPoint) = none &&
      rows.addressIndex (keyOut.indexKey 10 1 31 0 true) = some (-1000 * coin)) = true := by
    decide +kernel
  obtain ⟨rows, hr, hl⟩ := (Option.any_eq_true _ _).1 hru
  simp only [Bool.and_eq_true, decide_eq_true_eq] at hl
  exact ⟨by decide +kernel, rows, hr, hl⟩

end Cmusic
