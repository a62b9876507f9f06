import Cmusic.CoinTotals
import Cmusic.ConnectBlock
import Cmusic.Lib.Ledger

/-! The view of the coins as a ledger: what connecting a block leaves unspent. -/
namespace Cmusic

open Fallible Std CTransaction CCoinsViewCache

namespace CCoinsViewCache

/-- A fresh entry has nothing below it, and one that is not dirty is the coin below it. -/
structure Tidy (view : CCoinsViewCache) : Prop where
  fresh : ∀ (outpoint : COutPoint) (entry : CCoinsCacheEntry),
    view.cacheCoins[outpoint]? = some entry → entry.fresh = true → view.baseCoin outpoint = none
  clean : ∀ (outpoint : COutPoint) (entry : CCoinsCacheEntry),
    view.cacheCoins[outpoint]? = some entry → entry.dirty = false →
      view.baseCoin outpoint = some entry.coin

variable {view view' : CCoinsViewCache} {outpoint : COutPoint} {coin : Coin}
  {entry : CCoinsCacheEntry}

theorem findEntry_of_cached (h : view.cacheCoins[outpoint]? = some entry) :
    view.findEntry outpoint = some entry := by
  simp [findEntry, h]

theorem findEntry_of_not_cached (h : view.cacheCoins[outpoint]? = none) :
    view.findEntry outpoint = (view.baseCoin outpoint).map fun coin => ⟨coin, false, false⟩ := by
  simp [findEntry, h]

theorem getCoin_of_not_cached (h : view.cacheCoins[outpoint]? = none) :
    view.getCoin outpoint = view.baseCoin outpoint := by
  rw [getCoin, findEntry_of_not_cached h, Option.map_map]
  cases hb : view.baseCoin outpoint with
  | none => rfl
  | some coin =>
    have hu := (Option.filter_eq_some_iff.1 hb).2
    simpa [Option.filter] using hu

theorem tidy_of_empty (base : TreeMap COutPoint Coin) : Tidy { base } where
  fresh := by simp
  clean := by simp

/-- Writing one entry keeps a view tidy when the entry is dirty, and fresh over nothing only. -/
theorem Tidy.insert (h : view.Tidy) (hdi : entry.dirty = true)
    (hfr : entry.fresh = true → view.baseCoin outpoint = none) :
    Tidy { view with cacheCoins := view.cacheCoins.insert outpoint entry } where
  fresh k e hk hf := by
    rw [Maps.getElem?_insert_eq] at hk
    split at hk
    next heq =>
      cases hk
      exact heq ▸ hfr hf
    · exact h.fresh k e hk hf
  clean k e hk hd := by
    rw [TreeMap.getElem?_insert] at hk
    split at hk
    · cases hk
      rw [hdi] at hd
      cases hd
    · exact h.clean k e hk hd

theorem Tidy.erase (h : view.Tidy) :
    Tidy { view with cacheCoins := view.cacheCoins.erase outpoint } where
  fresh k e hk hf := by
    rw [TreeMap.getElem?_erase] at hk
    split at hk
    · cases hk
    · exact h.fresh k e hk hf
  clean k e hk hd := by
    rw [TreeMap.getElem?_erase] at hk
    split at hk
    · cases hk
    · exact h.clean k e hk hd

/-- What a view shows where one entry is written. -/
theorem getCoin_insert (view : CCoinsViewCache) (outpoint : COutPoint) (entry : CCoinsCacheEntry) :
    getCoin { view with cacheCoins := view.cacheCoins.insert outpoint entry } =
      Function.update view.getCoin outpoint
        ((some entry.coin).filter fun coin => !coin.isSpent) := by
  funext k
  by_cases hk : k = outpoint
  · subst hk
    simp [getCoin, findEntry]
  · rw [Function.update_of_ne hk]
    exact getCoin_of_agree rfl (Maps.getElem?_insert_of_ne hk _ entry)

theorem Tidy.spendEntry (h : view.Tidy) (hsp : view.spendEntry outpoint = some (coin, view')) :
    view'.Tidy ∧ view'.base = view.base ∧
      view'.getCoin = Function.update view.getCoin outpoint none := by
  unfold CCoinsViewCache.spendEntry at hsp
  split at hsp
  · cases hsp
  next entry he =>
    split at hsp
    next hf =>
      cases hsp
      refine ⟨h.erase, rfl, ?_⟩
      have hca : view.cacheCoins[outpoint]? = some entry := by
        cases hc : view.cacheCoins[outpoint]? with
        | some e => rw [← findEntry_of_cached hc, he]
        | none =>
          rw [findEntry_of_not_cached hc, Option.map_eq_some_iff] at he
          obtain ⟨_, -, rfl⟩ := he
          cases hf
      funext k
      by_cases hk : k = outpoint
      · subst hk
        rw [Function.update_self, getCoin_of_not_cached TreeMap.getElem?_erase_self]
        exact h.fresh k entry hca hf
      · rw [Function.update_of_ne hk]
        exact getCoin_of_agree rfl (Maps.getElem?_erase_of_ne hk _)
    · cases hsp
      exact ⟨h.insert rfl (by simp), rfl, getCoin_insert view outpoint _⟩

/-- `AddCoin` where nothing is below the coin, or where it may overwrite. -/
theorem Tidy.addCoin (h : view.Tidy) {possibleOverwrite : Bool}
    (hb : possibleOverwrite = true ∨ view.baseCoin outpoint = none)
    (ha : view.addCoin outpoint coin possibleOverwrite = some view') :
    view'.Tidy ∧ view'.base = view.base ∧ view'.getCoin =
      if CScript.isUnspendable coin.out.scriptPubKey then view.getCoin
      else Function.update view.getCoin outpoint (some coin) := by
  unfold CCoinsViewCache.addCoin at ha
  split at ha
  · cases ha
  next hu =>
    split at ha
    next hsp =>
      cases ha
      exact ⟨h, rfl, (if_pos hsp).symm⟩
    next hsp =>
      dsimp only [addSpendable] at ha
      split at ha
      · cases ha
      cases ha
      refine ⟨h.insert rfl fun hf => ?_, rfl, ?_⟩
      · rcases hb with ho | hn
        · simp only [ho, Bool.not_true, Bool.false_and, Bool.or_false, entryOrEmpty] at hf
          cases hc : view.cacheCoins[outpoint]? with
          | none => simp [hc] at hf
          | some entry =>
            rw [hc] at hf
            exact h.fresh outpoint entry hc hf
        · exact hn
      · rw [if_neg hsp, getCoin_insert]
        simp [Option.filter, hu]

/-- A flush writes down what the view shows. -/
theorem Tidy.getCoin_flush (h : view.Tidy) (outpoint : COutPoint) :
    getCoin { base := view.flush } outpoint = view.getCoin outpoint := by
  have hf := getElem?_flush view outpoint
  rw [getCoin_of_not_cached TreeMap.getElem?_emptyc, baseCoin, hf]
  cases hc : view.cacheCoins[outpoint]? with
  | none => exact (getCoin_of_not_cached hc).symm
  | some entry =>
    rw [getCoin, findEntry_of_cached hc, Option.elim_some, Option.map_some]
    cases hd : entry.dirty with
    | true => cases hsp : entry.coin.isSpent <;> simp [flushed, hd, hsp, Option.filter]
    | false =>
      have hb := h.clean outpoint entry hc hd
      have hu := (Option.filter_eq_some_iff.1 hb).2
      have hke : (some entry.coin).filter (fun coin => !coin.isSpent) = some entry.coin := by
        simpa [Option.filter] using hu
      rw [flushed, hd, if_neg (by simp), hke]
      exact hb

end CCoinsViewCache

/-- What a transaction takes out of the unspent outputs and puts in. -/
def CTransaction.ledgerEntry (nHeight : Nat) (tx : CTransaction) : Ledger.Entry COutPoint Coin where
  spent := if tx.isCoinBase then [] else tx.vin.map CTxIn.prevout
  created := (tx.outpoints.filter fun item => !CScript.isUnspendable item.2.scriptPubKey).map
    fun item => (item.1, ⟨item.2, nHeight, tx.isCoinBase⟩)

section Updates

variable {env : Env} {g : AssetGlobals} {st st' : CoinState} {tx : CTransaction} {nHeight : Nat}
  {blockHash : UInt256} {vin : List CTxIn} {txundo : CTxUndo} {hash : UInt256}

/-- The view of one state follows the ledger over the same parent view. -/
structure Follows (base : TreeMap COutPoint Coin) (coins : COutPoint → Option Coin)
    (view : CCoinsViewCache) : Prop where
  tidy : view.Tidy
  base : view.base = base
  getCoin : view.getCoin = coins

variable {base : TreeMap COutPoint Coin} {coins : COutPoint → Option Coin}

theorem follows_spendCoin {outpoint : COutPoint} {coin : Coin} (h : Follows base coins st.view)
    (hsp : spendCoin env g st outpoint = (true, coin, st')) :
    Follows base (Function.update coins outpoint none) st'.view := by
  obtain ⟨ht, hb, hg⟩ := h.tidy.spendEntry (spendEntry_of_spendCoin hsp)
  exact ⟨ht, hb.trans h.base, h.getCoin ▸ hg⟩

theorem follows_spendInputs (h : Follows base coins st.view)
    (hsp : spendInputs env g st vin = some (st', txundo)) :
    Follows base (Ledger.spend coins (vin.map CTxIn.prevout)) st'.view := by
  refine foldlM_some_invariant (fun pre (s : CoinState × CTxUndo) =>
    Follows base (Ledger.spend coins (pre.map CTxIn.prevout)) s.1.view) hsp h ?_
  intro pre txin c c' hp hstep
  obtain ⟨mid, undo⟩ := c
  dsimp only at hstep hp
  split at hstep
  next coin after hc =>
    cases hstep
    rw [List.map_append, List.map_singleton, Ledger.spend_concat]
    exact follows_spendCoin hp hc
  · cases hstep

/-- The undo data of a transaction are the coins its inputs find. -/
theorem map_getCoin_of_spendInputs {undo undo' : CTxUndo} (hn : (vin.map CTxIn.prevout).Nodup)
    (hh : ∀ txin ∈ vin, st.view.haveCoin txin.prevout = true)
    (hsp : vin.foldlM (fun (st, undo) txin =>
      match spendCoin env g st txin.prevout with
      | (true, coin, st) => some (st, undo ++ [coin])
      | (false, _, _) => none) (st, undo) = some (st', undo')) :
    undo'.map some = undo.map some ++ vin.map (fun txin => st.view.getCoin txin.prevout) := by
  induction vin generalizing st undo with
  | nil =>
    cases hsp
    simp
  | cons txin vin ih =>
    rw [List.foldlM_cons, Option.bind_eq_bind, Option.bind_eq_some_iff] at hsp
    obtain ⟨⟨mid, midUndo⟩, hstep, hr⟩ := hsp
    rw [List.map_cons, List.nodup_cons] at hn
    dsimp only at hstep
    split at hstep
    next coin after hco =>
      cases hstep
      have he := spendEntry_of_spendCoin hco
      obtain ⟨c, hc⟩ := Option.isSome_iff_exists.1 (hh txin List.mem_cons_self)
      -- the inputs still to come are other coins than the one just spent
      have hsa : ∀ t ∈ vin, mid.view.getCoin t.prevout = st.view.getCoin t.prevout := by
        intro t ht
        refine getCoin_of_spendEntry he fun heq => hn.1 ?_
        exact heq ▸ List.mem_map_of_mem ht
      have hh' : ∀ t ∈ vin, mid.view.haveCoin t.prevout = true := by
        intro t ht
        rw [haveCoin, hsa t ht]
        exact hh t (List.mem_cons_of_mem _ ht)
      rw [ih hn.2 hh' hr, List.map_congr_left hsa, eq_of_spendEntry he hc]
      simp [hc]
    · cases hstep

/-- No coin of the parent view belongs to the transaction. -/
def NewId (base : TreeMap COutPoint Coin) (hash : UInt256) : Prop :=
  ∀ outpoint : COutPoint, outpoint.hash = hash → CCoinsViewCache.getCoin { base } outpoint = none

theorem newId_of_keys (h : ∀ outpoint ∈ base.keys, outpoint.hash ≠ hash) : NewId base hash := by
  intro outpoint hh
  have hn : base[outpoint]? = none :=
    TreeMap.getElem?_eq_none fun hm => h outpoint (TreeMap.mem_keys.2 hm) hh
  rw [getCoin_of_not_cached TreeMap.getElem?_emptyc, baseCoin, hn]
  rfl

theorem hash_of_mem_outpoints {item : COutPoint × CTxOut} (h : item ∈ tx.outpoints) :
    item.1.hash = tx.hash := by
  simp only [outpoints, List.mem_map, Prod.exists] at h
  obtain ⟨out, i, -, rfl⟩ := h
  rfl

theorem follows_addOutputs {view view' : CCoinsViewCache} {items : List (COutPoint × CTxOut)}
    {fCoinBase : Bool} (h : Follows base coins view) (hnew : NewId base hash)
    (hit : ∀ item ∈ items, item.1.hash = hash)
    (ha : items.foldlM (fun view (out, txout) =>
      view.addCoin out ⟨txout, nHeight, fCoinBase⟩ fCoinBase) view = some view') :
    Follows base (Ledger.create coins
      ((items.filter fun item => !CScript.isUnspendable item.2.scriptPubKey).map
        fun item => (item.1, ⟨item.2, nHeight, fCoinBase⟩))) view' := by
  induction items generalizing view coins with
  | nil =>
    cases ha
    exact h
  | cons item items ih =>
    obtain ⟨out, txout⟩ := item
    rw [List.foldlM_cons, Option.bind_eq_bind, Option.bind_eq_some_iff] at ha
    obtain ⟨mid, hm, ha⟩ := ha
    have hb : view.baseCoin out = none := by
      have hn := hnew out (hit _ List.mem_cons_self)
      rwa [getCoin_of_not_cached TreeMap.getElem?_emptyc, baseCoin, ← h.base] at hn
    obtain ⟨ht, hba, hg⟩ := h.tidy.addCoin (Or.inr hb) hm
    have hr : Follows base _ view' := ih ⟨ht, hba.trans h.base, rfl⟩
      (fun item hi => hit item (List.mem_cons_of_mem _ hi)) ha
    dsimp only at hg
    rw [h.getCoin] at hg
    cases hsp : CScript.isUnspendable txout.scriptPubKey with
    | true =>
      rw [hg, if_pos hsp] at hr
      rw [List.filter_cons_of_neg (by simp [hsp])]
      exact hr
    | false =>
      rw [hg, if_neg (by simp [hsp])] at hr
      rw [List.filter_cons_of_pos (by simp [hsp]), List.map_cons, Ledger.create,
        List.foldl_cons, ← Ledger.create]
      exact hr

theorem follows_updateCoins {undo : Option (Str × CBlockAssetUndo)} (h : Follows base coins st.view)
    (hnew : NewId base tx.hash)
    (hu : updateCoins env g st tx nHeight blockHash = some (st', txundo, undo)) :
    Follows base ((tx.ledgerEntry nHeight).apply coins) st'.view := by
  obtain ⟨mid, hsp, ha⟩ := exists_of_updateCoins hu
  have hm : Follows base (Ledger.spend coins (tx.ledgerEntry nHeight).spent) mid.view := by
    cases hcb : tx.isCoinBase with
    | true =>
      simp only [hcb, if_true, Option.some.injEq, Prod.mk.injEq] at hsp
      simpa [ledgerEntry, hcb, Ledger.spend, ← hsp.1] using h
    | false =>
      simp only [hcb, Bool.false_eq_true, if_false] at hsp
      simpa [ledgerEntry, hcb] using follows_spendInputs h hsp
  simp only [addCoins, Option.bind_eq_bind, Option.bind_eq_some_iff] at ha
  obtain ⟨view, hv, hr⟩ := ha
  cases hr
  exact follows_addOutputs hm hnew (fun item => hash_of_mem_outpoints) hv

end Updates

section Block

variable {rules : BlockRules} {env : Env} {g : AssetGlobals} {mempool : MempoolAssets}
  {node : NodeState} {nHeight : Nat} {base : TreeMap COutPoint Coin} {cache : CAssetsCache}
  {block : CBlock} {conn : Connected} {tx : CTransaction} {k : COutPoint} {vtx : List CTransaction}

/-- The ids of a block are new: none occurs twice, and none has coins already. -/
structure NewIds (base : TreeMap COutPoint Coin) (vtx : List CTransaction) : Prop where
  nodup : (vtx.map CTransaction.hash).Nodup
  new : ∀ tx ∈ vtx, NewId base tx.hash

theorem newIds_of_keys {vtx : List CTransaction} (hn : (vtx.map CTransaction.hash).Nodup)
    (h : ∀ tx ∈ vtx, ∀ outpoint ∈ base.keys, outpoint.hash ≠ tx.hash) : NewIds base vtx :=
  ⟨hn, fun tx htx => newId_of_keys (h tx htx)⟩

theorem haveCoin_of_connectTx {blockHash : UInt256} {fUndo : Bool} {c c' : Connected}
    (hcb : tx.isCoinBase = false)
    (h : connectTx rules env g mempool nHeight blockHash fUndo c tx = .ok c') :
    ∀ txin ∈ tx.vin, (c.st.view.getCoin txin.prevout).isSome := by
  obtain ⟨nFees, _, _, _, hi, -⟩ := connectTx_eq_ok.1 h
  rw [hcb] at hi
  obtain ⟨txfee, hc, -⟩ := connectInputs_eq_ok.1 hi
  simp only [checkTxInputs, rejectIf, failIf_bind_eq_ok, Bool.not_eq_false',
    haveInputs, hcb, Bool.false_or, List.all_eq_true] at hc
  exact hc.1

/-- The coins of a connected block are those of the ledger of its transactions, each of which finds
its inputs there. -/
theorem follows_connectBlock
    (hg : block.header.getHash rules.params ≠ rules.params.hashGenesisBlock)
    (hnew : NewIds base block.vtx)
    (h : connectBlock rules env g mempool node nHeight { view := { base }, cache } block =
      .ok conn) :
    Follows base (Ledger.run (getCoin { base })
      (block.vtx.map (ledgerEntry nHeight))) conn.st.view ∧
    Ledger.Available (getCoin { base })
      (block.vtx.map (ledgerEntry nHeight)) := by
  obtain ⟨_, -, hc⟩ := bind_eq_ok.1 h
  simp only [if_neg hg] at hc
  refine connectTransactions_invariant (fun pre c => Follows base (Ledger.run
    (getCoin { base }) (pre.map (ledgerEntry nHeight))) c.st.view ∧
    Ledger.Available (getCoin { base })
      (pre.map (ledgerEntry nHeight))) hc ?_ ?_
  · exact ⟨⟨tidy_of_empty base, rfl, rfl⟩, fun pre e post hsp => by simp at hsp⟩
  · intro pre tx post c c' hsp ⟨hf, ha⟩ hstep
    obtain ⟨_, st, _, _, -, -, -, hu, rfl⟩ := connectTx_eq_ok.1 hstep
    have hid : NewId base tx.hash := hnew.new tx (by simp [hsp])
    rw [List.map_append, List.map_singleton, Ledger.run_append]
    refine ⟨follows_updateCoins hf hid hu, ha.concat fun k hk => ?_⟩
    cases hcb : tx.isCoinBase with
    | true => simp [ledgerEntry, hcb] at hk
    | false =>
      simp only [ledgerEntry, hcb, Bool.false_eq_true, if_false, List.mem_map] at hk
      obtain ⟨txin, ht, rfl⟩ := hk
      rw [← hf.getCoin]
      exact haveCoin_of_connectTx hcb hstep txin ht

theorem mem_keys_ledgerEntry : k ∈ (tx.ledgerEntry nHeight).keys ↔
      ∃ out, (k, out) ∈ tx.outpoints ∧ CScript.isUnspendable out.scriptPubKey = false := by
  simp [Ledger.Entry.keys, ledgerEntry]

theorem hash_of_mem_keys (h : k ∈ (tx.ledgerEntry nHeight).keys) : k.hash = tx.hash := by
  obtain ⟨out, hout, -⟩ := mem_keys_ledgerEntry.1 h
  exact hash_of_mem_outpoints hout

theorem new_ledgerEntry (hnew : NewIds base vtx) : Ledger.New (getCoin { base })
      (vtx.map (ledgerEntry nHeight)) where
  absent := by
    intro e he k hk
    obtain ⟨tx, htx, rfl⟩ := List.mem_map.1 he
    exact hnew.new tx htx k (hash_of_mem_keys hk)
  distinct := by
    refine List.pairwise_map.2 ((List.pairwise_map.1 hnew.nodup).imp fun hne k hk hk' => hne ?_)
    rw [← hash_of_mem_keys hk, ← hash_of_mem_keys hk']

/-- No two transactions of a block spend the same output. -/
theorem notMem_spent (hnew : NewIds base vtx)
    (ha : Ledger.Available (getCoin { base })
      (vtx.map (ledgerEntry nHeight))) {tx' : CTransaction} (htx : tx ∈ vtx)
    (ht' : tx' ∈ vtx) (hne : tx ≠ tx') (hk : k ∈ (tx.ledgerEntry nHeight).spent) :
    k ∉ (tx'.ledgerEntry nHeight).spent := by
  obtain ⟨pre, post, rfl⟩ := List.append_of_mem htx
  have ht : ∀ {first mid last : List CTransaction} {a b : CTransaction},
      pre ++ tx :: post = first ++ a :: mid ++ b :: last → k ∈ (a.ledgerEntry nHeight).spent →
      k ∉ (b.ledgerEntry nHeight).spent := by
    intro first mid last a b hsp
    have hm := congrArg (List.map (ledgerEntry nHeight)) hsp
    rw [@List.map_append _ _ _ (first ++ a :: mid), @List.map_append _ _ _ first, List.map_cons,
      List.map_cons] at hm
    exact Ledger.not_spent_twice ha (new_ledgerEntry hnew) hm
  rcases List.mem_append.1 ht' with hpr | hp
  · obtain ⟨first, mid, rfl⟩ := List.append_of_mem hpr
    exact fun hk' => ht rfl hk' hk
  · obtain ⟨mid, last, rfl⟩ := List.append_of_mem ((List.mem_cons.1 hp).resolve_left hne.symm)
    exact ht (List.append_assoc pre (tx :: mid) (tx' :: last)).symm hk

/-- What is unspent after a connected block. -/
theorem getCoin_after
    (hg : block.header.getHash rules.params ≠ rules.params.hashGenesisBlock)
    (hnew : NewIds base block.vtx)
    (h : connectBlock rules env g mempool node nHeight { view := { base }, cache } block =
      .ok conn) (outpoint : COutPoint) :
    getCoin { base := conn.st.view.flush } outpoint = Ledger.run (getCoin { base })
        (block.vtx.map (ledgerEntry nHeight)) outpoint := by
  obtain ⟨hf, -⟩ := follows_connectBlock hg hnew h
  rw [hf.tidy.getCoin_flush, hf.getCoin]

end Block

end Cmusic
