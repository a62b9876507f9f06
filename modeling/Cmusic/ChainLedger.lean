import Cmusic.Inflation
import Cmusic.Subsidy

/-! What a chain of blocks spends and creates. -/

namespace Cmusic

open Std CTransaction CCoinsViewCache

/-- A call of `ConnectBlock`: the network, the height and the block. -/
abbrev ConnectCall := Env × Nat × CBlock

/-- The transactions with their heights. -/
def chainTxs (calls : List ConnectCall) : List (Nat × CTransaction) :=
  calls.flatMap fun call => call.2.2.vtx.map (call.2.1, ·)

def chainEntries (calls : List ConnectCall) : List (Ledger.Entry COutPoint Coin) :=
  (chainTxs calls).map fun p => p.2.ledgerEntry p.1

/-- Blocks after the genesis block are connected one on another. -/
inductive ConnectedChain (base : TreeMap COutPoint Coin) :
    List ConnectCall → TreeMap COutPoint Coin → Prop
  | nil : ConnectedChain base [] base
  | block {calls top rules env g mempool node nHeight cache block conn}
    (hbelow : ConnectedChain base calls top)
    (hgenesis : block.header.getHash rules.params ≠ rules.params.hashGenesisBlock)
    (hconnect : connectBlock rules env g mempool node nHeight { view := { base := top }, cache }
      block = .ok conn) :
    ConnectedChain base (calls ++ [(env, nHeight, block)]) conn.st.view.flush

variable {base top : TreeMap COutPoint Coin} {calls : List ConnectCall}

theorem new_chainEntries (hnew : NewIds base ((chainTxs calls).map Prod.snd)) :
    Ledger.New (getCoin { base }) (chainEntries calls) where
  absent := by
    intro e he k hk
    obtain ⟨p, hp, rfl⟩ := List.mem_map.1 he
    exact hnew.new p.2 (List.mem_map_of_mem hp) k (hash_of_mem_keys hk)
  distinct := by
    have hn := hnew.nodup
    rw [List.map_map] at hn
    refine List.pairwise_map.2 ((List.pairwise_map.1 hn).imp fun hne k hk hk' => hne ?_)
    exact (hash_of_mem_keys hk).symm.trans (hash_of_mem_keys hk')

theorem ConnectedChain.follows (h : ConnectedChain base calls top)
    (hnew : NewIds base ((chainTxs calls).map Prod.snd)) :
    getCoin { base := top } = Ledger.run (getCoin { base }) (chainEntries calls) ∧
      Ledger.Available (getCoin { base }) (chainEntries calls) := by
  induction h with
  | nil => exact ⟨rfl, fun pre e post hsp => by simp [chainEntries, chainTxs] at hsp⟩
  | @block calls top _ env _ _ _ nHeight _ block conn _ hg hc ih =>
    have ht : chainTxs (calls ++ [(env, nHeight, block)]) =
        chainTxs calls ++ block.vtx.map (nHeight, ·) := by simp [chainTxs]
    simp only [chainEntries, ht, List.map_append, List.map_map, Function.comp_def, List.map_id']
      at hnew ih ⊢
    obtain ⟨hn, hid⟩ := hnew
    rw [List.map_append, List.nodup_append] at hn
    obtain ⟨hrun, hav⟩ := ih ⟨hn.1, fun tx ht => hid tx (List.mem_append_left _ ht)⟩
    -- an output with the id of the block's transaction is neither below nor made by the chain
    have htop : NewIds top block.vtx := by
      refine ⟨hn.2.1, fun tx ht k hk => Option.eq_none_iff_forall_ne_some.2 fun coin hv => ?_⟩
      rw [hrun] at hv
      rcases Ledger.run_eq_some hv with hv | ⟨e, he, hv⟩
      · cases (hid tx (List.mem_append_right _ ht) k hk).symm.trans hv
      · obtain ⟨p, hp, rfl⟩ := List.mem_map.1 he
        have hkp := hash_of_mem_keys (List.mem_map_of_mem hv)
        exact hn.2.2 _ (List.mem_map_of_mem (List.mem_map_of_mem hp)) _ (List.mem_map_of_mem ht)
          (hkp.symm.trans hk)
    obtain ⟨-, ha⟩ := follows_connectBlock hg htop hc
    rw [Ledger.run_append, ← hrun]
    exact ⟨funext (getCoin_after hg htop hc), hav.append (hrun ▸ ha)⟩

/-- The coins after a chain are those of its ledger, and no output is spent twice along it. -/
theorem ConnectedChain.spent_once (h : ConnectedChain base calls top)
    (hnew : NewIds base ((chainTxs calls).map Prod.snd)) :
    getCoin { base := top } = Ledger.run (getCoin { base }) (chainEntries calls) ∧
      (chainEntries calls).Pairwise fun e e' => ∀ k ∈ e.spent, k ∉ e'.spent :=
  (h.follows hnew).imp_right fun hav => Ledger.pairwise_spent hav (new_chainEntries hnew)

theorem spent_once_payingBlock :
    ∃ top, ConnectedChain ownedBase [(unenforcedEnv, 10, payingBlock)] top ∧ getCoin { base := top } =
      Ledger.run (getCoin { base := ownedBase }) (payingBlock.vtx.map (ledgerEntry 10)) := by
  obtain ⟨conn, hc, -⟩ := exists_of_totalAfter totalAfter_connectPaying
  have h := ConnectedChain.nil.block (by decide +kernel) hc
  exact ⟨_, h, (h.spent_once (newIds_of_keys (by decide +kernel) (by decide +kernel))).1⟩

theorem ConnectedChain.utxoTotal_le (h : ConnectedChain base calls top) (hb : NonNegative base)
    (he : ∀ call ∈ calls, call.1.areEnforcedValuesDeployed = true) :
    NonNegative top ∧ utxoTotal top ≤
      utxoTotal base + (calls.map fun call => (getBlockSubsidy call.2.1).toInt).sum := by
  induction h with
  | nil => exact ⟨hb, by simp⟩
  | @block calls top _ env _ _ _ nHeight _ block conn _ hg hc ih =>
    obtain ⟨hb, hle⟩ := ih fun call hm => he call (List.mem_append_left _ hm)
    obtain ⟨hso, ht⟩ := connectBlock_total hb hc
    have hf := hso.utxoTotal_flush_le
    rw [sum_hiddenValue, he (env, nHeight, block) (by simp), if_pos rfl] at ht
    refine ⟨nonNegative_connectBlock hb hc, ?_⟩
    simp only [List.map_append, List.sum_append, List.map_singleton, List.sum_singleton]
    omega

theorem sum_subsidies (n : Nat) :
    ((List.range' 1 n).map fun h => (getBlockSubsidy h).toInt).sum = totalSubsidy n := by
  induction n with
  | zero => rfl
  | succ n ih => simp [List.range'_concat, totalSubsidy_succ, ih, add_comm]

/-- As long as the values of reissues are enforced, no chain on an empty set of coins creates more
than the money supply. -/
theorem ConnectedChain.utxoTotal_le_maxMoney (h : ConnectedChain ∅ calls top)
    (he : ∀ call ∈ calls, call.1.areEnforcedValuesDeployed = true)
    (hh : calls.map (fun call => call.2.1) = List.range' 1 calls.length) :
    utxoTotal top ≤ maxMoney.toInt := by
  obtain ⟨-, hle⟩ := h.utxoTotal_le (fun outpoint coin hc => by simp at hc) he
  have hs := sum_subsidies calls.length
  rw [← hh, List.map_map] at hs
  have hb : (coinsUpTo calls.length : Int) ≤ 175000000 := by exact_mod_cast coinsUpTo_le _
  have h0 : utxoTotal ∅ = 0 := by decide
  have ht := totalSubsidy_eq calls.length
  have hm := toInt_maxMoney_eq
  rw [toInt_coin] at ht hm
  simp only [Function.comp_def] at hs
  omega

theorem utxoTotal_le_maxMoney_sampleCoinbase :
    ∃ top, ConnectedChain ∅ [(sampleEnv, 1, ⟨sampleHeader, [sampleCoinbase]⟩)] top ∧
      utxoTotal top ≤ maxMoney.toInt := by
  have ht : totalAfter (connectBlock sampleRules sampleEnv ownedGlobals {} sampleNode 1
      ⟨{ base := ∅ }, {}⟩ ⟨sampleHeader, [sampleCoinbase]⟩) = some (300 * 100000000) := by
    decide +kernel
  obtain ⟨conn, hc, -⟩ := exists_of_totalAfter ht
  have h := ConnectedChain.nil.block (by decide +kernel) hc
  exact ⟨_, h, h.utxoTotal_le_maxMoney (by simp; rfl) rfl⟩

end Cmusic
