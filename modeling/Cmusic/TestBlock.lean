import Cmusic.Messaging
import Cmusic.BlockContext
import Cmusic.ChainRuns
import Cmusic.Mempool

/-! `TestBlockValidity`: a block is checked against the tip without becoming part of the chain. -/
namespace Cmusic

open Fallible Std

section

variable (rules : BlockRules) (env : Env)

/-- `CheckBlock` with the switches of the proof of work and of the merkle root. -/
def checkBlockWith (fCheckPOW fCheckMerkleRoot : Bool) (node : NodeState) (block : CBlock) :
    Checked Unit := do
  if fCheckPOW then checkBlockHeader rules.params node block.header none
  let (hashMerkleRoot, mutated) := rules.blockMerkleRoot (block.vtx.map CTransaction.hash)
  rejectIf (fCheckMerkleRoot && block.header.hashMerkleRoot ≠ hashMerkleRoot) 100
    (str "bad-txnmrklroot")
  rejectIf (fCheckMerkleRoot && mutated) 100 (str "bad-txns-duplicate")
  rejectIf (block.vtx.isEmpty || block.vtx.length * witnessScaleFactor > maxBlockWeight ||
      block.strippedSize rules.params * witnessScaleFactor > maxBlockWeight) 100
    (str "bad-blk-length")
  rejectIf (!(block.vtx.head?.any CTransaction.isCoinBase)) 100 (str "bad-cb-missing")
  rejectIf (block.vtx.tail.any CTransaction.isCoinBase) 100 (str "bad-cb-multiple")
  forM block.vtx fun tx => checkTransaction env tx true false true
  rejectIf ((block.vtx.map rules.getLegacySigOpCount).sum * witnessScaleFactor >
      maxBlockSigOpsCost) 100 (str "bad-blk-sigops")

/-- With both switches on it is the check of a block that is connected. -/
theorem checkBlockWith_true (node : NodeState) (block : CBlock) :
    checkBlockWith rules env true true node block = checkBlock rules env node block := by
  simp [checkBlockWith, checkBlock]

/-- The data of the node that its threads share: the block index, the coins of the tip, the asset
cache of the tip and its database, the memory pool with the reissue maps, and the channels. The coins
and the rows of the asset databases that lookups keep in memory are not told apart from the
databases. -/
structure SharedState where
  node : NodeState
  coinsTip : TreeMap COutPoint Coin
  globals : AssetGlobals
  pool : CTxMemPool
  messaging : MessagingState

/-- The shared data without the caches that lookups fill. -/
def SharedState.withoutReadCaches (s : SharedState) : SharedState :=
  { s with messaging := s.messaging.withoutReadCaches }

variable (wallet : Option (CTxOut → Bool))

def SharedState.noteOutput (s : SharedState) (txout : CTxOut) : SharedState :=
  { s with messaging := s.messaging.noteOutput env wallet txout }

/-- The states after each of the outputs that `AddCoins` adds. The lock on the channels is held for
one output at a time, so that other threads can see each of them. -/
def SharedState.noteOutputs (s : SharedState) : List CTxOut → List SharedState
  | [] => []
  | txout :: rest => s.noteOutput env wallet txout :: (s.noteOutput env wallet txout).noteOutputs rest

variable (nHeight : Nat) (blockHash : UInt256)

/-- The loop of `ConnectBlock` from a transaction on, with the shared states it passes through. The
coins and the asset cache that it changes are copies. -/
def justCheckLoop (fUndo : Bool) (conn : Connected) (s : SharedState) :
    List CTransaction → Checked Connected × List SharedState
  | [] => (.ok conn, [])
  | tx :: rest =>
    match connectTx rules env s.globals s.pool.toMempoolAssets nHeight blockHash fUndo conn tx with
    | .error e => (.error e, [])
    | .ok conn =>
      let passed := s.noteOutputs env wallet tx.vout
      let (result, later) := justCheckLoop true conn (passed.getLastD s) rest
      (result, passed ++ later)

/-- `ConnectBlock` with `fJustCheck`, after its checks of the block. -/
def justCheckTransactions (s : SharedState) (vtx : List CTransaction) :
    Checked Unit × List SharedState :=
  match justCheckLoop rules env wallet nHeight blockHash false
    { st := ⟨{ base := s.coinsTip }, s.globals.passets⟩ } s vtx with
  | (.error e, passed) => (.error e, passed)
  | (.ok conn, passed) =>
    (match vtx with
      | [] => .error aborted
      | coinbase :: _ => checkReward rules env nHeight conn.nFees coinbase, passed)

end

section

variable (params : ContextParams) (rules : BlockRules) (env : Env)
  (wallet : Option (CTxOut → Bool)) (fCheckPOW fCheckMerkleRoot : Bool) (witness : BlockWitness)
  (s : SharedState) (block : CBlock)

/-- The checks before the first transaction is connected. -/
def checksBefore (prev : CBlockIndex) : Checked Unit := do
  contextualCheckBlockHeader rules.params s.node block.header prev
  checkBlockWith rules env fCheckPOW fCheckMerkleRoot s.node block
  contextualCheckBlock params rules env (some prev) witness block
  checkBlockWith rules env false false s.node block

/-- `TestBlockValidity`: the answer, and the shared states it passes through. -/
def testBlockValidity : Checked Unit × List SharedState :=
  match s.node.tip with
  | none => (.error aborted, [])
  | some prev =>
    match checksBefore params rules env fCheckPOW fCheckMerkleRoot witness s block prev with
    | .error e => (.error e, [])
    | .ok () =>
      let blockHash := block.header.getHash rules.params
      if blockHash = rules.params.hashGenesisBlock then (.ok (), [])
      else justCheckTransactions rules env wallet (prev.nHeight + 1).toNat blockHash s block.vtx

/-- The first transactions of the block pass every check up to the adding of their outputs. -/
def Reaches (txs : List CTransaction) : Prop :=
  ∃ prev, s.node.tip = some prev ∧
    checksBefore params rules env fCheckPOW fCheckMerkleRoot witness s block prev = .ok () ∧
    block.header.getHash rules.params ≠ rules.params.hashGenesisBlock ∧
    ∃ conn, connectLoop rules env s.globals s.pool.toMempoolAssets (prev.nHeight + 1).toNat
      (block.header.getHash rules.params) ⟨{ base := s.coinsTip }, s.globals.passets⟩ txs = .ok conn

/-- No state that the check passes through differs from the one before it in more than the caches
that lookups fill. -/
def EffectFree : Prop :=
  ∀ s' ∈ (testBlockValidity params rules env wallet fCheckPOW fCheckMerkleRoot witness s block).2,
    s'.withoutReadCaches = s.withoutReadCaches

/-- Every output that the check gets to add is quiet. -/
def QuietBlock : Prop :=
  ∀ txs, txs <+: block.vtx →
    Reaches params rules env fCheckPOW fCheckMerkleRoot witness s block txs →
    s.messaging.QuietOutputs env wallet (txs.flatMap CTransaction.vout)

end

section

variable {params : ContextParams} {rules : BlockRules} {env : Env} {wallet : Option (CTxOut → Bool)}
  {fCheckPOW fCheckMerkleRoot : Bool} {witness : BlockWitness} {s : SharedState} {block : CBlock}
  {nHeight : Nat} {blockHash : UInt256} {g : AssetGlobals} {mempool : MempoolAssets}
  {conn : Connected} {txs : List CTransaction}

theorem SharedState.noteOutput_iff {txout : CTxOut} :
    (s.noteOutput env wallet txout).withoutReadCaches = s.withoutReadCaches ↔
      s.messaging.QuietOutput env wallet txout := by
  rw [← MessagingState.noteOutput_iff]
  simp [withoutReadCaches, noteOutput]

theorem SharedState.noteOutputs_iff {outs : List CTxOut} :
    (∀ s' ∈ s.noteOutputs env wallet outs, s'.withoutReadCaches = s.withoutReadCaches) ↔
      s.messaging.QuietOutputs env wallet outs := by
  induction outs generalizing s with
  | nil => simp [noteOutputs, MessagingState.QuietOutputs]
  | cons txout rest ih =>
    rw [noteOutputs, List.forall_mem_cons, MessagingState.QuietOutputs, ← noteOutput_iff]
    refine and_congr_right fun hq => ?_
    rw [← hq]
    exact ih

/-- The last of the states. -/
theorem SharedState.getLastD_noteOutputs {outs : List CTxOut} :
    (s.noteOutputs env wallet outs).getLastD s =
      { s with messaging := outs.foldl (·.noteOutput env wallet ·) s.messaging } := by
  induction outs generalizing s with
  | nil => rfl
  | cons txout rest ih =>
    rw [noteOutputs, List.getLastD_cons, ih]
    rfl

theorem MessagingState.quietOutputs_append {m : MessagingState} {outs later : List CTxOut} :
    m.QuietOutputs env wallet (outs ++ later) ↔ m.QuietOutputs env wallet outs ∧
      (outs.foldl (·.noteOutput env wallet ·) m).QuietOutputs env wallet later := by
  induction outs generalizing m with
  | nil => simp [QuietOutputs]
  | cons txout rest ih => simp only [List.cons_append, QuietOutputs, ih, List.foldl_cons, and_assoc]

theorem getLastD_of_forall {α β : Type} {f : α → β} {passed : List α} {a : α}
    (h : ∀ b ∈ passed, f b = f a) : f (passed.getLastD a) = f a := by
  cases hl : passed.getLast? with
  | none => simp [List.getLastD_eq_getLast?, hl]
  | some b => simp [List.getLastD_eq_getLast?, hl, h b (List.mem_of_getLast? hl)]

/-- The loop of `ConnectBlock` from a transaction on, without the shared states. -/
def connectFrom (rules : BlockRules) (env : Env) (g : AssetGlobals) (mempool : MempoolAssets)
    (nHeight : Nat) (blockHash : UInt256) (fUndo : Bool) (conn : Connected) :
    List CTransaction → Checked Connected
  | [] => .ok conn
  | tx :: rest => do
    let conn ← connectTx rules env g mempool nHeight blockHash fUndo conn tx
    connectFrom rules env g mempool nHeight blockHash true conn rest

theorem connectFrom_true : connectFrom rules env g mempool nHeight blockHash true conn txs =
      txs.foldlM (connectTx rules env g mempool nHeight blockHash true) conn := by
  induction txs generalizing conn with
  | nil => rfl
  | cons tx rest ih =>
    rw [connectFrom, List.foldlM_cons]
    congr 1
    funext conn
    exact ih

theorem connectLoop_eq_connectFrom {st : CoinState} :
    connectLoop rules env g mempool nHeight blockHash st txs =
      connectFrom rules env g mempool nHeight blockHash false { st } txs := by
  cases txs with
  | nil => rfl
  | cons tx rest =>
    rw [connectLoop, connectFrom]
    congr 1
    funext conn
    exact connectFrom_true.symm

/-- The loop leaves everything but the read caches alone exactly when the outputs it adds are quiet. -/
theorem justCheckLoop_iff {fUndo : Bool} :
    (∀ s' ∈ (justCheckLoop rules env wallet nHeight blockHash fUndo conn s txs).2,
        s'.withoutReadCaches = s.withoutReadCaches) ↔
      ∀ pre, pre <+: txs → (∃ conn', connectFrom rules env s.globals s.pool.toMempoolAssets nHeight
          blockHash fUndo conn pre = .ok conn') →
        s.messaging.QuietOutputs env wallet (pre.flatMap CTransaction.vout) := by
  induction txs generalizing fUndo conn s with
  | nil => simp [justCheckLoop, MessagingState.QuietOutputs]
  | cons tx rest ih =>
    -- a part of the block is empty, or it starts with the transaction
    have hparts (P : List CTransaction → Prop) (hnil : P []) :
        (∀ pre, pre <+: tx :: rest → P pre) ↔ ∀ pre, pre <+: rest → P (tx :: pre) := by
      simp only [List.prefix_cons_iff]
      grind
    rw [hparts _ fun _ => trivial]
    cases hc : connectTx rules env s.globals s.pool.toMempoolAssets nHeight blockHash fUndo conn
      tx with
    | error e => simp [justCheckLoop, connectFrom, hc, bind_eq_ok]
    | ok conn' =>
      simp only [justCheckLoop, hc, List.forall_mem_append, SharedState.noteOutputs_iff,
        SharedState.getLastD_noteOutputs, connectFrom, bind_eq_ok, Except.ok.injEq, exists_eq_left',
        List.flatMap_cons, MessagingState.quietOutputs_append]
      have hs (hq : s.messaging.QuietOutputs env wallet tx.vout) :
          SharedState.withoutReadCaches { s with
            messaging := tx.vout.foldl (·.noteOutput env wallet ·) s.messaging } =
            s.withoutReadCaches := by
        rw [← SharedState.getLastD_noteOutputs]
        exact getLastD_of_forall (SharedState.noteOutputs_iff.2 hq)
      constructor
      · rintro ⟨hq, hl⟩ pre hp hr
        rw [← hs hq] at hl
        exact ⟨hq, ih.1 hl pre hp hr⟩
      · intro h
        have hq := (h [] List.nil_prefix ⟨conn', rfl⟩).1
        refine ⟨hq, ?_⟩
        rw [← hs hq]
        exact ih.2 fun pre hp hr => (h pre hp hr).2

theorem passed_justCheckTransactions {vtx : List CTransaction} :
    (justCheckTransactions rules env wallet nHeight blockHash s vtx).2 =
      (justCheckLoop rules env wallet nHeight blockHash false
        { st := ⟨{ base := s.coinsTip }, s.globals.passets⟩ } s vtx).2 := by
  unfold justCheckTransactions
  split
  next e passed hl => rw [hl]
  next conn passed hl => rw [hl]

/-- Checking a block has no effect beyond the caches that lookups fill exactly when no output that the
check adds is for the wallet of a node that uses messages, or what it asks of the messaging code is
settled already. -/
theorem effectFree_iff :
    EffectFree params rules env wallet fCheckPOW fCheckMerkleRoot witness s block ↔
      QuietBlock params rules env wallet fCheckPOW fCheckMerkleRoot witness s block := by
  unfold EffectFree QuietBlock testBlockValidity
  cases ht : s.node.tip with
  | none => simp [Reaches, ht]
  | some prev =>
    cases hc : checksBefore params rules env fCheckPOW fCheckMerkleRoot witness s block prev with
    | error e => simp [Reaches, ht, hc]
    | ok u =>
      by_cases hg : block.header.getHash rules.params = rules.params.hashGenesisBlock
      · simp [Reaches, hg, hc]
      · simp only [hg, if_false, passed_justCheckTransactions, justCheckLoop_iff, Reaches,
          connectLoop_eq_connectFrom, ht, Option.some.injEq, exists_eq_left', hc, ne_eq,
          not_false_eq_true, true_and]

end

/-- A ninth block. -/
def ninthTip : CBlockIndex := ⟨⟨sampleHeader, 3⟩, List.replicate 9 ⟨sampleHeader, 3⟩⟩

/-- The header of the next one. -/
def tenthHeader : CBlockHeader :=
  { sampleHeader with nVersion := 0x30000000, nTime := sampleHeader.nTime + 60 }

/-- A block that issues an asset to the key of the node. -/
def ownIssueBlock : CBlock :=
  ⟨tenthHeader, [pairCoinbase, issueTx 11 sampleOutPoint (900 * coin) wholeMusic]⟩

/-- The node at the ninth block, with a thousand coins; it uses messages and has nothing to write. -/
def ninthState : SharedState where
  node := { sampleNode with tip := some ninthTip }
  coinsTip := (∅ : TreeMap COutPoint Coin).insert sampleOutPoint
    ⟨⟨1000 * coin, sampleScript⟩, 1, false⟩
  globals := { passets := {}, db := emptyDB }
  pool := {}
  messaging := {
    fMessaging := true
    pMessageSubscribedChannelsCache := some { maxSize := 1000 }
    pMessagesSeenAddressCache := some { maxSize := 1000 }
    pmessagechanneldb := some {} }

/-- The wallet with the sample key. -/
def sampleWallet (txout : CTxOut) : Bool := sampleScript.isPrefixOf txout.scriptPubKey

theorem contextualCheckBlockHeader_tenthHeader :
    contextualCheckBlockHeader sampleRules.params ninthState.node tenthHeader ninthTip = .ok () := by
  have ht : ninthTip.getMedianTimePast < tenthHeader.getBlockTime := by
    obtain ⟨r, hr, hm⟩ := List.mem_map.1 ninthTip.getMedianTimePast_mem
    have hre : r = ⟨sampleHeader, 3⟩ := List.eq_of_mem_replicate (n := 10) (List.mem_of_mem_take hr)
    rw [← hm, hre]
    decide
  exact contextualCheckBlockHeader_eq_ok.2 ⟨by decide, by decide, by decide +kernel, by decide,
    ht, by decide, by decide⟩

theorem checksBefore_ownIssueBlock : checksBefore sampleContext sampleRules runEnv false true {}
    ninthState ownIssueBlock ninthTip = .ok () := by
  refine bind_eq_ok.2 ⟨(), contextualCheckBlockHeader_tenthHeader, ?_⟩
  decide +kernel

/-- The check of the block as a miner proposes it. -/
def proposal : Checked Unit × List SharedState :=
  testBlockValidity sampleContext sampleRules runEnv (some sampleWallet) false true {} ninthState
    ownIssueBlock

theorem proposal_eq : proposal = justCheckTransactions sampleRules runEnv (some sampleWallet) 10
    (tenthHeader.getHash sampleRules.params) ninthState ownIssueBlock.vtx := by
  have ht : ninthState.node.tip = some ninthTip := rfl
  have hg : ownIssueBlock.header.getHash sampleRules.params ≠
      sampleRules.params.hashGenesisBlock := by decide
  simp only [proposal, testBlockValidity, ht, checksBefore_ownIssueBlock, hg, if_false]
  rfl

/-- A block that is only proposed is accepted, and it subscribes the node to a channel. -/
theorem proposal_not_effectFree : proposal.1 = .ok () ∧
    str "MUSIC!" ∉ ninthState.messaging.setDirtyChannelsAdd ∧
    str "MUSIC!" ∈ (proposal.2.getLastD ninthState).messaging.setDirtyChannelsAdd ∧
    ¬ EffectFree sampleContext sampleRules runEnv (some sampleWallet) false true {} ninthState
      ownIssueBlock := by
  have ha : proposal.1 = .ok () := by
    rw [proposal_eq]
    decide +kernel
  have hsu : str "MUSIC!" ∈
      (proposal.2.getLastD ninthState).messaging.setDirtyChannelsAdd := by
    rw [proposal_eq]
    decide +kernel
  have hb : str "MUSIC!" ∉ ninthState.messaging.setDirtyChannelsAdd := by decide
  refine ⟨ha, hb, hsu, fun hf => hb ?_⟩
  have hl : (proposal.2.getLastD ninthState).withoutReadCaches = ninthState.withoutReadCaches :=
    getLastD_of_forall hf
  have hd := congrArg (fun s => s.messaging.setDirtyChannelsAdd) hl
  exact hd ▸ hsu

end Cmusic
