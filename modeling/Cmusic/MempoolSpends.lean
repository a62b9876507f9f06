import Cmusic.MempoolRuns

/-! Which transaction of the memory pool spends an output. -/

namespace Cmusic

open Fallible Std

namespace CTxMemPool

variable {pool : CTxMemPool} {call : AcceptCall} {data : AcceptData}

/-- `mapNextTx` has for every outpoint the entry that spends it. -/
def SpendsExact (pool : CTxMemPool) : Prop :=
  ∀ hash outpoint, outpoint ∈ pool.inputsOf hash ↔
    pool.mapNextTx[outpoint]?.map CTransaction.hash = some hash

theorem keptByRemoval_spendsExact : KeptByRemoval SpendsExact where
  links _ _ h := h
  entry pool hash tx htx h := by
    have hr : SpendsExact (pool.removeUnchecked hash) := by
      intro k o
      rw [mem_inputsOf_removeUnchecked, mapNextTx_removeUnchecked, h k]
      by_cases ho : o ∈ pool.inputsOf hash
      · rw [if_pos ho, (h hash o).1 ho]
        simp [eq_comm]
      · rw [if_neg ho, and_iff_right_iff_imp]
        rintro hk rfl
        exact ho ((h k o).2 hk)
    simpa only [removeUnchecked, htx] using hr

theorem mem_withDescendants_of_mem {entries : List UInt256} {hash : UInt256} {n : Nat}
    (hn : pool.mapTx.size = n + 1) (h : hash ∈ entries) : hash ∈ pool.withDescendants entries := by
  obtain ⟨pre, post, rfl⟩ := List.append_of_mem h
  rw [withDescendants, TreeSet.mem_toList, List.foldl_append, List.foldl_cons]
  refine List.foldlRecOn (motive := fun seen => hash ∈ seen) post _ ?_ fun seen hs entry _ =>
    Walk.mem_walk_of_seen _ _ hs
  rw [calculateDescendants, hn]
  split
  next hs => exact Walk.mem_walk_of_seen _ _ (TreeSet.contains_iff_mem.1 hs)
  · rw [Walk.walk, ← TreeSet.min?_eq_head?_toList, TreeSet.min?_insert]
    exact Walk.mem_walk_of_seen _ _ (by simp)

/-- The checks find everyone who spends an input of the transaction. -/
theorem conflicts_of_acceptChecks (h : acceptChecks call.policy call.env call.g call.tip
    call.nSpendHeight pool call.tx = .ok data) : ∃ setConflicts,
      data.allConflicting = pool.withDescendants setConflicts ∧ ∀ txin ∈ call.tx.vin, ∀ tx,
        pool.mapNextTx[txin.prevout]? = some tx → tx.hash ∈ setConflicts := by
  simp only [acceptChecks, bind_eq_ok] at h
  obtain ⟨_, -, _, -, _, -, _, -, _, -, setConflicts, hset, _, -, _, -, _, -, _, -, h⟩ := h
  refine ⟨setConflicts, ?_, ?_⟩
  · split at h <;> split at h
    all_goals
      simp only [bind_eq_ok, pure_eq_ok] at h
      grind
  · refine foldlM_invariant (fun pre set => ∀ txin ∈ pre, ∀ tx,
      pool.mapNextTx[txin.prevout]? = some tx → tx.hash ∈ set) hset (by simp) ?_
    intro pre txin set set' hp hs a ha tx htx
    have hsub : set ⊆ set' ∧ ∀ t, pool.mapNextTx[txin.prevout]? = some t → t.hash ∈ set' := by
      unfold noteConflict at hs
      split at hs
      · simp_all [pure_eq_ok]
      · split at hs
        · simp_all [pure_eq_ok]
        · obtain ⟨_, -, hs⟩ := bind_eq_ok.1 hs
          simp_all [← pure_eq_ok.1 hs]
    rcases List.mem_append.1 ha with ha | ha
    · exact hsub.1 (hp a ha tx htx)
    · exact hsub.2 tx (List.mem_singleton.1 ha ▸ htx)

/-- Whoever spent an input of the transaction is gone when it is added. -/
theorem SpendsExact.free (h : pool.SpendsExact) (hc : acceptChecks call.policy call.env call.g
    call.tip call.nSpendHeight pool call.tx = .ok data) : ∀ outpoint ∈ call.tx.vin.map CTxIn.prevout,
      (pool.removeStaged data.allConflicting).mapNextTx[outpoint]? = none := by
  obtain ⟨setConflicts, hall, hset⟩ := conflicts_of_acceptChecks hc
  refine List.forall_mem_map.2 fun txin hin => ?_
  rw [mapNextTx_removeStaged, ite_eq_left_iff]
  intro hno
  by_contra hne
  obtain ⟨t, ht⟩ := Option.ne_none_iff_exists'.1 hne
  have hi := (h t.hash txin.prevout).2 (by rw [ht]; rfl)
  obtain ⟨u, hu, -⟩ := mem_inputsOf_iff.1 hi
  obtain ⟨n, hn⟩ := Nat.exists_eq_succ_of_ne_zero (show pool.mapTx.size ≠ 0 by
    grind [TreeMap.isEmpty_eq_size_eq_zero, TreeMap.getElem?_of_isEmpty])
  exact hno ⟨t.hash, hall ▸ mem_withDescendants_of_mem hn (hset txin hin t ht), hi⟩

theorem SpendsExact.addUnchecked {tx : CTransaction} (h : pool.SpendsExact)
    (hnew : tx.hash ∉ pool.mapTx)
    (hfree : ∀ outpoint ∈ tx.vin.map CTxIn.prevout, pool.mapNextTx[outpoint]? = none) :
    (pool.addUnchecked tx).SpendsExact := by
  intro k o
  have hn : (pool.addUnchecked tx).mapNextTx[o]? = (pool.mapNextTx[o]? <|>
      if o ∈ tx.vin.map CTxIn.prevout then some tx else none) := by
    rw [← getElem?_foldl_insertIfNew, List.foldl_map]
    rfl
  have hk := h k o
  rw [inputsOf_addUnchecked hnew, hn]
  by_cases ho : o ∈ tx.vin.map CTxIn.prevout
  · rw [hfree o ho] at hk ⊢
    by_cases hc : k = tx.hash
    · simp [ho, hc]
    · simpa [hc, ho, eq_comm] using hk
  · by_cases hc : k = tx.hash
    · rw [hc, inputsOf, TreeMap.getElem?_eq_none hnew] at hk
      simpa [hc, ho] using hk
    · simpa [hc, ho] using hk

theorem SpendsExact.trackOutputs {env : Env} {hash : UInt256} {vout : List CTxOut}
    (h : pool.SpendsExact) : (trackOutputs env hash pool vout).1.SpendsExact := by
  fun_induction Cmusic.trackOutputs with
  | case1 => exact h
  | case2 pool out vout _ ih =>
    refine ih ?_
    unfold trackAssetOut
    dsimp only
    repeat' split
    all_goals exact h
  | case3 _ _ _ _ _ ih => exact ih h
  | case4 => exact h
  | case5 _ _ _ _ request _ _ ih => cases request <;> exact ih h

theorem SpendsExact.indexTransaction {env : Env} {tip : CCoinsViewCache} {tx : CTransaction}
    {vReissueAssets : List (Str × UInt256)} (h : pool.SpendsExact) :
    (indexTransaction env tip pool tx vReissueAssets).1.SpendsExact := by
  have hn := @KeptByRemoval.foldl SpendsExact _ _ noteReissued (fun _ _ hq => hq) vReissueAssets h
  unfold Cmusic.indexTransaction
  dsimp only
  generalize hr : ite (env.areAssetsDeployed = true) _ _ = r
  have ho : r.1.SpendsExact := by
    rw [← hr]
    split
    · exact hn.trackOutputs
    · exact hn
  split
  · exact ho
  · split
    · refine KeptByRemoval.foldl (fun q txin hq => ?_) _ ho
      unfold trackInput
      dsimp only
      repeat' split
      all_goals exact hq
    · exact ho

theorem SpendsExact.accept (h : pool.SpendsExact) (call : AcceptCall) :
    (pool.accept call).1.SpendsExact := by
  unfold CTxMemPool.accept acceptToMemoryPoolWorker
  split
  · exact h
  next data hc =>
    have hk := keptByRemoval_spendsExact
    have hnew := (AcceptCall.checks_of_acceptChecks hc).new
    have hs := hk.storeTransaction hk call.policy call.bypassLimits (fun hr => hr.addUnchecked
      (fun hm => hnew (mem_removeStaged.1 hm).1) (h.free hc)) h
    dsimp only
    split
    · exact h
    · split
      · exact hs
      · exact hs.indexTransaction

/-- No two transactions of the pool spend the same output, however the pool came about. -/
theorem spendsExact_run (events : List PoolEvent) :
    let pool := events.foldl apply {}
    pool.SpendsExact ∧ ∀ outpoint, {hash | outpoint ∈ pool.inputsOf hash}.Subsingleton := by
  have he : SpendsExact {} := by simp [SpendsExact, inputsOf]
  have hk := keptByRemoval_spendsExact
  have hex : (events.foldl apply {}).SpendsExact := by
    refine KeptByRemoval.foldl (fun q event hq => ?_) events he
    cases event with
    | accept call => exact hq.accept call
    | removeStaged stage => exact hk.removeStaged hq stage
    | connectTip env g tip vtx data =>
      refine hk.connectTip (fun q tx hq => ?_) hq env g tip vtx data
      unfold releaseReissue
      split <;> exact hq
    | clear => exact he
  refine ⟨hex, fun o hash hs hash' hs' => ?_⟩
  exact Option.some.inj (((hex hash o).1 hs).symm.trans ((hex hash' o).1 hs'))

end CTxMemPool

end Cmusic
