import Cmusic.AssetActions

/-! Reissues of one asset, applied in order and undone with one undo item. -/
namespace Cmusic

open Fallible Std CNewAsset

/-- A reissue with the verifier it sets. -/
abbrev Reissued := CReissueAsset × Option Str

/-- Whether a reissue replaces data, so that it leaves an undo item. -/
def changesData (r : Reissued) : Bool :=
  r.1.strIPFSHash ≠ [] || r.1.nUnits ≠ -1 || r.2.isSome

def applyAll (asset : CNewAsset) (rs : List Reissued) : CNewAsset :=
  rs.foldl (fun asset r => asset.applyReissue r.1) asset

/-- Undoes the reissues from the last to the first, all with one undo item. -/
def undoAll (asset : CNewAsset) (item : Option CBlockAssetUndo) (rs : List Reissued) : CNewAsset :=
  rs.foldr (fun r asset => asset.undoReissue r.1 item) asset

section Reissues

variable (asset : CNewAsset) (reissue : CReissueAsset) (item : Option CBlockAssetUndo)

theorem applyReissue_units : (asset.applyReissue reissue).units =
    if reissue.nUnits ≠ -1 then reissue.nUnits else asset.units := by
  unfold applyReissue
  simp only [apply_ite CNewAsset.units, ite_self]

theorem applyReissue_strIPFSHash : (asset.applyReissue reissue).strIPFSHash =
    if reissue.strIPFSHash ≠ [] then reissue.strIPFSHash else asset.strIPFSHash := by
  unfold applyReissue
  simp only [apply_ite strIPFSHash]

theorem applyReissue_nHasIPFS : (asset.applyReissue reissue).nHasIPFS =
    if reissue.strIPFSHash ≠ [] then 1 else asset.nHasIPFS := by
  unfold applyReissue
  simp only [apply_ite nHasIPFS]

theorem applyReissue_nAmount :
    (asset.applyReissue reissue).nAmount = asset.nAmount + reissue.nAmount := by
  unfold applyReissue
  simp only [apply_ite nAmount, ite_self]

theorem undoReissue_nAmount :
    (asset.undoReissue reissue item).nAmount = asset.nAmount - reissue.nAmount := by
  cases item with
  | none => rfl
  | some item => simp only [undoReissue, apply_ite nAmount, ite_self]

theorem undoReissue_nReissuable : (asset.undoReissue reissue item).nReissuable = 1 := by
  cases item with
  | none => rfl
  | some item => simp only [undoReissue, apply_ite nReissuable, ite_self]

/-- The units after an undo, which do not depend on the reissue. -/
def undoneUnits (units : Int8) : Int8 :=
  item.elim units fun item => if item.fChangedUnits then item.nUnits else units

def undoneHash (hash : Str) : Str :=
  item.elim hash fun item => if item.fChangedIPFS then item.strIPFS else hash

theorem undoReissue_units :
    (asset.undoReissue reissue item).units = undoneUnits item asset.units := by
  cases item with
  | none => rfl
  | some item =>
    simp only [undoReissue, apply_ite CNewAsset.units, ite_self, undoneUnits, Option.elim_some]

theorem undoReissue_strIPFSHash :
    (asset.undoReissue reissue item).strIPFSHash = undoneHash item asset.strIPFSHash := by
  cases item with
  | none => rfl
  | some item =>
    simp only [undoReissue, apply_ite strIPFSHash, ite_self, undoneHash, Option.elim_some]

theorem undoReissue_nHasIPFS : (asset.undoReissue reissue item).nHasIPFS =
    if item.isSome ∧ undoneHash item asset.strIPFSHash = [] then 0 else asset.nHasIPFS := by
  cases item with
  | none => rfl
  | some item =>
    simp only [undoReissue, undoneHash, Option.elim_some, Option.isSome_some, true_and,
      apply_ite nHasIPFS]

theorem undoneUnits_idem (units : Int8) :
    undoneUnits item (undoneUnits item units) = undoneUnits item units := by
  cases item with
  | none => rfl
  | some item =>
    simp only [undoneUnits, Option.elim_some]
    split <;> rfl

theorem undoneHash_idem (hash : Str) :
    undoneHash item (undoneHash item hash) = undoneHash item hash := by
  cases item with
  | none => rfl
  | some item =>
    simp only [undoneHash, Option.elim_some]
    split <;> rfl

theorem undoAll_cons (r : Reissued) (rs : List Reissued) :
    undoAll asset item (r :: rs) = (undoAll asset item rs).undoReissue r.1 item := rfl

theorem undoAll_strName (rs : List Reissued) : (undoAll asset item rs).strName = asset.strName := by
  induction rs with
  | nil => rfl
  | cons r rs ih => rw [undoAll_cons, undoReissue_strName, ih]

theorem applyAll_strName (rs : List Reissued) : (applyAll asset rs).strName = asset.strName := by
  induction rs generalizing asset with
  | nil => rfl
  | cons r rs ih => rw [applyAll, List.foldl_cons, ← applyAll, ih, applyReissue_strName]

/-- Whatever the undo item, the amounts come out right. -/
theorem undoAll_applyAll_nAmount (rs : List Reissued) :
    (undoAll (applyAll asset rs) item rs).nAmount = asset.nAmount := by
  induction rs generalizing asset with
  | nil => rfl
  | cons r rs ih =>
    have hr := ih (asset.applyReissue r.1)
    rw [undoAll_cons, undoReissue_nAmount, applyAll, List.foldl_cons, ← applyAll, hr,
      applyReissue_nAmount]
    exact Int64.add_sub_cancel _ _

variable {rs : List Reissued}

theorem undoAll_nReissuable (h : rs ≠ []) : (undoAll asset item rs).nReissuable = 1 := by
  cases rs with
  | nil => exact absurd rfl h
  | cons r rs => rw [undoAll_cons, undoReissue_nReissuable]

theorem undoAll_units (h : rs ≠ []) :
    (undoAll asset item rs).units = undoneUnits item asset.units := by
  induction rs with
  | nil => exact absurd rfl h
  | cons r rs ih =>
    rw [undoAll_cons, undoReissue_units]
    by_cases hrs : rs = []
    · subst hrs
      rfl
    · rw [ih hrs, undoneUnits_idem]

theorem undoAll_strIPFSHash (h : rs ≠ []) :
    (undoAll asset item rs).strIPFSHash = undoneHash item asset.strIPFSHash := by
  induction rs with
  | nil => exact absurd rfl h
  | cons r rs ih =>
    rw [undoAll_cons, undoReissue_strIPFSHash]
    by_cases hrs : rs = []
    · subst hrs
      rfl
    · rw [ih hrs, undoneHash_idem]

theorem undoAll_nHasIPFS (h : rs ≠ []) : (undoAll asset item rs).nHasIPFS =
    if item.isSome ∧ undoneHash item asset.strIPFSHash = [] then 0 else asset.nHasIPFS := by
  induction rs with
  | nil => exact absurd rfl h
  | cons r rs ih =>
    rw [undoAll_cons, undoReissue_nHasIPFS]
    by_cases hrs : rs = []
    · subst hrs
      rfl
    · rw [undoAll_strIPFSHash asset item hrs, undoneHash_idem, ih hrs]
      split <;> rfl

/-- What the undo item of a reissue holds when it is the first to change the data. -/
def undoRecord (verifier : Option Str) (r : Reissued) : CBlockAssetUndo where
  fChangedIPFS := r.1.strIPFSHash ≠ []
  fChangedUnits := r.1.nUnits ≠ -1
  strIPFS := asset.strIPFSHash
  nUnits := asset.units
  fChangedVerifierString := r.2.isSome
  verifierString := r.2.elim [] fun _ => verifier.getD []

/-- The undo item found for an asset is that of its first reissue to change the data. -/
def firstItem (verifier : Option Str) (rs : List Reissued) : Option CBlockAssetUndo :=
  (rs.find? changesData).map (undoRecord asset verifier)

/-- The first recorded reissue sets the units, or the reissues leave them as they were. -/
def UnitsCovered (rs : List Reissued) : Prop :=
  (∃ r, rs.find? changesData = some r ∧ r.1.nUnits ≠ -1) ∨ (applyAll asset rs).units = asset.units

/-- The first recorded reissue sets the hash, or the reissues leave it as it was. -/
def HashCovered (rs : List Reissued) : Prop :=
  (∃ r, rs.find? changesData = some r ∧ r.1.strIPFSHash ≠ []) ∨
    (applyAll asset rs).strIPFSHash = asset.strIPFSHash

theorem undoneUnits_firstItem (verifier : Option Str) :
    undoneUnits (firstItem asset verifier rs) (applyAll asset rs).units = asset.units ↔
      UnitsCovered asset rs := by
  unfold UnitsCovered firstItem undoneUnits
  cases rs.find? changesData with
  | none => simp
  | some r =>
    by_cases hu : r.1.nUnits = -1
    · simp [undoRecord, hu]
    · simp [undoRecord, hu]

theorem undoneHash_firstItem (verifier : Option Str) :
    undoneHash (firstItem asset verifier rs) (applyAll asset rs).strIPFSHash = asset.strIPFSHash ↔
      HashCovered asset rs := by
  unfold HashCovered firstItem undoneHash
  cases rs.find? changesData with
  | none => simp
  | some r =>
    by_cases hh : r.1.strIPFSHash = []
    · simp [undoRecord, hh]
    · simp [undoRecord, hh]

/-- The flag of the hash is kept or set. -/
theorem applyAll_nHasIPFS : (applyAll asset rs).nHasIPFS = asset.nHasIPFS ∨
    (applyAll asset rs).nHasIPFS = 1 ∧ ∃ r ∈ rs, r.1.strIPFSHash ≠ [] := by
  induction rs generalizing asset with
  | nil => exact Or.inl rfl
  | cons r rs ih =>
    rw [applyAll, List.foldl_cons, ← applyAll]
    rcases ih (asset.applyReissue r.1) with heq | ⟨ho, q, hq, hh⟩
    · rw [heq, applyReissue_nHasIPFS]
      by_cases hh : r.1.strIPFSHash = []
      · exact Or.inl (by simp [hh])
      · exact Or.inr ⟨by simp [hh], r, List.mem_cons_self, hh⟩
    · exact Or.inr ⟨ho, q, List.mem_cons_of_mem _ hq, hh⟩

theorem changesData_eq_false {r : Reissued} (h : changesData r = false) :
    r.1.strIPFSHash = [] ∧ r.1.nUnits = -1 ∧ r.2 = none := by
  simp only [changesData, Bool.or_eq_false_iff, decide_eq_false_iff_not, not_not,
    Option.isSome_eq_false_iff, Option.isNone_iff_eq_none] at h
  exact ⟨h.1.1, h.1.2, h.2⟩

theorem firstItem_eq_none_iff {verifier : Option Str} :
    firstItem asset verifier rs = none ↔ ∀ r ∈ rs, changesData r = false := by
  simp [firstItem, List.find?_eq_none]

theorem applyAll_concat (rs : List Reissued) (r : Reissued) :
    applyAll asset (rs ++ [r]) = (applyAll asset rs).applyReissue r.1 := by
  rw [applyAll, List.foldl_append]
  rfl

theorem firstItem_concat (verifier : Option Str) (rs : List Reissued) (r : Reissued) :
    firstItem asset verifier (rs ++ [r]) = (firstItem asset verifier rs).or
      (if changesData r then some (undoRecord asset verifier r) else none) := by
  simp only [firstItem, List.find?_append, List.find?_singleton, Option.map_or]
  split <;> rfl

/-- Reissues that leave no undo item only add to the amount. -/
theorem unchanged_of_changesData_eq_false (h : ∀ r ∈ rs, changesData r = false) :
    (applyAll asset rs).units = asset.units ∧
      (applyAll asset rs).strIPFSHash = asset.strIPFSHash ∧ rs.findSome? Prod.snd = none := by
  induction rs generalizing asset with
  | nil => exact ⟨rfl, rfl, rfl⟩
  | cons r rs ih =>
    obtain ⟨hr, hrs⟩ := List.forall_mem_cons.1 h
    obtain ⟨hh, hu, hv⟩ := changesData_eq_false hr
    obtain ⟨hu', hh', hv'⟩ := ih (asset.applyReissue r.1) hrs
    rw [applyAll, List.foldl_cons, ← applyAll]
    refine ⟨?_, ?_, ?_⟩
    · simp [hu', applyReissue_units, hu]
    · simp [hh', applyReissue_strIPFSHash, hh]
    · rw [List.findSome?_cons, hv]
      exact hv'

/-- Data as the checks of an issue leave it, reissuable and with a flag that matches the hash. -/
structure Reissuable (asset : CNewAsset) : Prop where
  reissuable : asset.nReissuable = 1
  hash : asset.nHasIPFS = if asset.strIPFSHash = [] then 0 else 1

/-- Undoing the reissues of a block gives the data back exactly when the one undo item in use
covers what they changed. -/
theorem undoAll_applyAll_iff (verifier : Option Str) (h : rs ≠ []) (ha : Reissuable asset) :
    undoAll (applyAll asset rs) (firstItem asset verifier rs) rs = asset ↔
      UnitsCovered asset rs ∧ HashCovered asset rs := by
  rw [← undoneUnits_firstItem asset verifier, ← undoneHash_firstItem asset verifier]
  constructor
  · intro heq
    refine ⟨?_, ?_⟩
    · rw [← undoAll_units _ _ h, heq]
    · rw [← undoAll_strIPFSHash _ _ h, heq]
  · rintro ⟨hu, hh⟩
    refine CNewAsset.ext ?_ ?_ ?_ ?_ ?_ ?_
    · rw [undoAll_strName, applyAll_strName]
    · exact undoAll_applyAll_nAmount asset _ rs
    · rw [undoAll_units _ _ h, hu]
    · rw [undoAll_nReissuable _ _ h, ha.reissuable]
    · rw [undoAll_nHasIPFS _ _ h, hh, ha.hash]
      rcases @applyAll_nHasIPFS asset rs with hke | ⟨ho, r, hr, hse⟩
      · rw [hke, ha.hash]
        by_cases he : asset.strIPFSHash = [] <;> simp [he]
      · have hso : (firstItem asset verifier rs).isSome = true := by
          rw [Option.isSome_iff_ne_none]
          intro hn
          exact hse (changesData_eq_false ((firstItem_eq_none_iff asset).1 hn r hr)).1
        by_cases he : asset.strIPFSHash = [] <;> simp [he, hso, ho]
    · rw [undoAll_strIPFSHash _ _ h, hh]

end Reissues

end Cmusic
