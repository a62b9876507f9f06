import Cmusic.NameGrammar

/-! Parents and owner tokens of valid asset names are valid names. -/
namespace Cmusic

open Pattern

variable {name w front tag : Str} {type : AssetType} {d : UInt8}

section Owner

theorem typeCheck_owner : isTypeCheckNameValid .owner name = .ok () ↔
    name.length ≤ 31 ∧ isNameValidBeforeTag name.dropLast = true := by
  simp only [isTypeCheckNameValid, Fallible.failIf_bind_eq_ok, Fallible.failIf_eq_ok, maxNameLength]
  grind

theorem not_matches_tagIndicator {mark : String} (hma : ∀ c, isOneOf mark c = true ↔ c = d)
    (hd : d ≠ 33) : Matches (tagIndicator mark) (w ++ [33]) = false := by
  rw [Bool.eq_false_iff]
  intro h
  obtain ⟨front, tag, heq, hf, -, ht⟩ := exists_of_matches_tagIndicator hma h
  have hm : (33 : UInt8) ∈ front ++ d :: tag := by
    rw [← heq]
    exact List.mem_append_right _ (List.mem_singleton_self _)
  rcases List.mem_append.1 hm with hm | hm
  · exact notMem_of_notOneOf hf (by decide) hm
  · rcases List.mem_cons.1 hm with hm | hm
    · exact hd hm.symm
    · exact notMem_of_notOneOf ht (by decide) hm

/-- The owner tokens are those of the names of root and sub assets. -/
theorem owner_iff : assetNameType (w ++ ownerTag) = some .owner ↔
    isNameValidBeforeTag w = true ∧ w.length ≤ 30 := by
  have hl : (w ++ ownerTag).length = w.length + 1 := List.length_append
  have hd : (w ++ ownerTag).dropLast = w := List.dropLast_concat
  rw [assetNameType_iff, typeCheck_owner, hl, hd]
  constructor
  · rintro ⟨-, -, hli, hvalid⟩
    exact ⟨hvalid, by omega⟩
  · rintro ⟨hvalid, hli⟩
    obtain ⟨hch, hlo⟩ := chars_of_isNameValidBeforeTag hvalid
    refine ⟨by omega, ?_, by omega, hvalid⟩
    have hunique : Matches uniqueIndicator (w ++ [33]) = false :=
      not_matches_tagIndicator isOneOf_qualifierMark (by decide)
    have hchannel : Matches msgChannelIndicator (w ++ [33]) = false :=
      @not_matches_tagIndicator _ 126 "~" (by simp [isOneOf, str]) (by decide)
    have ho : Matches ownerIndicator (w ++ [33]) = true := by
      refine matches_cons.2 ⟨w, [33], rfl, accepts_atLeast.2 ⟨fun c hc => ?_, by omega⟩, by decide⟩
      rcases hch c hc with hc | rfl
      · rw [notOneOf, Bool.not_eq_true', Bool.eq_false_iff]
        intro hm
        have hca : c = 94 ∨ c = 126 ∨ c = 35 ∨ c = 33 := by simpa [isOneOf, str] using hm
        rcases hca with rfl | rfl | rfl | rfl
        all_goals
          revert hc
          decide
      · decide
    change indicatedType (w ++ [33]) = .owner
    simp [indicatedType, hunique, hchannel, ho]

end Owner

section Parent

theorem exists_last_of_mem (h : d ∈ w) : ∃ a b, w = a ++ d :: b ∧ d ∉ b := by
  obtain ⟨b, a, heq, hb⟩ := List.eq_append_cons_of_mem (List.mem_reverse.2 h)
  refine ⟨a.reverse, b.reverse, ?_, ?_⟩
  · rw [← List.reverse_reverse w, heq]
    simp
  · rw [List.mem_reverse]
    exact hb

theorem length_splitOn (h : d ∈ w) : 2 ≤ (w.splitOn d).length := by
  obtain ⟨a, b, rfl, ha⟩ := List.eq_append_cons_of_mem h
  rw [splitOn_append_cons ha, List.length_cons]
  have hp := List.length_pos_iff.2 (List.splitOn_ne_nil d b)
  omega

/-- The parent is a proper front part of the name. -/
structure ParentOf (parent name : Str) : Prop where
  isPrefix : parent <+: name
  ne : parent ≠ name

theorem parentOf_append : ParentOf front (front ++ d :: tag) where
  isPrefix := List.prefix_append _ _
  ne := by
    intro heq
    have hl := congrArg List.length heq
    rw [List.length_append, List.length_cons] at hl
    omega

/-- Cutting a name at its last slash leaves the name of a root or sub asset. -/
theorem isNameValidBeforeTag_of_append (h : isNameValidBeforeTag (front ++ subNameDelimiter :: tag) = true)
    (ht : subNameDelimiter ∉ tag) : isNameValidBeforeTag front = true := by
  obtain ⟨root, subs, hsp, hr, hsu⟩ := isNameValidBeforeTag_iff.1 h
  obtain ⟨root', subs', hf⟩ :=
    List.exists_cons_of_ne_nil (List.splitOn_ne_nil subNameDelimiter front)
  have ha : (front ++ subNameDelimiter :: tag).splitOn subNameDelimiter =
      front.splitOn subNameDelimiter ++ tag.splitOn subNameDelimiter :=
    List.splitOnP_append_cons _ _ (by simp)
  rw [ha, hf, splitOn_of_notMem ht, List.cons_append] at hsp
  obtain ⟨rfl, rfl⟩ := List.cons.inj hsp
  refine isNameValidBeforeTag_iff.2 ⟨root', subs', hf, hr, fun part hp => ?_⟩
  exact hsu part (List.mem_append_left _ hp)

/-- The parent is a proper front part of the name, and the name of a root or sub asset. -/
def HasPlainParent (name : Str) : Prop :=
  (assetNameType (getParentName name) = some .root ∨ assetNameType (getParentName name) = some .sub) ∧
    ParentOf (getParentName name) name

theorem hasPlainParent_of_append (hp : getParentName (front ++ d :: tag) = front)
    (hvalid : isNameValidBeforeTag front = true) (hl : front.length ≤ 30) :
    HasPlainParent (front ++ d :: tag) := by
  rw [HasPlainParent, hp]
  exact ⟨rootOrSub_iff.2 ⟨hvalid, hl⟩, parentOf_append⟩

theorem parent_of_sub (h : assetNameType name = some .sub) : HasPlainParent name := by
  obtain ⟨-, ht, -⟩ := assetNameType_iff.1 h
  obtain ⟨hvalid, hl⟩ := rootOrSub_iff.1 (Or.inr h)
  have hm : subNameDelimiter ∈ name := by
    by_contra hn
    rw [indicatedType_of_chars (chars_of_isNameValidBeforeTag hvalid).1, isAssetNameASubasset,
      splitOn_of_notMem hn] at ht
    simp at ht
  obtain ⟨front, tag, rfl, hta⟩ := exists_last_of_mem hm
  rw [List.length_append] at hl
  refine hasPlainParent_of_append ?_ (isNameValidBeforeTag_of_append hvalid hta) (by omega)
  simp only [getParentName, h]
  exact beforeLast_append hta

theorem length_of_typeCheck (ht : type = .unique ∨ type = .msgChannel ∨ type = .vote ∨
      type = .qualifier ∨ type = .subQualifier ∨ type = .restricted)
    (h : isTypeCheckNameValid type name = .ok ()) : name.length ≤ 31 := by
  rcases ht with rfl | rfl | rfl | rfl | rfl | rfl
  all_goals
    simp only [isTypeCheckNameValid, Fallible.failIf_bind_eq_ok, maxNameLength] at h
    simpa using h.1

/-- Cutting a name at its only tag leaves the name of a root or sub asset. -/
theorem parent_of_tagged {mark : String} (hm : ∀ c, isOneOf mark c = true ↔ c = d)
    (hd : notOneOf "^~#!" d = false) (h : Matches (tagIndicator mark) name)
    (hvalid : isNameValidBeforeTag (frontPart d name) = true) (hl : name.length ≤ 31)
    (hc : getParentName name = beforeLast d name) :
    ∃ front tag, name = front ++ d :: tag ∧ d ∉ front ∧ (∀ c ∈ tag, notOneOf "~#!/" c = true) ∧
      (d ∉ tag → HasPlainParent name) := by
  obtain ⟨front, tag, rfl, hf, hne, ht⟩ := exists_of_matches_tagIndicator hm h
  have hf : d ∉ front := notMem_of_notOneOf hf hd
  refine ⟨front, tag, rfl, hf, ht, fun hme => ?_⟩
  rw [frontPart_append hf] at hvalid
  rw [List.length_append, List.length_cons] at hl
  exact hasPlainParent_of_append (hc.trans (beforeLast_append hme)) hvalid (by omega)

theorem parent_of_unique (h : assetNameType name = some .unique) : HasPlainParent name := by
  obtain ⟨-, ht, hc⟩ := assetNameType_iff.1 h
  obtain ⟨front, tag, -, -, hta, hp⟩ := parent_of_tagged isOneOf_qualifierMark (by decide)
    (matches_tag_of_indicatedType.1 ht) (typeCheck_before.1 hc)
    (length_of_typeCheck (by decide) hc) (by simp only [getParentName, h]; rfl)
  exact hp (notMem_of_notOneOf hta (by decide))

theorem parent_of_msgChannel (h : assetNameType name = some .msgChannel) : HasPlainParent name := by
  obtain ⟨-, ht, hc⟩ := assetNameType_iff.1 h
  obtain ⟨front, tag, -, -, hta, hp⟩ := parent_of_tagged (d := msgChannelTagDelimiter)
    (by simp [isOneOf, str, msgChannelTagDelimiter]) (by decide)
    (matches_tag_of_indicatedType.2.1 ht) (typeCheck_before.2.1 hc).1
    (length_of_typeCheck (by decide) hc) (by simp only [getParentName, h])
  exact hp (notMem_of_notOneOf hta (by decide))

/-- The parent of a vote is cut at the last sign, but its front was checked at the first. -/
theorem parent_of_vote_iff (h : assetNameType name = some .vote) :
    HasPlainParent name ↔ (name.splitOn voteTagDelimiter).length = 2 := by
  obtain ⟨-, ht, hc⟩ := assetNameType_iff.1 h
  have hcu : getParentName name = beforeLast voteTagDelimiter name := by simp only [getParentName, h]
  obtain ⟨front, tag, rfl, hf, -, hp⟩ := parent_of_tagged (d := voteTagDelimiter)
    (by simp [isOneOf, str, voteTagDelimiter]) (by decide) (matches_tag_of_indicatedType.2.2.2 ht)
    (typeCheck_before.2.2.1 hc) (length_of_typeCheck (by decide) hc) hcu
  rw [splitOn_append_cons hf, List.length_cons]
  by_cases hm : voteTagDelimiter ∈ tag
  · have hl := length_splitOn hm
    refine iff_of_false ?_ (by omega)
    rintro ⟨hplain, -⟩
    obtain ⟨a, b, rfl, hb⟩ := exists_last_of_mem hm
    rw [← List.cons_append, ← List.append_assoc] at hcu hplain
    rw [hcu, beforeLast_append hb, rootOrSub_iff] at hplain
    have hsi : voteTagDelimiter ∈ front ++ voteTagDelimiter :: a :=
      List.mem_append_right _ List.mem_cons_self
    exact absurd ((chars_of_isNameValidBeforeTag hplain.1).1 _ hsi) (by decide)
  · rw [splitOn_of_notMem hm]
    exact iff_of_true (hp hm) rfl

theorem qualifier_of_isQualifierNameValid (h : isQualifierNameValid name = true)
    (hle : name.length ≤ 31) : assetNameType name = some .qualifier := by
  obtain ⟨w, rfl, hf, hl, -⟩ := isQualifierNameValid_iff.1 h
  have hm : Matches qualifierIndicator (35 :: w) = true :=
    matches_one_cons.2 ⟨35, w, rfl, by decide, matches_atLeast.2 ⟨hf.chars, hl⟩⟩
  have hsp := splitOn_of_notMem (delimiter_notMem_of_qualifier hm)
  have hb : isQualifierNameValidBeforeTag (35 :: w) = true := by
    rw [isQualifierNameValidBeforeTag, frontPart, hsp]
    simpa using h
  refine assetNameType_iff.2 ⟨by omega, ?_, ?_⟩
  · simp only [indicatedType, uniqueIndicator, msgChannelIndicator, voteIndicator, tagIndicator,
      ownerIndicator, not_matches_notOneOf, hm]
    rfl
  · simp only [isTypeCheckNameValid, Fallible.failIf_bind_eq_ok, Fallible.failIf_eq_ok, hb,
      maxNameLength]
    exact ⟨decide_eq_false (Nat.not_lt.2 hle), rfl⟩

theorem parent_of_subQualifier (h : assetNameType name = some .subQualifier) :
    assetNameType (getParentName name) = some .qualifier ∧ ParentOf (getParentName name) name := by
  obtain ⟨-, ht, hc⟩ := assetNameType_iff.1 h
  obtain ⟨root, tag, rfl, hr, hta⟩ :=
    exists_of_matches_subQualifierIndicator (matches_of_indicatedType.2.1 ht)
  have hsi : subNameDelimiter ∉ (35 :: root : Str) := by simpa [subNameDelimiter] using hr
  have hp : getParentName (35 :: root ++ subNameDelimiter :: tag) = 35 :: root := by
    simp only [getParentName, h]
    exact beforeLast_append hta
  have hb := typeCheck_marked.1 (Or.inr hc)
  have hl := length_of_typeCheck (by decide) hc
  rw [isQualifierNameValidBeforeTag, Bool.and_eq_true, Bool.and_eq_true, frontPart_append hsi]
    at hb
  rw [List.length_append] at hl
  rw [hp]
  exact ⟨qualifier_of_isQualifierNameValid hb.1.1 (by omega), parentOf_append⟩

/-- The owner token of a restricted asset is the one of the asset with the rest of its name. -/
theorem owner_of_restricted_iff (h : assetNameType name = some .restricted) :
    assetNameType (restrictedNameToOwnerName name) = some .owner ↔
      isRootNameValid (name.drop 1) = true := by
  obtain ⟨-, -, hc⟩ := assetNameType_iff.1 h
  obtain ⟨w, rfl, hf, -⟩ := isRestrictedNameValid_iff.1 (typeCheck_marked.2 hc)
  have hl := length_of_typeCheck (by decide) hc
  have hsp := splitOn_of_notMem (delimiter_notMem hf.chars)
  rw [List.length_cons] at hl
  rw [restrictedNameToOwnerName, if_pos (isAssetNameAnRestricted_of_type h).2, List.drop_one,
    List.tail_cons, owner_iff, isNameValidBeforeTag, frontPart, hsp]
  have hli : w.length ≤ 30 := by omega
  simp [hli]

end Parent

/-- The names that the source derives from a name: its parent, the owner token of a restricted asset,
and the name with the tag of owner tokens. -/
structure HierarchyClosed (name : Str) : Prop where
  parent : ∀ type, assetNameType name = some type →
    type = .sub ∨ type = .unique ∨ type = .msgChannel ∨ type = .vote →
    (assetNameType (getParentName name) = some .root ∨ assetNameType (getParentName name) = some .sub) ∧
      ParentOf (getParentName name) name
  qualifier : assetNameType name = some .subQualifier →
    assetNameType (getParentName name) = some .qualifier ∧ ParentOf (getParentName name) name
  restricted : assetNameType name = some .restricted →
    assetNameType (restrictedNameToOwnerName name) = some .owner
  owner : assetNameType (name ++ ownerTag) = some .owner ↔
    assetNameType name = some .root ∨ assetNameType name = some .sub

/-- The hierarchy is closed but for votes with several signs and restricted assets whose name without
its mark is no root name. -/
theorem hierarchyClosed_iff (name : Str) : HierarchyClosed name ↔
    (assetNameType name = some .vote → (name.splitOn voteTagDelimiter).length = 2) ∧
      (assetNameType name = some .restricted → isRootNameValid (name.drop 1) = true) := by
  constructor
  · intro h
    refine ⟨fun hv => ?_, fun hrestricted => ?_⟩
    · exact (parent_of_vote_iff hv).1 (h.parent .vote hv (by decide))
    · exact (owner_of_restricted_iff hrestricted).1 (h.restricted hrestricted)
  · rintro ⟨hv, hrestricted⟩
    refine ⟨fun type ht hki => ?_, parent_of_subQualifier, fun ht => ?_, ?_⟩
    · rcases hki with rfl | rfl | rfl | rfl
      · exact parent_of_sub ht
      · exact parent_of_unique ht
      · exact parent_of_msgChannel ht
      · exact (parent_of_vote_iff ht).2 (hv ht)
    · exact (owner_of_restricted_iff ht).2 (hrestricted ht)
    · rw [owner_iff, rootOrSub_iff]

/-- The parent of a vote with two signs is a vote, and the owner token of a restricted asset can be
an invalid name. -/
theorem not_hierarchyClosed : (assetNameType (str "MUSIC^A^B") = some .vote ∧
      assetNameType (getParentName (str "MUSIC^A^B")) = some .vote) ∧
    (assetNameType (str "MUSIC^?^B") = some .vote ∧
      assetNameType (getParentName (str "MUSIC^?^B")) = none) ∧
    (assetNameType (str "$RVN") = some .restricted ∧
      assetNameType (restrictedNameToOwnerName (str "$RVN")) = none) ∧
    ¬HierarchyClosed (str "MUSIC^A^B") ∧ ¬HierarchyClosed (str "MUSIC^?^B") ∧
    ¬HierarchyClosed (str "$RVN") := by
  have ht : assetNameType (str "MUSIC^A^B") = some .vote ∧
      assetNameType (getParentName (str "MUSIC^A^B")) = some .vote := by decide +kernel
  have hn : assetNameType (str "MUSIC^?^B") = some .vote ∧
      assetNameType (getParentName (str "MUSIC^?^B")) = none := by decide +kernel
  have ho : assetNameType (str "$RVN") = some .restricted ∧
      assetNameType (restrictedNameToOwnerName (str "$RVN")) = none := by decide +kernel
  refine ⟨ht, hn, ho, fun h => ?_, fun h => ?_, fun h => ?_⟩
  · have hp := (h.parent .vote ht.1 (by decide)).1
    exact absurd hp (by decide)
  · have hp := (h.parent .vote hn.1 (by decide)).1
    exact absurd hp (by decide)
  · have hname := h.restricted ho.1
    cases hname

end Cmusic
