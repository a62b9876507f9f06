import Cmusic.AssetNames

/-! The names of qualifiers, and which of them are sub qualifiers of which. -/
namespace Cmusic

open Pattern

theorem ne_delimiter_of_isNameChar {c : UInt8} (h : isNameChar c = true) :
    c ≠ subNameDelimiter := by
  rintro rfl
  revert h
  decide

variable {name : Str}

theorem delimiter_notMem (h : ∀ c ∈ name, isNameChar c = true) : subNameDelimiter ∉ name :=
  fun hm => ne_delimiter_of_isNameChar (h _ hm) rfl

/-- A root qualifier is a number sign with name characters. -/
theorem delimiter_notMem_of_qualifier (h : Matches qualifierIndicator name) :
    subNameDelimiter ∉ name := by
  simp only [qualifierIndicator, matches_cons, matches_nil, accepts_atLeast, accepts_one] at h
  obtain ⟨_, _, rfl, ⟨c, rfl, hc⟩, rest, _, rfl, ⟨hr, -⟩, rfl⟩ := h
  have hsi : c = 35 := by simpa [isOneOf, str] using hc
  subst hsi
  simpa [subNameDelimiter] using delimiter_notMem hr

/-- A sub qualifier consists of two such parts. -/
theorem exists_of_matches_subQualifierIndicator (h : Matches subQualifierIndicator name) :
    ∃ root tag, name = 35 :: root ++ subNameDelimiter :: tag ∧ subNameDelimiter ∉ root ∧
      subNameDelimiter ∉ tag := by
  simp only [subQualifierIndicator, matches_cons, matches_nil, accepts_atLeast, accepts_one] at h
  obtain ⟨_, _, rfl, ⟨c, rfl, hc⟩, root, _, rfl, ⟨hr, -⟩, _, _, rfl, ⟨d, rfl, hd⟩, _, _, rfl,
    ⟨s, rfl, hs⟩, rest, _, rfl, ⟨hre, -⟩, rfl⟩ := h
  have hc : c = 35 := by simpa [isOneOf, str] using hc
  have hd : d = subNameDelimiter := by simpa [isOneOf, str, subNameDelimiter] using hd
  have hs : s = 35 := by simpa [isOneOf, str] using hs
  subst hc hd hs
  refine ⟨root, 35 :: rest, by simp, delimiter_notMem hr, ?_⟩
  simpa [subNameDelimiter] using delimiter_notMem hre

/-- Names of the tagged kinds do not start with a number sign. -/
theorem not_matches_notOneOf {rest : List (Atom UInt8)} :
    Matches (atLeast 1 (notOneOf "^~#!") :: rest) (35 :: name) = false := by
  rw [Bool.eq_false_iff]
  intro h
  simp only [matches_cons, accepts_atLeast] at h
  obtain ⟨front, tail, heq, ⟨hf, hl⟩, -⟩ := h
  cases front with
  | nil => simp at hl
  | cons c front =>
    obtain ⟨rfl, -⟩ := List.cons_eq_cons.1 heq
    have hsi := hf 35 List.mem_cons_self
    revert hsi
    decide

variable {delim : UInt8}

theorem splitOn_of_notMem {part : Str} (h : delim ∉ part) : part.splitOn delim = [part] := by
  refine List.splitOnP_eq_singleton fun c hc => beq_eq_false_iff_ne.2 ?_
  rintro rfl
  exact h hc

variable {tag : Str}

theorem splitOn_append_cons {front : Str} (h : delim ∉ front) :
    (front ++ delim :: tag).splitOn delim = front :: tag.splitOn delim := by
  have hf : ∀ c ∈ front, (c == delim) = false := by
    intro c hc
    refine beq_eq_false_iff_ne.2 ?_
    rintro rfl
    exact h hc
  rw [List.splitOn, List.splitOnP_append_cons_of_forall_mem hf _ (by simp)]
  rfl

variable {root : Str}

theorem splitOn_delimiter (hr : subNameDelimiter ∉ root) (ht : subNameDelimiter ∉ tag) :
    (root ++ subNameDelimiter :: tag).splitOn subNameDelimiter = [root, tag] := by
  rw [splitOn_append_cons hr, splitOn_of_notMem ht]

/-- The text before a delimiter is the one before the only delimiter. -/
theorem append_delimiter_isPrefixOf {q : Str} (hr : subNameDelimiter ∉ root)
    (ht : subNameDelimiter ∉ tag) :
    (q ++ [subNameDelimiter]).isPrefixOf (root ++ subNameDelimiter :: tag) = true ↔ q = root := by
  rw [List.isPrefixOf_iff_prefix]
  constructor
  · rintro ⟨rest, heq⟩
    rw [List.append_assoc, List.append_eq_append_iff] at heq
    rcases heq with ⟨mid, rfl, hm⟩ | ⟨mid, rfl, hm⟩
    · cases mid with
      | nil => simp
      | cons c mid =>
        obtain ⟨rfl, -⟩ := List.cons_eq_cons.1 hm
        simp at hr
    · cases mid with
      | nil => simp
      | cons c mid =>
        obtain ⟨-, rfl⟩ := List.cons_eq_cons.1 hm
        simp at ht
  · rintro rfl
    exact ⟨tag, by simp⟩

/-- A valid name with the shape of a sub qualifier has a valid qualifier in front. -/
theorem assetNameType_of_subQualifier (hok : isAssetNameOk name)
    (h : Matches subQualifierIndicator name) :
    isAssetNameASubQualifier name = true ∧ assetNameType name = some .subQualifier := by
  obtain ⟨root, tag, rfl, hr, hta⟩ := exists_of_matches_subQualifierIndicator h
  have hsp : (35 :: root ++ subNameDelimiter :: tag).splitOn subNameDelimiter =
      [35 :: root, tag] := by
    have hsi : subNameDelimiter ∉ (35 :: root : Str) := by simpa [subNameDelimiter] using hr
    exact splitOn_delimiter hsi hta
  have hi : indicatedType (35 :: root ++ subNameDelimiter :: tag) = .subQualifier := by
    have hn : Matches qualifierIndicator (35 :: root ++ subNameDelimiter :: tag) = false := by
      rw [Bool.eq_false_iff]
      intro hm
      exact delimiter_notMem_of_qualifier hm (by simp)
    rw [List.cons_append] at h hn ⊢
    simp only [indicatedType, uniqueIndicator, msgChannelIndicator, voteIndicator, tagIndicator,
      ownerIndicator, not_matches_notOneOf, hn, h]
    rfl
  rw [isAssetNameOk, Option.isSome_iff_exists] at hok
  obtain ⟨type, ht⟩ := hok
  have hvalid := assetNameType_eq_some.1 ht
  rw [isAssetNameValid, hi] at hvalid
  split at hvalid
  · simp at hvalid
  · simp only [Fallible.bind_eq_ok] at hvalid
    obtain ⟨⟨⟩, hc, hvalid⟩ := hvalid
    have hb : isQualifierNameValidBeforeTag (35 :: root ++ subNameDelimiter :: tag) = true := by
      simp only [isTypeCheckNameValid, Fallible.failIf_bind_eq_ok, Fallible.failIf_eq_ok] at hc
      simpa using hc.2
    have hsu : isAssetNameASubQualifier (35 :: root ++ subNameDelimiter :: tag) = true := by
      simp only [isQualifierNameValidBeforeTag, Bool.and_eq_true] at hb
      rw [isAssetNameASubQualifier, hb.1.1, hsp]
      rfl
    rw [if_pos hsu, Fallible.pure_eq_ok] at hvalid
    exact ⟨hsu, hvalid ▸ ht⟩

/-- Among the names of qualifiers, those that continue `q` with a slash are the ones noted under
`q`. -/
theorem isPrefixOf_iff_getParentName (h : isAssetNameAQualifier name false) (q : Str) :
    (q ++ str "/").isPrefixOf name = true ↔
      isAssetNameASubQualifier name = true ∧ getParentName name = q := by
  have hsl : str "/" = [subNameDelimiter] := by decide
  rw [hsl]
  simp only [isAssetNameAQualifier, Bool.false_eq_true, if_false, Bool.and_eq_true,
    Bool.or_eq_true] at h
  obtain ⟨hok, hr | hsu⟩ := h
  · have hn := delimiter_notMem_of_qualifier hr
    constructor
    · intro hp
      rw [List.isPrefixOf_iff_prefix] at hp
      exact absurd (hp.subset (by simp)) hn
    · rintro ⟨hsu, -⟩
      simp [isAssetNameASubQualifier, splitOn_of_notMem hn] at hsu
  · obtain ⟨hqualifier, ht⟩ := assetNameType_of_subQualifier hok hsu
    obtain ⟨root, tag, rfl, hr, hta⟩ := exists_of_matches_subQualifierIndicator hsu
    have hsi : subNameDelimiter ∉ (35 :: root : Str) := by simpa [subNameDelimiter] using hr
    rw [append_delimiter_isPrefixOf hsi hta]
    simp only [hqualifier, true_and, getParentName, ht]
    rw [beforeLast_append hta]
    exact eq_comm

variable {type : AssetType}

/-- Only the indicators of qualifiers change the type of a name after its check. -/
theorem indicatedType_cases (h : assetNameType name = some type) :
    ((indicatedType name = .qualifier ∨ indicatedType name = .subQualifier) ∧
        (type = .qualifier ∨ type = .subQualifier ∨ type = .invalid)) ∨
      indicatedType name ≠ .qualifier ∧ indicatedType name ≠ .subQualifier ∧
        indicatedType name = type := by
  rw [assetNameType_eq_some, isAssetNameValid] at h
  split at h
  · simp at h
  · simp only [Fallible.bind_eq_ok] at h
    obtain ⟨-, -, h⟩ := h
    split at h <;> rw [Fallible.pure_eq_ok] at h
    next ht =>
      refine Or.inl ⟨Or.inl ht, ?_⟩
      split at h <;> simp [← h]
    next ht =>
      refine Or.inl ⟨Or.inr ht, ?_⟩
      split at h <;> simp [← h]
    next hqualifier hsu => exact Or.inr ⟨hqualifier, hsu, h⟩

theorem matches_of_indicatedType :
    (indicatedType name = .qualifier → Matches qualifierIndicator name = true) ∧
      (indicatedType name = .subQualifier → Matches subQualifierIndicator name = true) ∧
      (indicatedType name = .restricted → Matches qualifierIndicator name = false ∧
        Matches subQualifierIndicator name = false ∧ Matches restrictedIndicator name = true) := by
  unfold indicatedType
  split_ifs <;> simp_all

/-- The two ways the source tells qualifiers and restricted assets agree. -/
theorem isAssetNameAQualifier_of_type (h : assetNameType name = some type)
    (ht : type = .qualifier ∨ type = .subQualifier) :
    isAssetNameAQualifier name false = true := by
  obtain ⟨hqualifier, hsu, -⟩ := @matches_of_indicatedType name
  have hok : isAssetNameOk name = true := by rw [isAssetNameOk, h]; rfl
  have hm : Matches qualifierIndicator name = true ∨ Matches subQualifierIndicator name = true := by
    rcases indicatedType_cases h with ⟨hi | hi, -⟩ | ⟨hno, hn, hi⟩
    · exact Or.inl (hqualifier hi)
    · exact Or.inr (hsu hi)
    · rcases ht with rfl | rfl
      · exact absurd hi hno
      · exact absurd hi hn
  simpa [isAssetNameAQualifier, hok] using hm

theorem isAssetNameAnRestricted_of_type (h : assetNameType name = some .restricted) :
    isAssetNameAQualifier name false = false ∧ isAssetNameAnRestricted name = true := by
  obtain ⟨-, -, hrestricted⟩ := @matches_of_indicatedType name
  have hok : isAssetNameOk name = true := by rw [isAssetNameOk, h]; rfl
  rcases indicatedType_cases h with ⟨-, ht⟩ | ⟨-, -, hi⟩
  · simp at ht
  · obtain ⟨hno, hn, hm⟩ := hrestricted hi
    simp [isAssetNameAQualifier, isAssetNameAnRestricted, hok, hno, hn, hm]

/-- The characters of such names are ASCII, and there is at least one. -/
theorem chars_of_commandName (h : assetNameType name = some type)
    (ht : type = .qualifier ∨ type = .subQualifier ∨ type = .restricted) :
    name ≠ [] ∧ ∀ c ∈ name, c < 128 := by
  have hm : Matches qualifierIndicator name = true ∨ Matches subQualifierIndicator name = true ∨
      Matches restrictedIndicator name = true := by
    rw [← or_assoc] at ht
    rcases ht with ht | rfl
    · have hname := isAssetNameAQualifier_of_type h ht
      simp only [isAssetNameAQualifier, Bool.false_eq_true, if_false, Bool.and_eq_true, Bool.or_eq_true] at hname
      exact hname.2.imp_right Or.inl
    · exact Or.inr (Or.inr (Bool.and_eq_true_iff.1 (isAssetNameAnRestricted_of_type h).2).2)
  have hclass : ∀ atoms : List (Atom UInt8), (atoms.all fun a => (List.range 256).all fun n =>
      n < 128 || !a.cls n.toUInt8) = true → Matches atoms [] = false → Matches atoms name = true →
      name ≠ [] ∧ ∀ c ∈ name, c < 128 := by
    intro atoms hat he hname
    refine ⟨fun hn => ?_, fun c hc => ?_⟩
    · rw [hn, he] at hname
      cases hname
    · obtain ⟨a, ha, hcl⟩ := exists_cls_of_matches hname c hc
      have hb := List.all_eq_true.1 (List.all_eq_true.1 hat a ha) c.toNat (List.mem_range.2 c.toNat_lt)
      simp only [Nat.toUInt8, UInt8.ofNat_toNat, hcl, Bool.not_true, Bool.or_false, decide_eq_true_eq] at hb
      exact UInt8.lt_iff_toNat_lt.2 hb
  rcases hm with hname | hname | hname
  · exact hclass _ (by decide +kernel) (by decide +kernel) hname
  · exact hclass _ (by decide +kernel) (by decide +kernel) hname
  · exact hclass _ (by decide +kernel) (by decide +kernel) hname

end Cmusic
