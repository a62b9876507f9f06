import Cmusic.QualifierNames

/-! The components of valid asset names. -/
namespace Cmusic

open Pattern

section Words

variable {cls : UInt8 → Bool} {w name : Str} {c m : UInt8} {n : Nat}

/-- A component of a name, but for its first character: characters of its class, with single
punctuation characters that do not stand at the end. -/
structure WellFormedEnd (cls : UInt8 → Bool) (w : Str) : Prop where
  ne_nil : w ≠ []
  chars : ∀ c ∈ w, cls c = true
  last : ∀ t c, w = t ++ [c] → isPunctuation c = false
  single : ∀ a c d b, w = a ++ c :: d :: b → isPunctuation c = true → isPunctuation d = false

/-- A component of a name, which does not start with punctuation either. -/
structure WellFormedPart (cls : UInt8 → Bool) (w : Str) : Prop extends WellFormedEnd cls w where
  first : ∀ c t, w = c :: t → isPunctuation c = false

theorem matches_atLeast : Matches [atLeast n cls] w ↔ (∀ c ∈ w, cls c = true) ∧ n ≤ w.length := by
  rw [matches_cons]
  simp only [matches_nil, accepts_atLeast]
  constructor
  · rintro ⟨u, _, rfl, h, rfl⟩
    rwa [List.append_nil]
  · intro h
    exact ⟨w, [], (List.append_nil w).symm, h, rfl⟩

theorem matches_one_cons {rest : List (Atom UInt8)} :
    Matches (one cls :: rest) w ↔ ∃ c t, w = c :: t ∧ cls c = true ∧ Matches rest t := by
  rw [matches_cons]
  simp only [accepts_one]
  constructor
  · rintro ⟨_, t, rfl, ⟨c, rfl, hc⟩, h⟩
    exact ⟨c, t, rfl, hc, h⟩
  · rintro ⟨c, t, rfl, hc, h⟩
    exact ⟨[c], t, rfl, ⟨c, rfl, hc⟩, h⟩

theorem matches_leadingPunctuation (h : ∀ c ∈ w, isAny c = true) :
    Matches leadingPunctuation w ↔ ∃ c t, w = c :: t ∧ isPunctuation c = true := by
  rw [leadingPunctuation, matches_one_cons]
  refine exists_congr fun c => exists_congr fun t => and_congr_right fun hw => ?_
  rw [matches_atLeast]
  refine and_iff_left ⟨fun d hd => h d ?_, Nat.zero_le _⟩
  rw [hw]
  exact List.mem_cons_of_mem _ hd

theorem matches_trailingPunctuation (h : ∀ c ∈ w, isAny c = true) :
    Matches trailingPunctuation w ↔ ∃ t c, w = t ++ [c] ∧ isPunctuation c = true := by
  rw [trailingPunctuation, matches_cons]
  constructor
  · rintro ⟨t, v, rfl, -, hv⟩
    obtain ⟨c, u, rfl, hc, hu⟩ := matches_one_cons.1 hv
    rw [matches_nil.1 hu]
    exact ⟨t, c, rfl, hc⟩
  · rintro ⟨t, c, rfl, hc⟩
    refine ⟨t, [c], rfl, accepts_atLeast.2 ⟨fun d hd => h d (List.mem_append_left _ hd), Nat.zero_le _⟩,
      matches_one_cons.2 ⟨c, [], rfl, hc, matches_nil.2 rfl⟩⟩

theorem matches_doublePunctuation (h : ∀ c ∈ w, isAny c = true) : Matches doublePunctuation w ↔
      ∃ a c d b, w = a ++ c :: d :: b ∧ isPunctuation c = true ∧ isPunctuation d = true := by
  rw [doublePunctuation, matches_cons]
  constructor
  · rintro ⟨a, v, rfl, -, hv⟩
    obtain ⟨u, b, rfl, hu, -⟩ := matches_cons.1 hv
    obtain ⟨hclass, hl⟩ := accepts_atLeast.1 hu
    match u, hl with
    | c :: d :: u, _ =>
      refine ⟨a, c, d, u ++ b, by simp, hclass c List.mem_cons_self, hclass d ?_⟩
      exact List.mem_cons_of_mem _ List.mem_cons_self
  · rintro ⟨a, c, d, b, rfl, hc, hd⟩
    refine ⟨a, c :: d :: b, rfl, accepts_atLeast.2 ⟨fun e he => h e (List.mem_append_left _ he),
      Nat.zero_le _⟩, matches_cons.2 ⟨[c, d], b, rfl, accepts_atLeast.2 ⟨?_, Nat.le_refl 2⟩,
        matches_atLeast.2 ⟨fun e he => h e ?_, Nat.zero_le _⟩⟩⟩
    · intro e he
      rcases List.mem_cons.1 he with rfl | he
      · exact hc
      · rw [List.mem_singleton.1 he]
        exact hd
    · exact List.mem_append_right _ (List.mem_cons_of_mem _ (List.mem_cons_of_mem _ he))

theorem wellFormedEnd_iff (hcl : ∀ c, cls c = true → isAny c = true) (hn : 0 < n) :
    (Matches [atLeast n cls] w ∧ ¬Matches doublePunctuation w ∧ ¬Matches trailingPunctuation w) ↔
      WellFormedEnd cls w ∧ n ≤ w.length := by
  rw [matches_atLeast]
  constructor
  · rintro ⟨⟨hch, hl⟩, hdo, ht⟩
    have ha : ∀ c ∈ w, isAny c = true := fun c hc => hcl c (hch c hc)
    rw [matches_doublePunctuation ha] at hdo
    rw [matches_trailingPunctuation ha] at ht
    refine ⟨⟨List.ne_nil_of_length_pos (by omega), hch, ?_, ?_⟩, hl⟩
    · intro t c hw
      exact Bool.eq_false_iff.2 fun hc => ht ⟨t, c, hw, hc⟩
    · intro a c d b hw hc
      exact Bool.eq_false_iff.2 fun hd => hdo ⟨a, c, d, b, hw, hc, hd⟩
  · rintro ⟨h, hl⟩
    have ha : ∀ c ∈ w, isAny c = true := fun c hc => hcl c (h.chars c hc)
    rw [matches_doublePunctuation ha, matches_trailingPunctuation ha]
    refine ⟨⟨h.chars, hl⟩, ?_, ?_⟩
    · rintro ⟨a, c, d, b, hw, hc, hd⟩
      rw [h.single a c d b hw hc] at hd
      cases hd
    · rintro ⟨t, c, hw, hc⟩
      rw [h.last t c hw] at hc
      cases hc

/-- What the search for leading punctuation adds. -/
theorem WellFormedEnd.part_iff (h : WellFormedEnd cls w) (hcl : ∀ c, cls c = true → isAny c = true) :
    WellFormedPart cls w ↔ ¬Matches leadingPunctuation w := by
  rw [matches_leadingPunctuation fun c hc => hcl c (h.chars c hc)]
  constructor
  · rintro hp ⟨c, t, hw, hc⟩
    rw [hp.first c t hw] at hc
    cases hc
  · intro hl
    exact ⟨h, fun c t hw => Bool.eq_false_iff.2 fun hc => hl ⟨c, t, hw, hc⟩⟩

/-- The test that `IsSubNameValid` and its relatives share. -/
theorem plain_iff (hc : ∀ c, cls c = true → isAny c = true) (hn : 0 < n) :
    (Matches [atLeast n cls] w && !Matches doublePunctuation w && !Matches leadingPunctuation w &&
        !Matches trailingPunctuation w) = true ↔ WellFormedPart cls w ∧ n ≤ w.length := by
  have he := @wellFormedEnd_iff cls w n hc hn
  simp only [Bool.and_eq_true, Bool.not_eq_true', Bool.eq_false_iff]
  constructor
  · rintro ⟨⟨⟨hm, hd⟩, hle⟩, ht⟩
    obtain ⟨hf, hl⟩ := he.1 ⟨hm, hd, ht⟩
    exact ⟨(hf.part_iff hc).2 hle, hl⟩
  · rintro ⟨hp, hl⟩
    obtain ⟨hm, hd, ht⟩ := he.2 ⟨hp.toWellFormedEnd, hl⟩
    exact ⟨⟨⟨hm, hd⟩, (hp.part_iff hc).1 hp⟩, ht⟩

theorem isAny_of_class (hn : cls 10 = false) (hr : cls 13 = false) (h : cls c = true) :
    isAny c = true := by
  rw [isAny, Bool.not_eq_true', Bool.or_eq_false_iff, decide_eq_false_iff_not,
    decide_eq_false_iff_not]
  constructor
  all_goals
    rintro rfl
    simp_all

theorem isAny_of_isNameChar (h : isNameChar c = true) : isAny c = true :=
  isAny_of_class (by decide) (by decide) h

theorem isSubNameValid_iff : isSubNameValid w = true ↔ WellFormedPart isNameChar w := by
  rw [isSubNameValid, subNameCharacters, plain_iff (fun _ => isAny_of_isNameChar) Nat.one_pos]
  exact and_iff_left_of_imp fun h => List.length_pos_iff.2 h.ne_nil

theorem isMsgChannelTagValid_iff : isMsgChannelTagValid w = true ↔ WellFormedPart isMsgChannelTagChar w := by
  rw [isMsgChannelTagValid, msgChannelTagCharacters,
    plain_iff (fun _ => isAny_of_class (by decide) (by decide)) Nat.one_pos]
  exact and_iff_left_of_imp fun h => List.length_pos_iff.2 h.ne_nil

theorem isRootNameValid_iff : isRootNameValid w = true ↔
    WellFormedPart isNameChar w ∧ 3 ≤ w.length ∧ w ∉ cmusicaiNames := by
  rw [isRootNameValid, Bool.and_eq_true, rootNameCharacters,
    plain_iff (fun _ => isAny_of_isNameChar) (by decide), and_assoc]
  simp

/-- A mark in front of a name is no punctuation, so the searches pass over it. -/
theorem mark_iff (hm : isAny m = true) (hma : isPunctuation m = false) (h : ∀ c ∈ w, isAny c = true) :
    (Matches doublePunctuation (m :: w) ↔ Matches doublePunctuation w) ∧
      (w ≠ [] → (Matches trailingPunctuation (m :: w) ↔ Matches trailingPunctuation w)) ∧
      ¬Matches leadingPunctuation (m :: w) := by
  have ha : ∀ c ∈ m :: w, isAny c = true := by
    intro c hc
    rcases List.mem_cons.1 hc with rfl | hc
    · exact hm
    · exact h c hc
  rw [matches_doublePunctuation ha, matches_doublePunctuation h, matches_trailingPunctuation ha,
    matches_trailingPunctuation h, matches_leadingPunctuation ha]
  refine ⟨⟨?_, ?_⟩, fun hne => ⟨?_, ?_⟩, ?_⟩
  · rintro ⟨a, c, d, b, heq, hc, hd⟩
    cases a with
    | nil =>
      obtain ⟨rfl, -⟩ := List.cons.inj heq
      rw [hma] at hc
      cases hc
    | cons e a => exact ⟨a, c, d, b, (List.cons.inj heq).2, hc, hd⟩
  · rintro ⟨a, c, d, b, rfl, hc, hd⟩
    exact ⟨m :: a, c, d, b, rfl, hc, hd⟩
  · rintro ⟨t, c, heq, hc⟩
    cases t with
    | nil => exact absurd (List.cons.inj heq).2 hne
    | cons e t => exact ⟨t, c, (List.cons.inj heq).2, hc⟩
  · rintro ⟨t, c, rfl, hc⟩
    exact ⟨m :: t, c, rfl, hc⟩
  · rintro ⟨c, t, heq, hc⟩
    obtain ⟨rfl, -⟩ := List.cons.inj heq
    rw [hma] at hc
    cases hc

theorem marked_iff {mark : String} (hma : ∀ c, isOneOf mark c = true ↔ c = m)
    (hm : isAny m = true) (hp : isPunctuation m = false) (hn : 0 < n) :
    (Matches [one (isOneOf mark), atLeast n isNameChar] name ∧ ¬Matches doublePunctuation name ∧
        ¬Matches trailingPunctuation name) ↔
      ∃ w, name = m :: w ∧ WellFormedEnd isNameChar w ∧ n ≤ w.length := by
  have he := fun w => @wellFormedEnd_iff isNameChar w n (fun _ => isAny_of_isNameChar) hn
  rw [matches_one_cons]
  constructor
  · rintro ⟨⟨c, w, rfl, hc, hw⟩, hd, ht⟩
    obtain rfl := (hma c).1 hc
    obtain ⟨hch, hl⟩ := matches_atLeast.1 hw
    have hi := mark_iff hm hp fun c hc => isAny_of_isNameChar (hch c hc)
    rw [hi.1] at hd
    rw [hi.2.1 (List.ne_nil_of_length_pos (by omega))] at ht
    exact ⟨w, rfl, (he w).1 ⟨hw, hd, ht⟩⟩
  · rintro ⟨w, rfl, hf, hl⟩
    have hi := mark_iff hm hp fun c hc => isAny_of_isNameChar (hf.chars c hc)
    obtain ⟨hw, hd, ht⟩ := (he w).2 ⟨hf, hl⟩
    rw [hi.1, hi.2.1 hf.ne_nil]
    exact ⟨⟨m, w, rfl, (hma m).2 rfl, hw⟩, hd, ht⟩

theorem isOneOf_qualifierMark (c : UInt8) : isOneOf "#" c = true ↔ c = 35 := by
  simp [isOneOf, str]

theorem isOneOf_restrictedMark (c : UInt8) : isOneOf "$" c = true ↔ c = 36 := by
  simp [isOneOf, str]

/-- Leading punctuation is looked for in front of the mark, so it is never found. -/
theorem markedPlain_iff {mark : String} (hmar : ∀ c, isOneOf mark c = true ↔ c = m)
    (hm : isAny m = true) (hp : isPunctuation m = false) (hn : 0 < n) :
    (Matches [one (isOneOf mark), atLeast n isNameChar] name && !Matches doublePunctuation name &&
        !Matches leadingPunctuation name && !Matches trailingPunctuation name) = true ↔
      ∃ w, name = m :: w ∧ WellFormedEnd isNameChar w ∧ n ≤ w.length := by
  rw [← marked_iff hmar hm hp hn]
  simp only [Bool.and_eq_true, Bool.not_eq_true', Bool.eq_false_iff]
  constructor
  · rintro ⟨⟨⟨hma, hd⟩, -⟩, ht⟩
    exact ⟨hma, hd, ht⟩
  · rintro ⟨hma, hd, ht⟩
    obtain ⟨w, rfl, hf, -⟩ := (marked_iff hmar hm hp hn).1 ⟨hma, hd, ht⟩
    have hi := mark_iff hm hp fun c hc => isAny_of_isNameChar (hf.chars c hc)
    exact ⟨⟨⟨hma, hd⟩, hi.2.2⟩, ht⟩

theorem isSubQualifierNameValid_iff :
    isSubQualifierNameValid name = true ↔ ∃ w, name = 35 :: w ∧ WellFormedEnd isNameChar w := by
  rw [isSubQualifierNameValid, subQualifierNameCharacters,
    markedPlain_iff isOneOf_qualifierMark (by decide) (by decide) Nat.one_pos]
  refine exists_congr fun w => and_congr_right fun _ => and_iff_left_of_imp fun h => ?_
  exact List.length_pos_iff.2 h.ne_nil

/-- No reserved name has the mark of a restricted asset. -/
theorem isRestrictedNameValid_iff : isRestrictedNameValid name = true ↔
      ∃ w, name = 36 :: w ∧ WellFormedEnd isNameChar w ∧ 3 ≤ w.length := by
  rw [isRestrictedNameValid, Bool.and_eq_true, restrictedNameCharacters,
    markedPlain_iff isOneOf_restrictedMark (by decide) (by decide) (by decide)]
  refine and_iff_left_of_imp ?_
  rintro ⟨w, rfl, -, -⟩
  simp [cmusicaiNames, str]

theorem mem_cmusicaiNames_cons (h : ∀ c ∈ w, isNameChar c = true) :
    35 :: w ∈ cmusicaiNames ↔ w ∈ cmusicaiNames := by
  have hm : ∀ t, w ≠ 35 :: t := by
    rintro t rfl
    exact absurd (h 35 List.mem_cons_self) (by decide)
  simp [cmusicaiNames, str, hm]

theorem matches_qualifierLeadingPunctuation (hm : isOneOf "#$" m = true) :
    Matches qualifierLeadingPunctuation (m :: w) ↔ Matches leadingPunctuation w := by
  rw [qualifierLeadingPunctuation, matches_one_cons]
  constructor
  · rintro ⟨c, t, heq, -, h⟩
    obtain ⟨-, rfl⟩ := List.cons.inj heq
    exact h
  · intro h
    exact ⟨m, w, rfl, hm, h⟩

theorem isQualifierNameValid_iff : isQualifierNameValid name = true ↔
      ∃ w, name = 35 :: w ∧ WellFormedPart isNameChar w ∧ 3 ≤ w.length ∧ w ∉ cmusicaiNames := by
  have hma := @marked_iff name 35 3 "#" isOneOf_qualifierMark (by decide) (by decide) (by decide)
  simp only [isQualifierNameValid, qualifierNameCharacters, Bool.and_eq_true, Bool.not_eq_true',
    Bool.eq_false_iff]
  constructor
  · rintro ⟨⟨⟨⟨hm, hd⟩, hle⟩, ht⟩, hn⟩
    obtain ⟨w, rfl, hf, hl⟩ := hma.1 ⟨hm, hd, ht⟩
    rw [Ne, matches_qualifierLeadingPunctuation (by decide)] at hle
    rw [Ne, List.contains_iff_mem, mem_cmusicaiNames_cons hf.chars] at hn
    exact ⟨w, rfl, (hf.part_iff fun _ => isAny_of_isNameChar).2 hle, hl, hn⟩
  · rintro ⟨w, rfl, hp, hl, hn⟩
    obtain ⟨hm, hd, ht⟩ := hma.2 ⟨w, rfl, hp.toWellFormedEnd, hl⟩
    rw [Ne, Ne, Ne, Ne, matches_qualifierLeadingPunctuation (by decide), List.contains_iff_mem,
      mem_cmusicaiNames_cons hp.chars]
    exact ⟨⟨⟨⟨hm, hd⟩, (hp.part_iff fun _ => isAny_of_isNameChar).1 hp⟩, ht⟩, hn⟩

end Words

section Types

variable {name w : Str} {type : AssetType} {d : UInt8} {front tag : Str}

/-- The type of a valid name is the one that its indicator says. -/
theorem assetNameType_iff : assetNameType name = some type ↔
    name.length ≤ 40 ∧ indicatedType name = type ∧ isTypeCheckNameValid type name = .ok () := by
  rw [assetNameType_eq_some, isAssetNameValid]
  by_cases hl : name.length > 40
  · rw [if_pos hl]
    exact iff_of_false (by simp) fun h => absurd h.1 (Nat.not_le.2 hl)
  rw [if_neg hl, and_iff_right (Nat.le_of_not_lt hl), Fallible.bind_eq_ok]
  obtain ⟨hqualifier, hsu, -⟩ := @matches_of_indicatedType name
  have hro : indicatedType name = .qualifier → isAssetNameASubQualifier name = false := by
    intro ht
    rw [isAssetNameASubQualifier, splitOn_of_notMem (delimiter_notMem_of_qualifier (hqualifier ht))]
    simp
  have htw : indicatedType name = .subQualifier → isTypeCheckNameValid .subQualifier name = .ok () →
      isAssetNameASubQualifier name = true := by
    intro ht hc
    refine (assetNameType_of_subQualifier ?_ (hsu ht)).1
    rw [isAssetNameOk, assetNameType, isAssetNameValid, if_neg hl, ht]
    dsimp only
    rw [hc]
    rfl
  constructor
  · rintro ⟨⟨⟩, hc, hr⟩
    split at hr
    next ht =>
      rw [hro ht] at hr
      cases hr
      exact ⟨ht, ht ▸ hc⟩
    next ht =>
      rw [ht] at hc
      rw [htw ht hc] at hr
      cases hr
      exact ⟨ht, hc⟩
    next =>
      cases hr
      exact ⟨rfl, hc⟩
  · rintro ⟨rfl, hc⟩
    refine ⟨(), hc, ?_⟩
    split
    next ht =>
      rw [hro ht, ht]
      rfl
    next ht =>
      rw [ht] at hc
      rw [htw ht hc, ht]
      rfl
    next => rfl

theorem isNameValidBeforeTag_iff : isNameValidBeforeTag w = true ↔
    ∃ root subs, w.splitOn subNameDelimiter = root :: subs ∧ isRootNameValid root = true ∧
      ∀ part ∈ subs, isSubNameValid part = true := by
  obtain ⟨root, subs, hsp⟩ :=
    List.exists_cons_of_ne_nil (List.splitOn_ne_nil subNameDelimiter w)
  simp only [isNameValidBeforeTag, frontPart, hsp, List.headD_cons, List.tail_cons,
    Bool.and_eq_true, List.all_eq_true]
  constructor
  · rintro ⟨hr, hsu⟩
    exact ⟨root, subs, rfl, hr, hsu⟩
  · rintro ⟨_, _, heq, hr, hsu⟩
    obtain ⟨rfl, rfl⟩ := List.cons.inj heq
    exact ⟨hr, hsu⟩

theorem mem_of_mem_intercalate {c : UInt8} {parts : List Str} (h : c ∈ [d].intercalate parts) :
    c = d ∨ ∃ part ∈ parts, c ∈ part := by
  induction parts with
  | nil => cases h
  | cons part parts ih =>
    cases parts with
    | nil =>
      rw [List.intercalate_singleton] at h
      exact Or.inr ⟨part, List.mem_cons_self, h⟩
    | cons next parts =>
      rw [List.intercalate_cons_cons, List.append_assoc, List.mem_append, List.mem_append] at h
      rcases h with h | h | h
      · exact Or.inr ⟨part, List.mem_cons_self, h⟩
      · exact Or.inl (List.mem_singleton.1 h)
      · rcases ih h with h | ⟨later, hm, h⟩
        · exact Or.inl h
        · exact Or.inr ⟨later, List.mem_cons_of_mem _ hm, h⟩

/-- A name before its tag consists of name characters and slashes, and is not too short. -/
theorem chars_of_isNameValidBeforeTag (h : isNameValidBeforeTag w = true) :
    (∀ c ∈ w, isNameChar c = true ∨ c = subNameDelimiter) ∧ 3 ≤ w.length := by
  obtain ⟨root, subs, hsp, hr, hsu⟩ := isNameValidBeforeTag_iff.1 h
  obtain ⟨hf, hl, -⟩ := isRootNameValid_iff.1 hr
  have hj : [subNameDelimiter].intercalate (root :: subs) = w := by
    rw [← hsp, List.intercalate_splitOn]
  constructor
  · intro c hc
    rw [← hj] at hc
    rcases mem_of_mem_intercalate hc with hd | ⟨part, hp, hm⟩
    · exact Or.inr hd
    · rcases List.mem_cons.1 hp with rfl | hp
      · exact Or.inl (hf.chars c hm)
      · exact Or.inl ((isSubNameValid_iff.1 (hsu part hp)).chars c hm)
  · rw [← hj]
    cases subs with
    | nil =>
      rw [List.intercalate_singleton]
      exact hl
    | cons next subs =>
      rw [List.intercalate_cons_cons, List.append_assoc, List.length_append]
      omega

/-- A word that matches a pattern has a character of each class that stands in it. -/
theorem mem_of_matches {cls : UInt8 → Bool} (before : List (Atom UInt8)) {after : List (Atom UInt8)}
    (h : Matches (before ++ one cls :: after) w) : ∃ c ∈ w, cls c = true := by
  induction before generalizing w with
  | nil =>
    obtain ⟨c, t, rfl, hc, -⟩ := matches_one_cons.1 h
    exact ⟨c, List.mem_cons_self, hc⟩
  | cons a before ih =>
    obtain ⟨u, v, rfl, -, hv⟩ := matches_cons.1 h
    obtain ⟨c, hc, hcl⟩ := ih hv
    exact ⟨c, List.mem_append_right _ hc, hcl⟩

theorem indicatedType_of_chars (h : ∀ c ∈ w, isNameChar c = true ∨ c = subNameDelimiter) :
    indicatedType w = if isAssetNameASubasset w then .sub else .root := by
  have hn : ∀ {mark : String} (before : List (Atom UInt8)) {after : List (Atom UInt8)},
      (∀ c, isOneOf mark c = true → isNameChar c = false ∧ c ≠ subNameDelimiter) →
      Matches (before ++ one (isOneOf mark) :: after) w = false := by
    intro mark before after hm
    rw [Bool.eq_false_iff]
    intro hma
    obtain ⟨c, hc, hcl⟩ := mem_of_matches before hma
    obtain ⟨hname, hd⟩ := hm c hcl
    rcases h c hc with hc | hc
    · rw [hc] at hname
      cases hname
    · exact hd hc
  have hm : ∀ {mark : String} {m : UInt8}, (∀ c, isOneOf mark c = true ↔ c = m) →
      isNameChar m = false → m ≠ subNameDelimiter →
      ∀ c, isOneOf mark c = true → isNameChar c = false ∧ c ≠ subNameDelimiter := by
    intro mark m hm hname hd c hc
    rw [(hm c).1 hc]
    exact ⟨hname, hd⟩
  have hunique : Matches uniqueIndicator w = false :=
    hn [_] (hm isOneOf_qualifierMark (by decide) (by decide))
  have hchannel : Matches msgChannelIndicator w = false :=
    hn [_] (@hm "~" 126 (by simp [isOneOf, str]) (by decide) (by decide))
  have ho : Matches ownerIndicator w = false :=
    hn [_] (@hm "!" 33 (by simp [isOneOf, str]) (by decide) (by decide))
  have hv : Matches voteIndicator w = false :=
    hn [_] (@hm "^" 94 (by simp [isOneOf, str]) (by decide) (by decide))
  have hqualifier : Matches qualifierIndicator w = false :=
    hn [] (hm isOneOf_qualifierMark (by decide) (by decide))
  have hsu : Matches subQualifierIndicator w = false :=
    hn [] (hm isOneOf_qualifierMark (by decide) (by decide))
  have hrestricted : Matches restrictedIndicator w = false :=
    hn [] (hm isOneOf_restrictedMark (by decide) (by decide))
  simp [indicatedType, hunique, hchannel, ho, hv, hqualifier, hsu, hrestricted]

theorem typeCheck_name (ht : type = .root ∨ type = .sub) :
    isTypeCheckNameValid type name = .ok () ↔ isNameValidBeforeTag name = true ∧ name.length ≤ 30 := by
  have hc : isTypeCheckNameValid type name = .ok () ↔ name.length ≤ 30 ∧
      ¬(isAssetNameASubasset name = false ∧ name.length < minAssetLength) ∧
      isNameValidBeforeTag name = true := by
    rcases ht with rfl | rfl
    all_goals
      simp only [isTypeCheckNameValid, Fallible.failIf_bind_eq_ok, Fallible.failIf_eq_ok, maxNameLength]
      grind
  rw [hc]
  constructor
  · rintro ⟨hl, -, hvalid⟩
    exact ⟨hvalid, hl⟩
  · rintro ⟨hvalid, hl⟩
    refine ⟨hl, fun hsh => ?_, hvalid⟩
    have hlo := (chars_of_isNameValidBeforeTag hvalid).2
    have hm : minAssetLength = 3 := rfl
    omega

/-- The names of root and sub assets. -/
theorem rootOrSub_iff : (assetNameType w = some .root ∨ assetNameType w = some .sub) ↔
    isNameValidBeforeTag w = true ∧ w.length ≤ 30 := by
  constructor
  · rintro (h | h)
    all_goals
      obtain ⟨-, -, hc⟩ := assetNameType_iff.1 h
      exact (typeCheck_name (by decide)).1 hc
  · rintro ⟨hvalid, hl⟩
    have ht := indicatedType_of_chars (chars_of_isNameValidBeforeTag hvalid).1
    have hli : w.length ≤ 40 := by omega
    split at ht
    · exact Or.inr (assetNameType_iff.2 ⟨hli, ht, (typeCheck_name (Or.inr rfl)).2 ⟨hvalid, hl⟩⟩)
    · exact Or.inl (assetNameType_iff.2 ⟨hli, ht, (typeCheck_name (Or.inl rfl)).2 ⟨hvalid, hl⟩⟩)

/-- A name with a tag, of the three kinds. -/
theorem exists_of_matches_tagIndicator {mark : String} (hm : ∀ c, isOneOf mark c = true ↔ c = d)
    (h : Matches (tagIndicator mark) name) :
    ∃ front tag, name = front ++ d :: tag ∧ (∀ c ∈ front, notOneOf "^~#!" c = true) ∧ tag ≠ [] ∧
      ∀ c ∈ tag, notOneOf "~#!/" c = true := by
  simp only [tagIndicator, matches_cons, matches_nil, accepts_atLeast, accepts_one] at h
  obtain ⟨front, _, rfl, ⟨hf, -⟩, _, _, rfl, ⟨c, rfl, hc⟩, tag, _, rfl, ⟨ht, hl⟩, rfl⟩ := h
  obtain rfl := (hm c).1 hc
  exact ⟨front, tag, by simp, hf, List.ne_nil_of_length_pos hl, ht⟩

theorem notMem_of_notOneOf {s : String} (h : ∀ c ∈ w, notOneOf s c = true)
    (hd : notOneOf s d = false) : d ∉ w := by
  intro hm
  rw [h d hm] at hd
  cases hd

theorem frontPart_append (h : d ∉ front) : frontPart d (front ++ d :: tag) = front := by
  rw [frontPart, splitOn_append_cons h]
  rfl

theorem backPart_append (h : d ∉ front) : backPart d (front ++ d :: tag) = backPart d tag := by
  obtain ⟨part, rest, hp⟩ := List.exists_cons_of_ne_nil (List.splitOn_ne_nil d tag)
  rw [backPart, backPart, splitOn_append_cons h, hp]
  rfl

theorem backPart_of_notMem (h : d ∉ w) : backPart d w = w := by
  rw [backPart, splitOn_of_notMem h]
  rfl

theorem matches_tag_of_indicatedType :
    (indicatedType name = .unique → Matches uniqueIndicator name = true) ∧
      (indicatedType name = .msgChannel → Matches msgChannelIndicator name = true) ∧
      (indicatedType name = .owner → Matches ownerIndicator name = true) ∧
      (indicatedType name = .vote → Matches voteIndicator name = true) := by
  unfold indicatedType
  split_ifs <;> simp_all

end Types

section Components

variable {name : Str} {type : AssetType}

/-- The components of a name with their character classes, without the tag of a unique asset and
without the marks of qualifiers, restricted assets and owner tokens. -/
def nameComponents (type : AssetType) (name : Str) : List ((UInt8 → Bool) × Str) :=
  let words (s : Str) := (s.splitOn subNameDelimiter).map (isNameChar, ·)
  match type with
  | .unique => words (frontPart uniqueTagDelimiter name)
  | .msgChannel => words (frontPart msgChannelTagDelimiter name) ++
      (name.splitOn msgChannelTagDelimiter).tail.map (isMsgChannelTagChar, ·)
  | .owner => words name.dropLast
  | .vote => words (frontPart voteTagDelimiter name) ++
      (name.splitOn voteTagDelimiter).tail.map (isNameChar, ·)
  | .qualifier | .subQualifier => (name.splitOn subNameDelimiter).map fun part => (isNameChar, part.drop 1)
  | .restricted => [(isNameChar, name.drop 1)]
  | _ => words name

/-- The components of a name are well formed, and the first one is not reserved. -/
structure ComponentsFormed (components : List ((UInt8 → Bool) × Str)) : Prop where
  parts : ∀ part ∈ components, WellFormedPart part.1 part.2
  root : ∀ part, components.head? = some part → part.2 ∉ cmusicaiNames

/-- What the checks of a name leave out: the parts of a vote behind the front, and the first
character behind the mark of a sub qualifier or a restricted asset. -/
def restIsFormed (type : AssetType) (name : Str) : Bool :=
  match type with
  | .vote => (name.splitOn voteTagDelimiter).tail.all isSubNameValid
  | .subQualifier =>
    (name.splitOn subNameDelimiter).tail.all fun part => !Matches qualifierLeadingPunctuation part
  | .restricted =>
    !Matches qualifierLeadingPunctuation name && !cmusicaiNames.contains (name.drop 1)
  | _ => true

theorem componentsFormed_words {s : Str} (h : isNameValidBeforeTag s = true)
    (more : List ((UInt8 → Bool) × Str)) :
    ComponentsFormed ((s.splitOn subNameDelimiter).map (isNameChar, ·) ++ more) ↔
      ∀ part ∈ more, WellFormedPart part.1 part.2 := by
  obtain ⟨root, subs, hsp, hr, hsu⟩ := isNameValidBeforeTag_iff.1 h
  obtain ⟨hf, -, hname⟩ := isRootNameValid_iff.1 hr
  rw [hsp, List.map_cons, List.cons_append]
  constructor
  · intro ha part hp
    exact ha.parts part (List.mem_cons_of_mem _ (List.mem_append_right _ hp))
  · intro hm
    refine ⟨fun part hp => ?_, fun part hp => ?_⟩
    · rcases List.mem_cons.1 hp with rfl | hp
      · exact hf
      · rcases List.mem_append.1 hp with hp | hp
        · obtain ⟨sub, hsub, rfl⟩ := List.mem_map.1 hp
          exact isSubNameValid_iff.1 (hsu sub hsub)
        · exact hm part hp
    · obtain rfl := Option.some.inj hp
      exact hname

theorem componentsFormed_marked {root : Str} {rest : List Str} (hro : isQualifierNameValid root = true) :
    ComponentsFormed ((root :: rest).map fun part => (isNameChar, part.drop 1)) ↔
      ∀ part ∈ rest, WellFormedPart isNameChar (part.drop 1) := by
  obtain ⟨w, rfl, hf, -, hname⟩ := isQualifierNameValid_iff.1 hro
  constructor
  · intro ha part hp
    exact ha.parts _ (List.mem_map_of_mem (List.mem_cons_of_mem _ hp))
  · intro hr
    refine ⟨fun part hp => ?_, fun part hp => ?_⟩
    · obtain ⟨text, ht, rfl⟩ := List.mem_map.1 hp
      rcases List.mem_cons.1 ht with rfl | ht
      · exact hf
      · exact hr text ht
    · obtain rfl := Option.some.inj hp
      exact hname

theorem componentsFormed_restricted (h : isRestrictedNameValid name = true) :
    ComponentsFormed [(isNameChar, name.drop 1)] ↔
      ¬Matches qualifierLeadingPunctuation name ∧ name.drop 1 ∉ cmusicaiNames := by
  obtain ⟨w, rfl, hf, -⟩ := isRestrictedNameValid_iff.1 h
  rw [matches_qualifierLeadingPunctuation (by decide), ← hf.part_iff fun _ => isAny_of_isNameChar]
  constructor
  · intro ha
    exact ⟨ha.parts _ (List.mem_singleton_self _), ha.root _ rfl⟩
  · rintro ⟨hp, hname⟩
    refine ⟨fun part hm => ?_, fun part hm => ?_⟩
    · rw [List.mem_singleton.1 hm]
      exact hp
    · obtain rfl := Option.some.inj hm
      exact hname

theorem typeCheck_before : (isTypeCheckNameValid .unique name = .ok () →
        isNameValidBeforeTag (frontPart uniqueTagDelimiter name) = true) ∧
      (isTypeCheckNameValid .msgChannel name = .ok () →
        isNameValidBeforeTag (frontPart msgChannelTagDelimiter name) = true ∧
          isMsgChannelTagValid (backPart msgChannelTagDelimiter name) = true) ∧
      (isTypeCheckNameValid .vote name = .ok () →
        isNameValidBeforeTag (frontPart voteTagDelimiter name) = true) ∧
      (isTypeCheckNameValid .owner name = .ok () → isNameValidBeforeTag name.dropLast = true) := by
  simp only [isTypeCheckNameValid, Fallible.failIf_bind_eq_ok, Fallible.failIf_eq_ok]
  grind

theorem typeCheck_marked :
    ((isTypeCheckNameValid .qualifier name = .ok () ∨ isTypeCheckNameValid .subQualifier name = .ok ()) →
        isQualifierNameValidBeforeTag name = true) ∧
      (isTypeCheckNameValid .restricted name = .ok () → isRestrictedNameValid name = true) := by
  simp only [isTypeCheckNameValid, Fallible.failIf_bind_eq_ok, Fallible.failIf_eq_ok]
  grind

theorem indicatedType_ne : indicatedType name ≠ .reissue ∧ indicatedType name ≠ .nullAddQualifier ∧
    indicatedType name ≠ .invalid := by
  unfold indicatedType
  split_ifs <;> decide

/-- The grammar of the components of a valid name holds but for what the checks leave out. -/
theorem componentsFormed_iff (h : assetNameType name = some type) :
    ComponentsFormed (nameComponents type name) ↔ restIsFormed type name = true := by
  obtain ⟨-, ht, hc⟩ := assetNameType_iff.1 h
  obtain ⟨hunique, hchannel, hv, ho⟩ := @typeCheck_before name
  obtain ⟨hqualifier, hrestricted⟩ := @typeCheck_marked name
  have hw : ∀ {s : Str}, isNameValidBeforeTag s = true →
      ComponentsFormed ((s.splitOn subNameDelimiter).map (isNameChar, ·)) := by
    intro s hs
    have hfo := (componentsFormed_words hs []).2 (by simp)
    rwa [List.append_nil] at hfo
  cases type with
  | root => exact iff_of_true (hw ((typeCheck_name (Or.inl rfl)).1 hc).1) rfl
  | sub => exact iff_of_true (hw ((typeCheck_name (Or.inr rfl)).1 hc).1) rfl
  | unique => exact iff_of_true (hw (hunique hc)) rfl
  | owner => exact iff_of_true (hw (ho hc)) rfl
  | msgChannel =>
    refine iff_of_true ?_ rfl
    obtain ⟨hb, hta⟩ := hchannel hc
    refine (componentsFormed_words hb _).2 fun part hp => ?_
    obtain ⟨front, tag, rfl, hf, -, hch⟩ :=
      @exists_of_matches_tagIndicator name msgChannelTagDelimiter "~"
        (by simp [isOneOf, str, msgChannelTagDelimiter]) (matches_tag_of_indicatedType.2.1 ht)
    have hf := notMem_of_notOneOf hf (d := msgChannelTagDelimiter) (by decide)
    have hch := notMem_of_notOneOf hch (d := msgChannelTagDelimiter) (by decide)
    rw [splitOn_append_cons hf, splitOn_of_notMem hch, List.tail_cons, List.map_singleton,
      List.mem_singleton] at hp
    rw [backPart_append hf, backPart_of_notMem hch] at hta
    rw [hp]
    exact isMsgChannelTagValid_iff.1 hta
  | vote =>
    refine (componentsFormed_words (hv hc) _).trans ?_
    rw [restIsFormed, List.all_eq_true]
    constructor
    · intro ha part hp
      exact isSubNameValid_iff.2 (ha _ (List.mem_map_of_mem hp))
    · intro ha part hp
      obtain ⟨text, hte, rfl⟩ := List.mem_map.1 hp
      exact isSubNameValid_iff.1 (ha text hte)
  | qualifier =>
    refine iff_of_true ?_ rfl
    have hb := hqualifier (Or.inl hc)
    simp only [isQualifierNameValidBeforeTag, Bool.and_eq_true] at hb
    have hsp := splitOn_of_notMem (delimiter_notMem_of_qualifier (matches_of_indicatedType.1 ht))
    rw [nameComponents, hsp]
    refine (componentsFormed_marked ?_).2 (by simp)
    rw [frontPart, hsp] at hb
    exact hb.1.1
  | subQualifier =>
    have hb := hqualifier (Or.inr hc)
    simp only [isQualifierNameValidBeforeTag, Bool.and_eq_true, List.all_eq_true] at hb
    obtain ⟨root, rest, hsp⟩ :=
      List.exists_cons_of_ne_nil (List.splitOn_ne_nil subNameDelimiter name)
    rw [frontPart, hsp] at hb
    have hr : isQualifierNameValid root = true := hb.1.1
    rw [nameComponents, restIsFormed, hsp, componentsFormed_marked hr, List.tail_cons,
      List.all_eq_true]
    refine forall_congr' fun part => forall_congr' fun hp => ?_
    obtain ⟨w, rfl, hfo⟩ := isSubQualifierNameValid_iff.1 (hb.2 part hp)
    rw [Bool.not_eq_true', Bool.eq_false_iff, Ne, matches_qualifierLeadingPunctuation (by decide)]
    exact hfo.part_iff fun _ => isAny_of_isNameChar
  | restricted =>
    rw [nameComponents, restIsFormed, componentsFormed_restricted (hrestricted hc)]
    simp
  | reissue => exact absurd ht indicatedType_ne.1
  | nullAddQualifier => exact absurd ht indicatedType_ne.2.1
  | invalid => exact absurd ht indicatedType_ne.2.2

theorem componentsFormed_iff_music : assetNameType (str "MUSIC/ROCK~NEWS") = some .msgChannel ∧
      (ComponentsFormed (nameComponents .msgChannel (str "MUSIC/ROCK~NEWS")) ↔
        restIsFormed .msgChannel (str "MUSIC/ROCK~NEWS") = true) :=
  ⟨by decide +kernel, componentsFormed_iff (by decide +kernel)⟩

/-- Accepted names with punctuation at the start of a component, with an empty component, and with a
reserved root. -/
theorem not_componentsFormed : (assetNameType (str "$.MUSIC") = some .restricted ∧
      ¬ComponentsFormed (nameComponents .restricted (str "$.MUSIC"))) ∧
    (assetNameType (str "$RVN") = some .restricted ∧
      ¬ComponentsFormed (nameComponents .restricted (str "$RVN"))) ∧
    (assetNameType (str "#KYC/#_A") = some .subQualifier ∧
      ¬ComponentsFormed (nameComponents .subQualifier (str "#KYC/#_A"))) ∧
    (assetNameType (str "MUSIC^^..") = some .vote ∧
      ¬ComponentsFormed (nameComponents .vote (str "MUSIC^^.."))) := by
  refine ⟨⟨by decide +kernel, fun h => ?_⟩, ⟨by decide +kernel, fun h => ?_⟩,
    ⟨by decide +kernel, fun h => ?_⟩, ⟨by decide +kernel, fun h => ?_⟩⟩
  · exact absurd ((h.parts (isNameChar, str ".MUSIC") (List.mem_singleton_self _)).first 46 _ rfl) (by decide)
  · exact h.root (isNameChar, str "RVN") rfl (by decide)
  · have hm : (isNameChar, str "_A") ∈ nameComponents .subQualifier (str "#KYC/#_A") :=
      List.mem_cons_of_mem _ (List.mem_singleton_self _)
    exact absurd ((h.parts _ hm).first 95 _ rfl) (by decide)
  · have hm : (isNameChar, []) ∈ nameComponents .vote (str "MUSIC^^..") :=
      List.mem_cons_of_mem _ List.mem_cons_self
    exact (h.parts _ hm).ne_nil rfl

end Components

end Cmusic
