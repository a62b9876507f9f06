import Cmusic.VerifierGrammar

/-! The strings that the check of verifier strings accepts. -/
namespace Cmusic

open LibBoolEE

/-- The levels at which the evaluator reads a text. -/
inductive ReadingLevel where
  | literal
  /-- the first part of a disjunction -/
  | part
  /-- a later part of a disjunction -/
  | disjunct
  | formula

/-- The texts that the evaluator reads: those of the grammar, and those with skipped characters in
front of a formula, or with conjunction signs behind a disjunction sign, where a binary operator
follows. -/
inductive Reading : ReadingLevel → Str → Prop where
  | name (q : QualifierWord) : Reading .literal q.1
  | not {s : Str} (h : Reading .literal s) : Reading .literal (33 :: s)
  | paren {s : Str} (h : Reading .formula s) : Reading .literal (40 :: (s ++ [41]))
  | partLiteral {s : Str} (h : Reading .literal s) : Reading .part s
  | partAnd {first : Str} {rest : List Str} (hne : rest ≠ [])
      (h : ∀ piece ∈ first :: rest, Reading .literal piece) :
      Reading .part ([38].intercalate (first :: rest))
  | disjunctLiteral {s : Str} (h : Reading .literal s) : Reading .disjunct s
  | disjunctAnd (n : Nat) {first : Str} {rest : List Str} (hne : rest ≠ [])
      (h : ∀ piece ∈ first :: rest, Reading .literal piece) :
      Reading .disjunct (List.replicate n 38 ++ [38].intercalate (first :: rest))
  | literal {s : Str} (h : Reading .literal s) : Reading .formula s
  | and {k first : Str} {rest : List Str} (hk : ∀ c ∈ k, isSkipped c = true) (hne : rest ≠ [])
      (h : ∀ piece ∈ first :: rest, Reading .literal piece) :
      Reading .formula (k ++ [38].intercalate (first :: rest))
  | or {k first : Str} {rest : List Str} (hk : ∀ c ∈ k, isSkipped c = true) (hne : rest ≠ [])
      (hfirst : Reading .part first) (h : ∀ piece ∈ rest, Reading .disjunct piece) :
      Reading .formula (k ++ [124].intercalate (first :: rest))

namespace Reading

variable {level : ReadingLevel} {s k : Str} {op c : UInt8} {pieces : List Str}

theorem closed_skipped (h : ∀ c ∈ k, isSkipped c = true) : Closed k :=
  .of_forall fun c hc => (isSkipped_iff.1 (h c hc)).2

theorem closed (h : Reading level s) : Closed s := by
  induction h with
  | name q => exact (VerifierExpr.atomic_word q).closed
  | not _ ih => exact .cons (by decide) (by decide) ih
  | paren _ ih => exact .paren ih
  | partLiteral _ ih => exact ih
  | partAnd _ _ ih => exact .intercalate (by decide) (by decide) ih
  | disjunctLiteral _ ih => exact ih
  | disjunctAnd n _ _ ih =>
    refine .append (.of_forall fun c hc => ?_) (.intercalate (by decide) (by decide) ih)
    rw [List.eq_of_mem_replicate hc]
    decide
  | literal _ ih => exact ih
  | and hk _ _ ih => exact (closed_skipped hk).append (.intercalate (by decide) (by decide) ih)
  | or hk _ _ _ hfirst ih =>
    exact (closed_skipped hk).append
      (.intercalate (by decide) (by decide) (List.forall_mem_cons.2 ⟨hfirst, ih⟩))

theorem atomic : ∀ {s : Str}, Reading .literal s → Atomic s
  | _, .name q => VerifierExpr.atomic_word q
  | _, .not h => h.atomic.not
  | _, .paren h => .paren h.closed

theorem uncut_and (h : ∀ piece ∈ pieces, Reading .literal piece) :
    Uncut 124 0 ([38].intercalate pieces) :=
  uncut_intercalate fun piece hp => (h piece hp).atomic

theorem isSkipped_replicate {n : Nat} : ∀ c ∈ List.replicate n (38 : UInt8), isSkipped c = true := by
  intro c hc
  rw [List.eq_of_mem_replicate hc]
  decide

theorem uncut_part (h : Reading .part s) : Uncut 124 0 s := by
  cases h with
  | partLiteral h => exact h.atomic.uncut
  | partAnd _ h => exact uncut_and h

theorem uncut_disjunct (h : Reading .disjunct s) : Uncut 124 0 s := by
  cases h with
  | disjunctLiteral h => exact h.atomic.uncut
  | disjunctAnd n _ h =>
    have hsi := @isSkipped_replicate n
    rw [uncut_append (by rw [(closed_skipped hsi).depth_eq]; rfl)]
    refine ⟨fun c hc => ?_, uncut_and h⟩
    rw [outer_of_forall fun c hc => (isSkipped_iff.1 (hsi c hc)).2] at hc
    rw [List.eq_of_mem_replicate hc]
    exact Or.inr (by decide)

theorem start_of_part (h : Reading .part s) : Starts s := by
  cases h with
  | partLiteral h => exact h.atomic.start
  | partAnd _ h => exact (h _ List.mem_cons_self).atomic.start.intercalate

theorem cut_operator (hop : op = 38 ∨ op = 124) (hk : ∀ c ∈ k, isSkipped c = true)
    (hpi : ∀ piece ∈ pieces, depth piece = 0) (hm : 1 < pieces.length) :
    ¬Uncut op 0 (k ++ [op].intercalate pieces) := by
  intro hu
  have hp := ((uncut_append (by
    rw [(closed_skipped hk).depth_eq]; rfl)).1 hu).2
  have hme : op ∈ outer 0 ([op].intercalate pieces) := by
    rcases hop with rfl | rfl
    all_goals
      rw [mem_outer_intercalate (by decide) (by decide) hpi]
      exact Or.inr ⟨rfl, hm⟩
  rcases hp op hme with hw | hne
  · rcases hop with rfl | rfl
    all_goals
      revert hw
      decide
  · exact hne.1 rfl

/-- What is passed over, and yet does not stop the scan for disjunction signs once it has started. -/
theorem skipped_of_uncut (hk : ∀ c ∈ k, isSkipped c = true) (h : Uncut 124 0 (k ++ s)) :
    k = List.replicate k.length 38 := by
  refine List.eq_replicate_of_mem fun c hc => ?_
  have hcl := closed_skipped hk
  have hf := ((uncut_append (by rw [hcl.depth_eq]; rfl)).1 h).1
  obtain ⟨hw, hop, hclo⟩ := isSkipped_iff.1 (hk c hc)
  have ho : outer 0 k = k :=
    outer_of_forall fun d hd => (isSkipped_iff.1 (hk d hd)).2
  rcases hf c (by rw [ho]; exact hc) with hc | ⟨hne, hc⟩
  · rw [hw] at hc
    cases hc
  · have hm : c = 38 ∨ c = 124 := by simpa [isOneOf, str] using hc
    exact hm.resolve_right hne

theorem length_of_ne_nil {first : Str} {rest : List Str} (h : rest ≠ []) :
    1 < (first :: rest).length := by
  rw [List.length_cons]
  exact Nat.succ_lt_succ (List.length_pos_iff.2 h)

theorem depth_parts {first : Str} {rest : List Str} (hfirst : Reading .part first)
    (h : ∀ piece ∈ rest, Reading .disjunct piece) : ∀ piece ∈ first :: rest, depth piece = 0 :=
  List.forall_mem_cons.2 ⟨hfirst.closed.depth_eq, fun piece hp => (h piece hp).closed.depth_eq⟩

/-- A formula that is not cut at a disjunction sign. -/
theorem disjunct_of_uncut (h : Reading .formula s) (hu : Uncut 124 0 s) : Reading .disjunct s := by
  cases h with
  | literal h => exact .disjunctLiteral h
  | and hk hne h =>
    rw [skipped_of_uncut hk hu]
    exact .disjunctAnd _ hne h
  | or hk hne hfirst h =>
    exact absurd hu (cut_operator (Or.inr rfl) hk (depth_parts hfirst h) (length_of_ne_nil hne))

theorem skipped_eq_nil (hk : ∀ c ∈ k, isSkipped c = true) (h : Starts (k ++ s)) : k = [] := by
  obtain ⟨c, t, heq, hc⟩ := h
  cases k with
  | nil => rfl
  | cons d k =>
    obtain ⟨rfl, -⟩ := List.cons.inj heq
    obtain ⟨hw, ho, -⟩ := isSkipped_iff.1 (hk d List.mem_cons_self)
    rcases hc with hc | hc
    · rw [hw] at hc
      cases hc
    · exact absurd hc ho

/-- The same in front of the first disjunction sign, where nothing is passed over. -/
theorem part_of_uncut (h : Reading .formula s) (hu : Uncut 124 0 s) (hs : Starts s) :
    Reading .part s := by
  cases h with
  | literal h => exact .partLiteral h
  | and hk hne h =>
    rw [skipped_eq_nil hk hs]
    exact .partAnd hne h
  | or hk hne hfirst h =>
    exact absurd hu (cut_operator (Or.inr rfl) hk (depth_parts hfirst h) (length_of_ne_nil hne))

/-- A formula that is cut at no operator. -/
theorem literal_of_uncut (h : Reading .formula s) (hor : Uncut 124 0 s) (ha : Uncut 38 0 s) :
    Reading .literal s := by
  cases h with
  | literal h => exact h
  | and hk hne h =>
    exact absurd ha (cut_operator (Or.inl rfl) hk (fun piece hp => (h piece hp).closed.depth_eq)
      (length_of_ne_nil hne))
  | or hk hne hfirst h =>
    exact absurd hor (cut_operator (Or.inr rfl) hk (depth_parts hfirst h) (length_of_ne_nil hne))

theorem formula_of_part (h : Reading .part s) : Reading .formula s := by
  cases h with
  | partLiteral h => exact .literal h
  | partAnd hne h => exact .and (k := []) nofun hne h

theorem formula_of_disjunct (h : Reading .disjunct s) : Reading .formula s := by
  cases h with
  | disjunctLiteral h => exact .literal h
  | disjunctAnd n hne h => exact .and isSkipped_replicate hne h

open LibBoolEE (resolveRec removeWhitespaces singleParse Cut Legible)

variable {valuation : Str → Option Bool} {fuel : Nat} {first : Str} {rest : List Str}

theorem uncut_of_cut (h : Cut op 0 s first rest) :
    ∀ piece ∈ first :: rest, depth piece = 0 ∧ Uncut op 0 piece := by
  have hd := h.depth_first
  rw [Int.zero_add] at hd
  exact List.forall_mem_cons.2 ⟨⟨hd, h.uncut_first⟩, h.pieces⟩

/-- The scan for one operator cuts nothing in the pieces that the other one leaves. -/
theorem uncut_piece (h : Uncut 124 0 s) (hcu : Cut 38 0 s first rest) :
    ∀ piece ∈ first :: rest, Uncut 124 0 piece := by
  intro piece hp c hc
  refine h c ?_
  rw [hcu.text, mem_outer_intercalate (by decide) (by decide) fun piece hp =>
    (uncut_of_cut hcu piece hp).1]
  exact Or.inl ⟨piece, hp, hc⟩

theorem uncut_of_singleton (hs : Starts s) (hp : singleParse s op = some pieces)
    (ho : pieces.length = 1) : Uncut op 0 s := by
  obtain ⟨first, rest, rfl, hc⟩ := cut_of_singleParse_start hs hp
  obtain rfl : rest = [] := by simpa using ho
  have ht := hc.text
  rw [List.intercalate_singleton] at ht
  rw [ht]
  exact hc.uncut_first

theorem starts_of_intercalate (hop : ¬(isOperand op = true ∨ op = 40))
    (h : Starts ([op].intercalate (first :: rest))) : Starts first := by
  obtain ⟨c, t, heq, hc⟩ := h
  cases first with
  | nil =>
    cases rest with
    | nil => cases heq
    | cons next rest =>
      rw [List.intercalate_cons_cons] at heq
      obtain ⟨rfl, -⟩ := List.cons.inj heq
      exact absurd hc hop
  | cons d v =>
    rw [intercalate_cons_char] at heq
    obtain ⟨rfl, -⟩ := List.cons.inj heq
    exact ⟨d, v, rfl, hc⟩

/-- The last character that is dropped with the opening parenthesis is the closing one. -/
theorem paren_of_resolve {P : Str → Prop} {u : Str} (hd : depth (40 :: u) = 0)
    (hs : Legible P (40 :: u))
    (h : (resolveRec valuation fuel
      (removeWhitespaces (((40 :: u).drop 1).take ((40 :: u).length - 2)))).isSome)
    (hp : ∀ {t : Str}, Legible P t → (resolveRec valuation fuel (removeWhitespaces t)).isSome →
      Reading .formula t) : Reading .literal (40 :: u) := by
  rcases List.eq_nil_or_concat' u with rfl | ⟨v, last, rfl⟩
  · exact absurd hd (by decide)
  · rw [take_drop_paren] at h
    have hv := depth_of_resolveRec h
    obtain rfl : last = 41 := by
      by_contra hl
      have hsu : depth (40 :: (v ++ [last])) = 1 + depth (v ++ [last]) := rfl
      have hlo : 0 ≤ depth [last] := by
        rw [depth, if_neg hl]
        split <;> decide
      rw [depth_append] at hsu
      omega
    exact .paren (hp ((hs.tail (by decide)).left (by decide)) h)

/-- What is evaluated without an exception is a text that can be read. -/
theorem of_resolveRec
    (hv : ∀ q, (valuation q).isSome → isQualifierNameValid (qualifierChar :: q) = true)
    (hs : Legible (fun q => isQualifierNameValid (qualifierChar :: q) = true) s)
    (h : (resolveRec valuation fuel s).isSome) : Reading .formula s := by
  induction fuel generalizing s with
  | zero => cases h
  | succ fuel ih =>
    have hpa : ∀ {t : Str}, Legible (fun q => isQualifierNameValid (qualifierChar :: q) = true) t →
        (resolveRec valuation fuel (removeWhitespaces t)).isSome → Reading .formula t := by
      intro t ht hr
      rw [ht.removeWhitespaces_eq] at hr
      exact ih ht hr
    obtain ⟨hne, ors, ho, ⟨hm, hal⟩ | ⟨hon, ands, ha, ⟨hm, hal⟩ | ⟨ho', hr⟩⟩⟩ :=
      isSome_resolveRec_succ.1 h
    · -- a disjunction
      obtain ⟨k, t, first, rest, rfl, hk, hst, rfl, hc⟩ :=
        cut_of_resolve ho (List.ne_nil_of_length_pos (by omega)) hal
      have hl := hs.skipped hk
      rw [hc.text] at hl
      have hf : ∀ piece ∈ first :: rest, Reading .formula piece := fun piece hp =>
        hpa (hl.piece (by decide) hp) (hal piece hp)
      have hu := uncut_of_cut hc
      rw [hc.text]
      refine .or hk ?_ ?_ fun piece hp => ?_
      · rintro rfl
        simp at hm
      · rw [hc.text] at hst
        exact part_of_uncut (hf first List.mem_cons_self) hc.uncut_first
          (starts_of_intercalate (by decide) hst)
      · have hme := List.mem_cons_of_mem first hp
        exact disjunct_of_uncut (hf piece hme) (hu piece hme).2
    · -- a conjunction
      obtain ⟨k, t, first, rest, rfl, hk, hst, rfl, hc⟩ :=
        cut_of_resolve ha (List.ne_nil_of_length_pos (by omega)) hal
      rw [singleParse_skipped hk] at ho
      have hor := uncut_piece (uncut_of_singleton hst ho hon) hc
      have hl := hs.skipped hk
      rw [hc.text] at hl
      rw [hc.text]
      refine .and hk ?_ fun piece hp => ?_
      · rintro rfl
        simp at hm
      · refine literal_of_uncut ?_ (hor piece hp) (uncut_of_cut hc piece hp).2
        exact hpa (hl.piece (by decide) hp) (hal piece hp)
    · refine .literal ?_
      obtain ⟨c, u, rfl⟩ := List.exists_cons_of_ne_nil hne
      unfold resolveOne at hr
      split_ifs at hr with hsi hpar hd hd
      · obtain rfl : c = 33 := Option.some.inj hsi
        have hst : Starts (33 :: u) := ⟨33, u, rfl, Or.inl (by decide)⟩
        have hta : ∀ {op : UInt8}, Uncut op 0 (33 :: u) → Uncut op 0 u := fun hu =>
          ((uncut_append (a := [33]) rfl).1 hu).2
        rw [Option.isSome_map] at hr
        exact .not (literal_of_uncut (hpa (hs.tail (by decide)) hr)
          (hta (uncut_of_singleton hst ho hon)) (hta (uncut_of_singleton hst ha ho')))
      · obtain rfl : c = 40 := Option.some.inj hpar
        exact paren_of_resolve (depth_of_singleParse ho) hs hr hpa
      · rw [hd] at hs
        exact absurd (hs.names (str "1") (by decide)) (by decide)
      · rw [hd] at hs
        exact absurd (hs.names (str "0") (by decide)) (by decide)
      · exact .name ⟨c :: u, hv _ hr⟩

theorem isSome_resolveOne (h : Reading .literal s) (hf : s.length < fuel + 1)
    (hs : Legible (fun q => (valuation q).isSome) s)
    (hp : ∀ {t : Str}, t.length < fuel → Reading .formula t →
      Legible (fun q => (valuation q).isSome) t → (resolveRec valuation fuel (removeWhitespaces t)).isSome) :
    (resolveOne valuation (fun t => resolveRec valuation fuel (removeWhitespaces t)) s).isSome := by
  cases h with
  | name q =>
    rw [VerifierExpr.resolveOne_word]
    refine hs.names q.1 ?_
    rw [show nameRuns q.1 = [q.1] from VerifierExpr.nameRuns_print (.name q)]
    exact List.mem_singleton_self _
  | not h =>
    rw [resolveOne_not, Option.isSome_map]
    exact hp (Nat.lt_of_succ_lt_succ hf) (.literal h) (hs.tail (by decide))
  | @paren s h =>
    rw [resolveOne_paren]
    refine hp ?_ h ((hs.tail (by decide)).left (by decide))
    rw [List.length_cons, List.length_append] at hf
    omega

theorem singleParse_one (hop : op = 38 ∨ op = 124) (hs : Starts s) (hd : depth s = 0)
    (h : Uncut op 0 s) : singleParse s op = some [s] := by
  have hp : singleParse ([op].intercalate [s]) op = some [s] :=
    singleParse_of_uncut hop hs (List.forall_mem_singleton.2 ⟨hd, h⟩)
  rwa [List.intercalate_singleton] at hp

theorem append_ne_nil (h : Starts s) : k ++ s ≠ [] := by
  obtain ⟨c, t, rfl, -⟩ := h
  exact List.append_ne_nil_of_right_ne_nil _ (List.cons_ne_nil _ _)

/-- A text that can be read is evaluated without an exception. -/
theorem isSome_resolveRec (h : Reading .formula s) (hf : s.length < fuel)
    (hs : Legible (fun q => (valuation q).isSome) s) : (resolveRec valuation fuel s).isSome := by
  induction fuel generalizing s with
  | zero => omega
  | succ fuel ih =>
    have hpa : ∀ {t : Str}, t.length < fuel → Reading .formula t →
        Legible (fun q => (valuation q).isSome) t →
        (resolveRec valuation fuel (removeWhitespaces t)).isSome := by
      intro t hle hr hl
      rw [hl.removeWhitespaces_eq]
      exact ih hr hle hl
    -- the pieces of a text that is cut are shorter
    have hpi : ∀ {op : UInt8} {k : Str} {pieces : List Str}, isNameChar op = false →
        (∀ c ∈ k, isSkipped c = true) → Legible (fun q => (valuation q).isSome)
          (k ++ [op].intercalate pieces) → (k ++ [op].intercalate pieces).length < fuel + 1 →
        singleParse (k ++ [op].intercalate pieces) op = some pieces → 1 < pieces.length →
        (∀ piece ∈ pieces, Reading .formula piece) →
        ∀ piece ∈ pieces, (resolveRec valuation fuel (removeWhitespaces piece)).isSome := by
      intro op k pieces hop hk hl hle hpar hm hr piece hp
      have hsh := length_of_singleParse hpar hm hp
      exact hpa (by omega) (hr piece hp) ((hl.skipped hk).piece hop hp)
    rw [isSome_resolveRec_succ]
    cases h with
    | literal h =>
      have ha := h.atomic
      have ho : ∀ {op : UInt8}, op = 38 ∨ op = 124 → singleParse s op = some [s] := fun hop =>
        singleParse_one hop ha.start ha.closed.depth_eq ha.uncut
      refine ⟨append_ne_nil (k := []) ha.start, _, ho (Or.inr rfl),
        Or.inr ⟨rfl, _, ho (Or.inl rfl), Or.inr ⟨rfl, isSome_resolveOne h hf hs hpa⟩⟩⟩
    | @and k first rest hk hne h =>
      have ha : ∀ piece ∈ first :: rest, Atomic piece := fun piece hp => (h piece hp).atomic
      have hst := (ha first List.mem_cons_self).start
      have hc : Closed ([38].intercalate (first :: rest)) :=
        .intercalate (by decide) (by decide) fun piece hp => (ha piece hp).closed
      have ho : singleParse (k ++ [38].intercalate (first :: rest)) 124 =
          some [[38].intercalate (first :: rest)] := by
        rw [singleParse_skipped hk]
        exact singleParse_one (Or.inr rfl) hst.intercalate hc.depth_eq (uncut_and h)
      have hm : singleParse (k ++ [38].intercalate (first :: rest)) 38 = some (first :: rest) := by
        rw [singleParse_skipped hk]
        exact singleParse_of_uncut (Or.inl rfl) hst fun piece hp =>
          ⟨(ha piece hp).closed.depth_eq, (ha piece hp).uncut⟩
      refine ⟨append_ne_nil hst.intercalate, _, ho, Or.inr ⟨rfl, _, hm, Or.inl
        ⟨length_of_ne_nil hne, ?_⟩⟩⟩
      exact hpi (by decide) hk hs hf hm (length_of_ne_nil hne) fun piece hp =>
        .literal (h piece hp)
    | @or k first rest hk hne hfirst h =>
      have hm : singleParse (k ++ [124].intercalate (first :: rest)) 124 = some (first :: rest) := by
        rw [singleParse_skipped hk]
        refine singleParse_of_uncut (Or.inr rfl) hfirst.start_of_part fun piece hp => ?_
        refine ⟨depth_parts hfirst h piece hp, ?_⟩
        rcases List.mem_cons.1 hp with rfl | hp
        · exact hfirst.uncut_part
        · exact (h piece hp).uncut_disjunct
      refine ⟨append_ne_nil hfirst.start_of_part.intercalate, _, hm,
        Or.inl ⟨length_of_ne_nil hne, ?_⟩⟩
      refine hpi (by decide) hk hs hf hm (length_of_ne_nil hne) ?_
      exact List.forall_mem_cons.2
        ⟨hfirst.formula_of_part, fun piece hp => (h piece hp).formula_of_disjunct⟩

end Reading

section Stray

/-- A character that the grammar does not have behind another one, where `40` stands for the start of
the text: one that is passed over at the start of a formula, or a conjunction sign behind a
disjunction sign. -/
def isStray (prev c : UInt8) : Bool := prev = 40 && isSkipped c || prev = 124 && c = 38

def hasStray : UInt8 → Str → Bool
  | _, [] => false
  | prev, c :: s => isStray prev c || hasStray c s

/-- The last character of a text, or the one in front of it. -/
def lastFrom (prev : UInt8) (s : Str) : UInt8 := s.getLast?.getD prev

variable {prev c op : UInt8} {s a b k first : Str} {rest pieces : List Str}

theorem lastFrom_cons : lastFrom prev (c :: s) = lastFrom c s := by
  unfold lastFrom
  rw [List.getLast?_cons]
  rfl

theorem hasStray_append : hasStray prev (a ++ b) = (hasStray prev a || hasStray (lastFrom prev a) b) := by
  induction a generalizing prev with
  | nil => rfl
  | cons c a ih => rw [List.cons_append, hasStray, hasStray, ih, lastFrom_cons, Bool.or_assoc]

theorem lastFrom_append_cons : lastFrom prev (a ++ c :: b) = lastFrom c b := by
  unfold lastFrom
  rw [List.getLast?_append, List.getLast?_cons]
  rfl

/-- No operand starts with a stray character. -/
theorem isStray_of_start (h : isOperand c = true ∨ c = 40) : isStray prev c = false := by
  have hsk : isSkipped c = false := by
    rw [Bool.eq_false_iff]
    intro hsk
    obtain ⟨hw, ho, -⟩ := isSkipped_iff.1 hsk
    rcases h with h | h
    · rw [hw] at h
      cases h
    · exact ho h
  have hsi : c ≠ 38 := by
    rintro rfl
    revert h
    decide
  simp [isStray, hsk, hsi]

/-- No character is stray behind an operand. -/
theorem isStray_of_end (h : isNameChar prev = true ∨ prev = 41) : isStray prev c = false := by
  have ho : prev ≠ 40 := by
    rintro rfl
    revert h
    decide
  have hsi : prev ≠ 124 := by
    rintro rfl
    revert h
    decide
  simp [isStray, ho, hsi]

theorem hasStray_word (h : ∀ c ∈ s, isNameChar c = true) : hasStray prev s = false := by
  induction s generalizing prev with
  | nil => rfl
  | cons c s ih =>
    have hw := isOperand_of_isNameChar (h c List.mem_cons_self)
    rw [hasStray, isStray_of_start (Or.inl hw), ih fun d hd => h d (List.mem_cons_of_mem _ hd)]
    rfl

namespace VerifierExpr

variable {level : VerifierLevel}

theorem lastFrom_print (e : VerifierExpr level) :
    isNameChar (lastFrom prev e.print) = true ∨ lastFrom prev e.print = 41 := by
  induction e generalizing prev with
  | or left right _ hr =>
    rw [print, lastFrom_append_cons]
    exact hr
  | ofConjunction e ih => exact ih
  | and left right _ hr =>
    rw [print, lastFrom_append_cons]
    exact hr
  | ofLiteral e ih => exact ih
  | not e ih =>
    rw [print, lastFrom_cons]
    exact ih
  | paren e ih =>
    rw [print, lastFrom_cons, lastFrom_append_cons]
    exact Or.inr rfl
  | name q =>
    have hl := List.getLast?_eq_some_getLast (word_ne_nil q)
    rw [print, lastFrom, hl]
    exact Or.inl ((word_spec q).1 _ (List.getLast_mem _))

theorem hasStray_binary {left right : VerifierLevel} {l : VerifierExpr left} {r : VerifierExpr right}
    (hl : hasStray prev l.print = false) (hr : hasStray c r.print = false) :
    hasStray prev (l.print ++ c :: r.print) = false := by
  rw [hasStray_append, hl, hasStray, isStray_of_end l.lastFrom_print, hr]
  rfl

/-- The expressions of the grammar have no stray characters. -/
theorem hasStray_print (e : VerifierExpr level) : hasStray prev e.print = false := by
  induction e generalizing prev with
  | or left right hl hr => exact hasStray_binary hl hr
  | ofConjunction e ih => exact ih
  | and left right hl hr => exact hasStray_binary hl hr
  | ofLiteral e ih => exact ih
  | not e ih =>
    rw [print, hasStray, isStray_of_start (Or.inl (by decide)), ih]
    rfl
  | paren e ih =>
    rw [print, hasStray, isStray_of_start (Or.inr rfl), hasStray_append, ih, hasStray,
      isStray_of_end e.lastFrom_print]
    rfl
  | name q => exact hasStray_word (word_spec q).1

end VerifierExpr

namespace Reading

theorem stray_pieces (h : hasStray prev ([op].intercalate (a :: b :: pieces)) = false) :
    hasStray prev a = false ∧ hasStray op ([op].intercalate (b :: pieces)) = false := by
  rw [List.intercalate_cons_cons, List.append_assoc, hasStray_append, List.singleton_append, hasStray]
    at h
  simp only [Bool.or_eq_false_iff] at h
  exact ⟨h.1, h.2.2⟩

/-- Pieces that can be expressed at one level are expressed together at the next. -/
theorem exists_of_pieces {lower upper : VerifierLevel} (single : VerifierExpr lower → VerifierExpr upper)
    (join : VerifierExpr lower → VerifierExpr upper → VerifierExpr upper)
    (hsi : ∀ e, (single e).print = e.print)
    (hj : ∀ left right, (join left right).print = left.print ++ op :: right.print)
    (hfirst : hasStray prev first = false → ∃ e : VerifierExpr lower, e.print = first)
    (h : ∀ piece ∈ rest, hasStray op piece = false → ∃ e : VerifierExpr lower, e.print = piece)
    (hst : hasStray prev ([op].intercalate (first :: rest)) = false) :
    ∃ e : VerifierExpr upper, e.print = [op].intercalate (first :: rest) := by
  induction rest generalizing prev first with
  | nil =>
    rw [List.intercalate_singleton] at hst ⊢
    obtain ⟨e, he⟩ := hfirst hst
    exact ⟨single e, (hsi e).trans he⟩
  | cons next rest ih =>
    obtain ⟨hl, hre⟩ := stray_pieces hst
    obtain ⟨hnext, h⟩ := List.forall_mem_cons.1 h
    obtain ⟨left, hl⟩ := hfirst hl
    obtain ⟨right, hr⟩ := ih hnext h hre
    refine ⟨join left right, ?_⟩
    rw [hj, hl, hr, List.intercalate_cons_cons, List.append_assoc]
    rfl

theorem conjunction_of_pieces
    (h : ∀ piece ∈ first :: rest, ∀ prev, hasStray prev piece = false →
      ∃ e : VerifierExpr .literal, e.print = piece)
    (hst : hasStray prev ([38].intercalate (first :: rest)) = false) :
    ∃ e : VerifierExpr .conjunction, e.print = [38].intercalate (first :: rest) :=
  exists_of_pieces .ofLiteral .and (fun _ => rfl) (fun _ _ => rfl)
    (h first List.mem_cons_self prev)
    (fun piece hp => h piece (List.mem_cons_of_mem _ hp) 38) hst

theorem skipped_of_stray (hk : ∀ c ∈ k, isSkipped c = true) (h : hasStray 40 (k ++ s) = false) :
    k = [] := by
  cases k with
  | nil => rfl
  | cons c k =>
    rw [List.cons_append, hasStray, isStray, hk c List.mem_cons_self] at h
    cases h

/-- What an expression of the grammar has to be for a text of a level. -/
def Expressible : ReadingLevel → Str → Prop
  | .literal, s => ∀ prev, hasStray prev s = false → ∃ e : VerifierExpr .literal, e.print = s
  | .part, s => ∀ prev, hasStray prev s = false → ∃ e : VerifierExpr .conjunction, e.print = s
  | .disjunct, s => hasStray 124 s = false → ∃ e : VerifierExpr .conjunction, e.print = s
  | .formula, s => hasStray 40 s = false → ∃ e : VerifierExpr .disjunction, e.print = s

/-- A text without stray characters that can be read belongs to the grammar. -/
theorem expressible {level : ReadingLevel} (h : Reading level s) : Expressible level s := by
  induction h with
  | name q => exact fun _ _ => ⟨.name q, rfl⟩
  | not _ ih =>
    intro prev hst
    rw [hasStray, Bool.or_eq_false_iff] at hst
    obtain ⟨e, he⟩ := ih 33 hst.2
    exact ⟨.not e, by rw [VerifierExpr.print, he]⟩
  | paren _ ih =>
    intro prev hst
    rw [hasStray, Bool.or_eq_false_iff, hasStray_append, Bool.or_eq_false_iff] at hst
    obtain ⟨e, he⟩ := ih hst.2.1
    exact ⟨.paren e, by rw [VerifierExpr.print, he]⟩
  | partLiteral _ ih =>
    intro prev hst
    obtain ⟨e, he⟩ := ih prev hst
    exact ⟨.ofLiteral e, he⟩
  | partAnd _ _ ih => exact fun prev hst => conjunction_of_pieces ih hst
  | disjunctLiteral _ ih =>
    intro hst
    obtain ⟨e, he⟩ := ih 124 hst
    exact ⟨.ofLiteral e, he⟩
  | disjunctAnd n _ _ ih =>
    intro hst
    cases n with
    | zero => exact conjunction_of_pieces ih hst
    | succ n => cases hst
  | literal _ ih =>
    intro hst
    obtain ⟨e, he⟩ := ih 40 hst
    exact ⟨.ofConjunction (.ofLiteral e), he⟩
  | and hk _ _ ih =>
    intro hst
    obtain rfl := skipped_of_stray hk hst
    obtain ⟨e, he⟩ := conjunction_of_pieces ih hst
    exact ⟨.ofConjunction e, he⟩
  | or hk _ _ _ hfirst ih =>
    intro hst
    obtain rfl := skipped_of_stray hk hst
    exact exists_of_pieces .ofConjunction .or (fun _ => rfl) (fun _ _ => rfl)
      (hfirst 40) ih hst

end Reading

end Stray

section Acceptance

variable {s : Str}

theorem getStrippedVerifierString_eq (hsp : ∀ c ∈ s, isSpace c = false)
    (ht : qualifierChar ∉ s) : getStrippedVerifierString s = s := by
  unfold getStrippedVerifierString removeCharacter
  have hf : removeWhitespaces s = s := by
    refine List.filter_eq_self.2 fun c hc => ?_
    rw [hsp c hc]
    rfl
  rw [hf]
  refine List.filter_eq_self.2 fun c hc => decide_eq_true ?_
  rintro rfl
  exact ht hc

/-- The names of a text that can be read are qualifier names. -/
theorem Reading.valid_names {level : ReadingLevel} (h : Reading level s) :
    ∀ q ∈ nameRuns s, isQualifierNameValid (qualifierChar :: q) = true := by
  have hp : ∀ {op : UInt8} {pieces : List Str}, isNameChar op = false →
      (∀ piece ∈ pieces, ∀ q ∈ nameRuns piece, isQualifierNameValid (qualifierChar :: q) = true) →
      ∀ q ∈ nameRuns ([op].intercalate pieces), isQualifierNameValid (qualifierChar :: q) = true := by
    intro op pieces hop ha q hq
    obtain ⟨piece, hpi, hq⟩ := (mem_nameRuns_intercalate hop).1 hq
    exact ha piece hpi q hq
  induction h with
  | name q =>
    intro word hw
    rw [show nameRuns q.1 = [q.1] from VerifierExpr.nameRuns_print (.name q)] at hw
    rw [List.mem_singleton.1 hw]
    exact q.2
  | not _ ih =>
    rw [nameRuns_cons (by decide)]
    exact ih
  | @paren s _ ih =>
    rw [nameRuns_cons (by decide), nameRuns_append (by decide),
      show nameRuns [] = [] from rfl, List.append_nil]
    exact ih
  | partLiteral _ ih => exact ih
  | partAnd _ _ ih => exact hp (by decide) ih
  | disjunctLiteral _ ih => exact ih
  | disjunctAnd n _ _ ih =>
    rw [nameRuns_skipped Reading.isSkipped_replicate]
    exact hp (by decide) ih
  | literal _ ih => exact ih
  | and hk _ _ ih =>
    rw [nameRuns_skipped hk]
    exact hp (by decide) ih
  | or hk _ _ _ hfirst ih =>
    rw [nameRuns_skipped hk]
    exact hp (by decide) (List.forall_mem_cons.2 ⟨hfirst, ih⟩)

/-- The strings that are accepted are those that can be read. -/
theorem checkVerifierString_iff_reading (hsp : ∀ c ∈ s, isSpace c = false)
    (hta : qualifierChar ∉ s) (hle : s.length ≤ 80) (ht : s ≠ str "true") :
    (∃ found, checkVerifierString s = .ok found) ↔ Reading .formula s := by
  have hkn : ∀ q, (extractVerifierStringQualifiers s).contains q = true ↔ q ∈ nameRuns s := by
    intro q
    rw [extractVerifierStringQualifiers, Std.TreeSet.contains_ofList, List.contains_iff_mem]
  constructor
  · rintro ⟨found, hf⟩
    obtain ⟨-, -, hn, hvalid, hr⟩ := (checkVerifierString_eq_ok ht).1 hf
    rw [getStrippedVerifierString_eq hsp hta] at hn
    subst hn
    have hw : ∀ q ∈ nameRuns s, isQualifierNameValid (qualifierChar :: q) = true := by
      intro q hq
      have hm : q ∈ (extractVerifierStringQualifiers s).toList := by
        rw [Std.TreeSet.mem_toList, ← Std.TreeSet.contains_iff_mem]
        exact (hkn q).2 hq
      simpa using List.find?_eq_none.1 hvalid q hm
    have hl : LibBoolEE.Legible (fun q => isQualifierNameValid (qualifierChar :: q) = true) s :=
      ⟨hsp, hw⟩
    rw [resolve, hl.removeWhitespaces_eq] at hr
    refine Reading.of_resolveRec (fun q hq => ?_) hl hr
    split at hq
    next hm => exact hw q ((hkn q).1 hm)
    · cases hq
  · intro hre
    refine ⟨extractVerifierStringQualifiers s, (checkVerifierString_eq_ok ht).2 ?_⟩
    rw [getStrippedVerifierString_eq hsp hta]
    have hl : LibBoolEE.Legible (fun q => (if (extractVerifierStringQualifiers s).contains q then
        some true else none).isSome) s := by
      refine ⟨hsp, fun q hq => ?_⟩
      rw [if_pos ((hkn q).2 hq)]
      rfl
    have hr := hre.isSome_resolveRec (Nat.lt_succ_self s.length) hl
    refine ⟨?_, hle, rfl, ?_, ?_⟩
    · rintro rfl
      cases hr
    · refine List.find?_eq_none.2 fun q hq => ?_
      rw [Std.TreeSet.mem_toList, ← Std.TreeSet.contains_iff_mem, hkn] at hq
      rw [hre.valid_names q hq]
      decide
    · rw [resolve, hl.removeWhitespaces_eq]
      exact hr

/-- Acceptance is the grammar for every string but those that are read past a stray character. -/
theorem checkVerifierString_grammar_iff (hspace : ∀ c ∈ s, LibBoolEE.isSpace c = false)
    (htag : qualifierChar ∉ s) (hlength : s.length ≤ 80) (htrue : s ≠ str "true") :
    ((∃ found, checkVerifierString s = .ok found) ↔ ∃ e : VerifierExpr .disjunction, e.print = s) ↔
      ¬(Reading .formula s ∧ hasStray 40 s = true) := by
  rw [checkVerifierString_iff_reading hspace htag hlength htrue]
  constructor
  · rintro h ⟨hr, hst⟩
    obtain ⟨e, rfl⟩ := h.1 hr
    rw [e.hasStray_print] at hst
    cases hst
  · intro h
    constructor
    · intro hr
      refine hr.expressible (Bool.eq_false_iff.2 fun hst => ?_)
      exact h ⟨hr, hst⟩
    · rintro ⟨e, rfl⟩
      rw [← checkVerifierString_iff_reading hspace htag hlength htrue]
      exact ⟨_, e.checkVerifierString_print e.removeWhitespaces_print hlength⟩

theorem checkVerifierString_grammar_iff_kycExpr :
    ((∃ found, checkVerifierString (str "!(KYC)|KYC&KYC") = .ok found) ↔
        ∃ e : VerifierExpr .disjunction, e.print = str "!(KYC)|KYC&KYC") ↔
      ¬(Reading .formula (str "!(KYC)|KYC&KYC") ∧ hasStray 40 (str "!(KYC)|KYC&KYC") = true) :=
  checkVerifierString_grammar_iff (by decide +kernel) (by decide) (by decide) (by decide)

/-- An operator without its left operand is accepted, and so is an unknown character. -/
theorem stray_operator_accepted : (∃ found, checkVerifierString (str "|KYC|AML") = .ok found) ∧
      (∃ found, checkVerifierString (str "+KYC&AML") = .ok found) ∧
      ∀ e : VerifierExpr .disjunction, e.print ≠ str "|KYC|AML" ∧ e.print ≠ str "+KYC&AML" := by
  have hw : ∀ q : Str, isQualifierNameValid (qualifierChar :: q) = true → Reading .literal q :=
    fun q hq => .name ⟨q, hq⟩
  refine ⟨?_, ?_, fun e => ⟨fun he => ?_, fun he => ?_⟩⟩
  · refine (checkVerifierString_iff_reading (by decide +kernel) (by decide) (by decide)
      (by decide)).2 ?_
    refine @Reading.or (str "|") (str "KYC") [str "AML"] (by decide +kernel) (by decide) ?_ ?_
    · exact .partLiteral (hw _ (by decide))
    · intro piece hp
      rw [List.mem_singleton.1 hp]
      exact .disjunctLiteral (hw _ (by decide))
  · refine (checkVerifierString_iff_reading (by decide +kernel) (by decide) (by decide)
      (by decide)).2 ?_
    refine @Reading.and (str "+") (str "KYC") [str "AML"] (by decide +kernel) (by decide)
      fun piece hp => ?_
    refine hw _ ?_
    revert piece
    decide
  · have hst := @VerifierExpr.hasStray_print 40 _ e
    rw [he] at hst
    exact absurd hst (by decide)
  · have hst := @VerifierExpr.hasStray_print 40 _ e
    rw [he] at hst
    exact absurd hst (by decide)

end Acceptance

end Cmusic
