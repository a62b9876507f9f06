import Mathlib.Tactic

/-! Computations that may fail: what a successful run says about its parts. -/
namespace Fallible

variable {ε α β : Type} {cond : Bool} {e : ε} {x : Except ε α} {f : α → Except ε β} {b b' : β}
  {l : List α} {step : β → α → Except ε β}

/-- The failing branch of a check. -/
def failIf (cond : Bool) (e : ε) : Except ε Unit := if cond then .error e else .ok ()

@[simp] theorem failIf_eq_ok {u : Unit} : failIf cond e = .ok u ↔ cond = false := by
  cases cond <;> simp [failIf]

theorem bind_eq_ok : (x >>= f) = .ok b ↔ ∃ a, x = .ok a ∧ f a = .ok b := by
  cases x with
  | error e => simp [bind, Except.bind]
  | ok a => simp [bind, Except.bind]

/-- A sequence fails in its first part or behind it. -/
theorem bind_eq_error : (x >>= f) = .error e ↔ x = .error e ∨ ∃ a, x = .ok a ∧ f a = .error e := by
  cases x with
  | error e' => simp [bind, Except.bind]
  | ok a => simp [bind, Except.bind]

theorem failIf_eq_error {e' : ε} : failIf cond e = .error e' ↔ cond = true ∧ e = e' := by
  cases cond <;> simp [failIf]

@[simp] theorem failIf_bind_eq_ok {f : Unit → Except ε β} :
    (failIf cond e >>= f) = .ok b ↔ cond = false ∧ f () = .ok b := by
  cases cond <;> simp [failIf, bind, Except.bind]

@[simp] theorem mapError_eq_ok {δ : Type} {g : ε → δ} {a : α} :
    x.mapError g = .ok a ↔ x = .ok a := by
  cases x <;> simp [Except.mapError]

@[simp] theorem throw_ne_ok {a : α} : (throw e : Except ε α) = .ok a ↔ False := by
  simp [throw, throwThe, MonadExceptOf.throw]

@[simp] theorem pure_eq_ok {a b : α} : (pure a : Except ε α) = .ok b ↔ a = b := by
  simp [pure, Except.pure]

theorem isOk_iff : x.isOk = true ↔ ∃ a, x = .ok a := by
  cases x <;> simp [Except.isOk, Except.toBool]

/-- A result that passes a test is there. -/
theorem exists_of_any_toOption {p : α → Bool} (h : x.toOption.any p = true) :
    ∃ a, x = .ok a ∧ p a = true := by
  cases x with
  | error e => cases h
  | ok a => exact ⟨a, rfl, h⟩

theorem forM_eq_ok {f : α → Except ε Unit} {u : Unit} :
    forM l f = .ok u ↔ ∀ a ∈ l, f a = .ok () := by
  induction l with
  | nil => simp
  | cons a l ih => simp [List.forM_cons, bind_eq_ok, ih, Unique.exists_iff]

/-- What holds at the start of a loop and is kept by every successful step holds at its end;
the invariant may speak about the part of the list already read. -/
theorem foldlM_invariant (P : List α → β → Prop) (h : l.foldlM step b = .ok b') (h0 : P [] b)
    (hstep : ∀ pre a c c', P pre c → step c a = .ok c' → P (pre ++ [a]) c') : P l b' := by
  induction l using List.reverseRecOn generalizing b' with
  | nil =>
    cases h
    exact h0
  | append_singleton l a ih =>
    rw [List.foldlM_append, bind_eq_ok] at h
    obtain ⟨c, hc, ha⟩ := h
    simp only [List.foldlM_cons, List.foldlM_nil, bind_pure] at ha
    exact hstep l a c b' (ih hc) ha

/-- The rule of invariants where a step may use which part of the list is still to come. -/
theorem foldlM_invariant_split (P : List α → β → Prop) (h : l.foldlM step b = .ok b') (h0 : P [] b)
    (hstep : ∀ pre a post c c', l = pre ++ a :: post → P pre c → step c a = .ok c' →
      P (pre ++ [a]) c') : P l b' := by
  refine (foldlM_invariant (fun pre c => pre <+: l → P pre c) h (fun _ => h0) ?_) (List.prefix_refl l)
  intro pre a c c' hpr hs' hp
  obtain ⟨post, hpo⟩ := hp
  have hsp : l = pre ++ a :: post := by simpa using hpo.symm
  exact hstep pre a post c c' hsp (hpr ⟨a :: post, hsp.symm⟩) hs'

/-- Every turn of a successful loop was a successful step. -/
theorem step_ok_of_foldlM (h : l.foldlM step b = .ok b') : ∀ a ∈ l, ∃ c c', step c a = .ok c' := by
  refine foldlM_invariant (fun pre _ => ∀ a ∈ pre, ∃ c c', step c a = .ok c') h (by simp) ?_
  intro pre a c c' hp hstep x hx
  rcases List.mem_append.1 hx with hx | hx
  · exact hp x hx
  · obtain rfl := List.mem_singleton.1 hx
    exact ⟨c, c', hstep⟩

/-- The rule of invariants for a loop that fails without a reason. -/
theorem foldlM_some_invariant (P : List α → β → Prop) {step : β → α → Option β}
    (h : l.foldlM step b = some b') (h0 : P [] b)
    (hstep : ∀ pre a c c', P pre c → step c a = some c' → P (pre ++ [a]) c') : P l b' := by
  induction l using List.reverseRecOn generalizing b' with
  | nil =>
    cases h
    exact h0
  | append_singleton l a ih =>
    rw [List.foldlM_append, Option.bind_eq_bind, Option.bind_eq_some_iff] at h
    obtain ⟨c, hc, ha⟩ := h
    simp only [List.foldlM_cons, List.foldlM_nil, bind_pure] at ha
    exact hstep l a c b' (ih hc) ha

end Fallible
