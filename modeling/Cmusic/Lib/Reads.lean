import Mathlib.Tactic

/-! Readers of a list: what a reader takes from the front and what it leaves. -/

/-- The reader takes `bytes` as `a` when `rest` follows. -/
def Reads {β α : Type} (r : StateT (List β) Option α) (bytes rest : List β) (a : α) : Prop :=
  r (bytes ++ rest) = some (a, rest)

namespace Reads

variable {β α γ : Type} {r : StateT (List β) Option α} {f : α → StateT (List β) Option γ}
  {bytes bytes' rest : List β} {a : α} {c : γ}

theorem pure (a : α) : Reads (Pure.pure a) ([] : List β) rest a := rfl

theorem bind (h : Reads r bytes (bytes' ++ rest) a) (hf : Reads (f a) bytes' rest c) :
    Reads (r >>= f) (bytes ++ bytes') rest c := by
  unfold Reads at h hf ⊢
  rw [List.append_assoc]
  change (r (bytes ++ (bytes' ++ rest))).bind (fun p => f p.1 p.2) = some (c, rest)
  rw [h]
  exact hf

/-- A reader whose result is only passed on to a function. -/
theorem bind_pure {g : α → γ} (h : Reads r bytes rest a) :
    Reads (r >>= fun a => Pure.pure (g a)) bytes rest (g a) := by
  change (r (bytes ++ rest)).bind (fun p => some (g p.1, p.2)) = some (g a, rest)
  rw [h]
  rfl

/-- A sequence that read something read it in two parts. -/
theorem exists_of_bind {s tail : List β} (h : (r >>= f) s = some (c, tail)) :
    ∃ a mid, r s = some (a, mid) ∧ f a mid = some (c, tail) := by
  obtain ⟨⟨a, mid⟩, hr, hf⟩ := Option.bind_eq_some_iff.1 h
  exact ⟨a, mid, hr, hf⟩

end Reads
