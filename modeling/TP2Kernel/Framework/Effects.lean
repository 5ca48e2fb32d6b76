import TP2Kernel.Framework.Recorded

/-! # The effects of events

    The events of a recorded computation take a state to the next one.  One that gets stuck
    has none.
-/

namespace Recorded

variable {ε α β σ : Type} {effect : σ → ε → Option σ}

/-- The computation ends, no event gets stuck, and the result and the state after the events
    meet `Q`. -/
def Does (t : Recorded ε α) (effect : σ → ε → Option σ) (s : σ) (Q : α → σ → Prop) : Prop :=
  ∃ a s', t.result = some a ∧ t.trace.foldlM effect s = some s' ∧ Q a s'

variable {t : Recorded ε α} {s s' : σ} {Q Q' : α → σ → Prop} {R : β → σ → Prop}

theorem Does.pure {a : α} (h : Q a s) : (Pure.pure a : Recorded ε α).Does effect s Q :=
  ⟨a, s, rfl, rfl, h⟩

theorem Does.emit {e : ε} {Q : Unit → σ → Prop} (he : effect s e = some s') (h : Q () s') :
    (Recorded.emit e).Does effect s Q := by
  refine ⟨(), s', rfl, ?_, h⟩
  show (effect s e >>= fun s => Pure.pure s) = some s'
  rw [he]
  rfl

/-- The rule of composition. -/
theorem Does.bind (h : t.Does effect s Q) {f : α → Recorded ε β}
    (hf : ∀ a s', Q a s' → (f a).Does effect s' R) : (t >>= f).Does effect s R := by
  obtain ⟨a, s₁, hresult, htrace, hQ⟩ := h
  obtain ⟨b, s₂, hresult', htrace', hR⟩ := hf a s₁ hQ
  refine ⟨b, s₂, ?_, ?_, hR⟩
  · rw [result_bind, hresult]
    exact hresult'
  · rw [trace_bind_of_some hresult, List.foldlM_append, htrace]
    exact htrace'

/-- The rule of consequence. -/
theorem Does.mono (h : t.Does effect s Q) (hQ : ∀ a s', Q a s' → Q' a s') :
    t.Does effect s Q' := by
  obtain ⟨a, s', hresult, htrace, ha⟩ := h
  exact ⟨a, s', hresult, htrace, hQ a s' ha⟩

/-- What is known of every result is known of this one. -/
theorem Does.keeps {P : ε → Prop} {K : α → Prop} (h : t.Does effect s Q) (hkeeps : t.Keeps P K) :
    t.Does effect s fun a s' => Q a s' ∧ K a := by
  obtain ⟨a, s', hresult, htrace, ha⟩ := h
  exact ⟨a, s', hresult, htrace, ha, hkeeps.2 a hresult⟩

theorem Does.onlyIf {c : Prop} [Decidable c] {t : Recorded ε Unit} {Q : Unit → σ → Prop}
    (h : c → t.Does effect s Q) (hnot : ¬ c → Q () s) : (Recorded.onlyIf c t).Does effect s Q := by
  unfold Recorded.onlyIf
  split
  · next hc => exact h hc
  · next hc => exact .pure (hnot hc)

/-- The rule of loops: what holds after `i` rounds holds with `i + 1` after the next one. -/
theorem Does.forRange {I : Nat → α → σ → Prop} {n : Nat} {body : Nat → α → Recorded ε α}
    (hbody : ∀ i < n, ∀ a s, I i a s → (body i a).Does effect s (I (i + 1))) {a : α}
    (h : I 0 a s) : (Recorded.forRange body n a).Does effect s (I n) := by
  induction n with
  | zero => exact .pure h
  | succ n ih =>
    exact (ih fun i hi => hbody i (Nat.lt_succ_of_lt hi)).bind (hbody n (Nat.lt_succ_self n))

end Recorded
