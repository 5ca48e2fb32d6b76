/-! # Computations that are recorded

    A computation that may never end, beside the list of the events on the way.  The
    events are there even when there is no result.
-/

/-- The events of a computation, in their order, and its result. -/
structure Recorded (ε α : Type) where
  trace : List ε
  result : Option α

namespace Recorded

variable {ε α β : Type}

/-- The second computation goes on with the result of the first. -/
def bind (t : Recorded ε α) (f : α → Recorded ε β) : Recorded ε β :=
  match t.result with
  | none => ⟨t.trace, none⟩
  | some a => ⟨t.trace ++ (f a).trace, (f a).result⟩

instance : Monad (Recorded ε) where
  pure a := ⟨[], some a⟩
  bind := bind

def emit (e : ε) : Recorded ε Unit := ⟨[e], some ()⟩

/-- One event after the other. -/
def emits (es : List ε) : Recorded ε Unit := ⟨es, some ()⟩

/-- A computation that never ends, without further events. -/
def never : Recorded ε α := ⟨[], none⟩

/-- Without its events, a sequence of computations is one of partial functions. -/
@[simp] theorem result_bind (t : Recorded ε α) (f : α → Recorded ε β) :
    (t >>= f).result = t.result.bind fun a => (f a).result := by
  show (bind t f).result = _
  unfold bind
  cases t.result with
  | none => rfl
  | some a => rfl

theorem trace_bind_of_none {t : Recorded ε α} (h : t.result = none) (f : α → Recorded ε β) :
    (t >>= f).trace = t.trace := by
  show (bind t f).trace = _
  rw [bind, h]

theorem trace_bind_of_some {t : Recorded ε α} {a : α} (h : t.result = some a)
    (f : α → Recorded ε β) : (t >>= f).trace = t.trace ++ (f a).trace := by
  show (bind t f).trace = _
  rw [bind, h]

theorem known_bind (es : List ε) (a : α) (f : α → Recorded ε β) :
    (⟨es, some a⟩ : Recorded ε α) >>= f = ⟨es ++ (f a).trace, (f a).result⟩ := rfl

/-- A sequence of computations whose events and results are known. -/
theorem bind_eq {t : Recorded ε α} {es es' : List ε} {a : α} {b : β} (h : t = ⟨es, some a⟩)
    {f : α → Recorded ε β} (hf : f a = ⟨es', some b⟩) : t >>= f = ⟨es ++ es', some b⟩ := by
  subst h
  show bind ⟨es, some a⟩ f = _
  simp only [bind, hf]

/-- The result of a computation, without its events. -/
def ofOption (result : Option α) : Recorded ε α := ⟨[], result⟩

@[simp] theorem ofOption_bind (a : α) (f : α → Recorded ε β) : ofOption (some a) >>= f = f a :=
  rfl

/-- The computation, if the condition holds. -/
def onlyIf (c : Prop) [Decidable c] (t : Recorded ε Unit) : Recorded ε Unit :=
  if c then t else pure ()

/-- A loop that counts from `0` up to `n`. -/
def forRange (body : Nat → α → Recorded ε α) : Nat → α → Recorded ε α
  | 0, a => pure a
  | n + 1, a => forRange body n a >>= body n

/-! ### More fuel -/

/-- `t'` does what `t` does, if that ends. -/
def Extends (t t' : Recorded ε α) : Prop := t.result ≠ none → t' = t

theorem Extends.refl (t : Recorded ε α) : Extends t t := fun _ => rfl

theorem Extends.never (t : Recorded ε α) : Extends never t := fun h => absurd rfl h

theorem Extends.bind {t t' : Recorded ε α} {f f' : α → Recorded ε β} (h : Extends t t')
    (hf : ∀ a, Extends (f a) (f' a)) : Extends (t >>= f) (t' >>= f') := by
  intro hends
  cases hresult : t.result with
  | none =>
    rw [result_bind, hresult] at hends
    exact absurd rfl hends
  | some a =>
    rw [result_bind, hresult] at hends
    have ht : t' = t := h (by rw [hresult]; exact Option.some_ne_none a)
    show Recorded.bind t' f' = Recorded.bind t f
    rw [ht]
    simp only [Recorded.bind, hresult, hf a hends]

/-! ### Total correctness -/

/-- The computation ends with a result that meets `Q`, and all its events meet `P`. -/
def Meets (t : Recorded ε α) (P : ε → Prop) (Q : α → Prop) : Prop :=
  ∃ a, t.result = some a ∧ Q a ∧ ∀ e ∈ t.trace, P e

variable {P : ε → Prop} {Q Q' : α → Prop} {R : β → Prop} {t : Recorded ε α}

theorem Meets.pure {a : α} (h : Q a) : (Pure.pure a : Recorded ε α).Meets P Q :=
  ⟨a, rfl, h, fun _ he => absurd he List.not_mem_nil⟩

theorem Meets.emit {e : ε} (h : P e) : (Recorded.emit e).Meets P fun _ => True :=
  ⟨(), rfl, trivial, fun _ he => List.mem_singleton.mp he ▸ h⟩

theorem Meets.emits {es : List ε} (h : ∀ e ∈ es, P e) :
    (Recorded.emits es).Meets P fun _ => True :=
  ⟨(), rfl, trivial, h⟩

theorem Meets.ofOption {result : Option α} {a : α} (h : result = some a) (hQ : Q a) :
    (Recorded.ofOption result : Recorded ε α).Meets P Q :=
  ⟨a, h, hQ, fun _ he => absurd he List.not_mem_nil⟩

/-- The rule of composition. -/
theorem Meets.bind (h : t.Meets P Q) {f : α → Recorded ε β}
    (hf : ∀ a, Q a → (f a).Meets P R) : (t >>= f).Meets P R := by
  obtain ⟨a, hresult, hQ, htrace⟩ := h
  obtain ⟨b, hresult', hR, htrace'⟩ := hf a hQ
  refine ⟨b, by rw [result_bind, hresult]; exact hresult', hR, ?_⟩
  intro e he
  rw [trace_bind_of_some hresult, List.mem_append] at he
  rcases he with he | he
  · exact htrace e he
  · exact htrace' e he

/-- The rule of consequence. -/
theorem Meets.mono (h : t.Meets P Q) (hQ : ∀ a, Q a → Q' a) : t.Meets P Q' := by
  obtain ⟨a, hresult, ha, htrace⟩ := h
  exact ⟨a, hresult, hQ a ha, htrace⟩

/-- The rule of loops: what holds after `i` rounds holds with `i + 1` after the next one. -/
theorem Meets.forRange {I : Nat → α → Prop} {n : Nat} {body : Nat → α → Recorded ε α}
    (hbody : ∀ i < n, ∀ a, I i a → (body i a).Meets P (I (i + 1))) {a : α} (h : I 0 a) :
    (Recorded.forRange body n a).Meets P (I n) := by
  induction n with
  | zero => exact .pure h
  | succ n ih =>
    exact (ih fun i hi => hbody i (Nat.lt_succ_of_lt hi)).bind fun a ha =>
      hbody n (Nat.lt_succ_self n) a ha

/-! ### Partial correctness -/

/-- All events meet `P`, and the result, if there is one, meets `Q`. -/
def Keeps (t : Recorded ε α) (P : ε → Prop) (Q : α → Prop) : Prop :=
  (∀ e ∈ t.trace, P e) ∧ ∀ a, t.result = some a → Q a

/-- What ends well keeps what it should keep. -/
theorem Meets.keeps (h : t.Meets P Q) : t.Keeps P Q := by
  obtain ⟨a, hresult, ha, htrace⟩ := h
  refine ⟨htrace, ?_⟩
  intro a' ha'
  rw [hresult] at ha'
  obtain rfl := Option.some.inj ha'
  exact ha

theorem Keeps.pure {a : α} (h : Q a) : (Pure.pure a : Recorded ε α).Keeps P Q := by
  refine ⟨fun _ he => absurd he List.not_mem_nil, ?_⟩
  rintro a' hresult
  obtain rfl := Option.some.inj hresult
  exact h

theorem Keeps.never : (never : Recorded ε α).Keeps P Q :=
  ⟨fun _ he => absurd he List.not_mem_nil,
    fun _ hresult => absurd hresult (Option.some_ne_none _).symm⟩

theorem Keeps.emit {e : ε} (h : P e) : (Recorded.emit e).Keeps P fun _ => True :=
  ⟨fun _ he => List.mem_singleton.mp he ▸ h, fun _ _ => trivial⟩

theorem Keeps.emits {es : List ε} (h : ∀ e ∈ es, P e) :
    (Recorded.emits es).Keeps P fun _ => True :=
  ⟨h, fun _ _ => trivial⟩

theorem Keeps.ofOption {result : Option α} (h : ∀ a, result = some a → Q a) :
    (Recorded.ofOption result : Recorded ε α).Keeps P Q :=
  ⟨fun _ he => absurd he List.not_mem_nil, h⟩

theorem Keeps.bind (h : t.Keeps P Q) {f : α → Recorded ε β}
    (hf : ∀ a, Q a → (f a).Keeps P R) : (t >>= f).Keeps P R := by
  obtain ⟨htrace, hQ⟩ := h
  cases hresult : t.result with
  | none =>
    refine ⟨?_, fun b hb => ?_⟩
    · rwa [trace_bind_of_none hresult]
    · rw [result_bind, hresult] at hb
      exact absurd hb (Option.some_ne_none b).symm
  | some a =>
    obtain ⟨htrace', hR⟩ := hf a (hQ a hresult)
    refine ⟨?_, fun b hb => ?_⟩
    · intro e he
      rw [trace_bind_of_some hresult, List.mem_append] at he
      exact he.elim (htrace e) (htrace' e)
    · rw [result_bind, hresult] at hb
      exact hR b hb

theorem Keeps.mono (h : t.Keeps P Q) (hQ : ∀ a, Q a → Q' a) : t.Keeps P Q' :=
  ⟨h.1, fun a ha => hQ a (h.2 a ha)⟩

theorem Keeps.onlyIf {c : Prop} [Decidable c] {t : Recorded ε Unit}
    (h : c → t.Keeps P fun _ => True) : (Recorded.onlyIf c t).Keeps P fun _ => True := by
  unfold Recorded.onlyIf
  split
  · next hc => exact h hc
  · exact .pure trivial

/-- What each round keeps, the loop keeps. -/
theorem Keeps.forRange {n : Nat} {body : Nat → α → Recorded ε α}
    (hbody : ∀ i < n, ∀ a, Q a → (body i a).Keeps P Q) {a : α} (h : Q a) :
    (Recorded.forRange body n a).Keeps P Q := by
  induction n with
  | zero => exact .pure h
  | succ n ih =>
    exact (ih fun i hi => hbody i (Nat.lt_succ_of_lt hi)).bind fun a ha =>
      hbody n (Nat.lt_succ_self n) a ha

end Recorded
