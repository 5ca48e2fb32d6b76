import Mathlib.Data.List.Basic

/-! # Messages in a stream of symbols

    Messages of one size go into a stream one after the other, with nothing between them.
    Whoever takes messages of that size off the front of the stream gets the messages that
    went in, however much of the stream has come through so far.
-/

namespace Framing

/-- Every message is `size` symbols. -/
structure Code (μ : Type*) (α : Type*) where
  size : Nat
  encode : μ → List α
  decode : List α → μ
  length_encode : ∀ m, (encode m).length = size
  decode_encode : ∀ m, decode (encode m) = m

variable {μ α : Type*}

namespace Code

variable (code : Code μ α)

/-- The messages, one after the other. -/
def stream (ms : List μ) : List α := ms.flatMap code.encode

@[simp] theorem stream_nil : code.stream [] = [] := rfl

@[simp] theorem stream_cons (m : μ) (ms : List μ) :
    code.stream (m :: ms) = code.encode m ++ code.stream ms := rfl

@[simp] theorem stream_append (ms ms' : List μ) :
    code.stream (ms ++ ms') = code.stream ms ++ code.stream ms' := List.flatMap_append

/-- After the last message, the stream goes on with the next. -/
theorem stream_snoc (ms : List μ) (m : μ) :
    code.stream (ms ++ [m]) = code.stream ms ++ code.encode m := by simp

@[simp] theorem length_stream (ms : List μ) :
    (code.stream ms).length = ms.length * code.size := by
  induction ms with
  | nil => simp
  | cons m ms ih =>
    rw [stream_cons, List.length_append, ih, code.length_encode, List.length_cons, Nat.succ_mul,
      Nat.add_comm]

variable {code}

theorem encode_inj {m m' : μ} : code.encode m = code.encode m' ↔ m = m' := by
  constructor
  · intro h
    rw [← code.decode_encode m, h, code.decode_encode]
  · rintro rfl
    rfl

/-- Messages that have come through, with the begin `got` of another one, are the first of
    those that went in. -/
theorem stream_isPrefixOf (hsize : 0 < code.size) {ds ms : List μ} {got : List α}
    (h : code.stream ds ++ got <+: code.stream ms) :
    ∃ rest, ms = ds ++ rest ∧ got <+: code.stream rest := by
  induction ds generalizing ms with
  | nil => exact ⟨ms, rfl, h⟩
  | cons d ds ih =>
    cases ms with
    | nil =>
      -- a message is not empty
      have hlen := h.length_le
      rw [stream_cons, List.length_append, List.length_append, code.length_encode] at hlen
      have hnil : (code.stream []).length = 0 := rfl
      omega
    | cons m ms =>
      rw [stream_cons, stream_cons, List.append_assoc] at h
      have hlen : (code.encode d).length = (code.encode m).length := by
        rw [code.length_encode, code.length_encode]
      obtain ⟨tail, htail⟩ := h
      rw [List.append_assoc] at htail
      obtain ⟨hhead, hrest⟩ := List.append_inj htail hlen
      obtain ⟨rest, rfl, hgot⟩ := ih ⟨tail, hrest⟩
      rw [encode_inj] at hhead
      exact ⟨rest, by rw [hhead, List.cons_append], hgot⟩

/-- What has come through of the next message is that message once it has its size. -/
theorem decode_isPrefixOf (hsize : 0 < code.size) {ms : List μ} {got : List α}
    (h : got <+: code.stream ms) (hgot : got.length = code.size) :
    ∃ m rest, ms = m :: rest ∧ got = code.encode m := by
  cases ms with
  | nil =>
    have hlen := h.length_le
    have hnil : (code.stream []).length = 0 := rfl
    omega
  | cons m rest =>
    obtain ⟨tail, htail⟩ := h
    refine ⟨m, rest, rfl, ?_⟩
    exact (List.append_inj htail (by rw [hgot, code.length_encode])).1

end Code

end Framing
