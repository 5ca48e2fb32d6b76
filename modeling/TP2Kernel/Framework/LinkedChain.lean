import Mathlib.Data.List.Nodup

/-! # Linked lists that end in a null

    A list is given by a pointer to its first node and a function `next`; the last node
    points to `null`.

    * `Chain next null head l`: from `head`, following `next` meets the nodes `l`.
    * `congr`: a chain survives changes outside of it.
    * `snoc`: a node is linked behind the last one.
-/

namespace LinkedChain

variable {ι : Type*}

/-- From `head`, following `next` meets the nodes `l`, and then `null`. -/
def Chain (next : ι → ι) (null : ι) : ι → List ι → Prop
  | head, [] => head = null
  | head, a :: l => head = a ∧ a ≠ null ∧ Chain next null (next a) l

variable {next next' : ι → ι} {null head a : ι} {l l' : List ι}

/-- A pointer leads to one list only. -/
theorem Chain.unique (h : Chain next null head l) (h' : Chain next null head l') : l = l' := by
  induction l generalizing head l' with
  | nil =>
    cases l' with
    | nil => rfl
    | cons b l' =>
      have hb : head = b := h'.1
      exact absurd (hb.symm.trans h) h'.2.1
  | cons b l ih =>
    cases l' with
    | nil => exact absurd (h.1.symm.trans h') h.2.1
    | cons c l' =>
      have hbc : b = c := h.1.symm.trans h'.1
      subst hbc
      rw [ih h.2.2 h'.2.2]

theorem Chain.congr (h : Chain next null head l) (hsame : ∀ a ∈ l, next' a = next a) :
    Chain next' null head l := by
  induction l generalizing head with
  | nil => exact h
  | cons b l ih =>
    refine ⟨h.1, h.2.1, ?_⟩
    rw [hsame b List.mem_cons_self]
    exact ih h.2.2 fun a ha => hsame a (List.mem_cons_of_mem b ha)

/-- From a node on, following `next` meets the rest of the nodes. -/
theorem Chain.suffix (h : Chain next null head (l ++ a :: l')) : Chain next null a (a :: l') := by
  induction l generalizing head with
  | nil => exact ⟨rfl, h.2⟩
  | cons b l ih => exact ih h.2.2

/-- A list that comes to its end does not meet a node twice. -/
theorem Chain.nodup (h : Chain next null head l) : l.Nodup := by
  induction l generalizing head with
  | nil => exact List.nodup_nil
  | cons b l ih =>
    refine List.nodup_cons.mpr ⟨?_, ih h.2.2⟩
    intro hmem
    obtain ⟨l₁, l₂, rfl⟩ := List.append_of_mem hmem
    -- the rest from the second `b` on would be the whole list
    have hrest : Chain next null b (b :: l₂) := Chain.suffix h.2.2
    have hwhole : Chain next null b (b :: (l₁ ++ b :: l₂)) := ⟨rfl, h.2⟩
    have hlen := congrArg List.length (hrest.unique hwhole)
    simp only [List.length_cons, List.length_append] at hlen
    omega

/-- Node `a` is linked behind the last node, or to the pointer to the first node when
    there is none. -/
theorem Chain.snoc {head' : ι} (h : Chain next null head l) (hnd : l.Nodup)
    (hempty : l = [] → head' = a) (hhead : l ≠ [] → head' = head)
    (hlast : ∀ b, l.getLast? = some b → next' b = a)
    (hsame : ∀ b ∈ l, l.getLast? ≠ some b → next' b = next b)
    (ha : a ≠ null) (hend : next' a = null) : Chain next' null head' (l ++ [a]) := by
  induction l generalizing head head' with
  | nil => exact ⟨hempty rfl, ha, hend⟩
  | cons b l ih =>
    refine ⟨(hhead (List.cons_ne_nil b l)).trans h.1, h.2.1, ?_⟩
    apply ih h.2.2 (List.nodup_cons.mp hnd).2
    · rintro rfl
      exact hlast b rfl
    · intro hl
      -- `b` is not the last node, which comes behind it
      have hlast : (b :: l).getLast? ≠ some b := by
        intro hb
        obtain ⟨c, l', rfl⟩ := List.exists_cons_of_ne_nil hl
        rw [List.getLast?_cons_cons] at hb
        exact (List.nodup_cons.mp hnd).1 (List.mem_of_getLast? hb)
      exact hsame b List.mem_cons_self hlast
    · intro c hc
      apply hlast
      obtain ⟨d, l', rfl⟩ := List.exists_cons_of_ne_nil (List.ne_nil_of_mem
        (List.mem_of_getLast? hc))
      rw [List.getLast?_cons_cons]
      exact hc
    · intro c hc hne
      apply hsame c (List.mem_cons_of_mem b hc)
      obtain ⟨d, l', rfl⟩ := List.exists_cons_of_ne_nil (List.ne_nil_of_mem hc)
      rw [List.getLast?_cons_cons]
      exact hne

end LinkedChain
