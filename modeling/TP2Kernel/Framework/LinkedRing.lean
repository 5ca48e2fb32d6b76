import Mathlib.Data.List.Nodup
import Mathlib.Logic.Function.Iterate

/-! # Circular linked lists with a tail pointer

    A ring is given by a successor function `next` and a pointer to its last node; it
    stands for the list of nodes from `next last` round to `last`.

    * `Path next a l b`: from `a`, following `next` leads through `l` to `b`.
    * `Ring next last q`: the ring behind `last` stands for `q`.
    * `ringFrom`: the list read off by walking the ring.

    Appending a node, moving the tail on by one and unlinking the front are lemmas about
    `Ring`, stated for any successor function that differs from the old one only at the
    nodes the operation writes.
-/

namespace LinkedRing

variable {ι : Type*}

/-- From `a`, following `next` leads through `l` to `b`. -/
def Path (next : ι → ι) : ι → List ι → ι → Prop
  | a, [], b => next a = b
  | a, c :: l, b => next a = c ∧ Path next c l b

theorem path_append {next : ι → ι} {a b c : ι} {l₁ l₂ : List ι} :
    Path next a (l₁ ++ c :: l₂) b ↔ Path next a l₁ c ∧ Path next c l₂ b := by
  induction l₁ generalizing a with
  | nil => exact Iff.rfl
  | cons d l₁ ih =>
    simp only [List.cons_append, Path, ih]
    exact and_assoc.symm

/-- A path survives a change of `next` outside of it, also from another start that has
    the same successor. -/
theorem Path.congr {next next' : ι → ι} {a a' b : ι} {l : List ι}
    (h : Path next a l b) (hstart : next' a' = next a) (hsame : ∀ x ∈ l, next' x = next x) :
    Path next' a' l b := by
  induction l generalizing a a' with
  | nil => exact hstart.trans h
  | cons c l ih =>
    refine ⟨hstart.trans h.1, ih h.2 (hsame c (by simp)) ?_⟩
    intro x hx
    exact hsame x (List.mem_cons_of_mem c hx)

/-- Letting one node skip its successor takes that successor off every path, and nothing
    else; `a` need not be on the ring any more. -/
theorem Path.skip {next next' : ι → ι} {a b f l : ι} {xs : List ι} (h : Path next a xs b)
    (hb : f ≠ b) (hl : f ≠ l) (hfront : next l = f) (hskip : next' l = next f)
    (hsame : ∀ x, x ≠ l → next' x = next x) :
    ∃ ys, Path next' a ys b ∧ ys.Sublist xs ∧ ∀ x ∈ xs, x ≠ f → x ∈ ys := by
  induction xs generalizing a with
  | nil =>
    refine ⟨[], ?_, List.Sublist.refl [], by simp⟩
    have hal : a ≠ l := by
      rintro rfl
      exact hb (hfront.symm.trans h)
    exact (hsame a hal).trans h
  | cons c xs ih =>
    obtain ⟨ys, hpath, hsub, hkeep⟩ := ih h.2
    by_cases hal : a = l
    · -- `c` is the node that is skipped
      obtain rfl : c = f := by rw [← h.1, hal, hfront]
      refine ⟨ys, hpath.congr ?_ (fun _ _ => rfl), hsub.cons c, ?_⟩
      · rw [hal, hskip, hsame c hl]
      · intro x hx hxc
        exact hkeep x (List.mem_of_ne_of_mem hxc hx) hxc
    · refine ⟨c :: ys, ⟨(hsame a hal).trans h.1, hpath⟩, hsub.cons_cons c, ?_⟩
      intro x hx hxf
      rcases List.mem_cons.mp hx with rfl | hx
      · exact List.mem_cons_self
      · exact List.mem_cons_of_mem c (hkeep x hx hxf)

/-- The ring behind `last` stands for the list `q`. -/
def Ring (next : ι → ι) (last : Option ι) (q : List ι) : Prop :=
  match last with
  | none => q = []
  | some l => ∃ init, q = init ++ [l] ∧ Path next l init l ∧ q.Nodup

section
variable {next next' : ι → ι} {last : Option ι} {q : List ι}

theorem Ring.nodup (h : Ring next last q) : q.Nodup := by
  cases last with
  | none => rw [show q = [] from h]; exact List.nodup_nil
  | some l => exact h.choose_spec.2.2

theorem Ring.getLast? (h : Ring next last q) : q.getLast? = last := by
  cases last with
  | none => rw [show q = [] from h]; rfl
  | some l =>
    obtain ⟨init, rfl, -, -⟩ := h
    simp

theorem Ring.last_eq_none_iff (h : Ring next last q) : last = none ↔ q = [] := by
  rw [← h.getLast?, List.getLast?_eq_none_iff]

/-- The successor of the last node is the front. -/
theorem Ring.head? {l : ι} (h : Ring next (some l) q) : q.head? = some (next l) := by
  obtain ⟨init, rfl, hpath, -⟩ := h
  cases init with
  | nil => simpa [Path] using hpath.symm
  | cons f init => simp [hpath.1]

theorem Ring.congr (h : Ring next last q) (hsame : ∀ x ∈ q, next' x = next x) :
    Ring next' last q := by
  cases last with
  | none => exact h
  | some l =>
    obtain ⟨init, rfl, hpath, hnd⟩ := h
    refine ⟨init, rfl, hpath.congr (hsame l (by simp)) ?_, hnd⟩
    intro x hx
    exact hsame x (by simp [hx])

/-- The first node of a ring points to itself. -/
theorem Ring.singleton {n : ι} (h : next n = n) : Ring next (some n) [n] :=
  ⟨[], rfl, h, List.nodup_singleton n⟩

/-- Linking a new node behind the last one appends it. -/
theorem Ring.append {l n : ι} (h : Ring next (some l) q) (hn : n ∉ q)
    (hnew : next' n = next l) (hlast : next' l = n)
    (hsame : ∀ x ∈ q, x ≠ l → next' x = next x) :
    Ring next' (some n) (q ++ [n]) := by
  obtain ⟨init, rfl, hpath, hnd⟩ := h
  have hinit : ∀ x ∈ init, next' x = next x := by
    intro x hx
    refine hsame x (by simp [hx]) ?_
    rintro rfl
    exact List.disjoint_of_nodup_append hnd hx (by simp)
  refine ⟨init ++ [l], rfl, path_append.mpr ⟨hpath.congr hnew hinit, hlast⟩, ?_⟩
  exact hnd.append (List.nodup_singleton n) (by simpa using hn)

/-- Moving the tail pointer on by one moves the front to the back. -/
theorem Ring.advance {l f : ι} {r : List ι} (h : Ring next (some l) (f :: r)) :
    Ring next (some f) (r ++ [f]) := by
  obtain ⟨init, heq, hpath, hnd⟩ := h
  have hnd' : (r ++ [f]).Nodup := (List.perm_append_singleton f r).nodup_iff.mpr hnd
  cases init with
  | nil =>
    obtain ⟨rfl, rfl⟩ : f = l ∧ r = [] := by simpa using heq
    exact ⟨[], rfl, hpath, hnd'⟩
  | cons g init =>
    obtain ⟨rfl, rfl⟩ : f = g ∧ r = init ++ [l] := by simpa using heq
    exact ⟨init ++ [l], rfl, path_append.mpr ⟨hpath.2, hpath.1⟩, hnd'⟩

/-- From the front, the ring leads through the rest of the queue back to the front. -/
theorem Ring.path_front {l f : ι} {r : List ι} (h : Ring next (some l) (f :: r)) :
    Path next f r f := by
  obtain ⟨init, heq, hpath, -⟩ := h.advance
  obtain rfl := List.append_cancel_right heq
  exact hpath

/-- Letting the last node skip the front unlinks the front. -/
theorem Ring.unlink {l f : ι} {r : List ι} (h : Ring next (some l) (f :: r)) (hr : f ≠ l)
    (hlast : next' l = next f) (hsame : ∀ x ∈ r, x ≠ l → next' x = next x) :
    Ring next' (some l) r := by
  obtain ⟨init, heq, hpath, hnd⟩ := h
  cases init with
  | nil => exact absurd (by simpa using heq : f = l ∧ r = []).1 hr
  | cons g init =>
    obtain ⟨rfl, rfl⟩ : f = g ∧ r = init ++ [l] := by simpa using heq
    have hnd' : (init ++ [l]).Nodup := (List.nodup_cons.mp hnd).2
    refine ⟨init, rfl, hpath.2.congr hlast ?_, hnd'⟩
    intro x hx
    refine hsame x (by simp [hx]) ?_
    rintro rfl
    exact List.disjoint_of_nodup_append hnd' hx (by simp)

/-- When the front is the last node, it is the only one. -/
theorem Ring.eq_nil_of_head_eq_last {l : ι} {r : List ι} (h : Ring next (some l) (l :: r)) :
    r = [] := by
  by_contra hne
  have hlast : l ∈ r := by
    have hr := List.getLast?_cons_of_ne_nil (x := l) hne
    rw [h.getLast?] at hr
    exact List.mem_of_getLast? hr.symm
  exact (List.nodup_cons.mp h.nodup).1 hlast

end

/-! ### Reading the list off the ring -/

variable [DecidableEq ι]

/-- The nodes from `c` on, up to `last` and at most `fuel` of them. -/
def ringFrom (next : ι → ι) (last c : ι) : Nat → List ι
  | 0 => []
  | fuel + 1 => c :: if c = last then [] else ringFrom next last (next c) fuel

theorem ringFrom_of_path {next : ι → ι} {l c : ι} {init : List ι} {fuel : Nat}
    (h : Path next c init l) (hl : l ∉ c :: init) (hfuel : init.length + 1 ≤ fuel) :
    ringFrom next l (next c) fuel = init ++ [l] := by
  induction init generalizing c fuel with
  | nil =>
    obtain ⟨fuel, rfl⟩ : ∃ k, fuel = k + 1 := ⟨fuel - 1, by simp at hfuel; omega⟩
    simp [ringFrom, show next c = l from h]
  | cons d init ih =>
    obtain ⟨fuel, rfl⟩ : ∃ k, fuel = k + 1 := ⟨fuel - 1, by simp at hfuel; omega⟩
    have hd : d ≠ l := fun hdl => hl (by simp [hdl])
    have hrest := ih h.2 (fun hmem => hl (List.mem_cons_of_mem c hmem))
      (by simpa using hfuel)
    simp [ringFrom, h.1, hd, hrest]

/-- Walking the ring once yields the list it stands for. -/
theorem Ring.ringFrom_eq {next : ι → ι} {l : ι} {q : List ι} {fuel : Nat}
    (h : Ring next (some l) q) (hfuel : q.length ≤ fuel) :
    ringFrom next l (next l) fuel = q := by
  obtain ⟨init, rfl, hpath, hnd⟩ := h
  have hl : l ∉ init := fun hmem => List.disjoint_of_nodup_append hnd hmem (by simp)
  cases init with
  | nil =>
    obtain ⟨fuel, rfl⟩ : ∃ k, fuel = k + 1 := ⟨fuel - 1, by simp at hfuel; omega⟩
    simp [ringFrom, show next l = l from hpath]
  | cons f init =>
    obtain ⟨fuel, rfl⟩ : ∃ k, fuel = k + 1 := ⟨fuel - 1, by simp at hfuel; omega⟩
    have hf : f ≠ l := fun hfl => hl (by simp [hfl])
    have hrest : ringFrom next l (next f) fuel = init ++ [l] :=
      ringFrom_of_path hpath.2 hl (by simpa using hfuel)
    simp [ringFrom, hpath.1, hf, hrest]

end LinkedRing
