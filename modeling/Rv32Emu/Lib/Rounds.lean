import Mathlib.Data.List.Infix
import Mathlib.Data.List.Range
import Mathlib.Data.Nat.Notation

namespace Rv32Emu

variable {α : Type*}

def firstRounds (rounds : ℕ → List α) (n : ℕ) : List α := (List.range n).flatMap rounds

theorem firstRounds_succ (rounds : ℕ → List α) (n : ℕ) :
    firstRounds rounds (n + 1) = firstRounds rounds n ++ rounds n := by
  simp [firstRounds, List.range_succ]

theorem firstRounds_initial (rounds : ℕ → List α) {m n : ℕ} (h : m ≤ n) :
    firstRounds rounds m <+: firstRounds rounds n := by
  induction n with
  | zero =>
    obtain rfl : m = 0 := by omega
    exact List.prefix_refl _
  | succ n ih =>
    by_cases hm : m = n + 1
    · rw [hm]
    · rw [firstRounds_succ]
      exact (ih (by omega)).trans (List.prefix_append _ _)

structure InRound (rounds : ℕ → List α) (seen : List α) (r : ℕ) (done rest : List α) : Prop where
  seen_eq : seen = firstRounds rounds r ++ done
  split : done ++ rest = rounds r
  rest_ne : rest ≠ []

namespace InRound

variable {rounds : ℕ → List α} {seen done rest : List α} {r : ℕ} {a : α}

theorem start (rounds : ℕ → List α) (h : rounds 0 ≠ []) : InRound rounds [] 0 [] (rounds 0) :=
  ⟨rfl, rfl, h⟩

theorem next {n : ℕ} (h : InRound rounds seen r done rest) (hp : seen ++ [a] <+: firstRounds rounds n) :
    ∃ rest', rest = a :: rest' := by
  have hlen := hp.length_le
  have hr : r < n := by
    by_contra hn
    have := (firstRounds_initial rounds (show n ≤ r by omega)).length_le
    simp only [h.seen_eq, List.length_append, List.length_singleton] at hlen
    omega
  have hround : seen ++ rest <+: firstRounds rounds n := by
    rw [h.seen_eq, List.append_assoc, h.split, ← firstRounds_succ]
    exact firstRounds_initial rounds hr
  cases hrest : rest with
  | nil => exact absurd hrest h.rest_ne
  | cons b rest' =>
    rw [hrest] at hround
    have := List.prefix_of_prefix_length_le hp hround (by simp)
    rw [List.prefix_append_right_inj, List.cons_prefix_cons] at this
    exact ⟨rest', by rw [this.1]⟩

theorem advance (h : InRound rounds seen r done (a :: rest)) (hr : rest ≠ []) :
    InRound rounds (seen ++ [a]) r (done ++ [a]) rest :=
  ⟨by rw [h.seen_eq, List.append_assoc], by rw [List.append_assoc, ← h.split]; rfl, hr⟩

theorem advance_last (h : InRound rounds seen r done [a]) (hr : rounds (r + 1) ≠ []) :
    InRound rounds (seen ++ [a]) (r + 1) [] (rounds (r + 1)) :=
  ⟨by rw [h.seen_eq, firstRounds_succ, ← h.split]; simp, rfl, hr⟩

theorem place (h : InRound rounds seen r done rest) {k i : ℕ}
    (hl : (firstRounds rounds k).length + i < seen.length) : k < r ∨ k = r ∧ i < done.length := by
  have hseen : seen.length = (firstRounds rounds r).length + done.length := by
    rw [h.seen_eq, List.length_append]
  have hsplit : done.length + rest.length = (rounds r).length := by
    rw [← h.split, List.length_append]
  have hrest : 0 < rest.length := List.length_pos_iff.mpr h.rest_ne
  by_cases hk : k = r
  · subst hk
    exact .inr ⟨rfl, by omega⟩
  · refine .inl ?_
    by_contra hn
    have := (firstRounds_initial rounds (show r + 1 ≤ k by omega)).length_le
    rw [firstRounds_succ, List.length_append] at this
    omega

theorem length_le (h : InRound rounds seen r done rest) {k : ℕ} (hk : k ≤ r) :
    (firstRounds rounds k).length ≤ seen.length := by
  have := (firstRounds_initial rounds hk).length_le
  rw [h.seen_eq, List.length_append]
  omega

end InRound

theorem split_last {done rest work : List α} {a close : α} (h : done ++ a :: rest = work ++ [close]) :
    rest = [] ∧ a = close ∨ rest ≠ [] ∧ a ∈ work := by
  obtain rfl | ⟨rest, b, rfl⟩ := List.eq_nil_or_concat rest
  · have := List.append_inj' h rfl
    exact .inl ⟨rfl, by simpa using this.2⟩
  · refine .inr ⟨by simp, ?_⟩
    rw [List.concat_eq_append, ← List.cons_append, ← List.append_assoc] at h
    rw [← (List.append_inj' h rfl).1]
    simp

end Rv32Emu
