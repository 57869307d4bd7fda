import Mathlib.Data.List.Basic
import Mathlib.Tactic

/-!
# Parties whose moves commute

Some parties move one state, and each move gives one output.  If a party has at most one
move in a state and the moves of two parties commute, then what each party gives does not
depend on the order in which they move: from wherever some run has got to, a run to the
end can be made up, and for each party the outputs on the two ways to the end are the same
(`Runs.completes`).
-/

namespace Stream

variable {ι σ μ : Type}

/-- A party has at most one move, and the moves of two parties commute. -/
structure Commuting (move : ι → σ → μ → σ → Prop) : Prop where
  unique : ∀ {i s m t m' t'}, move i s m t → move i s m' t' → m = m' ∧ t = t'
  comm : ∀ {i j s m t n u}, i ≠ j → move i s m t → move j s n u →
    ∃ v, move j t n v ∧ move i u m v

/-- A run and its outputs, each with the party that gave it. -/
inductive Runs (move : ι → σ → μ → σ → Prop) : σ → List (ι × μ) → σ → Prop where
  | nil (s : σ) : Runs move s [] s
  | cons {i : ι} {s t u : σ} {m : μ} {w : List (ι × μ)} :
      move i s m t → Runs move t w u → Runs move s ((i, m) :: w) u

/-- No party can move. -/
def Ended (move : ι → σ → μ → σ → Prop) (s : σ) : Prop := ∀ i m t, ¬ move i s m t

/-- The outputs of one party. -/
def outputs [DecidableEq ι] (i : ι) (w : List (ι × μ)) : List μ :=
  (w.filter fun o => o.1 = i).map Prod.snd

section Outputs

variable [DecidableEq ι] {i j : ι}

@[simp] theorem outputs_nil : outputs i ([] : List (ι × μ)) = [] := rfl

@[simp] theorem outputs_cons_self (m : μ) (w : List (ι × μ)) :
    outputs i ((i, m) :: w) = m :: outputs i w := by
  simp [outputs]

@[simp] theorem outputs_cons_of_ne (h : j ≠ i) (m : μ) (w : List (ι × μ)) :
    outputs i ((j, m) :: w) = outputs i w := by
  simp [outputs, h]

theorem outputs_append (w w' : List (ι × μ)) :
    outputs i (w ++ w') = outputs i w ++ outputs i w' := by
  simp [outputs]

@[simp] theorem outputs_map_self (ms : List μ) : outputs i (ms.map (i, ·)) = ms := by
  induction ms with
  | nil => rfl
  | cons m ms ih => rw [List.map_cons, outputs_cons_self, ih]

@[simp] theorem outputs_map_of_ne (h : j ≠ i) (ms : List μ) :
    outputs i (ms.map (j, ·)) = [] := by
  induction ms with
  | nil => rfl
  | cons m ms ih => rw [List.map_cons, outputs_cons_of_ne h, ih]

end Outputs

namespace Runs

variable {move : ι → σ → μ → σ → Prop} {s t u : σ} {w w' : List (ι × μ)}

theorem append (h : Runs move s w t) (h' : Runs move t w' u) : Runs move s (w ++ w') u := by
  induction h with
  | nil => exact h'
  | cons hm _ ih => exact .cons hm (ih h')

/-- What every move keeps, a run keeps. -/
theorem keeps {P : σ → Prop} (hstep : ∀ {i s m t}, move i s m t → P s → P t)
    (h : Runs move s w t) (hs : P s) : P t := by
  induction h with
  | nil => exact hs
  | cons hm _ ih => exact ih (hstep hm hs)

theorem eq_of_ended (h : Runs move s w t) (hs : Ended move s) : t = s ∧ w = [] := by
  cases h with
  | nil => exact ⟨rfl, rfl⟩
  | cons hm _ => exact absurd hm (hs _ _ _)

/-- A map of the states that keeps the moves keeps the runs. -/
theorem map {f : σ → σ} (hf : ∀ {i s m t}, move i s m t → move i (f s) m (f t))
    (h : Runs move s w t) : Runs move (f s) w (f t) := by
  induction h with
  | nil => exact .nil _
  | cons hm _ ih => exact .cons (hf hm) ih

variable [DecidableEq ι]

/-- A run to the end, with one move taken first. -/
theorem after_move (hc : Commuting move) (h : Runs move s w t) (ht : Ended move t) {i : ι} {m : μ}
    (hm : move i s m u) :
    ∃ rest, Runs move u rest t ∧ ∀ j, outputs j w = outputs j ((i, m) :: rest) := by
  induction h generalizing u with
  | nil => exact absurd hm (ht _ _ _)
  | @cons j s v t n w hn hrest ih =>
    by_cases hji : j = i
    · subst hji
      obtain ⟨rfl, rfl⟩ := hc.unique hn hm
      exact ⟨w, hrest, fun _ => rfl⟩
    · -- The first move of the run is still there after the move of the other party.
      obtain ⟨v', hv, hu⟩ := hc.comm hji hn hm
      obtain ⟨rest, hr, hout⟩ := ih ht hv
      refine ⟨(j, n) :: rest, .cons hu hr, ?_⟩
      intro k
      by_cases hjk : j = k
      · subst hjk
        rw [outputs_cons_self, hout, outputs_cons_of_ne (Ne.symm hji),
          outputs_cons_of_ne (Ne.symm hji), outputs_cons_self]
      · by_cases hik : i = k
        · subst hik
          rw [outputs_cons_of_ne hjk, hout, outputs_cons_self, outputs_cons_self,
            outputs_cons_of_ne hjk]
        · rw [outputs_cons_of_ne hjk, hout, outputs_cons_of_ne hik, outputs_cons_of_ne hik,
            outputs_cons_of_ne hjk]

/-- A run to the end can be made up from wherever another run has got to. -/
theorem completes (hc : Commuting move) (h : Runs move s w t) (ht : Ended move t)
    (h' : Runs move s w' u) :
    ∃ rest, Runs move u rest t ∧ ∀ j, outputs j w = outputs j w' ++ outputs j rest := by
  induction h' generalizing w with
  | nil => exact ⟨w, h, fun _ => rfl⟩
  | @cons i s v u m w' hm _ ih =>
    obtain ⟨rest, hr, hout⟩ := h.after_move hc ht hm
    obtain ⟨rest', hr', hout'⟩ := ih hr
    refine ⟨rest', hr', ?_⟩
    intro j
    have hj := hout' j
    rw [hout j]
    by_cases hij : i = j
    · subst hij
      rw [outputs_cons_self, outputs_cons_self, hj, List.cons_append]
    · rw [outputs_cons_of_ne hij, outputs_cons_of_ne hij, hj]

end Runs

end Stream
