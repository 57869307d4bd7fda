import Mathlib.Data.List.Induction

/-!
# Histories

A state is moved by the entries of a history.  When each step keeps a property exactly under
a condition, the property holds after every part of a history exactly when the condition is
met at every step (`along_iff`).

In a history some entries ask and some answer.  A queue that takes every question in and
hands the oldest out to every answer holds the questions that no answer has taken
(`waiting`).  While no answer comes too early (`Balanced`), the answer with the number `i`
gets the question with the number `i` (`Matched`).
-/

namespace Stream

open List

/-- What is kept under a condition is kept all along when the condition is always met. -/
theorem along_iff {σ ε : Type} {step : σ → ε → σ} {P : σ → Prop} {C : σ → ε → Prop}
    (hstep : ∀ {s} e, P s → (P (step s e) ↔ C s e)) {s : σ} (hs : P s) (history : List ε) :
    (∀ before, before <+: history → P (before.foldl step s)) ↔
      ∀ before e, before ++ [e] <+: history → C (before.foldl step s) e := by
  have hconcat : ∀ before e, (before ++ [e]).foldl step s = step (before.foldl step s) e :=
    fun before e => foldl_append
  constructor
  · intro h before e hprefix
    have hbefore := h before ((prefix_append _ _).trans hprefix)
    exact (hstep e hbefore).mp (hconcat before e ▸ h _ hprefix)
  · intro h before
    induction before using List.reverseRecOn with
    | nil => exact fun _ => hs
    | append_singleton before e ih =>
      intro hprefix
      rw [hconcat]
      exact (hstep e (ih ((prefix_append _ _).trans hprefix))).mpr (h before e hprefix)

/-- The steps of a history are its first one and those of the rest. -/
theorem along_cons {ε : Type} {C : List ε → ε → Prop} {a : ε} {history : List ε} (ha : C [] a)
    (h : ∀ before e, before ++ [e] <+: history → C (a :: before) e) :
    ∀ before e, before ++ [e] <+: a :: history → C before e := by
  intro before e hprefix
  cases before with
  | nil =>
    obtain ⟨rfl, -⟩ := cons_prefix_cons.mp hprefix
    exact ha
  | cons b before =>
    obtain ⟨rfl, hrest⟩ := cons_prefix_cons.mp hprefix
    exact h before e hrest

section Filter

variable {α : Type} {p : α → Bool} {a : α}

theorem filter_concat_of_pos (h : p a) (l : List α) : (l ++ [a]).filter p = l.filter p ++ [a] := by
  rw [filter_append, filter_cons_of_pos h, filter_nil]

theorem filter_concat_of_neg (h : ¬ p a) (l : List α) : (l ++ [a]).filter p = l.filter p := by
  rw [filter_append, filter_cons_of_neg h, filter_nil, append_nil]

theorem getElem?_filter_concat {l : List α} {i : Nat} {b : α} (h : (l.filter p)[i]? = some b) :
    ((l ++ [a]).filter p)[i]? = some b := by
  rw [filter_append, getElem?_append_left (List.getElem?_eq_some_iff.mp h).1, h]

end Filter

variable {α : Type} (asks answers : α → Bool)

/-- The questions that no answer has taken. -/
def waiting (history : List α) : List α :=
  (history.filter asks).drop (history.filter answers).length

/-- No answer comes before its question. -/
def Balanced (history : List α) : Prop :=
  ∀ before, before <+: history → (before.filter answers).length ≤ (before.filter asks).length

/-- Every answer is related to the question of the same number. -/
def Matched (r : α → α → Prop) (history : List α) : Prop :=
  ∀ (i : Nat) (answer : α), (history.filter answers)[i]? = some answer →
    ∃ question, (history.filter asks)[i]? = some question ∧ r question answer

variable {asks answers} {r : α → α → Prop} {history : List α} {a : α}

theorem matched_nil : Matched asks answers r [] := fun _ _ h => by cases h

theorem Balanced.of_append {later : List α} (h : Balanced asks answers (history ++ later)) :
    Balanced asks answers history :=
  fun before hbefore => h before (hbefore.trans (prefix_append history later))

theorem balanced_of_take (h : ∀ n ≤ history.length,
    ((history.take n).filter answers).length ≤ ((history.take n).filter asks).length) :
    Balanced asks answers history := by
  intro before hbefore
  rw [prefix_iff_eq_take.mp hbefore]
  exact h before.length hbefore.length_le

theorem waiting_ask (h : Balanced asks answers history) (hasks : asks a) (hanswers : ¬ answers a) :
    waiting asks answers (history ++ [a]) = waiting asks answers history ++ [a] := by
  rw [waiting, filter_concat_of_pos hasks, filter_concat_of_neg hanswers]
  exact drop_append_of_le_length (h history prefix_rfl)

theorem waiting_answer (hasks : ¬ asks a) (hanswers : answers a) :
    waiting asks answers (history ++ [a]) = (waiting asks answers history).tail := by
  rw [waiting, waiting, filter_concat_of_neg hasks, filter_concat_of_pos hanswers,
    length_append, tail_drop]
  rfl

theorem waiting_other (hasks : ¬ asks a) (hanswers : ¬ answers a) :
    waiting asks answers (history ++ [a]) = waiting asks answers history := by
  rw [waiting, waiting, filter_concat_of_neg hasks, filter_concat_of_neg hanswers]

/-- An answer finds its question. -/
theorem Balanced.head_waiting (h : Balanced asks answers (history ++ [a])) (hasks : ¬ asks a)
    (hanswers : answers a) : ∃ question, (waiting asks answers history).head? = some question := by
  have hcount := h _ prefix_rfl
  rw [filter_concat_of_neg hasks, filter_concat_of_pos hanswers, length_append,
    length_singleton] at hcount
  rw [waiting, head?_drop]
  exact ⟨_, getElem?_eq_getElem hcount⟩

/-- An entry that answers nothing. -/
theorem Matched.other (h : Matched asks answers r history) (hanswers : ¬ answers a) :
    Matched asks answers r (history ++ [a]) := by
  intro i answer hi
  rw [filter_concat_of_neg hanswers] at hi
  obtain ⟨question, hquestion, hr⟩ := h i answer hi
  exact ⟨question, getElem?_filter_concat hquestion, hr⟩

/-- An answer is matched when it is related to the oldest question that waits. -/
theorem Matched.answer (h : Matched asks answers r history) (hanswers : answers a) {question : α}
    (hhead : (waiting asks answers history).head? = some question) (hr : r question a) :
    Matched asks answers r (history ++ [a]) := by
  rw [waiting, head?_drop] at hhead
  intro i answer hi
  rw [filter_concat_of_pos hanswers] at hi
  obtain hold | hlast := Nat.lt_or_ge i (history.filter answers).length
  · rw [getElem?_append_left hold] at hi
    obtain ⟨question', hquestion', hr'⟩ := h i answer hi
    exact ⟨question', getElem?_filter_concat hquestion', hr'⟩
  · have hend := (List.getElem?_eq_some_iff.mp hi).1
    rw [length_append, length_singleton] at hend
    obtain rfl : i = (history.filter answers).length := by omega
    rw [getElem?_concat_length] at hi
    obtain rfl := Option.some.inj hi
    exact ⟨question, getElem?_filter_concat hhead, hr⟩

end Stream
