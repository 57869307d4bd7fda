import Mathlib.Data.List.Basic
import Mathlib.Data.List.Infix
import Mathlib.Tactic

/-!
# Incremental decoding loops

A stream decoder keeps a buffer in its state.  A push appends a fragment to the
buffer (`feed`) and then turns a loop until a turn stops.  `drive` is that loop,
with a bound on the turns.  `Settles` is the same loop as a relation: it reaches
a turn that asks for more input without a report.

A turn function is *local* for `feed` when input that arrives later cannot change
what a turn does with the input it has: a turn that goes on does the same with a
longer buffer, and a turn that asks for more may be taken again once there is
more (`Local`).  A turn that takes more of a longer buffer, such as one that skips
what has arrived of a part to be skipped, is not local, but the loop still goes on
in the same way (`Resumes`).

`Reads` is the judgment this development proves about decoders.  A state reads
a byte string to another state and some messages when the loop settles without
a report on every prefix of it and settles there on the whole of it.  `Reads`
composes along concatenation (`Reads.append`), and a decoder that reads a string
emits the same messages whatever the fragmentation (`Reads.pushAll`).
-/

namespace Stream

open List

variable {σ μ ε β : Type}

/-! ## Batches and turns -/

/-- What one push reports: the messages it completed and the last fault. -/
structure Batch (μ ε : Type) where
  /-- Completed messages, oldest first. -/
  messages : List μ
  /-- The fault reported last. -/
  desynchronized : Option ε
deriving Repr, DecidableEq

namespace Batch

/-- Nothing to report. -/
def needMore : Batch μ ε := ⟨[], none⟩

/-- One batch after another.  A later fault replaces an earlier one. -/
def seq (a b : Batch μ ε) : Batch μ ε :=
  ⟨a.messages ++ b.messages, b.desynchronized.or a.desynchronized⟩

@[simp] theorem needMore_seq (b : Batch μ ε) : needMore.seq b = b := by
  simp [needMore, seq]

@[simp] theorem seq_needMore (b : Batch μ ε) : b.seq needMore = b := by
  simp [needMore, seq]

theorem seq_assoc (a b c : Batch μ ε) : (a.seq b).seq c = a.seq (b.seq c) := by
  simp [seq, Option.or_assoc]

@[simp] theorem seq_messages (a b : Batch μ ε) :
    (a.seq b).messages = a.messages ++ b.messages := rfl

@[simp] theorem seq_desynchronized_eq_none {a b : Batch μ ε} :
    (a.seq b).desynchronized = none ↔ a.desynchronized = none ∧ b.desynchronized = none := by
  rw [seq, Option.or_eq_none_iff]
  exact And.comm

end Batch

/-- One turn of a decoding loop: go round again, or stop. -/
inductive Turn (σ μ ε : Type) where
  | again (s : σ) (b : Batch μ ε)
  | stop (s : σ) (b : Batch μ ε)

/-- The turn with its state changed. -/
def Turn.map {σ' : Type} (f : σ → σ') : Turn σ μ ε → Turn σ' μ ε
  | .again s b => .again (f s) b
  | .stop s b => .stop (f s) b

/-! ## The loop -/

section Loop

variable {measure : σ → Nat} {s t s' : σ} {b c : Batch μ ε} {P : σ → Prop} {Q : μ → Prop}

variable (step : σ → Turn σ μ ε)

/-- Turn the loop at most `n` times. -/
def drive : Nat → σ → σ × Batch μ ε
  | 0, s => (s, .needMore)
  | n + 1, s =>
    match step s with
    | .again s' b => ((drive n s').1, b.seq (drive n s').2)
    | .stop s' b => (s', b)

/-- The loop after a turn. -/
def resume (n : Nat) : Turn σ μ ε → σ × Batch μ ε
  | .again s b => ((drive step n s).1, b.seq (drive step n s).2)
  | .stop s b => (s, b)

theorem drive_succ (n : Nat) (s : σ) : drive step (n + 1) s = resume step n (step s) := by
  cases h : step s with
  | again t b => simp [drive, resume, h]
  | stop t b => simp [drive, resume, h]

/-- The loop goes from `s` to `t` with the batch `b`, and its last turn only
asks for more input. -/
inductive Settles : σ → σ → Batch μ ε → Prop where
  | stop {s t : σ} : step s = .stop t .needMore → Settles s t .needMore
  | again {s s' t : σ} {b c : Batch μ ε} :
      step s = .again s' b → Settles s' t c → Settles s t (b.seq c)

/-- `measure` bounds the turns the loop can take. -/
def Decreases (measure : σ → Nat) : Prop :=
  ∀ s s' b, step s = .again s' b → measure s' < measure s

variable {step}

/-- With more fuel than the measure, the loop does not run out. -/
theorem drive_eq_of_lt (hm : Decreases step measure) :
    ∀ (n m : Nat) (s : σ), measure s < n → measure s < m → drive step n s = drive step m s
  | 0, _, _, h, _ => by omega
  | _, 0, _, _, h => by omega
  | n + 1, m + 1, s, hn, hm' => by
    cases hs : step s with
    | stop t b => simp [drive, hs]
    | again t b =>
      have hlt := hm s t b hs
      have ih := drive_eq_of_lt hm n m t (by omega) (by omega)
      simp [drive, hs, ih]

/-- The loop and the relation agree. -/
theorem Settles.drive (hm : Decreases step measure) (h : Settles step s t b) :
    ∀ n, measure s < n → Stream.drive step n s = (t, b) := by
  induction h with
  | stop hs =>
    intro n hn
    cases n with
    | zero => omega
    | succ n => simp [Stream.drive, hs]
  | again hs _ ih =>
    intro n hn
    cases n with
    | zero => omega
    | succ n =>
      have hlt := hm _ _ _ hs
      simp [Stream.drive, hs, ih n (by omega)]

/-- Two states that take the same turn run alike. -/
theorem drive_congr (hm : Decreases step measure) (h : step s = step t) {n m : Nat}
    (hn : measure s < n) (hm' : measure t < m) :
    drive step n s = drive step m t := by
  cases n with
  | zero => omega
  | succ n =>
  cases m with
  | zero => omega
  | succ m =>
    rw [drive_succ, drive_succ, h]
    cases ht : step t with
    | stop u c => rfl
    | again u c =>
      have h1 := hm _ _ _ ht
      have h2 := hm _ _ _ (h.trans ht)
      rw [resume, resume, drive_eq_of_lt hm n m u (by omega) (by omega)]

/-- With enough fuel the last turn is one that stops. -/
theorem drive_stops (hm : Decreases step measure) :
    ∀ (n : Nat) (s : σ), measure s < n → ∃ u c, step u = .stop (drive step n s).1 c
  | 0, _, h => by omega
  | n + 1, s, h => by
    cases hs : step s with
    | stop t c =>
      rw [drive_succ, hs]
      exact ⟨s, c, hs⟩
    | again t b =>
      have hlt := hm s t b hs
      rw [drive_succ, hs]
      exact drive_stops hm n t (by omega)

/-- What every turn keeps, and says of its messages, the loop keeps and says of all of
them. -/
theorem drive_invariant
    (hagain : ∀ {s t b}, step s = .again t b → P s → P t ∧ ∀ m ∈ b.messages, Q m)
    (hstop : ∀ {s t b}, step s = .stop t b → P s → P t ∧ ∀ m ∈ b.messages, Q m) :
    ∀ (n : Nat) (s : σ), P s → P (drive step n s).1 ∧ ∀ m ∈ (drive step n s).2.messages, Q m
  | 0, _, h => ⟨h, by simp [drive, Batch.needMore]⟩
  | n + 1, s, h => by
    rw [drive_succ]
    cases hs : step s with
    | stop t c => exact hstop hs h
    | again t b =>
      obtain ⟨ht, hb⟩ := hagain hs h
      obtain ⟨hlast, hrest⟩ := drive_invariant hagain hstop n t ht
      exact ⟨hlast, forall_mem_append.mpr ⟨hb, hrest⟩⟩

/-- What every turn keeps, the loop keeps. -/
theorem drive_keeps (hagain : ∀ {s t b}, step s = .again t b → P s → P t)
    (hstop : ∀ {s t b}, step s = .stop t b → P s → P t) (n : Nat) (s : σ) (h : P s) :
    P (drive step n s).1 :=
  (drive_invariant (Q := fun _ => True) (fun hs hp => ⟨hagain hs hp, by simp⟩)
    (fun hs hp => ⟨hstop hs hp, by simp⟩) n s h).1

/-- What every turn says of its messages holds of all messages of the loop. -/
theorem drive_messages (hagain : ∀ {s t b}, step s = .again t b → ∀ m ∈ b.messages, Q m)
    (hstop : ∀ {s t b}, step s = .stop t b → ∀ m ∈ b.messages, Q m) (n : Nat) (s : σ) :
    ∀ m ∈ (drive step n s).2.messages, Q m :=
  (drive_invariant (P := fun _ => True) (fun hs _ => ⟨trivial, hagain hs⟩)
    (fun hs _ => ⟨trivial, hstop hs⟩) n s trivial).2

variable (step) in
/-- The loop without a bound on its turns: from `s` it ends in `t` with the batch `b`. -/
inductive Halts : σ → σ → Batch μ ε → Prop where
  | stop {s t : σ} {b : Batch μ ε} : step s = .stop t b → Halts s t b
  | again {s s' t : σ} {b c : Batch μ ε} :
      step s = .again s' b → Halts s' t c → Halts s t (b.seq c)

theorem Settles.halts (h : Settles step s t b) : Halts step s t b := by
  induction h with
  | stop hs => exact .stop hs
  | again hs _ ih => exact .again hs ih

/-- The loop halts in one way. -/
theorem Halts.eq {t' : σ} {b' : Batch μ ε} (h : Halts step s t b) (h' : Halts step s t' b') :
    t = t' ∧ b = b' := by
  induction h generalizing b' with
  | stop hs =>
    cases h' with
    | stop hs' =>
      cases hs.symm.trans hs'
      exact ⟨rfl, rfl⟩
    | again hs' => cases hs.symm.trans hs'
  | again hs _ ih =>
    cases h' with
    | stop hs' => cases hs.symm.trans hs'
    | again hs' hrest =>
      cases hs.symm.trans hs'
      obtain ⟨rfl, rfl⟩ := ih hrest
      exact ⟨rfl, rfl⟩

variable (step) in
/-- Turns that go on, from `s` to `t`, with the batch `b`. -/
inductive Goes : σ → σ → Batch μ ε → Prop where
  | refl (s : σ) : Goes s s .needMore
  | again {s s' t : σ} {b c : Batch μ ε} :
      step s = .again s' b → Goes s' t c → Goes s t (b.seq c)

theorem Goes.settles (h : Goes step s s' b)
    (hrun : Settles step s' t c) : Settles step s t (b.seq c) := by
  induction h with
  | refl => rwa [Batch.needMore_seq]
  | again hs _ ih =>
    rw [Batch.seq_assoc]
    exact .again hs (ih hrun)

/-- A loop that goes on halts as it does from where it has got to. -/
theorem Goes.halts (h : Goes step s s' b) (hrun : Halts step s t c) :
    ∃ c', Halts step s' t c' ∧ c = b.seq c' := by
  induction h generalizing c with
  | refl => exact ⟨c, hrun, (Batch.needMore_seq c).symm⟩
  | again hs _ ih =>
    cases hrun with
    | stop hstop =>
      rw [hs] at hstop
      cases hstop
    | again hagain hrest =>
      rw [hs] at hagain
      cases hagain
      obtain ⟨c', hlast, rfl⟩ := ih hrest
      exact ⟨c', hlast, (Batch.seq_assoc ..).symm⟩

/-- With enough fuel the loop with a bound is the loop without. -/
theorem drive_halts (hm : Decreases step measure) :
    ∀ (n : Nat) (s : σ), measure s < n → Halts step s (drive step n s).1 (drive step n s).2
  | 0, _, h => by omega
  | n + 1, s, h => by
    rw [drive_succ]
    cases hs : step s with
    | stop t c => exact .stop hs
    | again t b =>
      have hlt := hm s t b hs
      exact .again hs (drive_halts hm n t (by omega))

/-- A loop ends where a turn asks for more input, or where one stops with something
to say. -/
theorem settles_or_stops (hm : Decreases step measure) :
    ∀ (n : Nat) (s : σ), measure s < n →
      Settles step s (drive step n s).1 (drive step n s).2 ∨
        ∃ (u : σ) (b c : Batch μ ε), step u = .stop (drive step n s).1 c ∧ c ≠ .needMore ∧
          (drive step n s).2 = b.seq c
  | 0, _, h => by omega
  | n + 1, s, h => by
    cases hs : step s with
    | stop t c =>
      simp only [drive_succ, hs, resume]
      by_cases hc : c = .needMore
      · subst hc
        exact .inl (.stop hs)
      · exact .inr ⟨s, .needMore, c, hs, hc, (Batch.needMore_seq c).symm⟩
    | again t b =>
      have hlt := hm s t b hs
      simp only [drive_succ, hs, resume]
      rcases settles_or_stops hm n t (by omega) with ih | ⟨u, b', c, hu, hc, heq⟩
      · exact .inl (.again hs ih)
      · exact .inr ⟨u, b.seq b', c, hu, hc, by rw [heq, Batch.seq_assoc]⟩

/-- Two states that take the same turn settle alike. -/
theorem Settles.congr (h : Settles step s' t b) (heq : step s = step s') : Settles step s t b := by
  cases h with
  | stop hs => exact .stop (heq.trans hs)
  | again hs ht => exact .again (heq.trans hs) ht

end Loop

/-! ## Buffers that grow -/

/-- Appending input to a state. -/
structure Feed (σ β : Type) where
  /-- Append a fragment. -/
  feed : σ → List β → σ
  feed_nil : ∀ s, feed s [] = s
  feed_append : ∀ s x y, feed (feed s x) y = feed s (x ++ y)

/-- A state that is only a buffer. -/
def Feed.list : Feed (List β) β where
  feed s x := s ++ x
  feed_nil := append_nil
  feed_append s x y := append_assoc s x y

@[simp] theorem Feed.list_feed (s x : List β) : Feed.list.feed s x = s ++ x := rfl

/-- Later input does not change what a turn did. -/
structure Local (step : σ → Turn σ μ ε) (F : Feed σ β) : Prop where
  again : ∀ {s t b}, step s = .again t b → ∀ x, step (F.feed s x) = .again (F.feed t x) b
  stop : ∀ {s t}, step s = .stop t .needMore → ∀ x, step (F.feed s x) = step (F.feed t x)

/-- Later input does not change what the loop does. -/
structure Resumes (step : σ → Turn σ μ ε) (F : Feed σ β) : Prop where
  again : ∀ {s t b}, step s = .again t b →
    ∀ x, ∃ u, step (F.feed s x) = .again u b ∧ step u = step (F.feed t x)
  stop : ∀ {s t}, step s = .stop t .needMore → ∀ x, step (F.feed s x) = step (F.feed t x)

theorem Local.resumes {step : σ → Turn σ μ ε} {F : Feed σ β} (hl : Local step F) :
    Resumes step F where
  again h x := ⟨_, hl.again h x, rfl⟩
  stop := hl.stop

section Fragments

variable {s t u : σ} {b c : Batch μ ε} {x v w : List β} {measure : σ → Nat} {out : List μ}

variable {step : σ → Turn σ μ ε} {F : Feed σ β}

/-- A loop that settled goes on from where it settled. -/
theorem Settles.feed (hl : Resumes step F) (h : Settles step s t b)
    (hx : Settles step (F.feed t x) u c) :
    Settles step (F.feed s x) u (b.seq c) := by
  induction h with
  | stop hs =>
    rw [Batch.needMore_seq]
    exact hx.congr (hl.stop hs x)
  | again hs _ ih =>
    obtain ⟨v, hv, heq⟩ := hl.again hs x
    rw [Batch.seq_assoc]
    exact .again hv ((ih hx).congr heq)

/-- Where a loop settles, it waits. -/
theorem Settles.waits (hl : Resumes step F) (h : Settles step s t b) :
    step t = .stop t .needMore := by
  induction h with
  | stop hs =>
    have hnil := hl.stop hs []
    rw [F.feed_nil, F.feed_nil, hs] at hnil
    exact hnil.symm
  | again _ _ ih => exact ih

/-- What a loop that settled does with later input is what the loop on both does last. -/
theorem Settles.rest (hl : Resumes step F) (h : Settles step s u c)
    (hx : Settles step (F.feed s x) t b) :
    ∃ b', Settles step (F.feed u x) t b' ∧ b = c.seq b' := by
  induction h generalizing b with
  | stop hs => exact ⟨b, hx.congr (hl.stop hs x).symm, (Batch.needMore_seq b).symm⟩
  | again hs _ ih =>
    obtain ⟨v, hv, heq⟩ := hl.again hs x
    cases hx with
    | stop hstop => rw [hv] at hstop; cases hstop
    | again hagain ht =>
      rw [hv] at hagain
      cases hagain
      obtain ⟨b', hb', rfl⟩ := ih (ht.congr heq.symm)
      exact ⟨b', hb', Batch.seq_assoc .. |>.symm⟩

/-- If a turn that stops with something to say stands whatever comes after it, a loop
that settles on an input settles on its first part. -/
theorem Settles.of_feed (hm : Decreases step measure) (hl : Resumes step F)
    (hfinal : ∀ {s t b}, step s = .stop t b → b ≠ .needMore →
      ∀ x, ∃ t', step (F.feed s x) = .stop t' b) (h : Settles step (F.feed s x) t b) :
    ∃ u c, Settles step s u c := by
  induction hn : measure s using Nat.strong_induction_on generalizing s b with
  | _ n ih =>
  cases hs : step s with
  | stop u c =>
    by_cases hc : c = .needMore
    · subst hc
      exact ⟨u, _, .stop hs⟩
    · obtain ⟨t', ht'⟩ := hfinal hs hc x
      cases h with
      | stop hstop => rw [ht'] at hstop; cases hstop; exact absurd rfl hc
      | again hagain _ => rw [ht'] at hagain; cases hagain
  | again s' b' =>
    obtain ⟨v, hv, heq⟩ := hl.again hs x
    cases h with
    | stop hstop => rw [hv] at hstop; cases hstop
    | again hagain ht =>
      rw [hv] at hagain
      cases hagain
      obtain ⟨u, c, hu⟩ := ih _ (hn ▸ hm _ _ _ hs) (ht.congr heq.symm) rfl
      exact ⟨u, _, .again hs hu⟩

/-- The loop on a longer input, where the first turn goes on without it. -/
theorem drive_feed_again (hm : Decreases step measure) (hl : Resumes step F) {s' : σ}
    (hs : step s = .again s' b) (x : List β) {n : Nat} (hn : measure (F.feed s x) < n) :
    drive step n (F.feed s x) =
      ((drive step (measure (F.feed s' x) + 1) (F.feed s' x)).1,
        b.seq (drive step (measure (F.feed s' x) + 1) (F.feed s' x)).2) := by
  obtain ⟨v, hv, heq⟩ := hl.again hs x
  have hlt := hm _ _ _ hv
  cases n with
  | zero => omega
  | succ n =>
    have hrest := drive_congr hm heq (show measure v < n by omega)
      (Nat.lt_succ_self (measure (F.feed s' x)))
    rw [drive_succ, hv, resume, hrest]

/-- The loop on a longer input is the loop on the first part and then the loop
on the rest. -/
theorem Settles.drive_feed (hm : Decreases step measure) (hl : Resumes step F)
    (h : Settles step s t b) (x : List β) :
    ∀ n m, measure (F.feed s x) < n → measure (F.feed t x) < m →
      Stream.drive step n (F.feed s x) =
        ((Stream.drive step m (F.feed t x)).1, b.seq (Stream.drive step m (F.feed t x)).2) := by
  induction h with
  | stop hs =>
    intro n m hn hm'
    rw [Batch.needMore_seq]
    exact drive_congr hm (hl.stop hs x) hn hm'
  | again hs _ ih =>
    intro n m hn hm'
    rw [drive_feed_again hm hl hs x hn, ih _ m (Nat.lt_succ_self _) hm', Batch.seq_assoc]

variable (step F) in
/-- A turn that stops with something to say stands whatever comes after it, and the
loop does nothing from there on. -/
def Closes : Prop :=
  ∀ {s t b}, step s = .stop t b → b ≠ .needMore →
    ∀ x, step (F.feed s x) = .stop t b ∧ step (F.feed t x) = .stop t .needMore

/-- The same for a loop that ends with something to say, where such an end is final. -/
theorem Halts.drive_feed (hm : Decreases step measure) (hl : Resumes step F) (hc : Closes step F)
    (h : Halts step s t b) (x : List β) :
    ∀ n m, measure (F.feed s x) < n → measure (F.feed t x) < m →
      Stream.drive step n (F.feed s x) =
        ((Stream.drive step m (F.feed t x)).1, b.seq (Stream.drive step m (F.feed t x)).2) := by
  induction h with
  | @stop s t b hs =>
    intro n m hn hm'
    by_cases hb : b = .needMore
    · subst hb
      exact (Settles.stop hs).drive_feed hm hl x n m hn hm'
    · obtain ⟨hfirst, hlast⟩ := hc hs hb x
      obtain ⟨n, rfl⟩ := Nat.exists_eq_add_one_of_ne_zero (Nat.ne_of_gt (Nat.zero_lt_of_lt hn))
      obtain ⟨m, rfl⟩ := Nat.exists_eq_add_one_of_ne_zero (Nat.ne_of_gt (Nat.zero_lt_of_lt hm'))
      rw [drive_succ, drive_succ, hfirst, hlast, resume, resume, Batch.seq_needMore]
  | again hs _ ih =>
    intro n m hn hm'
    rw [drive_feed_again hm hl hs x hn, ih _ m (Nat.lt_succ_self _) hm', Batch.seq_assoc]

/-- A prefix of a concatenation ends in the first part or in the second. -/
theorem prefix_append_cases {p : List β} (h : p <+: v ++ w) :
    p <+: v ∨ ∃ q, p = v ++ q ∧ q <+: w := by
  rcases prefix_or_prefix_of_prefix h (prefix_append v w) with hv | ⟨q, rfl⟩
  · exact Or.inl hv
  · exact Or.inr ⟨q, rfl, (prefix_append_right_inj v).mp h⟩

variable (step F) in
/-- The state `s` reads `w` to `t` and emits `out`, without a report on any
prefix of `w`. -/
structure Reads (s : σ) (w : List β) (t : σ) (out : List μ) : Prop where
  pre : ∀ p, p <+: w → ∃ u c, Settles step (F.feed s p) u c ∧ c.desynchronized = none
  full : Settles step (F.feed s w) t ⟨out, none⟩

/-- A state that waits reads the empty string. -/
theorem Reads.nil (h : step s = .stop s .needMore) : Reads step F s [] s [] where
  pre p hp := by
    rw [prefix_nil.mp hp, F.feed_nil]
    exact ⟨s, .needMore, .stop h, rfl⟩
  full := by
    rw [F.feed_nil]
    exact .stop h

/-- One string after another. -/
theorem Reads.append (hl : Resumes step F) {out' : List μ} (h : Reads step F s v t out)
    (h' : Reads step F t w u out') :
    Reads step F s (v ++ w) u (out ++ out') where
  pre p hp := by
    rcases prefix_append_cases hp with hp | ⟨q, rfl, hq⟩
    · exact h.pre p hp
    · obtain ⟨t', c, ht, hc⟩ := h'.pre q hq
      refine ⟨t', Batch.seq ⟨out, none⟩ c, ?_, ?_⟩
      · rw [← F.feed_append]
        exact h.full.feed hl ht
      · simp [hc]
  full := by
    rw [← F.feed_append]
    exact h.full.feed hl h'.full

/-- A turn that stops on the whole string and on its proper prefixes. -/
theorem Reads.of_stop (hpre : ∀ p, p <+: w → p ≠ w →
      ∃ u c, Settles step (F.feed s p) u c ∧ c.desynchronized = none)
    (hfull : Settles step (F.feed s w) t ⟨out, none⟩) : Reads step F s w t out where
  pre p hp := by
    by_cases hpw : p = w
    · subst hpw
      exact ⟨t, _, hfull, rfl⟩
    · exact hpre p hp hpw
  full := hfull

/-- A list of strings, each read from the state where the one before it ended. -/
theorem Reads.flatMap (hl : Resumes step F) {ι : Type} (hs : step s = .stop s .needMore)
    {enc : ι → List β} {msg : ι → List μ} :
    ∀ {is : List ι}, (∀ i ∈ is, Reads step F s (enc i) s (msg i)) →
      Reads step F s (is.flatMap enc) s (is.flatMap msg)
  | [], _ => by simpa using Reads.nil hs
  | i :: is, h => by
    simp only [flatMap_cons]
    exact (h i (mem_cons_self ..)).append hl
      (Reads.flatMap hl hs fun j hj => h j (mem_cons_of_mem _ hj))

/-! ## Pushing fragments -/

/-- One push: append the fragment, then turn the loop. -/
def push (step : σ → Turn σ μ ε) (F : Feed σ β) (measure : σ → Nat) (s : σ) (x : List β) :
    σ × Batch μ ε :=
  drive step (measure (F.feed s x) + 1) (F.feed s x)

/-- The batches of a sequence of pushes, and the last state. -/
def pushAll (step : σ → Turn σ μ ε) (F : Feed σ β) (measure : σ → Nat) :
    σ → List (List β) → σ × List (Batch μ ε)
  | s, [] => (s, [])
  | s, x :: xs =>
    let r := push step F measure s x
    let rs := pushAll step F measure r.1 xs
    (rs.1, r.2 :: rs.2)

/-- Pushes after a settled prefix: each one settles, and none reports. -/
theorem pushAll_of_prefix (hm : Decreases step measure) (hl : Resumes step F)
    (hpre : ∀ p, p <+: w → ∃ u c, Settles step (F.feed s p) u c ∧ c.desynchronized = none) :
    ∀ (xs : List (List β)) (p : List β) (u : σ) (c : Batch μ ε),
      p ++ xs.flatten <+: w → Settles step (F.feed s p) u c →
      ∃ d : Batch μ ε, Settles step (F.feed s (p ++ xs.flatten)) (pushAll step F measure u xs).1 d ∧
        d.messages = c.messages ++ (pushAll step F measure u xs).2.flatMap Batch.messages ∧
        ∀ b ∈ (pushAll step F measure u xs).2, b.desynchronized = none
  | [], p, u, c, _, hc => by
    refine ⟨c, ?_, ?_, ?_⟩
    · simpa [pushAll] using hc
    · simp [pushAll]
    · simp [pushAll]
  | x :: xs, p, u, c, hw, hc => by
    rw [flatten_cons, ← append_assoc] at hw
    obtain ⟨u', c', hc', hd'⟩ := hpre (p ++ x) ((prefix_append ..).trans hw)
    -- The push from `u` is the loop on the longer prefix, less what was settled before.
    have hrun := hc.drive_feed hm hl x (measure (F.feed (F.feed s p) x) + 1)
      (measure (F.feed u x) + 1) (Nat.lt_succ_self _) (Nat.lt_succ_self _)
    rw [F.feed_append, hc'.drive hm _ (Nat.lt_succ_self _)] at hrun
    have hu : u' = (push step F measure u x).1 := congrArg Prod.fst hrun
    have hb : c' = c.seq (push step F measure u x).2 := congrArg Prod.snd hrun
    rw [hb, Batch.seq_desynchronized_eq_none] at hd'
    rw [hu] at hc'
    obtain ⟨d, h1, h2, h3⟩ :=
      pushAll_of_prefix hm hl hpre xs (p ++ x) _ c' hw hc'
    refine ⟨d, ?_, ?_, ?_⟩
    · rw [flatten_cons, ← append_assoc]
      exact h1
    · rw [h2, hb]
      simp [pushAll, append_assoc]
    · simp only [pushAll, mem_cons, forall_eq_or_imp]
      exact ⟨hd'.2, h3⟩

/-- Whatever the fragmentation, a decoder that reads a string ends in the same
state, emits the same messages and reports nothing. -/
theorem Reads.pushAll (hm : Decreases step measure) (hl : Resumes step F)
    (hs : step s = .stop s .needMore) (h : Reads step F s w t out) {xs : List (List β)}
    (hx : xs.flatten = w) :
    (Stream.pushAll step F measure s xs).1 = t ∧
      (Stream.pushAll step F measure s xs).2.flatMap Batch.messages = out ∧
      ∀ b ∈ (Stream.pushAll step F measure s xs).2, b.desynchronized = none := by
  have h0 : Settles step (F.feed s []) s .needMore := by
    rw [F.feed_nil]
    exact .stop hs
  obtain ⟨d, h1, h2, h3⟩ := pushAll_of_prefix hm hl h.pre xs [] s .needMore
    (by simp [hx]) h0
  rw [nil_append, hx] at h1
  have e1 := h1.drive hm _ (Nat.lt_succ_self _)
  rw [h.full.drive hm _ (Nat.lt_succ_self _)] at e1
  have ht : t = _ := congrArg Prod.fst e1
  have hd : (⟨out, none⟩ : Batch μ ε) = d := congrArg Prod.snd e1
  rw [← hd] at h2
  exact ⟨ht.symm, by simpa [Batch.needMore] using h2.symm, h3⟩

/-! ## Silent runs

A turn function is *plain* when a turn that stops without a report only asks for
more.  For such a loop the absence of reports already means that it settles, so
a silent sequence of pushes has read the whole input. -/

variable (step) in
/-- A turn that stops without a report has nothing to say. -/
def Plain : Prop := ∀ s t b, step s = .stop t b → b.desynchronized = none → b = .needMore

/-- A loop without a report settles. -/
theorem Plain.settles (hp : Plain step) (hm : Decreases step measure) :
    ∀ (n : Nat) (s : σ), measure s < n → (drive step n s).2.desynchronized = none →
      Settles step s (drive step n s).1 (drive step n s).2
  | 0, _, h, _ => by omega
  | n + 1, s, h, hq => by
    cases hs : step s with
    | stop t b =>
      simp only [drive, hs] at hq ⊢
      obtain rfl := hp s t b hs hq
      exact .stop hs
    | again t b =>
      have hlt := hm s t b hs
      simp only [drive, hs, Batch.seq_desynchronized_eq_none] at hq ⊢
      exact .again hs (hp.settles hm n t (by omega) hq.2)

/-- Two pushes without a report are one push. -/
theorem Plain.push_append (hp : Plain step) (hm : Decreases step measure) (hl : Resumes step F)
    {y : List β} (hx : (push step F measure s x).2.desynchronized = none)
    (hy : (push step F measure (push step F measure s x).1 y).2.desynchronized = none) :
    push step F measure s (x ++ y) = ((push step F measure (push step F measure s x).1 y).1,
      (push step F measure s x).2.seq (push step F measure (push step F measure s x).1 y).2) := by
  have hfirst := hp.settles hm _ (F.feed s x) (Nat.lt_succ_self _) hx
  have hsecond := hp.settles hm _ (F.feed _ y) (Nat.lt_succ_self _) hy
  have hboth := hfirst.feed hl hsecond
  rw [F.feed_append] at hboth
  exact hboth.drive hm _ (Nat.lt_succ_self _)

/-- Pushes without a report settle on the whole input, with the messages of all of them. -/
theorem Plain.settles_pushAll (hp : Plain step) (hm : Decreases step measure)
    (hl : Resumes step F) :
    ∀ (xs : List (List β)) (s t : σ) (b : Batch μ ε), Settles step s t b →
      b.desynchronized = none →
      (∀ c ∈ (Stream.pushAll step F measure t xs).2, c.desynchronized = none) →
      Settles step (F.feed s xs.flatten) (Stream.pushAll step F measure t xs).1
        ⟨b.messages ++ (Stream.pushAll step F measure t xs).2.flatMap Batch.messages, none⟩
  | [], s, t, ⟨ms, fault⟩, h, hb, _ => by
    obtain rfl : fault = none := hb
    rw [flatten_nil, F.feed_nil, Stream.pushAll, flatMap_nil, append_nil]
    exact h
  | x :: xs, s, t, b, h, hb, hq => by
    simp only [Stream.pushAll, mem_cons, forall_eq_or_imp] at hq
    have hx := hp.settles hm _ (F.feed t x) (Nat.lt_succ_self _) hq.1
    have hsx := h.feed hl hx
    have hrest := hp.settles_pushAll hm hl xs _ _ _ hsx (by simp [hb]; exact hq.1) hq.2
    rw [flatten_cons, ← F.feed_append]
    rw [Batch.seq_messages, append_assoc] at hrest
    exact hrest

end Fragments

end Stream
