import Lens.Postgres.Turns
import Lens.Stream.Commuting

/-!
# The two directions in any order

The fragments of the two directions reach the decoder in an order that is not the order
of the conversation.  Take the bytes that have not been pushed yet as already in the
buffers (`ahead`).  Then a push is a run of turns of its direction (`runs_of_silent`),
and turns of the two directions commute (`moves_commuting`): both directions can turn
only in the typed phase, where each reads its own buffer.  So every order of the
fragments can be completed to the same end with the same messages, unless a buffer
overflows.

What is not done by the decoder is the completion.  A push turns its own direction only,
so when it begins a phase for the other direction, bytes of that direction that arrived
earlier wait for the next push there, and without one `finish` drops them with a report.
The messages are the same in two orders exactly when this does not happen
(`sameMessages_iff`).
-/

namespace Lens.Postgres

open List
open Search (beNat)
open Stream (Turn Runs Ended Commuting outputs)

variable {d d' : Direction}

theorem Phase.eq_typed_of_reads {phase : Phase} (hne : d' ≠ d) (h : phase.reads d = true)
    (h' : phase.reads d' = true) : phase = .typed := by
  cases phase <;> cases d <;> cases d' <;> simp_all [Phase.reads]

namespace PostgresDecoder

variable {b : DecodeBatch} {x : Bytes}

variable {s t u : PostgresDecoder} {m : DecodedMessage}
  {maxBody : Nat} {phase next : Phase} {rest : Bytes}

/-! ## Moves -/

/-- A turn that gives a message. -/
def Moves (d : Direction) (s : PostgresDecoder) (m : DecodedMessage) (t : PostgresDecoder) : Prop :=
  turn d s = .again t ⟨[m], none⟩ ∨ turn d s = .stop t ⟨[m], none⟩

/-- A turn that reports. -/
def Faults (d : Direction) (s : PostgresDecoder) : Prop :=
  ∃ t reason, turn d s = .stop t ⟨[], some reason⟩

theorem Moves.reads (h : Moves d s m t) : s.phase.reads d = true := by
  have hturn := turns_turn d s
  rcases h with h | h
  · rw [h] at hturn
    cases hturn with
    | message hp => rw [hp]; rfl
    | phase hp => exact hp
  · rw [h] at hturn
    cases hturn with
    | ends hp => exact hp

theorem Faults.reads (h : Faults d s) : s.phase.reads d = true := by
  obtain ⟨t, reason, h⟩ := h
  have hturn := turns_turn d s
  rw [h] at hturn
  cases hturn with
  | report hp => exact hp

/-- In the typed phase a message leaves the phase and the other buffer. -/
theorem Moves.typed (h : Moves d s m t) (hs : s.phase = .typed) :
    turn d s = .again t ⟨[m], none⟩ ∧ ∃ b, t = s.setBuffer d b := by
  have hturn := turns_turn d s
  rcases h with h | h
  · rw [h] at hturn
    cases hturn with
    | @message b _ hp _ => exact ⟨h, b, rfl⟩
    | phase _ hp => exact absurd hs hp
  · rw [h] at hturn
    cases hturn with
    | ends _ hp => exact absurd hs hp

/-- A turn that goes on does so whatever the other buffer holds. -/
theorem turn_setBuffer_again (hne : d' ≠ d) (h : turn d s = .again t b)
    (x : Bytes) : turn d (s.setBuffer d' x) = .again (t.setBuffer d' x) b := by
  rw [turn_eq] at h ⊢
  rw [setBuffer_phase, setBuffer_maxBody, buffer_setBuffer_of_ne _ _ hne, setBuffer_comm _ hne.symm]
  generalize offered s.maxBody s.phase d (s.buffer d) = r at h
  obtain ⟨rest, o⟩ := r
  cases o with
  | needMore => cases h
  | message m => cases h; rfl
  | messageAndPhase m next =>
    by_cases hnext : next = .opaqueTraffic
    · simp only [conclude, if_pos hnext] at h
      cases h
    · simp only [conclude, if_neg hnext] at h ⊢
      cases h
      cases d' <;> rfl
  | desynchronized reason => cases h

/-- A turn that reports does so whatever the other buffer holds. -/
theorem Faults.setBuffer (hne : d' ≠ d) (h : Faults d s) (x : Bytes) :
    Faults d (s.setBuffer d' x) := by
  obtain ⟨t, reason, h⟩ := h
  refine ⟨t, reason, ?_⟩
  rw [turn_eq] at h ⊢
  rw [setBuffer_phase, setBuffer_maxBody, buffer_setBuffer_of_ne _ _ hne, setBuffer_comm _ hne.symm]
  generalize offered s.maxBody s.phase d (s.buffer d) = r at h
  obtain ⟨rest, o⟩ := r
  cases o with
  | needMore => cases h
  | message m => cases h
  | messageAndPhase m next =>
    by_cases hnext : next = .opaqueTraffic
    · simp only [conclude, if_pos hnext] at h
      cases h
    · simp only [conclude, if_neg hnext] at h
      cases h
  | desynchronized reason =>
    simp only [conclude, goOpaque_setBuffer] at h ⊢
    exact h

/-- Only in the typed phase can both directions move, and there they do not meet. -/
theorem moves_commuting : Commuting Moves where
  unique := by
    rintro d s m t m' t' (h | h) (h' | h')
    all_goals
      rw [h] at h'
      cases h'
    · exact ⟨rfl, rfl⟩
    · exact ⟨rfl, rfl⟩
  comm := by
    intro d d' s m t n u hne h h'
    have hs := Phase.eq_typed_of_reads hne.symm h.reads h'.reads
    obtain ⟨hd, b, rfl⟩ := h.typed hs
    obtain ⟨hd', b', rfl⟩ := h'.typed hs
    refine ⟨(s.setBuffer d b).setBuffer d' b', .inl ?_, .inl ?_⟩
    · rw [setBuffer_comm _ hne.symm]
      exact turn_setBuffer_again hne hd' b
    · exact turn_setBuffer_again hne.symm hd b'

/-- A report stays due while the other direction moves. -/
theorem Moves.faults (h : Moves d s m t) {d₀ : Direction} (hf : Faults d₀ s) : Faults d₀ t := by
  by_cases hne : d = d₀
  · subst hne
    obtain ⟨u, reason, hf⟩ := hf
    rcases h with h | h
    · rw [h] at hf; cases hf
    · rw [h] at hf; cases hf
  · obtain ⟨-, b, rfl⟩ := h.typed (Phase.eq_typed_of_reads hne hf.reads h.reads)
    exact hf.setBuffer hne b

/-- No direction has a turn that does something. -/
def Done (s : PostgresDecoder) : Prop := ∀ d, turn d s = .stop s .needMore

theorem Done.ended (h : Done s) : Ended Moves s := by
  rintro d m t (hm | hm)
  · rw [h d] at hm; cases hm
  · rw [h d] at hm; cases hm

theorem Done.not_faults (h : Done s) : ¬ Faults d s := by
  rintro ⟨t, reason, hf⟩
  rw [h d] at hf
  cases hf

/-! ## Bytes to come -/

/-- A turn that does something does the same with later bytes of either direction. -/
theorem turn_feed_any (h : turn d s ≠ .stop s .needMore) (d' : Direction) (x : Bytes) :
    turn d ((bytes d').feed s x) = (turn d s).map ((bytes d').feed · x) := by
  by_cases hne : d' = d
  · subst hne
    exact turn_feed h x
  · exact turn_feed_other hne s x

theorem Moves.feed (h : Moves d s m t) (d' : Direction) (x : Bytes) :
    Moves d ((bytes d').feed s x) m ((bytes d').feed t x) := by
  rcases h with h | h
  · refine .inl ?_
    rw [turn_feed_any (by rw [h]; simp), h]
    rfl
  · refine .inr ?_
    rw [turn_feed_any (by rw [h]; simp [Stream.Batch.needMore]), h]
    rfl

theorem Faults.feed (h : Faults d s) (d' : Direction) (x : Bytes) :
    Faults d ((bytes d').feed s x) := by
  obtain ⟨t, reason, h⟩ := h
  refine ⟨(bytes d').feed t x, reason, ?_⟩
  rw [turn_feed_any (by rw [h]; simp [Stream.Batch.needMore]), h]
  rfl

/-- The state with the bytes of some fragments in the buffers. -/
def ahead (s : PostgresDecoder) (fs : List Fragment) : PostgresDecoder :=
  fs.foldl (fun s f => (bytes f.1).feed s f.2) s

@[simp] theorem ahead_nil (s : PostgresDecoder) : s.ahead [] = s := rfl

@[simp] theorem ahead_cons (s : PostgresDecoder) (x : Bytes) (fs : List Fragment) :
    s.ahead ((d, x) :: fs) = ((bytes d).feed s x).ahead fs := rfl

theorem Moves.ahead (h : Moves d s m t) (fs : List Fragment) :
    Moves d (s.ahead fs) m (t.ahead fs) := by
  induction fs generalizing s t with
  | nil => exact h
  | cons f fs ih => exact ih (h.feed f.1 f.2)

theorem Faults.ahead (h : Faults d s) (fs : List Fragment) : Faults d (s.ahead fs) := by
  induction fs generalizing s with
  | nil => exact h
  | cons f fs ih => exact ih (h.feed f.1 f.2)

/-- Of the fragments only the bytes of each direction matter. -/
theorem ahead_eq : ∀ (fs : List Fragment) (s : PostgresDecoder), s.phase ≠ .opaqueTraffic →
    s.ahead fs = (s.setBuffer .clientToServer (s.client ++ bytesOf .clientToServer fs)).setBuffer
      .serverToClient (s.server ++ bytesOf .serverToClient fs)
  | [], s, _ => by simp [bytesOf, fragmentsOf, setBuffer]
  | (d, x) :: fs, s, hs => by
    rw [ahead_cons, bytes_feed hs, ahead_eq fs _ (by rwa [setBuffer_phase])]
    cases d <;> simp [setBuffer, buffer]

/-! ## Pushes as runs -/

/-- A loop that does not report is a run of its direction, and one that does comes to a
report by such a run. -/
theorem runs_of_halts (h : Stream.Halts (turn d) s t b) :
    (b.desynchronized = none → Runs Moves s (b.messages.map (d, ·)) t) ∧
      (b.desynchronized ≠ none → ∃ w u, Runs Moves s w u ∧ Faults d u) := by
  induction h with
  | @stop s t b hs =>
    have hturn := turns_turn d s
    rw [hs] at hturn
    cases hturn with
    | waits => exact ⟨fun _ => .nil _, fun hb => absurd rfl hb⟩
    | ends => exact ⟨fun _ => .cons (.inr hs) (.nil _), fun hb => absurd rfl hb⟩
    | report =>
      refine ⟨?_, ?_⟩
      · intro hb
        cases hb
      · intro _
        exact ⟨[], s, .nil s, _, _, hs⟩
  | @again s s' t b c hs _ ih =>
    obtain ⟨m, rfl⟩ : ∃ m, b = ⟨[m], none⟩ := by
      have hturn := turns_turn d s
      rw [hs] at hturn
      cases hturn with
      | message => exact ⟨_, rfl⟩
      | phase => exact ⟨_, rfl⟩
    have hmove : Moves d s m s' := .inl hs
    have hdes : (Stream.Batch.seq ⟨[m], none⟩ c : DecodeBatch).desynchronized =
        c.desynchronized := Option.or_none
    rw [hdes]
    refine ⟨?_, ?_⟩
    · intro hc
      exact .cons hmove (ih.1 hc)
    · intro hc
      obtain ⟨w, u, hw, hu⟩ := ih.2 hc
      exact ⟨_, u, .cons hmove hw, hu⟩

theorem takes_of_silent (h : (s.push d x).2.desynchronized = none) :
    s.Takes d x := by
  by_contra hn
  rw [push_of_not_takes hn] at h
  cases h

theorem push_halts (h : s.Takes d x) :
    Stream.Halts (turn d) ((bytes d).feed s x) (s.push d x).1 (s.push d x).2 := by
  rw [push_eq h]
  exact Stream.drive_halts (turn_decreases d) _ _ (Nat.lt_succ_self _)

/-- The state after some fragments. -/
def after (s : PostgresDecoder) (fs : List Fragment) : PostgresDecoder :=
  fs.foldl (fun s f => (s.push f.1 f.2).1) s

/-- A silent run of the decoder is a run on all the bytes. -/
theorem runs_of_silent : ∀ (fs : List Fragment) (s : PostgresDecoder), Silent (run s fs) →
    ∃ w, Runs Moves (s.ahead fs) w (s.after fs) ∧ ∀ d, outputs d w = emitted d (run s fs)
  | [], s, _ => ⟨[], .nil s, fun _ => rfl⟩
  | (d, x) :: fs, s, h => by
    rw [Silent, run, forall_mem_cons] at h
    have hpush := (runs_of_halts (push_halts (takes_of_silent h.1))).1 h.1
    obtain ⟨w, hw, hout⟩ := runs_of_silent fs _ h.2
    refine ⟨_, (hpush.map (fun hm => hm.ahead fs)).append hw, ?_⟩
    intro d'
    rw [Stream.outputs_append, hout, run]
    by_cases hne : d = d'
    · subst hne
      rw [Stream.outputs_map_self, emitted_cons_self]
    · rw [Stream.outputs_map_of_ne hne, emitted_cons_of_ne hne, nil_append]

/-- The decoder takes the bytes of every push. -/
def Taken : PostgresDecoder → List Fragment → Prop
  | _, [] => True
  | s, (d, x) :: fs => s.Takes d x ∧ Taken (s.push d x).1 fs

/-- If the bytes can be read to the end in some order, a run is silent in every order in
which no buffer overflows. -/
theorem silent_of_taken : ∀ (fs : List Fragment) (s t : PostgresDecoder)
    (w : List (Direction × DecodedMessage)), Runs Moves (s.ahead fs) w t → Done t → Taken s fs →
      Silent (run s fs)
  | [], _, _, _, _, _, _ => by simp [run, Silent]
  | (d, x) :: fs, s, t, w, hw, ht, htaken => by
    obtain ⟨hruns, hfaults⟩ := runs_of_halts (push_halts htaken.1)
    have hquiet : (s.push d x).2.desynchronized = none := by
      by_contra hreport
      obtain ⟨w', u, hw', hu⟩ := hfaults hreport
      obtain ⟨rest, hrest, -⟩ := hw.completes moves_commuting ht.ended
        (hw'.map (fun hm => hm.ahead fs))
      exact ht.not_faults (hrest.keeps (fun hm hf => hm.faults hf) (hu.ahead fs))
    obtain ⟨rest, hrest, -⟩ := hw.completes moves_commuting ht.ended
      ((hruns hquiet).map (fun hm => hm.ahead fs))
    rw [Silent, run, forall_mem_cons]
    exact ⟨hquiet, silent_of_taken fs _ t rest hrest ht htaken.2⟩

/-! ## What a push leaves -/

/-- What a push of one direction leaves of the state. -/
structure Leaves (d : Direction) (s t : PostgresDecoder) (b : DecodeBatch) : Prop where
  waits : turn d t = .stop t .needMore
  maxBody : t.maxBody = s.maxBody
  /-- A phase that the push has begun is the typed phase or one that does not read it. -/
  phase : t.phase = s.phase ∨ t.phase = .typed ∨ t.phase.reads d = false
  stays : b.desynchronized = none → s.phase = .typed ∨ s.phase.reads d = false → t.phase = s.phase
  /-- The other buffer is as it was, unless the push has ended the decoding. -/
  kept : (t.phase = .opaqueTraffic → s.phase = .opaqueTraffic) →
    ∀ d', d' ≠ d → t.buffer d' = s.buffer d'
  cleared : t.phase = .opaqueTraffic → s.phase ≠ .opaqueTraffic → ∀ d', t.buffer d' = []

/-- The end of the decoding. -/
theorem leaves_goOpaque (hs : s.phase ≠ .opaqueTraffic)
    (h : b.desynchronized = none → ¬ (s.phase = .typed ∨ s.phase.reads d = false)) :
    Leaves d s s.goOpaque b where
  waits := turn_closed rfl
  maxBody := rfl
  phase := .inr (.inr rfl)
  stays hb hp := absurd hp (h hb)
  kept h' := absurd (h' rfl) hs
  cleared _ _ d' := by cases d' <;> rfl

/-- What is left after a state that differs in the buffer of the direction only. -/
theorem Leaves.of_setBuffer (h : Leaves d (s.setBuffer d x) t b) : Leaves d s t b where
  waits := h.waits
  maxBody := h.maxBody.trans (setBuffer_maxBody s x)
  phase := by
    have hphase := h.phase
    rwa [setBuffer_phase] at hphase
  stays := by
    have hstays := h.stays
    rwa [setBuffer_phase] at hstays
  kept := by
    intro hc d' hne
    rw [h.kept (by rwa [setBuffer_phase]) d' hne, buffer_setBuffer_of_ne _ _ hne.symm]
  cleared := by
    have hcleared := h.cleared
    rwa [setBuffer_phase] at hcleared

theorem not_closed_of_reads {phase : Phase} (h : phase.reads d = true) :
    phase ≠ .opaqueTraffic := by
  rintro rfl
  cases h

theorem leaves_of_halts (h : Stream.Halts (turn d) s t b) : Leaves d s t b := by
  induction h with
  | @stop s t b hs =>
    have hturn := turns_turn d s
    rw [hs] at hturn
    cases hturn with
    | waits =>
      exact ⟨hs, rfl, .inl rfl, fun _ _ => rfl, fun _ _ _ => rfl, fun h h' => absurd h h'⟩
    | ends hp hne =>
      refine leaves_goOpaque (not_closed_of_reads hp) fun _ => ?_
      rw [hp]
      exact fun h => h.elim hne Bool.noConfusion
    | report hp =>
      refine leaves_goOpaque (not_closed_of_reads hp) fun hb => ?_
      cases hb
  | @again s s' t b c hs _ ih =>
    have hturn := turns_turn d s
    rw [hs] at hturn
    cases hturn with
    | @message b m hp hb =>
      refine { ih.of_setBuffer with stays := ?_ }
      intro hb
      exact ih.of_setBuffer.stays (Stream.Batch.seq_desynchronized_eq_none.mp hb).2
    | @phase b m next hp hne hnext hopen =>
      refine ⟨ih.waits, ih.maxBody.trans (setBuffer_maxBody s b), .inr ?_, ?_, ?_, ?_⟩
      · rcases ih.phase with hsame | hnew
        · rw [hsame]
          exact hnext
        · exact hnew
      · intro _ hs
        rw [hp] at hs
        exact hs.elim (fun h => absurd h hne) (fun h => Bool.noConfusion h)
      · intro hc d' hd'
        have hbuf : buffer { s.setBuffer d b with phase := next } d' = s.buffer d' := by
          cases d <;> cases d' <;> first | rfl | exact absurd rfl hd'
        rw [ih.kept (fun ht => absurd (hc ht) (not_closed_of_reads hp)) d' hd', hbuf]
      · intro ht _
        exact ih.cleared ht hopen

/-- Every push leaves the state so, taken or not. -/
theorem push_leaves (s : PostgresDecoder) (d : Direction) (x : Bytes) :
    Leaves d s (s.push d x).1 (s.push d x).2 := by
  by_cases htakes : s.Takes d x
  · have h := leaves_of_halts (push_halts htakes)
    by_cases hs : s.phase = .opaqueTraffic
    · rwa [bytes_feed_closed hs] at h
    · rw [bytes_feed hs] at h
      exact h.of_setBuffer
  · rw [push_of_not_takes htakes]
    refine leaves_goOpaque (fun hs => htakes (.inl hs)) fun hb => ?_
    cases hb

/-! ## Phases that a push begins -/

/-- The bytes complete what a phase of one direction waits for, and decoding goes on in
another: a startup frame that does not cancel, or the answer that refuses encryption. -/
def Completes : Phase → Direction → Bytes → Prop
  | .startup, .clientToServer, b =>
    4 ≤ b.length ∧ beNat (b.take 4) ≤ b.length ∧ beNat ((b.drop 4).take 4) ≠ cancelRequestCode
  | .awaitingEncryptionResponse, .serverToClient, response :: _ => Char.ofNat response.toNat = 'N'
  | _, _, _ => False

/-- Of the startup frames, those that cancel end the decoding. -/
theorem startupStep_next (h : startupStep x = .messageAndPhase m next) :
    next ≠ .opaqueTraffic ↔ beNat ((x.drop 4).take 4) ≠ cancelRequestCode := by
  rw [startupStep] at h
  split at h
  next hcode => cases h; rw [hcode]; decide
  split at h
  next hcode => cases h; rw [hcode]; decide
  split at h
  next hcode => cases h; simp [hcode]
  next hcode =>
    split at h
    · cases h; simp [hcode]
    · cases h

/-- Of the answers, the one that refuses encryption goes on. -/
theorem responseStep_next {response : UInt8} (h : responseStep response = .messageAndPhase m next) :
    next ≠ .opaqueTraffic ↔ Char.ofNat response.toNat = 'N' := by
  rw [responseStep] at h
  split at h
  next hletter => cases h; rw [hletter]; decide
  next hletter => cases h; rw [hletter]; decide
  next hletter => cases h; rw [hletter]; decide
  · cases h

/-- Where a step offers a phase, decoding goes on exactly when the bytes complete what the
phase before waits for. -/
theorem completes_iff (h : offered maxBody phase d x = (rest, .messageAndPhase m next)) :
    Completes phase d x ↔ next ≠ .opaqueTraffic := by
  have hoffers := offered_offers maxBody phase d x
  rw [h] at hoffers
  obtain _ | _ | ⟨hreads, hne⟩ := hoffers
  match phase, d, x with
  | .startup, .clientToServer, x =>
    rw [offered, startupFrame] at h
    split at h
    · cases h
    split at h
    · cases h
    split at h
    · cases h
    next hshort hrange hlong =>
    obtain ⟨-, h⟩ := Prod.mk.inj h
    rw [startupStep_next h, drop_take, take_take, Nat.min_eq_left (by omega), Completes]
    exact (and_iff_right (by omega)).trans (and_iff_right (by omega))
  | .awaitingEncryptionResponse, .serverToClient, response :: _ =>
    obtain ⟨-, h⟩ := Prod.mk.inj h
    exact (responseStep_next h).symm
  | .awaitingEncryptionResponse, .serverToClient, [] => cases h
  | .startup, .serverToClient, _ => cases hreads
  | .awaitingEncryptionResponse, .clientToServer, _ => cases hreads
  | .typed, _, _ => exact absurd rfl hne
  | .opaqueTraffic, _, _ => cases hreads

theorem Completes.offers (h : Completes phase d x) (maxBody : Nat) :
    phase.reads d = true ∧ phase ≠ .typed ∧ (offered maxBody phase d x).2 ≠ .needMore := by
  match phase, d, x with
  | .startup, .clientToServer, x =>
    refine ⟨rfl, by simp, ?_⟩
    obtain ⟨hlen, hframe, -⟩ := h
    rw [offered, startupFrame, if_neg (by omega)]
    split
    · simp
    rw [if_neg (by omega)]
    obtain ⟨m, next, hm, -⟩ | ⟨reason, hr⟩ := startupStep_cases (x.take (beNat (x.take 4)))
    · rw [hm]; simp
    · rw [hr]; simp
  | .awaitingEncryptionResponse, .serverToClient, response :: rest =>
    refine ⟨rfl, by simp, ?_⟩
    obtain ⟨m, next, hm, -⟩ | ⟨reason, hr⟩ := responseStep_cases response
    · rw [offered, hm]; simp
    · rw [offered, hr]; simp

/-- A loop that does not report begins a phase exactly when the bytes complete what the
phase before waits for. -/
theorem completes_iff_of_halts (h : Stream.Halts (turn d) s t b) (hb : b.desynchronized = none) :
    Completes s.phase d (s.buffer d) ↔ t.phase ≠ s.phase ∧ t.phase ≠ .opaqueTraffic := by
  have hleaves := leaves_of_halts h
  by_cases hs : s.phase = .typed ∨ s.phase.reads d = false
  · -- A phase that does not end with bytes of this direction stays.
    have hcompletes : ¬ Completes s.phase d (s.buffer d) := by
      intro hc
      obtain ⟨hreads, hne, -⟩ := hc.offers 0
      exact hs.elim hne (fun hn => Bool.noConfusion (hreads.symm.trans hn))
    simp [hcompletes, hleaves.stays hb hs]
  have hoffers := offered_offers s.maxBody s.phase d (s.buffer d)
  generalize hr : offered s.maxBody s.phase d (s.buffer d) = r at hoffers
  cases hoffers with
  | waits =>
    have hturn : turn d s = .stop s .needMore := (waits_iff d s).mpr (by rw [hr])
    have hcompletes : ¬ Completes s.phase d (s.buffer d) := by
      intro hc
      exact (hc.offers s.maxBody).2.2 (by rw [hr])
    obtain ⟨rfl, -⟩ := h.eq (.stop hturn)
    simp [hcompletes]
  | message hp => exact absurd (.inl hp) hs
  | @phase rest m next hp hne hnext =>
    rw [completes_iff hr]
    have hturn := turn_eq d s
    rw [hr] at hturn
    by_cases hgone : next = .opaqueTraffic
    · rw [conclude, if_pos hgone] at hturn
      obtain ⟨rfl, -⟩ := h.eq (.stop hturn)
      simp [hgone, goOpaque]
    · rw [conclude, if_neg hgone] at hturn
      obtain h | ⟨h, hlater⟩ := h
      · rw [hturn] at h; cases h
      · rw [hturn] at h
        cases h
        have hstays := (leaves_of_halts hlater).stays
          (Stream.Batch.seq_desynchronized_eq_none.mp hb).2 hnext
        rw [hstays]
        refine iff_of_true hgone ⟨?_, hgone⟩
        intro heq
        have hsame : next = s.phase := heq
        exact hs (hsame ▸ hnext)
  | report hp =>
    have hturn := turn_eq d s
    rw [hr] at hturn
    obtain ⟨-, rfl⟩ := h.eq (.stop hturn)
    cases hb

theorem push_completes_iff (h : (s.push d x).2.desynchronized = none) :
    Completes s.phase d (s.buffer d ++ x) ↔
      (s.push d x).1.phase ≠ s.phase ∧ (s.push d x).1.phase ≠ .opaqueTraffic := by
  have hhalts := completes_iff_of_halts (push_halts (takes_of_silent h)) h
  by_cases hs : s.phase = .opaqueTraffic
  · have hphase := (push_leaves s d x).stays h (.inr (by rw [hs]; rfl))
    simp [hs, hphase, Completes]
  · rwa [bytes_feed hs, setBuffer_phase, buffer_setBuffer_self] at hhalts

/-! ## What waits -/

/-- Whether a direction waits is a matter of the phase, the limit and its buffer. -/
theorem waits_congr (hp : t.phase = s.phase) (hm : t.maxBody = s.maxBody)
    (hb : t.buffer d = s.buffer d) (h : turn d s = .stop s .needMore) :
    turn d t = .stop t .needMore := by
  rw [waits_iff] at h ⊢
  rw [hp, hm, hb]
  exact h

theorem waits_of_buffer_nil (h : s.buffer d = []) : turn d s = .stop s .needMore := by
  rw [waits_iff, h, offered_nil]

/-! ## Ends -/

/-- Both directions finished, one after the other. -/
def finishes (s : PostgresDecoder) (first : Direction) : List DecodeBatch :=
  [(s.finish first).2, ((s.finish first).1.finish first.other).2]

theorem finish_fst (s : PostgresDecoder) (d : Direction) : (s.finish d).1 = s.setBuffer d [] := by
  rw [finish]
  split <;> rfl

theorem finish_silent_iff (s : PostgresDecoder) (d : Direction) :
    (s.finish d).2.desynchronized = none ↔ s.phase = .opaqueTraffic ∨ s.buffer d = [] := by
  rw [finish]
  simp only [setBuffer_phase, length_eq_zero_iff]
  split
  next h => simpa [Stream.Batch.needMore, or_comm] using h
  next h => simpa [or_comm] using h

/-- Both ends are silent when nothing is left, or nothing was to be read. -/
theorem finishes_silent_iff (s : PostgresDecoder) (first : Direction) :
    (∀ b ∈ s.finishes first, b.desynchronized = none) ↔
      s.phase = .opaqueTraffic ∨ ∀ d, s.buffer d = [] := by
  have hother : first ≠ first.other := by cases first <;> simp [Direction.other]
  have hboth : (∀ d, s.buffer d = []) ↔ s.buffer first = [] ∧ s.buffer first.other = [] := by
    refine ⟨fun h => ⟨h _, h _⟩, ?_⟩
    rintro ⟨h, h'⟩ d
    cases first <;> cases d <;> assumption
  simp only [finishes, forall_mem_cons, not_mem_nil, false_imp_iff, implies_true, and_true,
    finish_silent_iff, finish_fst, setBuffer_phase, buffer_setBuffer_of_ne _ _ hother, hboth]
  exact or_and_left.symm

theorem done_of_finishes {first : Direction}
    (h : ∀ b ∈ s.finishes first, b.desynchronized = none) : Done s := by
  intro d
  rcases (finishes_silent_iff s first).mp h with hs | hs
  · exact turn_closed hs
  · exact waits_of_buffer_nil (hs d)

end PostgresDecoder

open PostgresDecoder (Completes Done)

/-! ## Orders of the fragments -/

/-- A run with both ends, without a report. -/
structure Clean (maxBody : Nat) (fs : List Fragment) : Prop where
  silent : Silent (run (.new maxBody) fs)
  finished : ∀ first, ∀ b ∈ ((PostgresDecoder.new maxBody).after fs).finishes first,
    b.desynchronized = none

/-- The second order of the fragments gives the messages of the first, and no report. -/
structure SameMessages (maxBody : Nat) (fs fs' : List Fragment) : Prop where
  clean : Clean maxBody fs'
  messages : ∀ d, emitted d (run (.new maxBody) fs') = emitted d (run (.new maxBody) fs)

theorem Direction.eq_other (h : d' ≠ d) : d' = d.other := by
  cases d <;> cases d' <;> first | rfl | exact absurd rfl h

/-- Every push is taken, and when its bytes complete what the phase waits for while bytes of
the other direction are buffered, another push of that direction follows. -/
def Prompt : PostgresDecoder → List Fragment → Prop
  | _, [] => True
  | s, (d, x) :: fs =>
    s.Takes d x ∧
    (Completes s.phase d (s.buffer d ++ x) → s.buffer d.other ≠ [] →
      fragmentsOf d.other fs ≠ []) ∧
    Prompt (s.push d x).1 fs

theorem Prompt.taken : ∀ {fs : List Fragment} {s : PostgresDecoder}, Prompt s fs → s.Taken fs
  | [], _, _ => trivial
  | (_, _) :: _, _, h => ⟨h.1, h.2.2.taken⟩

/-- A direction waits at the end, if every direction that does not wait is pushed again. -/
theorem Prompt.done : ∀ {fs : List Fragment} {s : PostgresDecoder}, Prompt s fs →
    Silent (run s fs) →
    (∀ d, PostgresDecoder.turn d s = .stop s .needMore ∨ fragmentsOf d fs ≠ []) → Done (s.after fs)
  | [], s, _, _, h => fun d => (h d).resolve_right (by simp [fragmentsOf])
  | (d, x) :: fs, s, hp, hsilent, h => by
    obtain ⟨-, hturn, hrest⟩ := hp
    rw [Silent, run, forall_mem_cons] at hsilent
    have hleaves := s.push_leaves d x
    refine hrest.done hsilent.2 ?_
    intro d'
    by_cases hd : d' = d
    · subst hd
      exact .inl hleaves.waits
    · obtain rfl := Direction.eq_other hd
      by_cases hphase : (s.push d x).1.phase = s.phase
      · rcases h d.other with hw | hmore
        · refine .inl ?_
          have hb := hleaves.kept (fun hc => hphase.symm.trans hc) _ hd
          exact PostgresDecoder.waits_congr hphase hleaves.maxBody hb hw
        · rw [fragmentsOf_cons_of_ne (Ne.symm hd)] at hmore
          exact .inr hmore
      · by_cases hb : (s.push d x).1.buffer d.other = []
        · exact .inl (PostgresDecoder.waits_of_buffer_nil hb)
        · have hopen : (s.push d x).1.phase ≠ .opaqueTraffic := by
            intro hclosed
            exact hb (hleaves.cleared hclosed (fun hs => hphase (hclosed.trans hs.symm)) _)
          rw [hleaves.kept (fun hclosed => absurd hclosed hopen) _ hd] at hb
          exact .inr (hturn ((PostgresDecoder.push_completes_iff hsilent.1).mpr ⟨hphase, hopen⟩) hb)

/-- Bytes that no later push reads are there at the end. -/
theorem buffer_after {d : Direction} : ∀ (fs : List Fragment) (s : PostgresDecoder),
    Silent (run s fs) → fragmentsOf d.other fs = [] → s.phase = .typed ∨ s.phase.reads d = false →
    (s.after fs).phase = s.phase ∧ (s.after fs).buffer d.other = s.buffer d.other
  | [], s, _, _, _ => ⟨rfl, rfl⟩
  | (d', x) :: fs, s, h, hnone, hs => by
    obtain rfl : d' = d := by
      by_contra hne
      obtain rfl := Direction.eq_other hne
      rw [fragmentsOf_cons_self] at hnone
      cases hnone
    rw [fragmentsOf_cons_of_ne (by cases d' <;> simp [Direction.other])] at hnone
    rw [Silent, run, forall_mem_cons] at h
    have hleaves := s.push_leaves d' x
    have hphase := hleaves.stays h.1 hs
    have hbuf := hleaves.kept (fun hc => hphase.symm.trans hc) d'.other
      (by cases d' <;> simp [Direction.other])
    obtain ⟨hp, hb⟩ := buffer_after fs _ h.2 hnone (by rwa [hphase])
    exact ⟨hp.trans hphase, hb.trans hbuf⟩

/-- A run without a report that leaves nothing unread is prompt. -/
theorem prompt_of_silent : ∀ (fs : List Fragment) (s : PostgresDecoder), Silent (run s fs) →
    (s.after fs).phase = .opaqueTraffic ∨ (∀ d, (s.after fs).buffer d = []) → Prompt s fs
  | [], _, _, _ => trivial
  | (d, x) :: fs, s, h, hend => by
    rw [Silent, run, forall_mem_cons] at h
    refine ⟨PostgresDecoder.takes_of_silent h.1, ?_, prompt_of_silent fs _ h.2 hend⟩
    intro hcompletes hbuf hnone
    have hleaves := s.push_leaves d x
    obtain ⟨hphase, hopen⟩ := (PostgresDecoder.push_completes_iff h.1).mp hcompletes
    obtain ⟨hp, hb⟩ := buffer_after fs _ h.2 hnone (hleaves.phase.resolve_left hphase)
    rcases hend with hend | hend
    · exact hopen (hp.symm.trans hend)
    · rw [hleaves.kept (fun hclosed => absurd hclosed hopen) _
        (by cases d <;> simp [Direction.other])]
        at hb
      exact hbuf (hb.symm.trans (hend _))

/-- If the fragments decode without a report in one order, they give the same messages in
another exactly when that order is prompt. -/
theorem sameMessages_iff {maxBody : Nat} {fs fs' : List Fragment} (hclean : Clean maxBody fs)
    (hsame : ∀ d, fragmentsOf d fs' = fragmentsOf d fs) :
    SameMessages maxBody fs fs' ↔ Prompt (.new maxBody) fs' := by
  constructor
  · intro h
    refine prompt_of_silent fs' _ h.clean.silent ?_
    exact (PostgresDecoder.finishes_silent_iff _ .clientToServer).mp (h.clean.finished _)
  · intro h
    have hopen : (PostgresDecoder.new maxBody).phase ≠ .opaqueTraffic := by
      simp [PostgresDecoder.new]
    have hstart : (PostgresDecoder.new maxBody).ahead fs' =
        (PostgresDecoder.new maxBody).ahead fs := by
      rw [PostgresDecoder.ahead_eq _ _ hopen, PostgresDecoder.ahead_eq _ _ hopen]
      simp only [bytesOf, hsame]
    obtain ⟨w, hw, hout⟩ := PostgresDecoder.runs_of_silent fs _ hclean.silent
    have hdone := PostgresDecoder.done_of_finishes (hclean.finished .clientToServer)
    have hsilent : Silent (run (.new maxBody) fs') :=
      PostgresDecoder.silent_of_taken fs' _ _ w (hstart ▸ hw) hdone h.taken
    obtain ⟨w', hw', hout'⟩ := PostgresDecoder.runs_of_silent fs' _ hsilent
    -- Nothing is left to do after the second order, so it has come to the same end.
    have hdone' := h.done hsilent
      fun d => .inl (PostgresDecoder.waits_of_buffer_nil (by cases d <;> rfl))
    obtain ⟨rest, hrest, hall⟩ := hw.completes PostgresDecoder.moves_commuting hdone.ended
      (hstart ▸ hw')
    obtain ⟨hend, rfl⟩ := hrest.eq_of_ended hdone'.ended
    refine ⟨⟨hsilent, ?_⟩, ?_⟩
    · rw [← hend]
      exact hclean.finished
    · intro d
      rw [← hout, ← hout', hall d, Stream.outputs_nil, append_nil]

/-- A startup without parameters, and a server that is ready. -/
def greeting : Session where
  minor := 0
  parameters := []
  client := []
  server := [.readyForQuery 0x49]

/-- The greeting in causal order, the answer in two fragments. -/
def greetingInOrder : List Fragment :=
  [(.clientToServer, greeting.startup), (.serverToClient, [0x5A, 0]),
    (.serverToClient, (greeting.stream .serverToClient).drop 2)]

/-- The greeting with the first fragment of the answer ahead of the startup. -/
def greetingAhead : List Fragment :=
  [(.serverToClient, [0x5A, 0]), (.clientToServer, greeting.startup),
    (.serverToClient, (greeting.stream .serverToClient).drop 2)]

/-- The greeting with the whole answer ahead of the startup. -/
def greetingEarly : List Fragment :=
  [(.serverToClient, [0x5A, 0]), (.serverToClient, (greeting.stream .serverToClient).drop 2),
    (.clientToServer, greeting.startup)]

theorem greeting_clean : Clean 64 greetingInOrder where
  silent := by
    rw [Silent]
    decide
  finished := by
    intro first
    cases first <;> decide

/-- The bytes that came early are read with the rest of the answer. -/
theorem greetingAhead_sameMessages : SameMessages 64 greetingInOrder greetingAhead :=
  (sameMessages_iff greeting_clean (fun d => by cases d <;> rfl)).mpr
    ⟨by decide, False.elim, by decide, fun _ _ => by decide, by decide, False.elim, trivial⟩

/-- The answer that came early is lost: its message is not emitted and the end of the
server's direction is reported. -/
theorem greetingEarly_loses :
    Clean 64 greetingInOrder ∧ (∀ d, fragmentsOf d greetingEarly = fragmentsOf d greetingInOrder) ∧
      (emitted .serverToClient (run (.new 64) greetingInOrder)).length = 1 ∧
      emitted .serverToClient (run (.new 64) greetingEarly) = [] ∧
      (((PostgresDecoder.new 64).after greetingEarly).finishes .clientToServer).map
          (·.desynchronized) = [none, some "PostgreSQL stream ended with 6 incomplete bytes"] ∧
      ¬ SameMessages 64 greetingInOrder greetingEarly := by
  have hfirst : (emitted .serverToClient (run (.new 64) greetingInOrder)).length = 1 := by decide
  have hearly : emitted .serverToClient (run (.new 64) greetingEarly) = [] := by decide
  refine ⟨greeting_clean, fun d => by cases d <;> rfl, hfirst, hearly, by decide, ?_⟩
  intro h
  have hlen := congrArg List.length (h.messages .serverToClient)
  rw [hfirst, hearly] at hlen
  cases hlen

end Lens.Postgres
