import Lens.Http1.Head
import Lens.Http1.Runs

/-!
# One more header line

A header line that does not frame the body adds its header to the message and
changes nothing else: the same messages are decoded, with the same reports
(`push_insert`).  The head may come in several reads, if it is within the limit that the
decoder has while it waits for the end of a head (`run_reads`).
-/

namespace Lens.Http1

open List

/-- A header line as it is written. -/
structure HeaderLine where
  name : String
  value : String
  plainName : ':' ∉ name.toList ∧ '\r' ∉ name.toList
  plainValue : '\r' ∉ value.toList

namespace HeaderLine

def text (l : HeaderLine) : String := l.name ++ ":" ++ l.value

/-- The header as it is parsed. -/
def header (l : HeaderLine) : String × String := (Str.trim l.name, Str.trim l.value)

/-- The header has no part in the framing of a body. -/
structure Unframed (l : HeaderLine) : Prop where
  length : Str.eqIgnoreAsciiCase l.header.1 "content-length" = false
  coding : Str.eqIgnoreAsciiCase l.header.1 "transfer-encoding" = false

theorem text_toList (l : HeaderLine) : l.text.toList = l.name.toList ++ ':' :: l.value.toList := by
  simp [text]

theorem splitOnce_text (l : HeaderLine) : Str.splitOnce ':' l.text = some (l.name, l.value) := by
  rw [Str.splitOnce, text_toList, Str.splitOnceList_append _ l.plainName.1]
  simp

theorem text_plain (l : HeaderLine) : '\r' ∉ l.text.toList := by
  rw [text_toList, mem_append, mem_cons, not_or, not_or]
  exact ⟨l.plainName.2, by decide, l.plainValue⟩

theorem text_ne_empty (l : HeaderLine) : l.text ≠ "" := by
  intro h
  have hl := congrArg String.toList h
  rw [text_toList] at hl
  simp at hl

end HeaderLine

/-- The other lines are parsed as before. -/
theorem parseHeaderLines_insert {l : HeaderLine} (hl : l.Unframed) (post : List String) :
    ∀ (pre : List String) (contentLength : Option Nat) (chunked : Bool),
      parseHeaderLines (pre ++ l.text :: post) contentLength chunked =
        (fun r => (r.1.insertIdx pre.length l.header, r.2)) <$>
          parseHeaderLines (pre ++ post) contentLength chunked := by
  intro pre
  induction pre with
  | nil =>
    intro contentLength chunked
    have hlength : nextLength contentLength (Str.trim l.name) (Str.trim l.value) =
        .ok contentLength := by
      rw [nextLength, show Str.eqIgnoreAsciiCase (Str.trim l.name) "content-length" = false
        from hl.length]
      rfl
    have hcoding : asksForChunks (Str.trim l.name) (Str.trim l.value) = false := by
      rw [asksForChunks, show Str.eqIgnoreAsciiCase (Str.trim l.name) "transfer-encoding" = false
        from hl.coding]
      rfl
    simp only [nil_append, parseHeaderLines, l.splitOnce_text, hlength, hcoding, ok_bind,
      Bool.or_false]
    cases parseHeaderLines post contentLength chunked with
    | error e => rfl
    | ok r => rfl
  | cons line pre ih =>
    intro contentLength chunked
    simp only [cons_append, parseHeaderLines]
    cases Str.splitOnce ':' line with
    | none => rfl
    | some pair =>
      simp only [ih]
      cases nextLength contentLength (Str.trim pair.1) (Str.trim pair.2) with
      | error e => rfl
      | ok contentLength' =>
        simp only [ok_bind]
        cases parseHeaderLines (pre ++ post) contentLength'
            (chunked || asksForChunks (Str.trim pair.1) (Str.trim pair.2)) with
        | error e => rfl
        | ok r => rfl

/-- Each line is one header. -/
theorem length_parseHeaderLines : ∀ (lines : List String) (contentLength : Option Nat)
    (chunked : Bool) {r : Headers × Option Nat × Bool},
    parseHeaderLines lines contentLength chunked = .ok r → r.1.length = lines.length := by
  intro lines
  induction lines with
  | nil =>
    intro contentLength chunked r h
    cases h
    rfl
  | cons line lines ih =>
    intro contentLength chunked r h
    rw [parseHeaderLines] at h
    cases hsplit : Str.splitOnce ':' line with
    | none => simp [hsplit] at h
    | some pair =>
      simp only [hsplit] at h
      cases hlength : nextLength contentLength (Str.trim pair.1) (Str.trim pair.2) with
      | error e => simp [hlength] at h
      | ok contentLength' =>
        simp only [hlength, ok_bind] at h
        cases hrest : parseHeaderLines lines contentLength'
            (chunked || asksForChunks (Str.trim pair.1) (Str.trim pair.2)) with
        | error e => simp [hrest] at h
        | ok r' =>
          simp only [hrest, ok_bind, pure_eq_ok, Except.ok.injEq] at h
          subst h
          simp [ih _ _ hrest]

namespace ParsedHead

/-- A head parsed with a header inserted. -/
def insert (k : Nat) (h : String × String) (parsed : ParsedHead) : ParsedHead :=
  { parsed with headers := parsed.headers.insertIdx k h }

/-- The same head is parsed with one header more. -/
theorem ofLines_insert {l : HeaderLine} (hl : l.Unframed) (startLine : String)
    (pre post : List String) :
    ofLines (startLine :: (pre ++ l.text :: post)) =
      insert pre.length l.header <$> ofLines (startLine :: (pre ++ post)) := by
  simp only [ofLines, headD_cons, tail_cons, parseHeaderLines_insert hl]
  cases parseStartLine (Str.trim startLine) with
  | error e => rfl
  | ok status =>
    cases parseHeaderLines (pre ++ post) none false with
    | error e => rfl
    | ok r => rfl

theorem length_ofLines {startLine : String} {lines : List String} {parsed : ParsedHead}
    (h : ofLines (startLine :: lines) = .ok parsed) : parsed.headers.length = lines.length := by
  simp only [ofLines, headD_cons, tail_cons] at h
  cases hstatus : parseStartLine (Str.trim startLine) with
  | error e => simp [hstatus] at h
  | ok status =>
    cases hlines : parseHeaderLines lines none false with
    | error e => simp [hstatus, hlines] at h
    | ok r =>
      simp only [hstatus, hlines, ok_bind, pure_eq_ok, Except.ok.injEq] at h
      subst h
      exact length_parseHeaderLines lines none false hlines

end ParsedHead

namespace Http1Decoder

/-- A message on the wire: its head and what comes after it. -/
def wire (startLine : String) (lines : List String) (rest : Bytes) : Bytes :=
  headBytes startLine lines ++ (headEnd ++ rest)

/-- Lines of a head: not empty and without CR. -/
def PlainLines (lines : List String) : Prop := ∀ l ∈ lines, '\r' ∉ l.toList ∧ l ≠ ""

instance (lines : List String) : Decidable (PlainLines lines) := by
  unfold PlainLines
  infer_instance

variable {s : Http1Decoder} {d : Direction} {startLine : String}

/-- The first turn of a decoder between messages parses the head. -/
theorem turn_wire (hs : s.state d = {}) {lines : List String} (hstart : '\r' ∉ startLine.toList)
    (hlines : PlainLines lines) (rest : Bytes) :
    turn d (feed d s (wire startLine lines rest)) =
      s.follow d (afterHead d (s.responseToHead d) (ParsedHead.ofLines (startLine :: lines))
        rest) := by
  have hfind := find_headBytes hstart hlines rest
  have hparse := parse_headBytes hstart fun l hl => (hlines l hl).1
  have hdrop : (headBytes startLine lines ++ (headEnd ++ rest)).drop
      ((headBytes startLine lines).length + 4) = rest := by
    rw [drop_append, drop_eq_nil_of_le (by omega), nil_append,
      show (headBytes startLine lines).length + 4 - (headBytes startLine lines).length =
        headEnd.length by simp [headEnd], drop_left]
  simp only [turn, feed, hs, state_setState_self, responseToHead, setState_requestMethods,
    follow_setState, DirectionState.step, nil_append, wire, hfind, take_left, hparse, hdrop]

/-- A decoder between messages, pushed a message with and without a header line. -/
theorem push_insert (hs : s.state d = {}) {l : HeaderLine} (hl : l.Unframed)
    (hstart : '\r' ∉ startLine.toList) {pre post : List String} (hpre : PlainLines pre)
    (hpost : PlainLines post) (rest : Bytes) :
    ∃ headers : Headers, pre.length ≤ headers.length ∧
      SameButFirst (fun hs => hs.insertIdx pre.length l.header) headers
        (s.push d (wire startLine (pre ++ post) rest)).2
        (s.push d (wire startLine (pre ++ l.text :: post) rest)).2 := by
  have hlines : PlainLines (pre ++ post) := by
    intro t ht
    rcases mem_append.mp ht with ht | ht
    · exact hpre t ht
    · exact hpost t ht
  have hlines' : PlainLines (pre ++ l.text :: post) := by
    intro t ht
    rcases mem_append.mp ht with ht | ht
    · exact hpre t ht
    · rcases mem_cons.mp ht with rfl | ht
      · exact ⟨l.text_plain, l.text_ne_empty⟩
      · exact hpost t ht
  -- One bound on the turns serves both runs.
  let n := ((feed d s (wire startLine (pre ++ post) rest)).state d).measure +
    ((feed d s (wire startLine (pre ++ l.text :: post) rest)).state d).measure
  have hrun := s.push_eq_drive d (wire startLine (pre ++ post) rest) (n + 1) (by omega)
  have hrun' := s.push_eq_drive d (wire startLine (pre ++ l.text :: post) rest) (n + 1) (by omega)
  rw [hrun, hrun', Stream.drive_succ, Stream.drive_succ, turn_wire hs hstart hlines,
    turn_wire hs hstart hlines', ParsedHead.ofLines_insert hl]
  cases hparsed : ParsedHead.ofLines (startLine :: (pre ++ post)) with
  | error reason => exact ⟨pre.map fun t => (t, ""), by simp, rfl, .inl ⟨rfl, rfl⟩⟩
  | ok parsed =>
    refine ⟨parsed.headers, ?_, ?_⟩
    · rw [ParsedHead.length_ofLines hparsed, length_append]
      exact Nat.le_add_right ..
    · have hbody := beginBody_withHeaders (fun hs => hs.insertIdx pre.length l.header) d
        (s.responseToHead d) parsed rest
      simp only [map_ok, afterHead, ParsedHead.insert, hbody]
      exact resume_withHeaders _ d n s _ (beginBody_proper d (s.responseToHead d) parsed rest)

/-! ## Reads of a head -/

/-- The reads of a head: those before its end, and the one with its end, in which other bytes
may follow.  A head that comes in several reads is within the limit. -/
structure HeadReads (startLine : String) (lines : List String) where
  before : List Bytes
  last : Bytes
  bytes : before.flatten ++ last = headBytes startLine lines ++ headEnd
  last_ne : last ≠ []
  limit : before ≠ [] → (headBytes startLine lines ++ headEnd).length ≤ maxHeadBytes

/-- A head in one read. -/
def HeadReads.whole (startLine : String) (lines : List String) : HeadReads startLine lines where
  before := []
  last := headBytes startLine lines ++ headEnd
  bytes := rfl
  last_ne := by simp [headEnd]
  limit h := absurd rfl h

def HeadReads.ops {lines : List String} (reads : HeadReads startLine lines) (d : Direction)
    (rest : Bytes) : List Op :=
  (reads.before ++ [reads.last ++ rest]).map (.push d)

/-- A read inside a head waits. -/
theorem push_waits {acc x : Bytes} (hs : s.state d = ⟨acc, none⟩)
    (hfind : Search.find headEnd (acc ++ x) = none) (hlen : (acc ++ x).length ≤ maxHeadBytes) :
    s.push d x = (s.setState d ⟨acc ++ x, none⟩, .needMore) := by
  have hfeed : feed d s x = s.setState d ⟨acc ++ x, none⟩ := by simp only [feed, hs]
  have hturn : turn d (feed d s x) = .stop (s.setState d ⟨acc ++ x, none⟩) .needMore := by
    rw [hfeed, turn_of_steps (by rw [state_setState_self]; exact .headWaits hfind hlen), follow,
      setState_setState]
  rw [push, process, Stream.drive_succ, hturn]
  rfl

theorem run_before {lines : List String} (hstart : '\r' ∉ startLine.toList)
    (hlines : PlainLines lines) {last : Bytes} (hlast : last ≠ [])
    (rest : Bytes) : ∀ (before : List Bytes) (acc : Bytes) (s : Http1Decoder),
      s.state d = ⟨acc, none⟩ →
      acc ++ (before.flatten ++ last) = headBytes startLine lines ++ headEnd →
      (before ≠ [] → (headBytes startLine lines ++ headEnd).length ≤ maxHeadBytes) →
      (s.run ((before ++ [last ++ rest]).map (.push d))).2 = before.map (fun _ => .needMore) ++
        [((s.setState d {}).push d (wire startLine lines rest)).2]
  | [], acc, s, hs, hbytes, _ => by
    have hfeed : feed d s (last ++ rest) =
        feed d (s.setState d {}) (wire startLine lines rest) := by
      rw [flatten_nil, nil_append] at hbytes
      simp only [feed, hs, state_setState_self, setState_setState, wire, nil_append, ← append_assoc,
        hbytes]
    have hpush : s.push d (last ++ rest) =
        (s.setState d {}).push d (wire startLine lines rest) := by
      rw [push, process, push, process, hfeed]
    rw [← hpush]
    rfl
  | x :: before, acc, s, hs, hbytes, hlimit => by
    have hmax := hlimit (cons_ne_nil _ _)
    rw [flatten_cons, append_assoc, ← append_assoc] at hbytes
    have hpos := length_pos_iff.mpr hlast
    have hlen : (acc ++ x).length < (headBytes startLine lines ++ headEnd).length := by
      rw [← hbytes]
      simp only [length_append]
      omega
    have hfind : Search.find headEnd (acc ++ x) = none := by
      have hall := find_headBytes hstart hlines []
      rw [append_nil, ← hbytes] at hall
      exact Search.find_eq_none_of_prefix hall (by simpa only [length_append] using hlen)
    have hpush := push_waits hs hfind (by omega)
    rw [cons_append, map_cons, run, op, hpush, map_cons, cons_append]
    rw [run_before hstart hlines hlast rest before _ _
      (state_setState_self ..) hbytes fun _ => hmax, setState_setState]

/-- The reads of a head give what one push of it gives. -/
theorem run_reads {lines : List String} (hs : s.state d = {}) (hstart : '\r' ∉ startLine.toList)
    (hlines : PlainLines lines) (reads : HeadReads startLine lines) (rest : Bytes) :
    (s.run (reads.ops d rest)).2 = reads.before.map (fun _ => .needMore) ++
      [(s.push d (wire startLine lines rest)).2] := by
  have hrun := run_before hstart hlines reads.last_ne rest reads.before [] s hs reads.bytes
    reads.limit
  have hsame : s.setState d {} = s := by rw [← hs, setState_state]
  rwa [hsame] at hrun

end Http1Decoder

end Lens.Http1
