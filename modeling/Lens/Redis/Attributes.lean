import Lens.Redis.Roundtrip

/-!
# Attribute frames

An attribute frame annotates the value that follows it, at top level or before an item
of an aggregate.  It is not a reply, and a server does not count it among the items that
an aggregate announces (`announced`).  The decoder takes an attribute for a value like
any other.

The frames of a stream are prefix notation: a head is followed by as many values as it
announces.  The *weight* of a frame is the values it completes, one, less those it asks
for.  What the decoder takes off a stream is again the frames of values that count every
item (`parseItems_spans`), so their number is the weight of the stream.  The weight of
what a server sends is one for each reply and push and one for each attribute, at any
depth (`weight_sent`).
-/

namespace Lens.Redis

open List
open Stream (Batch Feed Settles)

variable {values : List RespValue} {value : RespValue} {kind : Kind} {depth : Nat} {fs : List Frame}

/-! ## What a server sends -/

def isAttr : RespValue → Bool
  | .attr _ => true
  | _ => false

/-- The items of an aggregate as a server counts them. -/
def announced (values : List RespValue) : Nat := values.countP (!isAttr ·)

/-- The frames of a value as a server sends it. -/
def sent (value : RespValue) : List Frame := frames announced value

def bytesOf (fs : List Frame) : Bytes := fs.flatMap Frame.bytes

/-- The bytes of replies, pushes and attributes, one after another. -/
def sentBytes (stream : List RespValue) : Bytes := bytesOf (stream.flatMap sent)

namespace Frame

/-- A frame of a conformant stream. -/
def Sound : Frame → Prop
  | leaf value => (leaf value).Legal
  | head kind items => kind.multiplier ∣ items

instance : DecidablePred Sound
  | leaf value => inferInstanceAs (Decidable (leaf value).Legal)
  | head kind items => inferInstanceAs (Decidable (kind.multiplier ∣ items))

def isHead (kind : Kind) : Frame → Bool
  | leaf _ => false
  | head k _ => k == kind

/-- The values that a frame completes, less those it asks for. -/
def weight : Frame → Int
  | leaf _ => 1
  | head _ items => 1 - items

end Frame

/-- A value of a conformant stream.  Pushes stand at top level only. -/
structure Sendable (value : RespValue) : Prop where
  sound : ∀ f ∈ sent value, f.Sound
  inner : ∀ f ∈ (sent value).tail, f.isHead .push = false

/-- The values that frames complete. -/
def weight (fs : List Frame) : Int := (fs.map Frame.weight).sum

/-- The heads of a kind. -/
def heads (kind : Kind) (fs : List Frame) : Nat := fs.countP (Frame.isHead kind)

section Frames

variable (fs) (gs : List Frame)

@[simp] theorem bytesOf_nil : bytesOf [] = [] := rfl

@[simp] theorem bytesOf_cons (f : Frame) : bytesOf (f :: fs) = f.bytes ++ bytesOf fs := rfl

@[simp] theorem bytesOf_append : bytesOf (fs ++ gs) = bytesOf fs ++ bytesOf gs :=
  flatMap_append

@[simp] theorem weight_nil : weight [] = 0 := rfl

@[simp] theorem weight_cons (f : Frame) : weight (f :: fs) = f.weight + weight fs := rfl

@[simp] theorem weight_append : weight (fs ++ gs) = weight fs + weight gs := by
  simp [weight]

@[simp] theorem heads_append (kind : Kind) :
    heads kind (fs ++ gs) = heads kind fs + heads kind gs :=
  countP_append

end Frames

/-! ## Weights -/

theorem weight_items (h : ∀ value ∈ values, weight (frames List.length value) = 1) :
    weight (values.flatMap (frames List.length)) = values.length := by
  induction values with
  | nil => rfl
  | cons value values ih =>
    obtain ⟨hvalue, hvalues⟩ := forall_mem_cons.mp h
    rw [flatMap_cons, weight_append, hvalue, ih hvalues, length_cons]
    omega

/-- A value that counts every item is worth one. -/
theorem weight_frames (value : RespValue) : weight (frames List.length value) = 1 := by
  induction value using value_induction with
  | leaf value hleaf =>
    rw [frames_leaf hleaf]
    rfl
  | aggregate kind values ih =>
    rw [frames_build, framesAll_eq, weight_cons, weight_items ih, Frame.weight]
    omega

/-- An attribute is not counted. -/
def counted (value : RespValue) : Nat := if isAttr value then 0 else 1

theorem announced_cons (value : RespValue) (values : List RespValue) :
    announced (value :: values) = announced values + counted value := by
  rw [announced, countP_cons, announced, counted]
  cases isAttr value <;> rfl

theorem weight_announced
    (h : ∀ value ∈ values, weight (sent value) = counted value + heads .attr (sent value)) :
    weight (values.flatMap sent) = announced values + heads .attr (values.flatMap sent) := by
  induction values with
  | nil => rfl
  | cons value values ih =>
    obtain ⟨hvalue, hvalues⟩ := forall_mem_cons.mp h
    rw [flatMap_cons, weight_append, heads_append, hvalue, ih hvalues, announced_cons]
    omega

theorem sent_build (kind : Kind) (values : List RespValue) :
    sent (kind.build values) = .head kind (announced values) :: values.flatMap sent := by
  rw [sent, frames_build, framesAll_eq]
  rfl

/-- What a server sends is worth what it is counted for, and one for each attribute in it. -/
theorem weight_sent (value : RespValue) :
    weight (sent value) = counted value + heads .attr (sent value) := by
  induction value using value_induction with
  | leaf value hleaf =>
    have hplain : counted value = 1 := by
      cases value <;> first | rfl | cases hleaf
    rw [sent, frames_leaf hleaf, hplain]
    rfl
  | aggregate kind values ih =>
    have hhead : counted (kind.build values) + heads .attr [.head kind (announced values)] = 1 := by
      cases kind <;> rfl
    rw [sent_build, weight_cons, weight_announced ih, Frame.weight, ← singleton_append,
      heads_append]
    omega

/-! ## Values without attributes -/

theorem isAttr_of_heads (h : heads .attr (sent value) = 0) :
    isAttr value = false := by
  cases value with
  | attr values =>
    rw [show RespValue.attr values = Kind.attr.build values from rfl, sent_build,
      ← singleton_append, heads_append] at h
    have hone : heads .attr [.head .attr (announced values)] = 1 := rfl
    omega
  | _ => rfl

theorem heads_eq_zero :
    heads kind (values.flatMap sent) = 0 ↔ ∀ value ∈ values, heads kind (sent value) = 0 := by
  induction values with
  | nil => simp [heads]
  | cons value values ih =>
    rw [flatMap_cons, heads_append, Nat.add_eq_zero_iff, ih, forall_mem_cons]

/-- Without attributes every item is counted. -/
theorem announced_eq_length
    (h : ∀ value ∈ values, isAttr value = false) : announced values = values.length := by
  rw [announced, countP_eq_length]
  intro value hv
  simp [h value hv]

theorem sent_eq_frames (h : heads .attr (sent value) = 0) :
    sent value = frames List.length value := by
  induction value using value_induction with
  | leaf value hleaf => rw [sent, frames_leaf hleaf, frames_leaf hleaf]
  | aggregate kind values ih =>
    rw [sent_build, ← singleton_append, heads_append, Nat.add_eq_zero_iff, heads_eq_zero] at h
    have hcount := announced_eq_length fun value hv => isAttr_of_heads (h.2 value hv)
    rw [sent_build, hcount, frames_build, framesAll_eq, flatMap_congr]
    exact fun value hv => ih value hv (h.2 value hv)

/-! ## What the decoder takes -/

theorem isLeaf_of_legal (h : (Frame.leaf value).Legal) :
    isLeaf value = true := by
  cases value with
  | array values => cases values <;> first | rfl | exact h.elim
  | map | set | push | attr | inline => exact h.elim
  | _ => rfl

/-- A frame is not empty. -/
theorem Frame.bytes_cons {f : Frame} (h : f.Sound) : ∃ b rest, f.bytes = b :: rest := by
  cases f with
  | head kind items => exact ⟨_, _, rfl⟩
  | leaf value =>
    cases value with
    | bulk value => cases value <;> exact ⟨_, _, rfl⟩
    | boolean value => cases value <;> exact ⟨_, _, rfl⟩
    | map | set | push | attr | inline => exact h.elim
    | _ => exact ⟨_, _, rfl⟩

/-- Values with the frames that the parser has taken for them. -/
structure Taken (depth : Nat) (values : List RespValue) (fs : List Frame) : Prop where
  frames : values.flatMap (frames List.length) = fs
  levels : ∀ value ∈ values, levels value ≤ depth
  legal : ∀ f ∈ fs, f.Legal

theorem Taken.cons {fs gs : List Frame} (h : Taken depth [value] fs) (h' : Taken depth values gs) :
    Taken depth (value :: values) (fs ++ gs) where
  frames := by
    have hfirst := h.frames
    rw [flatMap_cons, flatMap_nil, append_nil] at hfirst
    rw [flatMap_cons, hfirst, h'.frames]
  levels := forall_mem_cons.mpr ⟨h.levels value (mem_singleton_self _), h'.levels⟩
  legal := forall_mem_append.mpr ⟨h.legal, h'.legal⟩

theorem parseItems_spans (hvalue : ∀ {fs : List Frame} {value : RespValue} {consumed : Nat},
      (∀ f ∈ fs, f.Sound ∧ f.bytes.length < 2 ^ 63) →
      parseValue depth (bytesOf fs) = .complete value consumed →
      ∃ taken left, fs = taken ++ left ∧ consumed = (bytesOf taken).length ∧
        Taken depth [value] taken) :
    ∀ {n : Nat} {fs : List Frame} {values : List RespValue} {consumed : Nat},
      (∀ f ∈ fs, f.Sound ∧ f.bytes.length < 2 ^ 63) →
      parseItems (parseValue depth) n (bytesOf fs) = .complete values consumed →
      ∃ taken left, fs = taken ++ left ∧ consumed = (bytesOf taken).length ∧
        values.length = n ∧ Taken depth values taken
  | 0, fs, values, consumed, _, h => by
    cases h
    exact ⟨[], fs, rfl, rfl, rfl, rfl, by simp, by simp⟩
  | n + 1, fs, values, consumed, hfs, h => by
    cases hv : parseValue depth (bytesOf fs) with
    | incomplete => simp [parseItems, hv] at h
    | invalid reason => simp [parseItems, hv] at h
    | complete value used =>
      obtain ⟨taken, left, rfl, rfl, htaken⟩ := hvalue hfs hv
      simp only [parseItems, hv] at h
      rw [bytesOf_append, drop_left] at h
      cases hr : parseItems (parseValue depth) n (bytesOf left) with
      | incomplete => simp [hr] at h
      | invalid reason => simp [hr] at h
      | complete others used' =>
        obtain ⟨taken', left', rfl, rfl, hcount, htaken'⟩ := parseItems_spans hvalue
          (fun f hf => hfs f (mem_append_right _ hf)) hr
        simp only [hr] at h
        cases h
        refine ⟨taken ++ taken', left', by rw [append_assoc], ?_, ?_, htaken.cons htaken'⟩
        · rw [bytesOf_append, length_append]
        · rw [length_cons, hcount]

/-- The parser takes the frames of a value that counts every item. -/
theorem parseValue_spans : ∀ (depth : Nat) {fs : List Frame} {value : RespValue} {consumed : Nat},
    (∀ f ∈ fs, f.Sound ∧ f.bytes.length < 2 ^ 63) →
    parseValue depth (bytesOf fs) = .complete value consumed →
    ∃ taken left, fs = taken ++ left ∧ consumed = (bytesOf taken).length ∧
      Taken depth [value] taken
  | depth, [], value, consumed, _, h => by
    rw [bytesOf_nil] at h
    cases depth <;> cases h
  | 0, f :: fs, value, consumed, hfs, h => by
    obtain ⟨b, rest, hb⟩ := Frame.bytes_cons (hfs f (mem_cons_self ..)).1
    rw [bytesOf_cons, hb] at h
    cases h
  | depth + 1, .leaf leaf :: fs, value, consumed, hfs, h => by
    obtain ⟨hsound, hlen⟩ := hfs _ (mem_cons_self ..)
    rw [bytesOf_cons, parseValue_leaf hsound hlen] at h
    cases h
    have hleaf := isLeaf_of_legal hsound
    refine ⟨[.leaf leaf], fs, rfl, by simp, ?_, ?_, ?_⟩
    · rw [flatMap_cons, frames_leaf hleaf]
      rfl
    · simp [levels_leaf hleaf]
    · exact forall_mem_singleton.mpr hsound
  | depth + 1, .head kind items :: fs, value, consumed, hfs, h => by
    obtain ⟨hhead, hrest⟩ := forall_mem_cons.mp hfs
    have hitems := @parseValue_head kind items hhead.1 depth (bytesOf fs)
    rw [bytesOf_cons] at h
    split at hitems
    case isFalse =>
      obtain ⟨reason, hreason⟩ := hitems
      rw [hreason] at h
      cases h
    next hmax =>
    rw [hitems, aggregateItems, drop_left] at h
    cases hi : parseItems (parseValue depth) items (bytesOf fs) with
    | incomplete => simp [hi] at h
    | invalid reason => simp [hi] at h
    | complete values used =>
      obtain ⟨taken, left, rfl, rfl, hcount, htaken⟩ :=
        parseItems_spans (parseValue_spans depth) hrest hi
      simp only [hi] at h
      cases h
      refine ⟨.head kind items :: taken, left, rfl, by simp, ?_, ?_, ?_⟩
      · rw [flatMap_cons, frames_build, framesAll_eq, htaken.frames, hcount]
        simp
      · rw [forall_mem_singleton, levels_build, Nat.add_le_add_iff_right, levelsAll_le_iff]
        exact htaken.levels
      · exact forall_mem_cons.mpr ⟨⟨hhead.1, hmax⟩, htaken.legal⟩

theorem bytesOf_eq_nil (hfs : ∀ f ∈ fs, f.Sound) (h : bytesOf fs = []) : fs = [] := by
  cases fs with
  | nil => rfl
  | cons f fs =>
    obtain ⟨b, rest, hb⟩ := Frame.bytes_cons (hfs f (mem_cons_self ..))
    rw [bytesOf_cons, hb] at h
    cases h

/-- A loop that ends with an empty buffer has taken values with all the frames. -/
theorem settles_spans {direction : Direction} {maxBody : Nat} {s t : Bytes}
    {batch : DecodeBatch} (h : Settles (laneTurn direction maxBody) s t batch) (ht : t = [])
    (hs : s = bytesOf fs) (hfs : ∀ f ∈ fs, f.Sound ∧ f.bytes.length < 2 ^ 63) :
    ∃ values, batch.messages = values.map (toMessage direction · maxBody) ∧
      Taken maxNesting values fs := by
  induction h generalizing fs with
  | stop hstop =>
    obtain rfl := (laneTurn_stop hstop rfl).1
    obtain rfl := bytesOf_eq_nil (fun f hf => (hfs f hf).1) (hs.symm.trans ht)
    exact ⟨[], rfl, rfl, by simp, by simp⟩
  | again hagain _ ih =>
    subst hs
    obtain ⟨value, consumed, hv, rfl, rfl⟩ := laneTurn_again hagain
    obtain ⟨taken, left, rfl, rfl, htaken⟩ := parseValue_spans maxNesting hfs hv
    have hleft : (bytesOf (taken ++ left)).drop (bytesOf taken).length = bytesOf left := by
      rw [bytesOf_append, drop_left]
    obtain ⟨values, hmessages, hrest⟩ :=
      ih ht hleft fun f hf => hfs f (mem_append_right _ hf)
    refine ⟨value :: values, ?_, htaken.cons hrest⟩
    rw [Batch.seq_messages, hmessages]
    rfl

/-! ## Unique reading -/

theorem frames_items_cancel (h : ∀ value ∈ values, ∀ {w : RespValue} {r r' : List Frame},
      frames List.length value ++ r = frames List.length w ++ r' → value = w ∧ r = r') :
    ∀ {ws : List RespValue} {r r' : List Frame}, values.length = ws.length →
      values.flatMap (frames List.length) ++ r = ws.flatMap (frames List.length) ++ r' →
      values = ws ∧ r = r' := by
  induction values with
  | nil =>
    intro ws r r' hlen heq
    obtain rfl := eq_nil_of_length_eq_zero hlen.symm
    exact ⟨rfl, heq⟩
  | cons value values ih =>
    intro ws r r' hlen heq
    cases ws with
    | nil => cases hlen
    | cons w ws =>
      obtain ⟨hvalue, hvalues⟩ := forall_mem_cons.mp h
      rw [flatMap_cons, flatMap_cons, append_assoc, append_assoc] at heq
      obtain ⟨rfl, hrest⟩ := hvalue heq
      obtain ⟨rfl, hr⟩ := ih hvalues (Nat.succ.inj hlen) hrest
      exact ⟨rfl, hr⟩

/-- Frames tell where the first value ends. -/
theorem frames_cancel (value : RespValue) {w : RespValue} {r r' : List Frame}
    (h : frames List.length value ++ r = frames List.length w ++ r') : value = w ∧ r = r' := by
  induction value using value_induction generalizing w r r' with
  | leaf value hleaf =>
    rw [frames_leaf hleaf] at h
    induction w using value_induction with
    | leaf w hw =>
      rw [frames_leaf hw] at h
      cases h
      exact ⟨rfl, rfl⟩
    | aggregate kind ws =>
      rw [frames_build] at h
      cases h
  | aggregate kind values ih =>
    rw [frames_build, framesAll_eq] at h
    induction w using value_induction with
    | leaf w hw =>
      rw [frames_leaf hw] at h
      cases h
    | aggregate kind' ws =>
      rw [frames_build, framesAll_eq] at h
      simp only [cons_append, List.cons.injEq, Frame.head.injEq] at h
      obtain ⟨⟨rfl, hlen⟩, hrest⟩ := h
      obtain ⟨rfl, hr⟩ := frames_items_cancel (fun value hv => ih value hv) hlen hrest
      exact ⟨rfl, hr⟩

theorem frames_flatMap_inj {ws : List RespValue}
    (h : values.flatMap (frames List.length) = ws.flatMap (frames List.length)) : values = ws := by
  have hlen : values.length = ws.length := by
    have hweight := congrArg weight h
    rw [weight_items fun v _ => weight_frames v, weight_items fun v _ => weight_frames v] at hweight
    omega
  refine (frames_items_cancel (fun value _ => frames_cancel value) hlen ?_ : _ ∧ [] = []).1
  rw [h]

/-! ## Pushes -/

/-- The first frame tells a push. -/
theorem frames_cons (count : List RespValue → Nat) (value : RespValue) :
    ∃ f fs, frames count value = f :: fs ∧ f.isHead .push = isPush value := by
  induction value using value_induction with
  | leaf value hleaf =>
    refine ⟨.leaf value, [], frames_leaf hleaf count, ?_⟩
    cases value <;> first | rfl | cases hleaf
  | aggregate kind values ih =>
    refine ⟨_, _, frames_build count kind values, ?_⟩
    cases kind <;> rfl

theorem heads_cons (kind : Kind) (f : Frame) (fs : List Frame) :
    heads kind (f :: fs) = heads kind fs + if f.isHead kind then 1 else 0 :=
  countP_cons

/-- A stream has the push heads of its pushes. -/
theorem heads_push_sent {stream : List RespValue} (h : ∀ value ∈ stream, Sendable value) :
    heads .push (stream.flatMap sent) = stream.countP isPush := by
  induction stream with
  | nil => rfl
  | cons value stream ih =>
    obtain ⟨hvalue, hstream⟩ := forall_mem_cons.mp h
    obtain ⟨f, fs, hfs, hf⟩ := frames_cons announced value
    have hinner : heads .push fs = 0 := by
      rw [heads, countP_eq_zero]
      intro g hg
      have hno := hvalue.inner g (by rw [sent, hfs]; exact hg)
      simp [hno]
    rw [flatMap_cons, heads_append, ih hstream, sent, hfs, heads_cons, hinner, hf, countP_cons]
    omega

/-- Every value that is a push has a push head. -/
theorem countP_isPush_le (values : List RespValue) :
    values.countP isPush ≤ heads .push (values.flatMap (frames List.length)) := by
  induction values with
  | nil => exact Nat.le_refl 0
  | cons value values ih =>
    obtain ⟨f, fs, hfs, hf⟩ := frames_cons List.length value
    rw [flatMap_cons, heads_append, hfs, heads_cons, hf, countP_cons]
    omega

/-! ## One boundary for each reply -/

/-- A value of a stream that answers a command. -/
def isReply (value : RespValue) : Bool := !isPush value && !isAttr value

/-- A message that ends the wait of a request. -/
def isBoundary (m : DecodedMessage) : Bool :=
  findHeader m.headers "lens-boundary" == some "response"

/-- A response has no header with a reserved name except the boundary. -/
theorem findHeader_responseMessage (value : RespValue) (maxBody : Nat) {name : String}
    (h : ["lens-protocol", "redis-kind", "lens-content"].all
      (!Str.eqIgnoreAsciiCase · name) = true) :
    findHeader (responseMessage value maxBody).headers name =
      findHeader (if isPush value then [] else [("lens-boundary", "response")]) name := by
  have hheaders : (responseMessage value maxBody).headers =
      [("lens-protocol", "redis"), ("redis-kind", (responseSummary value).1),
        ("lens-content", "redis-value")] ++
      if isPush value then [] else [("lens-boundary", "response")] := rfl
  have hnone : findHeader [("lens-protocol", "redis"), ("redis-kind", (responseSummary value).1),
      ("lens-content", "redis-value")] name = none := findHeader_eq_none h
  rw [hheaders, findHeader_append, hnone, Option.none_or]

theorem isBoundary_responseMessage (value : RespValue) (maxBody : Nat) :
    isBoundary (responseMessage value maxBody) = !isPush value := by
  rw [isBoundary, findHeader_responseMessage value maxBody (by decide)]
  cases isPush value <;> rfl

/-- Of the values of a stream, those that the server counts are its replies and pushes. -/
theorem announced_stream (stream : List RespValue) :
    announced stream = stream.countP isReply + stream.countP isPush := by
  induction stream with
  | nil => rfl
  | cons value stream ih =>
    rw [announced_cons, ih, countP_cons, countP_cons]
    cases value <;> simp [counted, isReply, isAttr, isPush] <;> omega

/-- A value within the limits of the decoder: of each aggregate, of the nesting and of the
buffer. -/
structure Within (maxBody : Nat) (value : RespValue) : Prop where
  legal : ∀ f ∈ frames List.length value, f.Legal
  levels : levels value ≤ maxNesting
  size : (encode value).length ≤ saturatingAdd maxBody frameOverheadBudget + 1

/-- Every reply of a stream yields exactly one message with a boundary, in order and
however the stream is cut. -/
def OneEach (maxBody : Nat) (stream : List RespValue) : Prop :=
  ∀ fragments : List Bytes, fragments.flatten = sentBytes stream →
    let r := (RedisDecoder.new maxBody).pushAll .serverToClient fragments
    (∀ batch ∈ r.2, batch.desynchronized = none) ∧ r.1.server = [] ∧
      (r.2.flatMap Batch.messages).filter isBoundary =
        (stream.filter isReply).map (responseMessage · maxBody)

section Streams

variable {maxBody : Nat} {stream : List RespValue}

/-- Without attributes a stream is the encodings of its values. -/
theorem sentBytes_eq (h : ∀ value ∈ stream, heads .attr (sent value) = 0) :
    sentBytes stream = stream.flatMap encode := by
  rw [sentBytes, bytesOf, flatMap_assoc]
  refine flatMap_congr fun value hv => ?_
  rw [sent_eq_frames (h value hv), encode]

theorem filter_isReply (h : ∀ value ∈ stream, heads .attr (sent value) = 0) :
    stream.filter isReply = stream.filter (!isPush ·) := by
  refine filter_congr fun value hv => ?_
  rw [isReply, isAttr_of_heads (h value hv)]
  simp

theorem filter_isBoundary (values : List RespValue) :
    (values.map (responseMessage · maxBody)).filter isBoundary =
      (values.filter (!isPush ·)).map (responseMessage · maxBody) := by
  rw [filter_map]
  congr 1
  refine filter_congr fun value _ => ?_
  exact isBoundary_responseMessage value maxBody

/-- A stream without attributes and within the limits comes out value by value. -/
theorem RedisDecoder.pushAll_within (s : RedisDecoder) (hs : s.server = [])
    (hlen : (sentBytes stream).length < 2 ^ 63)
    (h : ∀ value ∈ stream, heads .attr (sent value) = 0 ∧ Within s.maxBody value)
    {fragments : List Bytes} (hf : fragments.flatten = sentBytes stream) :
    (s.pushAll .serverToClient fragments).1.server = [] ∧
      (s.pushAll .serverToClient fragments).2.flatMap Batch.messages =
        stream.map (responseMessage · s.maxBody) ∧
      ∀ batch ∈ (s.pushAll .serverToClient fragments).2, batch.desynchronized = none := by
  rw [sentBytes_eq fun value hv => (h value hv).1] at hf hlen
  refine s.pushAll_reads .serverToClient hs (fun value hv => ?_) hf
  have hshort : (encode value).length ≤ (stream.flatMap encode).length :=
    Search.length_le_flatMap hv
  obtain ⟨hlegal, hlevels, hsize⟩ := (h value hv).2
  exact reads_encode hlegal hlevels (by omega) .serverToClient hsize

theorem oneEach_of_within (hlen : (sentBytes stream).length < 2 ^ 63)
    (h : ∀ value ∈ stream, heads .attr (sent value) = 0 ∧ Within maxBody value) :
    OneEach maxBody stream := by
  intro fragments hf
  obtain ⟨hstate, hmessages, hsilent⟩ := (RedisDecoder.new maxBody).pushAll_within rfl hlen h hf
  refine ⟨hsilent, hstate, ?_⟩
  rw [hmessages, filter_isReply fun value hv => (h value hv).1]
  exact filter_isBoundary stream

/-- A silent push to a new decoder is a loop that settles. -/
theorem settles_of_push {bytes : Bytes}
    (h : ((RedisDecoder.new maxBody).push .serverToClient bytes).2.desynchronized = none) :
    Settles (laneTurn .serverToClient maxBody) bytes
      ((RedisDecoder.new maxBody).push .serverToClient bytes).1.server
      ((RedisDecoder.new maxBody).push .serverToClient bytes).2 := by
  rw [RedisDecoder.push_eq] at h ⊢
  exact (lane_plain .serverToClient maxBody).settles (lane_decreases .serverToClient maxBody) _ _
    (Nat.lt_succ_self _) h

/-- A stream whose replies yield one message each has no attributes, and the decoder takes
its values. -/
theorem OneEach.taken (hsend : ∀ value ∈ stream, Sendable value)
    (hlen : (sentBytes stream).length < 2 ^ 63) (h : OneEach maxBody stream) :
    (∀ value ∈ stream, heads .attr (sent value) = 0) ∧
      Taken maxNesting stream (stream.flatMap sent) := by
  obtain ⟨hsilent, hempty, hmessages⟩ := h [sentBytes stream] (by simp)
  simp only [RedisDecoder.pushAll, forall_mem_singleton, flatMap_singleton]
    at hsilent hempty hmessages
  have hsettles := settles_of_push hsilent
  have hframes : ∀ f ∈ stream.flatMap sent, f.Sound ∧ f.bytes.length < 2 ^ 63 := by
    intro f hf
    obtain ⟨value, hv, hfv⟩ := mem_flatMap.mp hf
    have hshort : f.bytes.length ≤ (sentBytes stream).length := Search.length_le_flatMap hf
    exact ⟨(hsend value hv).sound f hfv, by omega⟩
  obtain ⟨values, hvalues, htaken⟩ := settles_spans hsettles hempty rfl hframes
  -- The messages with a boundary are those of the values that are not pushes.
  have hcount : (values.filter (!isPush ·)).length = stream.countP isReply := by
    rw [hvalues] at hmessages
    have hlengths := congrArg List.length ((filter_isBoundary values).symm.trans hmessages)
    rw [length_map, length_map] at hlengths
    rw [hlengths, countP_eq_length_filter]
  have hall : values.length = values.countP isPush + (values.filter (!isPush ·)).length := by
    rw [← countP_eq_length_filter, length_eq_countP_add_countP isPush]
    simp
  have hweight := congrArg weight htaken.frames
  rw [weight_items fun v _ => weight_frames v, weight_announced fun v _ => weight_sent v,
    announced_stream] at hweight
  have hpushes := countP_isPush_le values
  rw [htaken.frames, heads_push_sent hsend] at hpushes
  have hnone : ∀ value ∈ stream, heads .attr (sent value) = 0 := heads_eq_zero.mp (by omega)
  have hsame : stream.flatMap sent = stream.flatMap (frames List.length) :=
    flatMap_congr fun value hv => sent_eq_frames (hnone value hv)
  have hstream := frames_flatMap_inj (htaken.frames.trans hsame)
  exact ⟨hnone, hstream ▸ htaken⟩

/-- Turns go through values that are encoded one after another. -/
theorem goes_encode {direction : Direction} (rest : Bytes) {values : List RespValue}
    (h : ∀ value ∈ values, (∀ f ∈ frames List.length value, f.Legal) ∧ levels value ≤ maxNesting ∧
      (encode value).length < 2 ^ 63) :
    ∃ batch,
      Stream.Goes (laneTurn direction maxBody) (values.flatMap encode ++ rest) rest batch := by
  induction values with
  | nil => exact ⟨.needMore, .refl rest⟩
  | cons value values ih =>
    obtain ⟨⟨hlegal, hlevels, hlen⟩, hvalues⟩ := forall_mem_cons.mp h
    obtain ⟨batch, hgoes⟩ := ih hvalues
    have hfront := parseValue_encode hlegal hlen hlevels (values.flatMap encode ++ rest)
    have hturn := @laneTurn_complete direction maxBody _ _ _ hfront
    rw [drop_left] at hturn
    rw [flatMap_cons, append_assoc]
    exact ⟨_, .again hturn hgoes⟩

/-- A part of a value that does not fit the buffer is reported. -/
theorem size_of_silent {pre : List RespValue}
    (hpre : ∀ v ∈ pre, (∀ f ∈ frames List.length v, f.Legal) ∧ levels v ≤ maxNesting ∧
      (encode v).length < 2 ^ 63) (hlegal : ∀ f ∈ frames List.length value, f.Legal)
    (hlevels : levels value ≤ maxNesting) (hlen : (encode value).length < 2 ^ 63)
    (hsilent : ((RedisDecoder.new maxBody).push .serverToClient (pre.flatMap encode ++
      (encode value).take (saturatingAdd maxBody frameOverheadBudget + 1))).2.desynchronized =
        none) :
    (encode value).length ≤ saturatingAdd maxBody frameOverheadBudget + 1 := by
  by_contra hsize
  have hsettles := settles_of_push hsilent
  generalize hpart : (encode value).take (saturatingAdd maxBody frameOverheadBudget + 1) = part
    at hsilent hsettles
  have hlong : part.length = saturatingAdd maxBody frameOverheadBudget + 1 := by
    rw [← hpart, length_take]
    omega
  have hwaits : parseValue maxNesting part = .incomplete := by
    refine parseValue_part hlegal hlevels hlen (hpart ▸ take_prefix ..) fun heq => ?_
    have := congrArg List.length heq
    omega
  obtain ⟨before, hgoes⟩ := @goes_encode maxBody .serverToClient part pre hpre
  obtain ⟨last, hlast, hboth⟩ := hgoes.halts hsettles.halts
  rw [hboth, Batch.seq_desynchronized_eq_none] at hsilent
  cases hlast with
  | again hturn _ =>
    obtain ⟨v, n, hv, -, -⟩ := laneTurn_again hturn
    rw [hwaits] at hv
    cases hv
  | stop hturn =>
    cases part with
    | nil =>
      rw [length_nil] at hlong
      omega
    | cons b part =>
      simp only [laneTurn, isEmpty_cons, Bool.false_eq_true, if_false, hwaits] at hturn
      rw [if_pos (by omega)] at hturn
      injection hturn with _ hreport
      rw [← hreport] at hsilent
      cases hsilent.2

/-- In a stream of replies, pushes and attributes every reply yields exactly one message
with a boundary just when there is no attribute and all values are within the limits. -/
theorem oneEach_iff_within (hsend : ∀ value ∈ stream, Sendable value)
    (hlen : (sentBytes stream).length < 2 ^ 63) :
    OneEach maxBody stream ↔
      ∀ value ∈ stream, heads .attr (sent value) = 0 ∧ Within maxBody value := by
  refine ⟨fun h => ?_, oneEach_of_within hlen⟩
  obtain ⟨hnone, htaken⟩ := h.taken hsend hlen
  have hbytes := sentBytes_eq hnone
  rw [hbytes] at hlen
  have hvalues : ∀ v ∈ stream, (∀ f ∈ frames List.length v, f.Legal) ∧ levels v ≤ maxNesting ∧
      (encode v).length < 2 ^ 63 := by
    intro v hv
    have hshort : (encode v).length ≤ (stream.flatMap encode).length :=
      Search.length_le_flatMap hv
    refine ⟨fun f hf => htaken.legal f ?_, htaken.levels v hv, by omega⟩
    rw [← htaken.frames]
    exact mem_flatMap.mpr ⟨v, hv, hf⟩
  intro value hv
  refine ⟨hnone value hv, (hvalues value hv).1, (hvalues value hv).2.1, ?_⟩
  -- Cut the stream inside the value, after as much of it as the buffer holds and one byte.
  obtain ⟨pre, post, rfl⟩ := append_of_mem hv
  let n := saturatingAdd maxBody frameOverheadBudget + 1
  have hcut : [pre.flatMap encode ++ (encode value).take n,
      (encode value).drop n ++ post.flatMap encode].flatten = sentBytes (pre ++ value :: post) := by
    rw [hbytes, flatten_cons, flatten_cons, flatten_nil, append_nil, append_assoc, flatMap_append,
      flatMap_cons, ← append_assoc ((encode value).take n), take_append_drop]
  have hsilent := (h _ hcut).1
  rw [RedisDecoder.pushAll, forall_mem_cons] at hsilent
  exact size_of_silent (fun v hpre => hvalues v (mem_append_left _ hpre)) (hvalues value hv).1
    (hvalues value hv).2.1 (hvalues value hv).2.2 hsilent.1

end Streams

end Lens.Redis
