import Lens.Postgres.Content

/-!
# The cap on retained text

The decoder is built with a cap for the text it keeps (`PostgresDecoder.new`).  A source
is `Capped` when its message is made of at most that many bytes of each of its texts,
when its written size has a bound in the cap and the number of texts, and when a
shortened text is marked.

Only SQL and error fields are cut at the cap.  Names, parameters and command tags are
kept whole, and column names up to the number of 32 without a mark.  `capped_iff` says
that the rule holds exactly where those texts are within the cap anyway.
-/

namespace Lens.Postgres

open List
open Search (beNat)
open Utf8 (width width_append)

variable {x y payload : Bytes} {n : Nat} {code tag : UInt8}
  {ps : List (Bytes × Bytes)} {names names' : List Bytes} {c : Content}
  {direction : Direction} {startLine kind : String} {source : Source} {maxBody : Nat}

/-! ## Retained texts -/

/-- The texts of the error fields that a message keeps. -/
def retained (fields : List (UInt8 × Bytes)) : List Bytes :=
  fields.filterMap fun f => (errorFieldName f.1).map fun _ => f.2

/-- The texts that a message is made of.  The column names are one list. -/
def Content.texts : Content → List Bytes
  | .query sql => [sql]
  | .parse name sql => [name, sql]
  | .bind portal statement _ => [portal, statement]
  | .execute portal _ => [portal]
  | .startup _ parameters => parameters.flatMap fun p => [p.1, p.2]
  | .parameterStatus name value => [name, value]
  | .commandComplete commandTag => [commandTag]
  | .report _ fields => retained fields
  | .rowDescription _ names => [names.flatten]
  | .fixed _ => []

/-- Contents with texts of the same sizes that agree in their first `n` bytes. -/
def Content.Alike (n : Nat) (c c' : Content) : Prop :=
  c.Rel StandsFor c' ∧ c'.texts.map (·.take n) = c.texts.map (·.take n)

/-- A message shows less than all of a text that it keeps. -/
def Content.shortened (maxBody : Nat) : Content → Bool
  | .query sql => maxBody < sql.length
  | .parse _ sql => maxBody < sql.length
  | .report _ fields => (retained fields).any fun value => maxBody < value.length
  | .rowDescription _ names => 32 < names.length
  | _ => false

/-- A parameter within the cap.  The value of a secret is not shown. -/
def pairWithin (maxBody : Nat) (p : Bytes × Bytes) : Bool :=
  p.1.length ≤ maxBody &&
    (isStartupSecret (Utf8.fromUtf8Lossy p.1) || p.2.length ≤ maxBody)

/-- The texts that the decoder does not cut are within the cap. -/
def Content.within (maxBody : Nat) : Content → Bool
  | .query _ => true
  | .parse name _ => name.length ≤ maxBody
  | .bind portal statement _ => portal.length ≤ maxBody && statement.length ≤ maxBody
  | .execute portal _ => portal.length ≤ maxBody
  | .startup _ parameters => parameters.all (pairWithin maxBody)
  | .parameterStatus name value => pairWithin maxBody (name, value)
  | .commandComplete commandTag => commandTag.length ≤ maxBody
  | .report _ _ => true
  | .rowDescription _ names => names.length ≤ 32 && names.flatten.length ≤ maxBody
  | .fixed _ => true

/-! ## Messages of alike contents -/

theorem StandsFor.eq_of_short (h : StandsFor x y) (htake : y.take n = x.take n)
    (hx : x.length ≤ n) : y = x := by
  rwa [take_of_length_le hx, take_of_length_le (h.1 ▸ hx)] at htake

theorem capture_alike (m : DecodedMessage) (h : StandsFor x y)
    (htake : y.take n = x.take n) : capture m y n = capture m x n := by
  have hmin : y.take (min y.length n) = x.take (min x.length n) := by
    rw [h.1, ← take_take, htake, take_take]
  rw [capture, capture, hmin, h.1]

theorem pushErrorField_alike (m : DecodedMessage) (h : StandsFor x y)
    (htake : y.take n = x.take n) :
    pushErrorField n m (code, y) = pushErrorField n m (code, x) := by
  rw [pushErrorField, pushErrorField, htake, h.1]

theorem report_alike {fields fields' : List (UInt8 × Bytes)}
    (h : List.Forall₂ (FieldRel StandsFor) fields fields')
    (htexts : (retained fields').map (·.take n) = (retained fields).map (·.take n)) :
    ∀ m, fields'.foldl (pushErrorField n) m = fields.foldl (pushErrorField n) m := by
  induction h with
  | nil => exact fun m => rfl
  | @cons f f' fields fields' hf _ ih =>
    obtain ⟨code, x⟩ := f
    obtain ⟨code', y⟩ := f'
    obtain ⟨rfl, hxy⟩ := hf
    intro m
    rw [foldl_cons, foldl_cons]
    cases hname : errorFieldName code with
    | none =>
      simp only [retained, filterMap_cons, hname, Option.map_none] at htexts
      simp only [pushErrorField, hname]
      exact ih htexts m
    | some name =>
      simp only [retained, filterMap_cons, hname, Option.map_some, map_cons,
        List.cons.injEq] at htexts
      rw [pushErrorField_alike m hxy htexts.1]
      exact ih htexts.2 _

theorem parameterHeader_alike {p p' : Bytes × Bytes} (h : PairRel StandsFor p p')
    (hname : p'.1.take n = p.1.take n) (hvalue : p'.2.take n = p.2.take n)
    (hw : pairWithin n p = true) :
    parameterHeader p'.1 p'.2 = parameterHeader p.1 p.2 := by
  rw [pairWithin, Bool.and_eq_true, Bool.or_eq_true, decide_eq_true_eq, decide_eq_true_eq] at hw
  rw [h.1.eq_of_short hname hw.1, parameterHeader, parameterHeader]
  obtain hsecret | hshort := hw.2
  · rw [if_pos hsecret, if_pos hsecret]
  · rw [h.2.eq_of_short hvalue hshort]

theorem parameters_alike {ps' : List (Bytes × Bytes)}
    (h : List.Forall₂ (PairRel StandsFor) ps ps')
    (htexts : (ps'.flatMap fun p => [p.1, p.2]).map (·.take n) =
      (ps.flatMap fun p => [p.1, p.2]).map (·.take n)) (hw : ps.all (pairWithin n) = true) :
    (ps'.map fun p => parameterHeader p.1 p.2) = ps.map fun p => parameterHeader p.1 p.2 := by
  induction h with
  | nil => rfl
  | @cons p p' ps ps' hp _ ih =>
    rw [all_cons, Bool.and_eq_true] at hw
    simp only [flatMap_cons, cons_append, nil_append, map_cons, List.cons.injEq] at htexts
    obtain ⟨hname, hvalue, hrest⟩ := htexts
    rw [map_cons, map_cons, ih hrest hw.2, parameterHeader_alike hp hname hvalue hw.1]

theorem length_flatten_standsFor
    (h : List.Forall₂ StandsFor names names') : names'.flatten.length = names.flatten.length := by
  induction h with
  | nil => rfl
  | cons hname _ ih =>
    rw [flatten_cons, flatten_cons, length_append, length_append, ih, hname.1]

theorem eq_of_flatten (h : List.Forall₂ StandsFor names names')
    (hflat : names'.flatten = names.flatten) :
    names' = names := by
  induction h with
  | nil => rfl
  | cons hname _ ih =>
    rw [flatten_cons, flatten_cons] at hflat
    obtain ⟨hhead, htail⟩ := append_inj hflat hname.1
    rw [hhead, ih htail]

/-- A message within the cap is made of the first bytes of its texts. -/
theorem Content.message_alike {c' : Content} (hw : c.within n = true)
    (h : c.Alike n c') : c'.message n = c.message n := by
  obtain ⟨hr, htexts⟩ := h
  cases hr with
  | query hsql =>
    simp only [texts, map_cons, List.cons.injEq] at htexts
    rw [message, message, capture_alike _ hsql htexts.1]
  | parse hname hsql =>
    simp only [texts, map_cons, List.cons.injEq] at htexts
    obtain ⟨htake, htake', -⟩ := htexts
    rw [message, message, hname.eq_of_short htake (of_decide_eq_true hw),
      capture_alike _ hsql htake']
  | bind hportal hstatement =>
    simp only [texts, map_cons, List.cons.injEq] at htexts
    obtain ⟨htake, htake', -⟩ := htexts
    rw [within, Bool.and_eq_true, decide_eq_true_eq, decide_eq_true_eq] at hw
    rw [hportal.eq_of_short htake hw.1, hstatement.eq_of_short htake' hw.2]
  | execute hportal =>
    simp only [texts, map_cons, List.cons.injEq] at htexts
    rw [hportal.eq_of_short htexts.1 (of_decide_eq_true hw)]
  | startup hparameters => rw [message, message, parameters_alike hparameters htexts hw]
  | @parameterStatus name name' value value' hname hvalue =>
    simp only [texts, map_cons, List.cons.injEq] at htexts
    obtain ⟨htake, htake', -⟩ := htexts
    have hrel : PairRel StandsFor (name, value) (name', value') := ⟨hname, hvalue⟩
    rw [message, message, parameterHeader_alike hrel htake htake' hw]
  | commandComplete htag =>
    simp only [texts, map_cons, List.cons.injEq] at htexts
    rw [htag.eq_of_short htexts.1 (of_decide_eq_true hw)]
  | report hfields => rw [message, message, report_alike hfields htexts]
  | rowDescription hnames =>
    simp only [texts, map_cons, List.cons.injEq] at htexts
    rw [within, Bool.and_eq_true, decide_eq_true_eq, decide_eq_true_eq] at hw
    have htake := htexts.1
    rw [take_of_length_le hw.2, take_of_length_le (length_flatten_standsFor hnames ▸ hw.2)] at htake
    rw [eq_of_flatten hnames htake]
  | fixed m => rfl

/-! ## The bound -/

theorem width_string (s : String) : width (toString s) = width s := rfl

theorem width_join (names : List Bytes) :
    width (Str.join "," (names.map Utf8.fromUtf8Lossy)) ≤
      3 * names.flatten.length + names.length := by
  induction names with
  | nil => exact Nat.le_refl 0
  | cons name names ih =>
    have hname : width (Utf8.fromUtf8Lossy name) ≤ 3 * name.length :=
      Utf8.length_fromUtf8Lossy name
    have hcomma : width "," = 1 := by decide
    cases names with
    | nil =>
      rw [flatten_singleton]
      exact Nat.le_add_right_of_le hname
    | cons next names =>
      rw [map_cons, Str.join_cons "," _ (by simp), width_append, width_append,
        flatten_cons, length_append, length_cons]
      omega

theorem width_displayName (x : Bytes) : width (displayName x) ≤ 3 * x.length + 9 := by
  rw [displayName]
  split
  · exact Nat.le_add_left 9 _
  · exact Nat.le_add_right_of_le (Utf8.length_fromUtf8Lossy x)

theorem written_capture (m : DecodedMessage) (x : Bytes) (n : Nat) :
    written (capture m x n) ≤ written m + n := by
  simp only [written, capture, DecodedMessage.render, length_append, length_take]
  omega

theorem written_headers (m : DecodedMessage) (hs : Headers) :
    written { m with headers := m.headers ++ hs } =
      written m + (hs.map fun h => width h.1 + width h.2 + 4).sum := by
  induction hs generalizing m with
  | nil => rw [append_nil, map_nil, sum_nil, Nat.add_zero]
  | cons h hs ih =>
    have hpush := ih (m.pushHeader h.1 h.2)
    rw [written_pushHeader] at hpush
    rw [DecodedMessage.pushHeader, append_assoc, singleton_append] at hpush
    rw [hpush, map_cons, sum_cons]
    omega

theorem width_errorFieldName {name : String} (h : errorFieldName code = some name) :
    width name ≤ 8 := by
  rw [errorFieldName] at h
  split at h
  case h_8 => cases h
  all_goals
    cases h
    decide

/-- The bound on the written size, in the cap and the number of texts. -/
def bound (maxBody texts : Nat) : Nat := 512 + texts * (3 * maxBody + 16)

theorem written_parameters (hw : ps.all (pairWithin n) = true) :
    ((ps.map fun p => parameterHeader p.1 p.2).map fun h => width h.1 + width h.2 + 4).sum ≤
      (ps.flatMap fun p => [p.1, p.2]).length * (3 * n + 16) := by
  induction ps with
  | nil => exact Nat.zero_le _
  | cons p ps ih =>
    rw [all_cons, Bool.and_eq_true] at hw
    have hrest := ih hw.2
    have hp := hw.1
    rw [pairWithin, Bool.and_eq_true, Bool.or_eq_true, decide_eq_true_eq, decide_eq_true_eq] at hp
    have hname : width (Utf8.fromUtf8Lossy p.1) ≤ 3 * p.1.length := Utf8.length_fromUtf8Lossy p.1
    have hvalue : width (parameterHeader p.1 p.2).2 ≤ 3 * n + 10 := by
      rw [parameterHeader]
      dsimp only
      split
      · exact Nat.le_add_left 10 (3 * n)
      next hsecret =>
        have hlossy : width (Utf8.fromUtf8Lossy p.2) ≤ 3 * p.2.length :=
          Utf8.length_fromUtf8Lossy p.2
        have hshort := hp.2.resolve_left hsecret
        omega
    have hfirst : (parameterHeader p.1 p.2).1 = Utf8.fromUtf8Lossy p.1 := rfl
    rw [map_cons, map_cons, sum_cons, flatMap_cons, length_append, Nat.add_mul, hfirst]
    have htwo : [p.1, p.2].length = 2 := rfl
    rw [htwo]
    omega

theorem written_report (n : Nat) (fields : List (UInt8 × Bytes)) :
    ∀ m, written (fields.foldl (pushErrorField n) m) ≤
      written m + (retained fields).length * (3 * n + 16) := by
  induction fields with
  | nil => exact fun m => Nat.le_add_right _ _
  | cons f fields ih =>
    intro m
    rw [foldl_cons]
    cases hname : errorFieldName f.1 with
    | none =>
      simp only [retained, filterMap_cons, hname, Option.map_none]
      simp only [pushErrorField, hname]
      exact ih m
    | some name =>
      have hstep : written (pushErrorField n m f) ≤ written m + (3 * n + 16) := by
        have hwidth := width_errorFieldName hname
        have hlossy : width (Utf8.fromUtf8Lossy (f.2.take n)) ≤ 3 * (f.2.take n).length :=
          Utf8.length_fromUtf8Lossy _
        have hcut := length_take_le n f.2
        have hmark : written (if n < f.2.length then { m with truncated := true } else m) =
            written m := by
          split
          · rfl
          · rfl
        simp only [pushErrorField, hname]
        rw [written_pushHeader, hmark]
        omega
      have hrest := ih (pushErrorField n m f)
      simp only [retained, filterMap_cons, hname, Option.map_some, length_cons]
      rw [Nat.add_mul]
      simp only [retained] at hrest
      omega

theorem written_withBoundary (m : DecodedMessage) (boundary : String) :
    written (withBoundary m boundary) = written m + width boundary + 17 := by
  have hname : width "lens-boundary" = 13 := by decide
  rw [withBoundary, written_pushHeader]
  omega

theorem width_lossy (h : x.length ≤ n) :
    width (Utf8.fromUtf8Lossy x) ≤ 3 * n := by
  have hlossy : width (Utf8.fromUtf8Lossy x) ≤ 3 * x.length := Utf8.length_fromUtf8Lossy x
  omega

/-- A message within the cap is within the bound, with room for its size. -/
theorem Content.written_message (hs : c.Small) (hw : c.within n = true) :
    written (c.message n) + 32 ≤ bound n c.texts.length := by
  rw [bound]
  cases c with
  | query sql =>
    have hcapture := written_capture
      (withBoundary (plain .clientToServer "Query" "query") "request") sql n
    rw [written_withBoundary, written_plain] at hcapture
    have hconst : width "Query" + width "query" + width "request" + width "lens-content" +
      width "sql" = 32 := by decide
    simp only [message, texts, length_cons, length_nil, written_pushHeader]
    omega
  | parse name sql =>
    have hname := width_displayName name
    have hshort : name.length ≤ n := of_decide_eq_true hw
    have hcapture := written_capture
      (plain .clientToServer ("Parse statement=" ++ displayName name) "parse") sql n
    rw [written_plain, width_append] at hcapture
    have hconst : width "Parse statement=" + width "parse" + width "lens-content" +
      width "sql" = 36 := by decide
    simp only [message, texts, length_cons, length_nil, written_pushHeader]
    omega
  | bind portal statement parameters =>
    rw [within, Bool.and_eq_true, decide_eq_true_eq, decide_eq_true_eq] at hw
    have hportal := width_displayName portal
    have hstatement := width_displayName statement
    have hcount : width (toString parameters) ≤ 5 := width_toString (by decide) hs
    have hconst : width "Bind portal=" + width " statement=" + width " parameters=" +
      width " (values omitted)" + width "bind" = 56 := by decide
    simp only [message, texts, length_cons, length_nil, written_plain, width_append, width_string]
    omega
  | execute portal maxRows =>
    have hshort : portal.length ≤ n := of_decide_eq_true hw
    have hportal := width_displayName portal
    have hcount : width (toString maxRows) ≤ 10 := width_toString (by decide) hs
    have hconst : width "Execute portal=" + width " max_rows=" + width "execute" +
      width "request" = 39 := by decide
    simp only [message, texts, length_cons, length_nil, written_withBoundary,
      written_plain, width_append, width_string]
    omega
  | startup minor parameters =>
    have hparameters := written_parameters hw
    have hcount : width (toString minor) ≤ 5 := width_toString (by decide) hs
    have hconst : width "StartupMessage protocol=" + width (toString 3) + width "." +
      width "startup" = 33 := by decide
    simp only [message, texts, written_headers, written_plain, width_append, width_string]
    omega
  | parameterStatus name value =>
    have hsingle : [(name, value)].all (pairWithin n) = true := by
      rw [all_cons, all_nil, Bool.and_true]
      exact hw
    have hparameters := written_parameters hsingle
    have hconst : width "ParameterStatus" + width "parameter-status" = 31 := by decide
    simp only [message, texts, written_pushHeader, written_plain, length_cons, length_nil]
    simp only [map_cons, map_nil, sum_cons, sum_nil, flatMap_cons,
      flatMap_nil, append_nil, length_cons, length_nil] at hparameters
    omega
  | commandComplete commandTag =>
    have htag := width_lossy (of_decide_eq_true hw)
    have hconst : width "CommandComplete " + width "command-complete" + width "response" = 40 := by
      decide
    simp only [message, texts, length_cons, length_nil, written_withBoundary,
      written_plain, width_append, width_string]
    omega
  | report isError fields =>
    have hfields := written_report n fields
    have hconst : width "response" = 8 := by decide
    cases isError with
    | true =>
      have herror := hfields (plain .serverToClient "ErrorResponse" "error")
      have hplain : width "ErrorResponse" + width "error" = 18 := by decide
      rw [written_plain] at herror
      simp only [message, texts, if_true, written_withBoundary]
      omega
    | false =>
      have hnotice := hfields (plain .serverToClient "NoticeResponse" "notice")
      have hplain : width "NoticeResponse" + width "notice" = 20 := by decide
      rw [written_plain] at hnotice
      simp only [message, texts, Bool.false_eq_true, if_false]
      omega
  | rowDescription columns names =>
    rw [within, Bool.and_eq_true, decide_eq_true_eq, decide_eq_true_eq] at hw
    have hjoin := width_join names
    have hcount : width (toString columns) ≤ 5 := width_toString (by decide) hs
    have hconst : width "RowDescription columns=" + width "row-description" + width "columns" =
      45 := by decide
    have hplain : written (plain .serverToClient ("RowDescription columns=" ++ toString columns)
        "row-description") ≤ 100 := by
      rw [written_plain, width_append]
      omega
    simp only [message, texts, take_of_length_le hw.1, length_cons, length_nil]
    split
    · exact Nat.le_trans (Nat.add_le_add_right hplain 32) (by omega)
    · rw [written_pushHeader]
      exact Nat.le_trans (Nat.add_le_add_right (Nat.add_le_add_right (Nat.add_le_add
        (Nat.add_le_add_right hplain _) hjoin) 4) 32) (by omega)
  | fixed m =>
    have hm : written m ≤ 256 := hs
    simp only [message, texts, length_nil]
    omega

/-! ## The rule -/

/-- A source keeps to the cap.  Its message is the same for every source of its kind and
size whose texts agree in the first bytes, it has a bounded size, and it is marked when a
text was shortened. -/
structure Source.Capped (maxBody : Nat) (source : Source) (c : Content) : Prop where
  derived : ∀ {source' c'}, SameKind source source' → source'.content = .ok c' →
    c.Alike maxBody c' → source'.decode maxBody = source.decode maxBody
  bounded : ∀ {m}, source.decode maxBody = .ok m → written m ≤ bound maxBody c.texts.length
  marked : ∀ {m}, source.decode maxBody = .ok m → c.shortened maxBody = true → m.truncated = true

theorem Source.finish_sameKind {source' : Source} (h : SameKind source source')
    (m : DecodedMessage) :
    source'.finish m = source.finish m := by
  cases h with
  | startup version hlen => rfl
  | typed direction tag hlen => rw [finish, finish, withWireBytes, withWireBytes, hlen]

theorem Source.written_finish (hfit : source.payload.length ≤ maxFrameBytes) (m : DecodedMessage) :
    written (source.finish m) ≤ written m + 32 := by
  cases source with
  | startup version payload => exact Nat.le_add_right _ _
  | typed direction tag payload =>
    have hsize : width (toString (payload.length + 5)) ≤ 8 :=
      width_toString (by decide) (Nat.lt_of_le_of_lt (Nat.add_le_add_right hfit 5) (by decide))
    have hname : width "wire-bytes" = 10 := by decide
    rw [finish, withWireBytes, written_pushHeader]
    omega

theorem Source.truncated_finish (source : Source) (m : DecodedMessage) :
    (source.finish m).truncated = m.truncated := by
  cases source with
  | startup version payload => rfl
  | typed direction tag payload => rfl

theorem truncated_report (n : Nat) (fields : List (UInt8 × Bytes)) :
    ∀ m, (fields.foldl (pushErrorField n) m).truncated =
      (m.truncated || (retained fields).any fun value => n < value.length) := by
  induction fields with
  | nil => exact fun m => (Bool.or_false _).symm
  | cons f fields ih =>
    intro m
    rw [foldl_cons, ih]
    cases hname : errorFieldName f.1 with
    | none => simp only [retained, filterMap_cons, pushErrorField, hname, Option.map_none]
    | some name =>
      simp only [retained, filterMap_cons, pushErrorField, hname, Option.map_some,
        any_cons, ← Bool.or_assoc]
      congr 1
      split
      next hlong => simp [DecodedMessage.pushHeader, hlong]
      next hshort => simp [DecodedMessage.pushHeader, hshort]

/-- A shortened text is marked, column names apart. -/
theorem Content.truncated_message (hw : c.within n = true)
    (hs : c.shortened n = true) : (c.message n).truncated = true := by
  cases c with
  | query sql =>
    have hlong : n < sql.length := of_decide_eq_true hs
    exact decide_eq_true (by omega)
  | parse name sql =>
    have hlong : n < sql.length := of_decide_eq_true hs
    exact decide_eq_true (by omega)
  | report isError fields =>
    have htruncated := truncated_report n fields
    rw [shortened] at hs
    simp only [hs, Bool.or_true] at htruncated
    cases isError with
    | true => exact htruncated _
    | false => exact htruncated _
  | rowDescription columns names =>
    rw [within, Bool.and_eq_true, decide_eq_true_eq, decide_eq_true_eq] at hw
    have hlong : 32 < names.length := of_decide_eq_true hs
    omega
  | bind portal statement parameters => cases hs
  | execute portal maxRows => cases hs
  | startup minor parameters => cases hs
  | parameterStatus name value => cases hs
  | commandComplete commandTag => cases hs
  | fixed m => cases hs

theorem Source.decode_ok (hc : source.content = .ok c) (maxBody : Nat) :
    source.decode maxBody = .ok (source.finish (c.message maxBody)) := by
  rw [decode_eq, hc]
  rfl

theorem Source.capped_of_within (hfit : source.payload.length ≤ maxFrameBytes)
    (hc : source.content = .ok c) (hw : c.within maxBody = true) : source.Capped maxBody c where
  derived := by
    intro source' c' hkind hc' halike
    rw [decode_ok hc, decode_ok hc', finish_sameKind hkind, c.message_alike hw halike]
  bounded := by
    intro m hm
    rw [decode_ok hc] at hm
    cases hm
    have hwritten := c.written_message ((reads hc).1 hfit) hw
    have hfinish := written_finish hfit (c.message maxBody)
    omega
  marked := by
    intro m hm hs
    rw [decode_ok hc] at hm
    cases hm
    rw [truncated_finish]
    exact c.truncated_message hw hs

/-! ## Texts over the cap -/

/-- A text with another last byte. -/
def relast (x : Bytes) (b : UInt8) : Bytes := x.dropLast ++ [b]

theorem standsFor_relast {b : UInt8} (hx : StandsFor x x) (hpos : n < x.length)
    (hb : b ≠ 0) : StandsFor x (relast x b) := by
  constructor
  · rw [relast, length_append, length_dropLast, length_singleton]
    omega
  · rw [relast, mem_append, not_or]
    exact ⟨fun h => hx.2 (mem_of_mem_dropLast h), fun h => hb (mem_singleton.mp h).symm⟩

theorem take_relast (h : n < x.length) (b : UInt8) :
    (relast x b).take n = x.take n := by
  rw [relast, take_append_of_le_length (by rw [length_dropLast]; omega),
    dropLast_eq_take, take_take]
  congr 1
  omega

/-- The last byte of a text shows. -/
theorem lossy_relast_ne (x : Bytes) :
    Utf8.fromUtf8Lossy (relast x 0x41) ≠ Utf8.fromUtf8Lossy (relast x 0x42) := by
  intro h
  have hlast := congrArg (fun s : String => s.toList.getLast?) h
  rw [relast, relast] at hlast
  simp only [Utf8.getLast?_fromUtf8Lossy (show (0x41 : UInt8).toNat < 0x80 by decide),
    Utf8.getLast?_fromUtf8Lossy (show (0x42 : UInt8).toNat < 0x80 by decide)] at hlast
  exact absurd hlast (by decide)

theorem relast_append (x : Bytes) (h : y ≠ []) (b : UInt8) :
    relast (x ++ y) b = x ++ relast y b := by
  rw [relast, dropLast_append_of_ne_nil h, append_assoc, relast]

theorem relast_ne_nil (x : Bytes) (b : UInt8) : relast x b ≠ [] := by
  rw [relast]
  exact append_ne_nil_of_right_ne_nil _ (cons_ne_nil b [])

theorem displayName_relast (x : Bytes) (b : UInt8) :
    displayName (relast x b) = Utf8.fromUtf8Lossy (relast x b) := by
  rw [displayName, if_neg (by rw [List.isEmpty_iff]; exact relast_ne_nil x b)]

theorem Source.finish_injective {m m' : DecodedMessage} (h : source.finish m = source.finish m') :
    m = m' := by
  cases source with
  | startup version payload => exact h
  | typed direction tag payload =>
    obtain ⟨_, _, headers, _, _⟩ := m
    obtain ⟨_, _, headers', _, _⟩ := m'
    simpa [finish, withWireBytes, DecodedMessage.pushHeader] using h

/-- A source whose message tells the last byte of a text over the cap. -/
theorem Source.not_capped (fill : Bytes → Content) (hc : source.content = .ok (fill x))
    (halike : ∀ b, b ≠ 0 → (fill x).Alike maxBody (fill (relast x b)))
    (htold : (fill (relast x 0x41)).message maxBody = (fill (relast x 0x42)).message maxBody →
      Utf8.fromUtf8Lossy (relast x 0x41) = Utf8.fromUtf8Lossy (relast x 0x42)) :
    ¬ source.Capped maxBody (fill x) := by
  intro hcapped
  have hA := halike 0x41 (by decide)
  have hB := halike 0x42 (by decide)
  obtain ⟨sourceA, hkindA, hcA⟩ := (reads hc).2.2 hA.1
  obtain ⟨sourceB, hkindB, hcB⟩ := (reads hc).2.2 hB.1
  have hsame := (hcapped.derived hkindA hcA hA).trans (hcapped.derived hkindB hcB hB).symm
  rw [decode_ok hcA, decode_ok hcB, finish_sameKind hkindA, finish_sameKind hkindB] at hsame
  exact lossy_relast_ne x (htold (finish_injective (Except.ok.inj hsame)))

section

variable {name value value' : Bytes} {portal statement : String}
  {parameters minor columns : Nat} {p p' : Bytes × Bytes}
  {before after : List (Bytes × Bytes)}

theorem Source.not_capped_parse {sql : Bytes} (hc : source.content = .ok (.parse name sql))
    (hlong : maxBody < name.length) :
    ¬ source.Capped maxBody (.parse name sql) := by
  cases (reads hc).2.1 with
  | parse hname hsql =>
    refine not_capped (fun y => .parse y sql) hc (fun b hb => ⟨?_, ?_⟩) fun hsame => ?_
    · exact .parse (standsFor_relast hname hlong hb) hsql
    · simp only [Content.texts, map_cons, take_relast hlong]
    · have hline := congrArg DecodedMessage.startLine hsame
      change "Parse statement=" ++ displayName _ = "Parse statement=" ++ displayName _ at hline
      rwa [String.append_right_inj, displayName_relast, displayName_relast] at hline

/-- The start line of a `Bind`. -/
def bindLine (portal statement : String) (parameters : Nat) : String :=
  "Bind portal=" ++ portal ++ " statement=" ++ statement ++ " parameters=" ++ toString parameters ++
    " (values omitted)"

theorem bindLine_portal {portal' : String}
    (h : bindLine portal statement parameters = bindLine portal' statement parameters) :
    portal = portal' := by
  unfold bindLine at h
  rwa [String.append_left_inj, String.append_left_inj, String.append_left_inj,
    String.append_left_inj, String.append_left_inj, String.append_right_inj] at h

theorem bindLine_statement {statement' : String}
    (h : bindLine portal statement parameters = bindLine portal statement' parameters) :
    statement = statement' := by
  unfold bindLine at h
  rwa [String.append_left_inj, String.append_left_inj, String.append_left_inj,
    String.append_right_inj] at h

theorem Source.not_capped_bind {portal statement : Bytes}
    (hc : source.content = .ok (.bind portal statement parameters))
    (hlong : maxBody < portal.length ∨ maxBody < statement.length) :
    ¬ source.Capped maxBody (.bind portal statement parameters) := by
  cases (reads hc).2.1 with
  | bind hportal hstatement =>
    obtain hlong | hlong := hlong
    · refine not_capped (fun y => .bind y statement parameters) hc (fun b hb => ⟨?_, ?_⟩)
        fun hsame => ?_
      · exact .bind (standsFor_relast hportal hlong hb) hstatement
      · simp only [Content.texts, map_cons, take_relast hlong]
      · have hline := congrArg DecodedMessage.startLine hsame
        change bindLine (displayName _) _ _ = bindLine (displayName _) _ _ at hline
        rw [displayName_relast, displayName_relast] at hline
        exact bindLine_portal hline
    · refine not_capped (fun y => .bind portal y parameters) hc (fun b hb => ⟨?_, ?_⟩)
        fun hsame => ?_
      · exact .bind hportal (standsFor_relast hstatement hlong hb)
      · simp only [Content.texts, map_cons, take_relast hlong]
      · have hline := congrArg DecodedMessage.startLine hsame
        change bindLine _ (displayName _) _ = bindLine _ (displayName _) _ at hline
        rw [displayName_relast, displayName_relast] at hline
        exact bindLine_statement hline

theorem Source.not_capped_execute {portal : Bytes} {maxRows : Nat}
    (hc : source.content = .ok (.execute portal maxRows)) (hlong : maxBody < portal.length) :
    ¬ source.Capped maxBody (.execute portal maxRows) := by
  cases (reads hc).2.1 with
  | execute hportal =>
    refine not_capped (fun y => .execute y maxRows) hc (fun b hb => ⟨?_, ?_⟩) fun hsame => ?_
    · exact .execute (standsFor_relast hportal hlong hb)
    · simp only [Content.texts, map_cons, take_relast hlong]
    · have hline := congrArg DecodedMessage.startLine hsame
      change "Execute portal=" ++ displayName _ ++ " max_rows=" ++ toString maxRows =
        "Execute portal=" ++ displayName _ ++ " max_rows=" ++ toString maxRows at hline
      rw [String.append_left_inj, String.append_left_inj, String.append_right_inj] at hline
      rwa [displayName_relast, displayName_relast] at hline

theorem Source.not_capped_commandComplete {commandTag : Bytes}
    (hc : source.content = .ok (.commandComplete commandTag))
    (hlong : maxBody < commandTag.length) :
    ¬ source.Capped maxBody (.commandComplete commandTag) := by
  cases (reads hc).2.1 with
  | commandComplete htag =>
    refine not_capped .commandComplete hc (fun b hb => ⟨?_, ?_⟩) fun hsame => ?_
    · exact .commandComplete (standsFor_relast htag hlong hb)
    · simp only [Content.texts, map_cons, take_relast hlong]
    · have hline := congrArg DecodedMessage.startLine hsame
      change "CommandComplete " ++ Utf8.fromUtf8Lossy _ =
        "CommandComplete " ++ Utf8.fromUtf8Lossy _ at hline
      rwa [String.append_right_inj] at hline

/-- A pair over the cap has a text over the cap that its header shows. -/
theorem not_pairWithin (h : ¬ pairWithin maxBody p = true) :
    maxBody < p.1.length ∨
      maxBody < p.2.length ∧ isStartupSecret (Utf8.fromUtf8Lossy p.1) = false := by
  rw [pairWithin, Bool.and_eq_true, Bool.or_eq_true, decide_eq_true_eq, decide_eq_true_eq,
    not_and_or, not_or, Bool.not_eq_true] at h
  obtain hname | ⟨hsecret, hvalue⟩ := h
  · exact .inl (by omega)
  · exact .inr ⟨by omega, hsecret⟩

theorem parameterHeader_name {name' : Bytes}
    (h : parameterHeader name value = parameterHeader name' value') :
    Utf8.fromUtf8Lossy name = Utf8.fromUtf8Lossy name' := congrArg Prod.fst h

theorem parameterHeader_value (hsecret : isStartupSecret (Utf8.fromUtf8Lossy name) = false)
    (h : parameterHeader name value = parameterHeader name value') :
    Utf8.fromUtf8Lossy value = Utf8.fromUtf8Lossy value' := by
  have hvalue := congrArg Prod.snd h
  simpa only [parameterHeader, hsecret, Bool.false_eq_true, if_false] using hvalue

theorem Source.not_capped_parameterStatus (hc : source.content = .ok (.parameterStatus name value))
    (hlong : ¬ pairWithin maxBody (name, value) = true) :
    ¬ source.Capped maxBody (.parameterStatus name value) := by
  have hheaders : ∀ {name name' value value'},
      (Content.parameterStatus name value).message maxBody =
        (Content.parameterStatus name' value').message maxBody →
      parameterHeader name value = parameterHeader name' value' := by
    intro name name' value value' h
    have hlist := congrArg DecodedMessage.headers h
    simpa only [Content.message, DecodedMessage.pushHeader_headers, append_cancel_left_eq,
      List.cons.injEq, and_true, Prod.mk.eta] using hlist
  cases (reads hc).2.1 with
  | parameterStatus hname hvalue =>
    obtain hlong | ⟨hlong, hsecret⟩ := not_pairWithin hlong
    · refine not_capped (fun y => .parameterStatus y value) hc (fun b hb => ⟨?_, ?_⟩)
        fun hsame => parameterHeader_name (hheaders hsame)
      · exact .parameterStatus
          (standsFor_relast hname hlong hb) hvalue
      · simp only [Content.texts, map_cons, take_relast hlong]
    · refine not_capped (fun y => .parameterStatus name y) hc (fun b hb => ⟨?_, ?_⟩)
        fun hsame => parameterHeader_value hsecret (hheaders hsame)
      · exact .parameterStatus hname
          (standsFor_relast hvalue hlong hb)
      · simp only [Content.texts, map_cons, take_relast hlong]

/-- One parameter replaced among others. -/
theorem startup_alike
    (hself : List.Forall₂ (PairRel StandsFor) (before ++ p :: after) (before ++ p :: after))
    (hp : PairRel StandsFor p p') (hname : p'.1.take maxBody = p.1.take maxBody)
    (hvalue : p'.2.take maxBody = p.2.take maxBody) :
    (Content.startup minor (before ++ p :: after)).Alike maxBody
      (.startup minor (before ++ p' :: after)) := by
  have hall := forall₂_same.mp hself
  have hbefore : List.Forall₂ (PairRel StandsFor) before before :=
    forall₂_same.mpr fun q hq => hall q (mem_append_left _ hq)
  have hafter : List.Forall₂ (PairRel StandsFor) after after :=
    forall₂_same.mpr fun q hq => hall q (mem_append_right _ (mem_cons_of_mem _ hq))
  refine ⟨.startup (rel_append hbefore (.cons hp hafter)), ?_⟩
  simp only [Content.texts, flatMap_append, flatMap_cons, map_append, map_cons, hname, hvalue]

theorem startup_header (h : (Content.startup minor (before ++ p :: after)).message maxBody =
      (Content.startup minor (before ++ p' :: after)).message maxBody) :
    parameterHeader p.1 p.2 = parameterHeader p'.1 p'.2 := by
  have hlist := congrArg DecodedMessage.headers h
  simp only [Content.message, append_cancel_left_eq, map_append, map_cons,
    List.cons.injEq, and_true] at hlist
  exact hlist

theorem Source.not_capped_startup {parameters : List (Bytes × Bytes)}
    (hc : source.content = .ok (.startup minor parameters))
    (hlong : ¬ parameters.all (pairWithin maxBody) = true) :
    ¬ source.Capped maxBody (.startup minor parameters) := by
  rw [all_eq_true] at hlong
  push Not at hlong
  obtain ⟨p, hmem, hp⟩ := hlong
  obtain ⟨before, after, rfl⟩ := append_of_mem hmem
  cases (reads hc).2.1 with
  | startup hself =>
    have hpair := forall₂_same.mp hself p hmem
    obtain hlong | ⟨hlong, hsecret⟩ := not_pairWithin hp
    · refine not_capped (fun y => .startup minor (before ++ (y, p.2) :: after)) hc (fun b hb => ?_)
        fun hsame => parameterHeader_name (startup_header hsame)
      have hrel : PairRel StandsFor p (relast p.1 b, p.2) :=
        ⟨standsFor_relast hpair.1 hlong hb, hpair.2⟩
      exact startup_alike hself hrel (take_relast hlong b) rfl
    · refine not_capped (fun y => .startup minor (before ++ (p.1, y) :: after)) hc (fun b hb => ?_)
        fun hsame => parameterHeader_value hsecret (startup_header hsame)
      have hrel : PairRel StandsFor p (p.1, relast p.2 b) :=
        ⟨hpair.1, standsFor_relast hpair.2 hlong hb⟩
      exact startup_alike hself hrel rfl (take_relast hlong b)

/-- The last name that is not empty. -/
theorem exists_last_name (h : names.flatten ≠ []) :
    ∃ before name after, names = before ++ name :: after ∧ name ≠ [] ∧ after.flatten = [] := by
  induction names with
  | nil => exact absurd rfl h
  | cons first names ih =>
    by_cases hrest : names.flatten = []
    · refine ⟨[], first, names, rfl, fun hfirst => h ?_, hrest⟩
      rw [flatten_cons, hfirst, hrest, append_nil]
    · obtain ⟨before, name, after, rfl, hname, hafter⟩ := ih hrest
      exact ⟨first :: before, name, after, rfl, hname, hafter⟩

theorem rowDescription_truncated (columns : Nat) (names : List Bytes) :
    ((Content.rowDescription columns names).message maxBody).truncated = false := by
  rw [Content.message]
  split
  · rfl
  · rfl

theorem rowDescription_columns (hnames : names.length ≤ 32) (hne : names ≠ [])
    (hnames' : names'.length ≤ 32) (hne' : names' ≠ [])
    (h : (Content.rowDescription columns names).message maxBody =
      (Content.rowDescription columns names').message maxBody) :
    Str.join "," (names.map Utf8.fromUtf8Lossy) = Str.join "," (names'.map Utf8.fromUtf8Lossy) := by
  have hempty : ∀ {l : List Bytes}, l ≠ [] →
      ¬ (l.map Utf8.fromUtf8Lossy).isEmpty = true := by
    intro l hl
    rw [List.isEmpty_iff, map_eq_nil_iff]
    exact hl
  have hlist := congrArg DecodedMessage.headers h
  simp only [Content.message, take_of_length_le hnames, take_of_length_le hnames',
    if_neg (hempty hne), if_neg (hempty hne'), DecodedMessage.pushHeader_headers,
    append_cancel_left_eq, List.cons.injEq, Prod.mk.injEq, and_true, true_and] at hlist
  exact hlist

theorem Source.not_capped_rowDescription (hc : source.content = .ok (.rowDescription columns names))
    (hlong : ¬ (names.length ≤ 32 ∧ names.flatten.length ≤ maxBody)) :
    ¬ source.Capped maxBody (.rowDescription columns names) := by
  by_cases hcount : names.length ≤ 32
  · have hflat : maxBody < names.flatten.length := by omega
    obtain ⟨before, name, after, rfl, hname, hafter⟩ :=
      exists_last_name (ne_nil_of_length_pos (Nat.lt_of_le_of_lt (Nat.zero_le _) hflat))
    have hflatten : ∀ y, (before ++ y :: after).flatten = before.flatten ++ y := by
      intro y
      rw [flatten_append, flatten_cons, hafter, append_nil]
    cases (reads hc).2.1 with
    | rowDescription hself =>
      have hall := forall₂_same.mp hself
      refine not_capped (fun y => .rowDescription columns (before ++ y :: after)) hc
        (fun b hb => ⟨?_, ?_⟩) fun hsame => ?_
      · have hrel := standsFor_relast (hall name (by simp)) (length_pos_of_ne_nil hname) hb
        refine .rowDescription (rel_append ?_ (.cons hrel ?_))
        · exact forall₂_same.mpr fun q hq => hall q (mem_append_left _ hq)
        · exact forall₂_same.mpr fun q hq =>
            hall q (mem_append_right _ (mem_cons_of_mem _ hq))
      · rw [hflatten] at hflat
        simp only [Content.texts, map_cons, hflatten, ← relast_append before.flatten hname,
          take_relast hflat]
      · have hlen : ∀ y, (before ++ y :: after).length ≤ 32 := by
          intro y
          rw [length_append, length_cons] at hcount ⊢
          exact hcount
        have hjoin := rowDescription_columns (hlen _) (by simp) (hlen _) (by simp) hsame
        rw [map_append, map_cons, map_append, map_cons] at hjoin
        exact Str.join_append_cons_inj _ _ hjoin
  · intro hcapped
    have hmarked := hcapped.marked (decode_ok hc maxBody) (decide_eq_true (by omega))
    rw [truncated_finish, rowDescription_truncated] at hmarked
    cases hmarked

end

/-- The rule holds where the texts that are not cut are within the cap. -/
theorem Source.capped_iff {maxBody : Nat} {source : Source} {c : Content}
    (hfit : source.payload.length ≤ maxFrameBytes) (hc : source.content = .ok c) :
    source.Capped maxBody c ↔ c.within maxBody = true := by
  refine ⟨fun hcapped => ?_, capped_of_within hfit hc⟩
  by_contra hw
  cases c with
  | query sql => exact hw rfl
  | parse name sql =>
    exact not_capped_parse hc (Nat.lt_of_not_le fun h => hw (decide_eq_true h)) hcapped
  | bind portal statement parameters =>
    rw [Content.within, Bool.and_eq_true, decide_eq_true_eq, decide_eq_true_eq] at hw
    exact not_capped_bind hc (by omega) hcapped
  | execute portal maxRows =>
    exact not_capped_execute hc (Nat.lt_of_not_le fun h => hw (decide_eq_true h)) hcapped
  | startup minor parameters => exact not_capped_startup hc hw hcapped
  | parameterStatus name value => exact not_capped_parameterStatus hc hw hcapped
  | commandComplete commandTag =>
    exact not_capped_commandComplete hc (Nat.lt_of_not_le fun h => hw (decide_eq_true h)) hcapped
  | report isError fields => exact hw rfl
  | rowDescription columns names =>
    rw [Content.within, Bool.and_eq_true, decide_eq_true_eq, decide_eq_true_eq] at hw
    exact not_capped_rowDescription hc hw hcapped
  | fixed m => exact hw rfl

/-- A `Parse` frame with the statement name `stmt1`. -/
def namedParse : Source :=
  .typed .clientToServer 0x50 (Utf8.asBytes "stmt1" ++ 0 :: Utf8.asBytes "SELECT 1" ++ [0, 0, 0])

theorem namedParse_content :
    namedParse.content = .ok (.parse (Utf8.asBytes "stmt1") (Utf8.asBytes "SELECT 1")) := rfl

/-- A cap of five bytes leaves the name whole and cuts the SQL. -/
theorem namedParse_capped :
    namedParse.Capped 5 (.parse (Utf8.asBytes "stmt1") (Utf8.asBytes "SELECT 1")) :=
  (Source.capped_iff (by decide) namedParse_content).mpr (by decide)

/-- A cap of four bytes leaves the name whole. -/
theorem namedParse_not_capped :
    ¬ namedParse.Capped 4 (.parse (Utf8.asBytes "stmt1") (Utf8.asBytes "SELECT 1")) :=
  Source.not_capped_parse namedParse_content (by decide)

end Lens.Postgres
