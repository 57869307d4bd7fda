import Lens.Redact.Redactor

/-!
# The pairs of a query

A request line is written here as its parts (`RequestLine`): the method, the path, the pairs of
the query, the fragment and the version.  The redactor takes a line apart and puts it together
again, and the result is the line of the same parts with the secret pairs hidden
(`redactStartLine_text`).  A pair is secret by its name alone, so its value has no influence
(`redactStartLine_secrets`).
-/

namespace Lens.Redact

open List

/-! ## Pairs -/

/-- The name of a pair: what comes before the first equals sign, or all of it. -/
def pairName (pair : String) : String := ((Str.splitOnce '=' pair).map Prod.fst).getD pair

/-- The name of the pair is sensitive once it is decoded. -/
def isSecret (pair : String) : Bool := isSensitiveName (percentDecodeName (pairName pair))

/-- A secret pair keeps its name and loses its value. -/
def hidePair (pair : String) : String :=
  if isSecret pair then pairName pair ++ "=" ++ replacement else pair

/-- A pair has a name without an equals sign, and perhaps a value. -/
theorem pairName_cases (pair : String) :
    ('=' ∉ pair.toList ∧ pairName pair = pair ∧ Str.splitOnce '=' pair = none) ∨
      ∃ value, pair = pairName pair ++ "=" ++ value ∧ '=' ∉ (pairName pair).toList ∧
        Str.splitOnce '=' pair = some (pairName pair, value) := by
  by_cases h : '=' ∈ pair.toList
  · obtain ⟨name, value, rfl, hname⟩ := Str.exists_of_mem h
    have hsplit := Str.splitOnce_append hname value
    have heq : pairName (name ++ "=" ++ value) = name := by
      rw [pairName]
      exact congrArg (fun r => (Option.map Prod.fst r).getD _) hsplit
    refine .inr ⟨value, ?_⟩
    change name ++ "=" ++ value = pairName (name ++ "=" ++ value) ++ "=" ++ value ∧ _
    rw [heq]
    exact ⟨rfl, hname, hsplit⟩
  · have hsplit := Str.splitOnce_of_not_mem h
    exact .inl ⟨h, by rw [pairName, hsplit]; rfl, hsplit⟩

theorem not_mem_pairName (pair : String) : '=' ∉ (pairName pair).toList := by
  obtain ⟨h, hname, -⟩ | ⟨value, -, h, -⟩ := pairName_cases pair
  · rwa [hname]
  · exact h

variable {pair : String} {pairs : List String}

/-- The characters of the name are characters of the pair. -/
theorem mem_of_mem_pairName {c : Char} (h : c ∈ (pairName pair).toList) : c ∈ pair.toList := by
  obtain ⟨-, hname, -⟩ | ⟨value, hpair, -, -⟩ := pairName_cases pair
  · rwa [hname] at h
  · rw [hpair]
    simp [h]

theorem redactPair_eq (pair : String) : redactPair pair = (hidePair pair, isSecret pair) := by
  unfold redactPair hidePair isSecret
  obtain ⟨hnone, hname, hsplit⟩ | ⟨value, hpair, -, hsplit⟩ := pairName_cases pair
  · rw [hsplit, hname]
    simp only [Option.getD_none]
    have hcontains : ¬pair.toList.contains '=' = true := by simpa using hnone
    cases isSensitiveName (percentDecodeName pair) with
    | true => simp only [↓reduceIte]
    | false => simp only [Bool.false_eq_true, ↓reduceIte, if_neg hcontains]
  · have hcontains : pair.toList.contains '=' = true := by
      rw [contains_iff_mem, hpair]
      simp
    rw [hsplit]
    simp only [Option.getD_some]
    cases isSensitiveName (percentDecodeName (pairName pair)) with
    | true => simp only [↓reduceIte]
    | false => simp only [Bool.false_eq_true, ↓reduceIte, if_pos hcontains, ← hpair]

/-- Hiding keeps the name. -/
theorem pairName_hidePair (pair : String) : pairName (hidePair pair) = pairName pair := by
  rw [hidePair]
  split
  · have hsplit := Str.splitOnce_append (not_mem_pairName pair) replacement
    have hname :
        pairName (pairName pair ++ String.ofList ['='] ++ replacement) = pairName pair := by
      rw [pairName, hsplit]
      rfl
    exact hname
  · rfl

theorem hidePair_of_not_secret (h : isSecret pair = false) : hidePair pair = pair := by
  rw [hidePair, h]
  rfl

/-- Two pairs that may differ in a secret value. -/
def SameButSecret (pair pair' : String) : Prop :=
  pair = pair' ∨ (pairName pair = pairName pair' ∧ isSecret pair = true)

theorem SameButSecret.hide {pair' : String} (h : SameButSecret pair pair') :
    hidePair pair = hidePair pair' := by
  obtain rfl | ⟨hname, hsecret⟩ := h
  · rfl
  · have hsecret' : isSecret pair' = true := by
      rw [isSecret, ← hname]
      exact hsecret
    rw [hidePair, hidePair, if_pos hsecret, if_pos hsecret', hname]

theorem map_hidePair_congr {pairs' : List String} (h : List.Forall₂ SameButSecret pairs pairs') :
    pairs.map hidePair = pairs'.map hidePair := by
  induction h with
  | nil => rfl
  | cons hpair _ ih => rw [map_cons, map_cons, hpair.hide, ih]

/-- Text that stays within a pair of a request line. -/
structure Plain (pair : String) : Prop where
  noSpace : Str.NoSpace pair
  noPair : '&' ∉ pair.toList
  noFragment : '#' ∉ pair.toList

theorem Plain.hide (h : Plain pair) : Plain (hidePair pair) := by
  rw [hidePair]
  split
  · have htext : ("=" ++ replacement).toList = "=[REDACTED]".toList := rfl
    have hplain : ∀ c ∈ ("=" ++ replacement).toList,
        Str.isWhitespace c = false ∧ c ≠ '&' ∧ c ≠ '#' := by
      rw [htext]
      simp [Str.isWhitespace]
    have hmem : ∀ {c}, c ∈ (pairName pair ++ "=" ++ replacement).toList →
        c ∈ pair.toList ∨ c ∈ ("=" ++ replacement).toList := by
      intro c hc
      rw [String.append_assoc, String.toList_append, mem_append] at hc
      exact hc.imp_left mem_of_mem_pairName
    constructor
    · intro c hc
      exact (hmem hc).elim (h.noSpace c) fun hc => (hplain c hc).1
    · intro hc
      exact (hmem hc).elim h.noPair fun hc => (hplain _ hc).2.1 rfl
    · intro hc
      exact (hmem hc).elim h.noFragment fun hc => (hplain _ hc).2.2 rfl
  · exact h

/-- Pairs are redacted one by one. -/
theorem redactPairs_join (hne : pairs ≠ []) (hplain : ∀ pair ∈ pairs, '&' ∉ pair.toList) :
    redactPairs (Str.join "&" pairs) '&' =
      (Str.join "&" (pairs.map hidePair), pairs.any isSecret) := by
  have hsplit : Str.split '&' (Str.join "&" pairs) = pairs := Str.split_join hne hplain
  have hpairs : pairs.map redactPair = pairs.map fun pair => (hidePair pair, isSecret pair) :=
    map_congr_left fun pair _ => redactPair_eq pair
  unfold redactPairs
  rw [hsplit, hpairs, show String.ofList ['&'] = "&" from rfl]
  simp only [map_map, any_map, Function.comp_def]

/-! ## Request lines -/

/-- The parts of a request line whose target has a query. -/
structure RequestLine where
  method : String
  path : String
  pairs : List String
  fragment : Option String
  version : String
  method_word : Str.NoSpace method ∧ method ≠ ""
  /-- A line that begins so is that of a response. -/
  method_request : Str.startsWith method "HTTP/" = false
  path_word : Str.NoSpace path ∧ '?' ∉ path.toList
  pairs_ne : pairs ≠ []
  pairs_plain : ∀ pair ∈ pairs, Plain pair
  fragment_word : ∀ f ∈ fragment, Str.NoSpace f
  version_word : Str.NoSpace version
  version_http : Str.startsWith version "HTTP/" = true

namespace RequestLine

/-- The fragment with its sign. -/
def ending (l : RequestLine) : String := (l.fragment.map ("#" ++ ·)).getD ""

def target (l : RequestLine) : String := l.path ++ "?" ++ Str.join "&" l.pairs ++ l.ending

def text (l : RequestLine) : String := l.method ++ " " ++ l.target ++ " " ++ l.version

/-- The line with its secret pairs hidden. -/
def hidden (l : RequestLine) : RequestLine where
  method := l.method
  path := l.path
  pairs := l.pairs.map hidePair
  fragment := l.fragment
  version := l.version
  method_word := l.method_word
  method_request := l.method_request
  path_word := l.path_word
  pairs_ne := by simpa using l.pairs_ne
  pairs_plain := forall_mem_map.mpr fun pair hpair => (l.pairs_plain pair hpair).hide
  fragment_word := l.fragment_word
  version_word := l.version_word
  version_http := l.version_http

/-- Two lines that may differ in the values of secret pairs. -/
structure SameButSecrets (l l' : RequestLine) : Prop where
  method : l.method = l'.method
  path : l.path = l'.path
  pairs : List.Forall₂ SameButSecret l.pairs l'.pairs
  fragment : l.fragment = l'.fragment
  version : l.version = l'.version

variable (l : RequestLine)

theorem noFragment_pairs : '#' ∉ (Str.join "&" l.pairs).toList := by
  intro h
  rcases Str.mem_join h with h | ⟨pair, hpair, h⟩
  · exact absurd h (by decide)
  · exact (l.pairs_plain pair hpair).noFragment h

theorem target_noSpace : Str.NoSpace l.target := by
  have hsign : Str.NoSpace "?" ∧ Str.NoSpace "&" ∧ Str.NoSpace "#" := by
    refine ⟨?_, ?_, ?_⟩ <;> simp [Str.NoSpace, Str.isWhitespace]
  intro c hc
  rw [target, String.toList_append, String.toList_append, String.toList_append, mem_append,
    mem_append, mem_append] at hc
  obtain ((hc | hc) | hc) | hc := hc
  · exact l.path_word.1 c hc
  · exact hsign.1 c hc
  · rcases Str.mem_join hc with hc | ⟨pair, hpair, hc⟩
    · exact hsign.2.1 c hc
    · exact (l.pairs_plain pair hpair).noSpace c hc
  · rw [ending] at hc
    cases hf : l.fragment with
    | none => simp [hf] at hc
    | some f =>
      rw [hf, Option.map_some, Option.getD_some, String.toList_append, mem_append] at hc
      exact hc.elim (hsign.2.2 c) (l.fragment_word f hf c)

theorem splitWhitespace_text : Str.splitWhitespace l.text = [l.method, l.target, l.version] := by
  have htarget : l.target ≠ "" := by
    intro h
    have hchars := congrArg String.toList h
    simp [target] at hchars
  have hversion : l.version ≠ "" := by
    intro h
    have hhttp := l.version_http
    rw [h] at hhttp
    cases hhttp
  have hjoin : l.text = Str.join " " [l.method, l.target, l.version] := by
    simp only [Str.join, text, String.append_assoc]
  rw [hjoin]
  apply Str.splitWhitespace_join
  simp [l.method_word, l.target_noSpace, htarget, l.version_word, hversion]

/-- A line without a secret pair has nothing to hide. -/
theorem hidden_of_none (h : l.pairs.any isSecret = false) : l.hidden.text = l.text := by
  have hpairs : l.pairs.map hidePair = l.pairs.map id :=
    map_congr_left fun pair hpair =>
      hidePair_of_not_secret (Bool.eq_false_iff.mpr (any_eq_false.mp h pair hpair))
  rw [map_id] at hpairs
  simp only [text, target, hidden, ending, hpairs]

/-- The line put together from redacted pairs. -/
theorem redactStartLine_of_split {query ending : String} (htarget : Str.splitOnce '?' l.target =
      some (l.path, query ++ ending))
    (hsplit : Str.splitOnce '#' (query ++ ending) = none ∧ ending = "" ∨
      ∃ f, Str.splitOnce '#' (query ++ ending) = some (query, f) ∧ ending = "#" ++ f) :
    redactStartLine l.text =
      if (redactPairs query '&').2 then
        (l.method ++ " " ++ l.path ++ "?" ++ (redactPairs query '&').1 ++ ending ++
          " " ++ l.version, true)
      else (l.text, false) := by
  rw [redactStartLine, l.splitWhitespace_text]
  simp only [l.method_request, l.version_http, Bool.not_true, Bool.or_self, Bool.false_eq_true,
    if_false, htarget]
  obtain ⟨hnone, rfl⟩ | ⟨f, hsome, rfl⟩ := hsplit
  · rw [String.append_empty] at hnone ⊢
    simp only [hnone, String.append_empty]
  · simp only [hsome]

/-- The line of the same parts, with the secret pairs hidden. -/
theorem redactStartLine_text :
    redactStartLine l.text = (l.hidden.text, l.pairs.any isSecret) := by
  have htarget : Str.splitOnce '?' l.target = some (l.path, Str.join "&" l.pairs ++ l.ending) := by
    have heq : l.target = l.path ++ String.ofList ['?'] ++ (Str.join "&" l.pairs ++ l.ending) := by
      rw [target, String.append_assoc]
    rw [heq]
    exact Str.splitOnce_append l.path_word.2 _
  have hsplit : Str.splitOnce '#' (Str.join "&" l.pairs ++ l.ending) = none ∧ l.ending = "" ∨
      ∃ f, Str.splitOnce '#' (Str.join "&" l.pairs ++ l.ending) = some (Str.join "&" l.pairs, f) ∧
        l.ending = "#" ++ f := by
    cases hf : l.fragment with
    | none =>
      have hending : l.ending = "" := by rw [ending, hf]; rfl
      refine .inl ⟨?_, hending⟩
      rw [hending, String.append_empty]
      exact Str.splitOnce_of_not_mem l.noFragment_pairs
    | some f =>
      have hending : l.ending = "#" ++ f := by rw [ending, hf]; rfl
      refine .inr ⟨f, ?_, hending⟩
      rw [hending, ← String.append_assoc]
      exact Str.splitOnce_append l.noFragment_pairs f
  have hpairs := redactPairs_join l.pairs_ne fun pair hpair => (l.pairs_plain pair hpair).noPair
  rw [l.redactStartLine_of_split htarget hsplit, hpairs]
  cases hsecret : l.pairs.any isSecret with
  | true => simp only [↓reduceIte, text, target, hidden, ending, String.append_assoc]
  | false => rw [if_neg Bool.false_ne_true, l.hidden_of_none hsecret]

/-- Every request line with a query has its parts. -/
theorem exists_of_words {method target version : String}
    (hmethod : Str.NoSpace method ∧ method ≠ "") (hrequest : Str.startsWith method "HTTP/" = false)
    (htarget : Str.NoSpace target) (hquery : '?' ∈ target.toList) (hversion : Str.NoSpace version)
    (hhttp : Str.startsWith version "HTTP/" = true) :
    ∃ l : RequestLine, l.method = method ∧ l.target = target ∧ l.version = version := by
  obtain ⟨path, rest, rfl, hpath⟩ := Str.exists_of_mem hquery
  have hrest : Str.NoSpace rest := fun c hc => htarget c (by simp [hc])
  have hword : Str.NoSpace path := fun c hc => htarget c (by simp [hc])
  -- The query ends at the first fragment sign, if there is one.
  obtain ⟨query, fragment, hparts, hsign, hspace, hfragment⟩ : ∃ (query : String)
      (fragment : Option String), rest = query ++ (fragment.map ("#" ++ ·)).getD "" ∧
        '#' ∉ query.toList ∧ Str.NoSpace query ∧ ∀ f ∈ fragment, Str.NoSpace f := by
    by_cases h : '#' ∈ rest.toList
    · obtain ⟨query, f, rfl, hq⟩ := Str.exists_of_mem h
      refine ⟨query, some f, String.append_assoc, hq, fun c hc => hrest c (by simp [hc]), ?_⟩
      rintro _ ⟨⟩ c hc
      exact hrest c (by simp [hc])
    · exact ⟨rest, none, (String.append_empty).symm, h, hrest, nofun⟩
  obtain ⟨pairs, hne, hpairs, rfl⟩ := Str.exists_join '&' query
  have hplain : ∀ pair ∈ pairs, Plain pair := by
    intro pair hpair
    obtain ⟨hamp, hmem⟩ := hpairs pair hpair
    exact ⟨fun c hc => hspace c (hmem c hc), hamp, fun hc => hsign (hmem _ hc)⟩
  refine ⟨⟨method, path, pairs, fragment, version, hmethod, hrequest, ⟨hword, hpath⟩, hne, hplain,
    hfragment, hversion, hhttp⟩, rfl, ?_, rfl⟩
  rw [hparts]
  exact String.append_assoc

end RequestLine

/-- A request line is redacted in its secret pairs: the others, their names and their order, and
the rest of the line stay, and the values of the secret pairs have no influence. -/
theorem redactStartLine_secrets (method target version : String)
    (hmethod : Str.NoSpace method ∧ method ≠ "") (hrequest : Str.startsWith method "HTTP/" = false)
    (htarget : Str.NoSpace target) (hquery : '?' ∈ target.toList) (hversion : Str.NoSpace version)
    (hhttp : Str.startsWith version "HTTP/" = true) :
    ∃ l : RequestLine,
      (l.method = method ∧ l.target = target ∧ l.version = version) ∧
      (redactStartLine (method ++ " " ++ target ++ " " ++ version)).1 = l.hidden.text ∧
      l.hidden.pairs.map pairName = l.pairs.map pairName ∧
      (∀ pair ∈ l.pairs, isSecret pair = false → hidePair pair = pair) ∧
      ∀ l' : RequestLine, l.SameButSecrets l' →
        (redactStartLine l'.text).1 =
          (redactStartLine (method ++ " " ++ target ++ " " ++ version)).1 := by
  obtain ⟨l, rfl, rfl, rfl⟩ :=
    RequestLine.exists_of_words hmethod hrequest htarget hquery hversion hhttp
  have hline : redactStartLine (l.method ++ " " ++ l.target ++ " " ++ l.version) =
      (l.hidden.text, l.pairs.any isSecret) := l.redactStartLine_text
  refine ⟨l, ⟨rfl, rfl, rfl⟩, congrArg Prod.fst hline, ?_, fun pair _ => hidePair_of_not_secret, ?_⟩
  · simp only [RequestLine.hidden, map_map, Function.comp_def, pairName_hidePair]
  · intro l' hsame
    rw [hline, l'.redactStartLine_text]
    simp only [RequestLine.text, RequestLine.target, RequestLine.ending, RequestLine.hidden,
      map_hidePair_congr hsame.pairs, hsame.method, hsame.path, hsame.fragment, hsame.version]

/-- A pair with an escaped name, an empty pair and a secret without a value. -/
theorem redactStartLine_search : ∃ l : RequestLine,
    (l.method = "GET" ∧ l.target = "/a?q=1&to%6ben=x&&jwt#top" ∧ l.version = "HTTP/1.1") ∧
      (redactStartLine ("GET" ++ " " ++ "/a?q=1&to%6ben=x&&jwt#top" ++ " " ++ "HTTP/1.1")).1 =
        l.hidden.text := by
  obtain ⟨l, hparts, hline, -⟩ := redactStartLine_secrets "GET" "/a?q=1&to%6ben=x&&jwt#top"
    "HTTP/1.1" (by decide) (by decide) (by decide) (by decide) (by decide) (by decide)
  exact ⟨l, hparts, hline⟩

example : redactStartLine "GET /a?q=1&to%6ben=x&&jwt#top HTTP/1.1" =
    ("GET /a?q=1&to%6ben=[REDACTED]&&jwt=[REDACTED]#top HTTP/1.1", true) := by
  decide +kernel

end Lens.Redact
