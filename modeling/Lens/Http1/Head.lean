import Lens.Http1.Decoder

/-!
# Heads on the wire

A head is a start line and header lines with CRLF between them, and an empty line
after them.  Lines are not empty and hold no CRLF, so the first empty line is the
end of the head (`find_headEnd`) and the lines are found again in its text
(`parse_headBytes`).  A trailer section has the same shape.
-/

namespace Lens.Http1

open List

variable {c : UInt8} {l : Bytes} {startLine : String} {lines : List String}

/-! ## Sections of lines -/

/-- A line without CRLF. -/
def IsLine (l : Bytes) : Prop := ¬ crlf <:+: l

/-- Lines with CRLF between them. -/
def sectionBytes (first : Bytes) (lines : List Bytes) : Bytes :=
  first ++ lines.flatMap fun l => crlf ++ l

theorem IsLine.tail (h : IsLine (c :: l)) : IsLine l :=
  fun hl => h (infix_cons hl)

/-- A line before CR does not go on with CRLF. -/
theorem IsLine.not_crlf_prefix (h : IsLine (c :: l))
    (rest : Bytes) : ¬ crlf <+: (c :: l) ++ 0x0d :: rest := by
  rintro ⟨t, ht⟩
  cases l with
  | nil => simp [crlf] at ht
  | cons d l =>
    simp only [crlf, cons_append, nil_append, List.cons.injEq] at ht
    obtain ⟨rfl, rfl, -⟩ := ht
    exact h ⟨[], l, rfl⟩

theorem isLine_of_not_mem (h : 0x0d ∉ l) : IsLine l := by
  rintro ⟨s, t, rfl⟩
  simp [crlf] at h

/-- The end of a section is not inside a line. -/
theorem find_headEnd_skip (rest : Bytes) (h : IsLine l) :
    Search.find headEnd (l ++ 0x0d :: rest) =
      (Search.find headEnd (0x0d :: rest)).map (· + l.length) := by
  induction l with
  | nil => simp
  | cons c l ih =>
    have hp : headEnd.isPrefixOf ((c :: l) ++ 0x0d :: rest) = false := by
      rw [Bool.eq_false_iff, Ne, isPrefixOf_iff_prefix]
      intro hp
      exact h.not_crlf_prefix rest ((show crlf <+: headEnd from ⟨crlf, rfl⟩).trans hp)
    rw [cons_append] at hp ⊢
    rw [Search.find_cons_of_not_isPrefixOf hp, ih h.tail, Option.map_map]
    congr 1

/-- The line end of a line that is not the last is not the end of the section. -/
theorem find_headEnd_crlf (rest : Bytes) (h : IsLine (c :: l)) :
    Search.find headEnd (crlf ++ ((c :: l) ++ 0x0d :: rest)) =
      (Search.find headEnd ((c :: l) ++ 0x0d :: rest)).map (· + 2) := by
  have hp : headEnd.isPrefixOf (crlf ++ ((c :: l) ++ 0x0d :: rest)) = false := by
    rw [Bool.eq_false_iff, Ne, isPrefixOf_iff_prefix]
    intro hp
    exact h.not_crlf_prefix rest ((prefix_append_right_inj crlf).mp hp)
  have hlf : headEnd.isPrefixOf (0x0a :: ((c :: l) ++ 0x0d :: rest)) = false := rfl
  rw [show crlf ++ ((c :: l) ++ 0x0d :: rest) = 0x0d :: 0x0a :: ((c :: l) ++ 0x0d :: rest) from rfl]
    at hp ⊢
  rw [Search.find_cons_of_not_isPrefixOf hp, Search.find_cons_of_not_isPrefixOf hlf, Option.map_map]
  rfl

/-- The end of a section is found where the section ends. -/
theorem find_headEnd (rest : Bytes) (lines : List Bytes)
    (hl : ∀ l ∈ lines, IsLine l ∧ l ≠ []) : ∀ {first : Bytes}, IsLine first →
      Search.find headEnd (sectionBytes first lines ++ (headEnd ++ rest)) =
        some (sectionBytes first lines).length := by
  induction lines with
  | nil =>
    intro first hf
    rw [sectionBytes, flatMap_nil, append_nil]
    have h := find_headEnd_skip (0x0a :: 0x0d :: 0x0a :: rest) hf
    rw [show first ++ (headEnd ++ rest) = first ++ 0x0d :: 0x0a :: 0x0d :: 0x0a :: rest from rfl, h,
      show (0x0d :: 0x0a :: 0x0d :: 0x0a :: rest : Bytes) = headEnd ++ rest from rfl,
      Search.find_of_prefix]
    simp
  | cons l lines ih =>
    intro first hf
    rw [forall_mem_cons] at hl
    obtain ⟨⟨hline, hne⟩, hl⟩ := hl
    have ih' := ih hl hline
    -- What follows the line starts with CR, be it the next line end or the end of the section.
    obtain ⟨more, hmore⟩ : ∃ more, lines.flatMap (fun l => crlf ++ l) ++ (headEnd ++ rest) =
        0x0d :: more := by
      cases lines with
      | nil => exact ⟨_, rfl⟩
      | cons m ms => exact ⟨_, rfl⟩
    cases l with
    | nil => exact absurd rfl hne
    | cons c l =>
      have hsplit : sectionBytes first ((c :: l) :: lines) ++ (headEnd ++ rest) =
          first ++ 0x0d :: (0x0a :: ((c :: l) ++ 0x0d :: more)) := by
        simp only [sectionBytes, flatMap_cons, append_assoc, hmore]
        rfl
      have hrest : sectionBytes (c :: l) lines ++ (headEnd ++ rest) =
          (c :: l) ++ 0x0d :: more := by
        rw [sectionBytes, append_assoc, hmore]
      rw [hrest] at ih'
      have hcrlf := find_headEnd_crlf more hline
      rw [ih'] at hcrlf
      rw [hsplit, find_headEnd_skip _ hf]
      rw [show crlf ++ ((c :: l) ++ 0x0d :: more) = 0x0d :: 0x0a :: ((c :: l) ++ 0x0d :: more)
        from rfl] at hcrlf
      rw [hcrlf]
      simp only [Option.map_some, sectionBytes, flatMap_cons, length_append, Option.some.injEq]
      rw [show crlf.length = 2 from rfl]
      omega

/-! ## Heads as text -/

/-- The bytes of a head, without the empty line at its end. -/
def headBytes (startLine : String) (lines : List String) : Bytes :=
  sectionBytes (Utf8.asBytes startLine) (lines.map Utf8.asBytes)

/-- The line ends of a text are those of its bytes. -/
theorem isLine_asBytes {s : String} (h : '\r' ∉ s.toList) : IsLine (Utf8.asBytes s) := by
  refine isLine_of_not_mem fun hm => h ?_
  exact (Utf8.mem_encode_ascii (a := '\r') (by decide) s.toList).mp hm

theorem headBytes_eq_encode (startLine : String) (lines : List String) :
    headBytes startLine lines =
      Utf8.encode (startLine.toList ++
        (lines.map String.toList).flatMap fun l => '\r' :: '\n' :: l) := by
  rw [headBytes, sectionBytes, Utf8.encode_append]
  refine congrArg (Utf8.asBytes startLine ++ ·) ?_
  induction lines with
  | nil => rfl
  | cons l lines ih =>
    simp only [map_cons, flatMap_cons, Utf8.encode_append, Utf8.encode_cons, ih, cons_append]
    rfl

/-- The lines of a head are parsed as they were written. -/
theorem parse_headBytes (hs : '\r' ∉ startLine.toList) (hl : ∀ l ∈ lines, '\r' ∉ l.toList) :
    ParsedHead.parse (headBytes startLine lines) = ParsedHead.ofLines (startLine :: lines) := by
  have hlines : ∀ l ∈ lines.map String.toList, '\r' ∉ l := by
    intro l hm
    obtain ⟨t, ht, rfl⟩ := mem_map.mp hm
    exact hl t ht
  rw [ParsedHead.parse, headBytes_eq_encode, ← Utf8.asBytes_ofList, Utf8.fromUtf8_asBytes]
  simp only [Str.splitCrlf, String.toList_ofList, Str.crlfLines_flatMap _ hlines hs]
  simp

/-- The end of a head is found where the head ends. -/
theorem find_headBytes (hs : '\r' ∉ startLine.toList) (hl : ∀ l ∈ lines, '\r' ∉ l.toList ∧ l ≠ "")
    (rest : Bytes) :
    Search.find headEnd (headBytes startLine lines ++ (headEnd ++ rest)) =
      some (headBytes startLine lines).length := by
  refine find_headEnd rest (lines.map Utf8.asBytes) ?_ (isLine_asBytes hs)
  intro l hm
  obtain ⟨t, ht, rfl⟩ := mem_map.mp hm
  refine ⟨isLine_asBytes (hl t ht).1, fun he => (hl t ht).2 ?_⟩
  exact Utf8.asBytes_injective he

end Lens.Http1
