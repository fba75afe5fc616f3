import LoxTree.Proofs.Scanning.Partition

/-!
# Where segments stand

Scanning counts lines as it goes from segment to segment. `located` puts the text that stands before
it beside each segment instead, and the line of a segment turns out to be one more than the number
of line feeds in that text, whichever kinds of segments they come from: line feeds between tokens,
in strings, behind a backslash, or in a string that never ends. The text before a later segment is
longer, so that lines never descend.

* `placed_eq_map_located`: counting on the way and counting in the text before agree.
* `Partition.exists_after_of_mem_located`: a segment stands where `located` says, and fits there.
* `pairwise_located`: the text before a segment goes on to the text before a later one.
* `Scan.pairwise_line_tokens`: the lines of tokens do not descend, on to that of the end marker.
* `ofSource_line_accounting`: the lines of tokens and complaints.
-/

namespace LoxTree

/-- The line on which a text goes on behind the given characters. -/
def lineBehind (before : List Char) : Nat :=
  1 + before.count '\n'

/-- Segments, each with the text that stands before it; the given one stands before the first. -/
def located (before : List Char) : List Segment → List (List Char × Segment)
  | [] => []
  | s :: rest => (before, s) :: located (before ++ s.text) rest

/-! ### Counting -/

theorem lineBehind_append_text {s : Segment} (hs : s.newlines = s.text.count '\n')
    (before : List Char) : lineBehind (before ++ s.text) = lineBehind before + s.newlines := by
  unfold lineBehind
  rw [hs, List.count_append, Nat.add_assoc]

theorem lineBehind_mono {before before' : List Char} (h : before <+: before') :
    lineBehind before ≤ lineBehind before' := by
  have hcount : before.count '\n' ≤ before'.count '\n' := h.sublist.count_le '\n'
  unfold lineBehind
  omega

/-- Lines that are counted from segment to segment are lines behind the text before a segment. -/
theorem placed_eq_map_located {segs : List Segment}
    (h : ∀ s ∈ segs, s.newlines = s.text.count '\n') (before : List Char) :
    placed (lineBehind before) segs =
      (located before segs).map fun p => (lineBehind p.1, p.2) := by
  induction segs generalizing before with
  | nil => rfl
  | cons s rest ih =>
    obtain ⟨hs, hrest⟩ := List.forall_mem_cons.1 h
    have hplaced := ih hrest (before ++ s.text)
    rw [lineBehind_append_text hs] at hplaced
    rw [placed, located, List.map_cons, hplaced]

/-- What is read off the segments of a text on their lines is read off them behind the text before
them. -/
theorem filterMap_placed_one {β : Type} (f : Nat → Segment → Option β) (cs : List Char) :
    (placed 1 (segments cs)).filterMap (fun p => f p.1 p.2) =
      (located [] (segments cs)).filterMap fun p => f (lineBehind p.1) p.2 := by
  have hplaced : placed 1 (segments cs) =
      (located [] (segments cs)).map fun p => (lineBehind p.1, p.2) :=
    placed_eq_map_located (fun s hs => newlines_of_mem_segments hs) []
  rw [hplaced, List.filterMap_map]
  rfl

/-! ### Places -/

theorem prefix_of_mem_located {before : List Char} {segs : List Segment}
    {p : List Char × Segment} (h : p ∈ located before segs) : before <+: p.1 := by
  induction segs generalizing before with
  | nil => cases h
  | cons s rest ih =>
    rcases List.mem_cons.1 h with rfl | h
    · exact List.prefix_rfl
    · have hrest := ih h
      exact (List.prefix_append before s.text).trans hrest

/-- The text before a segment goes on to the text before a later one. -/
theorem pairwise_located (before : List Char) (segs : List Segment) :
    (located before segs).Pairwise fun p q => p.1 <+: q.1 := by
  induction segs generalizing before with
  | nil => exact .nil
  | cons s rest ih =>
    refine .cons (fun q hq => ?_) (ih (before ++ s.text))
    exact (List.prefix_append before s.text).trans (prefix_of_mem_located hq)

/-- A segment stands behind the text before it and fits there. -/
theorem Partition.exists_after_of_mem_located {cs : List Char} {segs : List Segment}
    (h : Partition cs segs) {before : List Char} {p : List Char × Segment}
    (hp : p ∈ located before segs) :
    ∃ after, before ++ cs = p.1 ++ (p.2.text ++ after) ∧ p.2.Fits after := by
  induction h generalizing before with
  | nil => cases hp
  | @cons s after segs hfits _ ih =>
    rcases List.mem_cons.1 hp with rfl | hp
    · exact ⟨after, rfl, hfits⟩
    · obtain ⟨after', htext, hfits'⟩ := ih hp
      rw [List.append_assoc] at htext
      exact ⟨after', htext, hfits'⟩

/-! ### Lines -/

theorem Segment.line_of_token? {line : Nat} {s : Segment} {t : Token}
    (h : s.token? line = some t) : t.line = line := by
  cases s <;> cases h
  rfl

theorem Segment.line_of_complaint? {line : Nat} {s : Segment} {d : Diagnostic}
    (h : s.complaint? line = some d) : d.line = line := by
  cases s <;> cases h <;> rfl

/-- What is read off segments on their lines stands on lines that do not descend. -/
theorem pairwise_filterMap_located {β : Type} (f : Nat → Segment → Option β) {lineOf : β → Int}
    (hline : ∀ {l s b}, f l s = some b → lineOf b = (l : Nat)) (segs : List Segment) :
    ((located [] segs).filterMap fun p => f (lineBehind p.1) p.2).Pairwise
      fun b b' => lineOf b ≤ lineOf b' := by
  rw [List.pairwise_filterMap]
  refine (pairwise_located [] segs).imp fun {p q} hprefix b hb b' hb' => ?_
  have hle : lineBehind p.1 ≤ lineBehind q.1 := lineBehind_mono hprefix
  rw [hline hb, hline hb']
  exact Int.ofNat_le.2 hle

/-- A scan reads everything off the segments and the text before each of them. -/
theorem Scan.ofSource_eq_located (source : String) :
    Scan.ofSource source =
      ⟨(located [] (segments source.toList)).filterMap (fun p => p.2.token? (lineBehind p.1)) ++
          [Token.eof (lineBehind source.toList)],
        (located [] (segments source.toList)).filterMap
          (fun p => p.2.complaint? (lineBehind p.1)),
        lineBehind source.toList⟩ := by
  have hlast : 1 + totalNewlines (segments source.toList) = lineBehind source.toList := by
    rw [totalNewlines_segments, lineBehind]
  have htokens := filterMap_placed_one (fun l s => s.token? l) source.toList
  have hcomplaints := filterMap_placed_one (fun l s => s.complaint? l) source.toList
  have hscan : Scan.ofSource source = _ := Scan.ofSegments_eq 1 (segments source.toList)
  rw [tokensOf, htokens, complaintsOf, hcomplaints, hlast] at hscan
  exact hscan

/-- Each segment of a source text stands behind the text before it and fits there. -/
theorem exists_after_of_mem_located {source : List Char} {p : List Char × Segment}
    (h : p ∈ located [] (segments source)) :
    ∃ after, source = p.1 ++ (p.2.text ++ after) ∧ p.2.Fits after := by
  have hpartition : Partition source (segments source) := partition_iff.2 rfl
  exact hpartition.exists_after_of_mem_located h

/-- The lines of the tokens do not descend, on to that of the end marker. -/
theorem Scan.pairwise_line_tokens (source : String) :
    (Scan.ofSource source).tokens.Pairwise fun t t' => t.line ≤ t'.line := by
  have hpairwise := pairwise_filterMap_located (fun l s => s.token? l) Segment.line_of_token?
    (segments source.toList)
  rw [Scan.ofSource_eq_located]
  refine List.pairwise_append.2 ⟨hpairwise, List.pairwise_singleton _ _, ?_⟩
  intro t ht ending hending
  obtain ⟨p, hp, htoken⟩ := List.mem_filterMap.1 ht
  obtain ⟨after, htext, -⟩ := exists_after_of_mem_located hp
  have hle : lineBehind p.1 ≤ lineBehind source.toList := lineBehind_mono ⟨_, htext.symm⟩
  rw [List.mem_singleton.1 hending, Segment.line_of_token? htoken]
  exact Int.ofNat_le.2 hle

/-- Each segment of a source text stands behind the text before it and fits there. A token has the
line behind the text before its first character, also if it is a string over several lines; so has
the complaint about a stray character, and that about an unclosed string, which starts with its
quote. The end marker and the scanner itself are on the line behind the whole text. So the lines of
the tokens do not descend, and neither do those of the complaints. -/
theorem ofSource_line_accounting (source : String) :
    ∃ segs, Partition source.toList segs ∧
      (∀ p ∈ located [] segs, ∃ after,
        source.toList = p.1 ++ (p.2.text ++ after) ∧ p.2.Fits after) ∧
      (Scan.ofSource source).tokens =
        (located [] segs).filterMap (fun p => p.2.token? (lineBehind p.1)) ++
          [Token.eof (lineBehind source.toList)] ∧
      (Scan.ofSource source).errors =
        (located [] segs).filterMap (fun p => p.2.complaint? (lineBehind p.1)) ∧
      (Scan.ofSource source).line = lineBehind source.toList ∧
      (Scan.ofSource source).tokens.Pairwise (fun t t' => t.line ≤ t'.line) ∧
      (Scan.ofSource source).errors.Pairwise (fun d d' => d.line ≤ d'.line) := by
  have hscan := Scan.ofSource_eq_located source
  refine ⟨segments source.toList, partition_iff.2 rfl, fun p => exists_after_of_mem_located, ?_, ?_,
    ?_, Scan.pairwise_line_tokens source, ?_⟩
  · rw [hscan]
  · rw [hscan]
  · rw [hscan]
  · rw [hscan]
    exact pairwise_filterMap_located (fun l s => s.complaint? l) Segment.line_of_complaint? _

end LoxTree
