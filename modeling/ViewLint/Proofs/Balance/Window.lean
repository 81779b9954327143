import ViewLint.Proofs.Balance.Ranges
import ViewLint.Settings

/-!
# The window of an unclosed component

`analyze_unclosedTag_window`: a report about an unclosed component starts with the tag and shows as
much of the line as the window allows, `min window (length - column)` bytes, if and only if the sum
of column and window fits a 64-bit word.

Nothing bounds the window from above, neither the settings nor the pass, and the end of the range
is computed before it is cut off at the end of the line. When the sum does not fit, the wrapped end
lies in front of the tag (`wrap64_le_of_bound_le`), so that there is nothing to cut off, and the
range ends before it starts (`analyze_unclosedTag_window_wrapped`).
-/

namespace ViewLint

/-- The settings in force hold the window that the pass makes of the configured one. -/
theorem Settings.unclosedWindow_withDefaults (s : Settings) :
    s.withDefaults.unclosedWindow = effectiveWindow s.unclosedWindow := rfl

theorem effectiveWindow_pos (window : Int) : 0 < effectiveWindow window := by
  unfold effectiveWindow defaultWindow
  split <;> omega

/-- The window in force fits the word if the configured one does. -/
theorem effectiveWindow_lt {window : Int} (h : Word.fits 64 window = true) :
    effectiveWindow window < Word.bound 64 := by
  have hmax := (Word.fits_iff.mp h).2
  rw [Word.bound_64] at hmax ⊢
  unfold effectiveWindow defaultWindow
  split <;> omega

/-- The end that the window gives to a range that starts at a column of a line. -/
theorem min_wrap64_add {column window length : Int} (hcolumn : 0 ≤ column)
    (hlength : column ≤ length) (hpos : 0 < window) (hmax : window < Word.bound 64) :
    (min (wrap64 (column + window)) length - column = min window (length - column) ↔
      Word.fits 64 (column + window) = true) ∧
    (Word.fits 64 (column + window) = false →
      min (wrap64 (column + window)) length = wrap64 (column + window) ∧
        wrap64 (column + window) < column) := by
  cases hfits : Word.fits 64 (column + window) with
  | true =>
    rw [wrap64_eq_self_iff.mpr hfits]
    refine ⟨iff_of_true ?_ rfl, Bool.noConfusion⟩
    omega
  | false =>
    -- both summands are positive words, so the sum can only be too large
    have hover : Word.bound 64 ≤ column + window := by
      have hnot := mt Word.fits_iff.mpr (Bool.eq_false_iff.mp hfits)
      rw [Word.bound_64] at hnot ⊢
      omega
    have hwrap := wrap64_le_of_bound_le hover
    rw [Word.bound_64] at hmax
    refine ⟨iff_of_false ?_ Bool.noConfusion, fun _ => ⟨?_, ?_⟩⟩ <;> omega

/-- **The window of an unclosed component.** The settings and the pass agree on the window in force.
The range of a report about an unclosed component stays on the line of its tag and has the width
that the window allows, if and only if column and window add up without overflow; when they do not,
the wrapped sum is reported, and the range ends in front of the tag. -/
theorem analyze_unclosedTag_window (text : Text) {window : Int}
    (hword : Word.fits 64 window = true) :
    let w := if window ≤ 0 then 20 else window
    (∀ s : Settings, s.unclosedWindow = window → s.withDefaults.unclosedWindow = w) ∧
    ∀ d ∈ (analyze window text).diagnostics, d.problem.rule = .unclosedTag →
      let start := d.range.start
      let stop := d.range.stop
      let length : Int := ((Document.mk text).line start.line).length
      stop.line = start.line ∧ 0 ≤ start.character ∧ start.character ≤ length ∧
      (stop.character - start.character = min w (length - start.character) ↔
        Word.fits 64 (start.character + w) = true) ∧
      (Word.fits 64 (start.character + w) = false →
        stop.character = wrap64 (start.character + w) ∧ stop.before start = true) := by
  intro w
  have hw : effectiveWindow window = w := rfl
  refine ⟨fun s hs => ?_, fun d hd hrule => ?_⟩
  · rw [Settings.unclosedWindow_withDefaults, hs]
    exact hw
  · -- the report is about a tag, and a tag starts inside its line
    obtain ⟨e, he, hconcerns⟩ := Pass.exists_concerns_of_mem_found (mem_diagnostics_iff.mp hd)
    obtain ⟨start, stop, hspan⟩ := Event.exists_solidSpan_of_strip he
    obtain ⟨hnonneg, hline⟩ := hspan.start_bounds
    obtain ⟨hexact, hover⟩ :=
      min_wrap64_add hnonneg hline (effectiveWindow_pos window) (effectiveWindow_lt hword)
    have hrange := hconcerns.range
    rw [hrule, hw] at hrange
    rw [hw] at hexact hover
    rw [hrange]
    refine ⟨rfl, hnonneg, hline, hexact, fun h => ?_⟩
    obtain ⟨hstop, hbefore⟩ := hover h
    exact ⟨hstop, (if_pos rfl).trans (decide_eq_true (hstop.trans_lt hbefore))⟩

/-- The largest window, with a tag at the start of a line and one behind a blank: the first range
ends with its line, the second one in front of its tag. -/
theorem analyze_unclosedTag_window_largest :
    let text := Text.ofString " <c-a>\n<c-b>"
    let wrapped : Range := .onLine 0 1 (-2 ^ 63)
    let exact : Range := .onLine 1 0 5
    Word.fits 64 (2 ^ 63 - 1) = true ∧
      ⟨wrapped, .unclosedTag (Text.ofString "a")⟩ ∈ (analyze (2 ^ 63 - 1) text).diagnostics ∧
      ⟨exact, .unclosedTag (Text.ofString "b")⟩ ∈ (analyze (2 ^ 63 - 1) text).diagnostics ∧
      wrapped.stop.before wrapped.start = true ∧
      exact.stop.character - exact.start.character =
        min (2 ^ 63 - 1) (((Document.mk text).line 1).length - 0) := by
  intro text wrapped exact
  have hword : Word.fits 64 (2 ^ 63 - 1) = true := by decide
  -- the two tags are the only events
  have hevents : Event.ofText (Comment.strip text) =
      [⟨.openTag, Text.ofString "a", .onLine 0 1 6⟩,
        ⟨.openTag, Text.ofString "b", .onLine 1 0 5⟩] := by
    unfold Event.ofText
    rw [List.mergeSort_of_pairwise (by decide +kernel)]
    decide +kernel
  have hwrapped : ⟨wrapped, .unclosedTag (Text.ofString "a")⟩ ∈
      (analyze (2 ^ 63 - 1) text).diagnostics := by
    rw [mem_diagnostics_iff, hevents]
    decide +kernel
  have hexact : ⟨exact, .unclosedTag (Text.ofString "b")⟩ ∈
      (analyze (2 ^ 63 - 1) text).diagnostics := by
    rw [mem_diagnostics_iff, hevents]
    decide +kernel
  -- the sum of column and window overflows in the first column and not in column 0
  have hwindow := (analyze_unclosedTag_window text hword).2
  obtain ⟨-, -, -, -, hover⟩ := hwindow _ hwrapped rfl
  obtain ⟨-, -, -, hwidth, -⟩ := hwindow _ hexact rfl
  exact ⟨hword, hwrapped, hexact, (hover (by decide)).2, hwidth.mpr (by decide)⟩

/-- The range of an unclosed component does not always have the width that the window allows. -/
theorem analyze_unclosedTag_window_wrapped :
    ¬ ∀ (text : Text) (window : Int), Word.fits 64 window = true →
      ∀ d ∈ (analyze window text).diagnostics, d.problem.rule = .unclosedTag →
        d.range.stop.line = d.range.start.line ∧
          d.range.stop.character - d.range.start.character =
            min (if window ≤ 0 then 20 else window)
              (((Document.mk text).line d.range.start.line).length - d.range.start.character) := by
  intro hlaw
  have hevents : Event.ofText (Comment.strip (Text.ofString " <c-a>")) =
      [⟨.openTag, Text.ofString "a", .onLine 0 1 6⟩] := by
    unfold Event.ofText
    rw [List.mergeSort_of_pairwise (by decide +kernel)]
    decide +kernel
  have hfound : ⟨.onLine 0 1 (-2 ^ 63), .unclosedTag (Text.ofString "a")⟩ ∈
      (analyze (2 ^ 63 - 1) (Text.ofString " <c-a>")).diagnostics := by
    rw [mem_diagnostics_iff, hevents]
    decide +kernel
  -- the line would have to end before it starts
  have hwidth := (hlaw _ _ (by decide) _ hfound rfl).2
  exact absurd hwidth (by decide +kernel)

end ViewLint
