import Mathlib.Data.Prod.Lex
import ViewLint.Proofs.Balance.Account
import ViewLint.Proofs.Event.Markers

/-!
# What the reports of an analysis are about, and their order

The pass reports as it goes: closers report the components that they fence off, and the end of the
document reports what is left. `analyze` sorts the reports by line, column and wording
(`Diagnostic.key`). The key leaves out where the range ends, the severity and the rule, and yet it
determines the report, so that there is one sorted arrangement of what was found, whatever the order
in which it was found and whether the sort is stable or not (`analyze_diagnostics_canonical`).

Two facts carry this.

* The wording determines the problem (`Problem.message_injective`). A wording is a name between a
  front and a back, which belong to the rule, and no two rules have fronts of which one continues
  the other and backs of which one continues the other.
* The problem and the start determine the range. A report is about one event
  (`Diagnostic.Concerns`), and its range is computed from the range of that event by the rule
  (`Checkup.rangeOf`): it covers the line, or the event, or what the window shows. Only a report
  that covers its event has an end that the start does not give away, and no two events of one kind
  start at one place.
-/

namespace ViewLint

open Event (Precedes)

/-! ### The order of a report -/

namespace Diagnostic

/-- What a report is sorted by: its line, its column and its wording. -/
def key (d : Diagnostic) : ℤ ×ₗ ℤ ×ₗ Text :=
  toLex (d.range.start.line, toLex (d.range.start.character, d.message))

theorem key_le_iff {a b : Diagnostic} :
    a.key ≤ b.key ↔ a.range.start.line < b.range.start.line ∨
      a.range.start.line = b.range.start.line ∧
        (a.range.start.character < b.range.start.character ∨
          a.range.start.character = b.range.start.character ∧ a.message ≤ b.message) := by
  unfold key
  rw [Prod.Lex.toLex_le_toLex, Prod.Lex.toLex_le_toLex]

theorem key_eq_iff {a b : Diagnostic} :
    a.key = b.key ↔ a.range.start = b.range.start ∧ a.message = b.message := by
  unfold key
  rw [toLex_inj, Prod.mk.injEq, toLex_inj, Prod.mk.injEq, ← and_assoc, ← Place.mk.injEq]

theorem le_iff_key_le {a b : Diagnostic} : le a b = true ↔ a.key ≤ b.key := by
  rw [key_le_iff]
  unfold le
  by_cases hline : a.range.start.line = b.range.start.line
  · by_cases hcolumn : a.range.start.character = b.range.start.character
    · simp [hline, hcolumn, Text.le_iff]
    · simp [hline, hcolumn]
  · simp [hline]

theorem key_le_trans {a b c : Diagnostic} (hab : a.key ≤ b.key) (hbc : b.key ≤ c.key) :
    a.key ≤ c.key := by
  rw [key_le_iff] at *
  rcases hab with hab | ⟨hline, hab | ⟨hcolumn, hab⟩⟩
  · omega
  · omega
  · rcases hbc with hbc | ⟨hline', hbc | ⟨hcolumn', hbc⟩⟩
    · omega
    · omega
    · exact Or.inr ⟨hline.trans hline', Or.inr ⟨hcolumn.trans hcolumn', List.le_trans hab hbc⟩⟩

theorem key_le_total (a b : Diagnostic) : a.key ≤ b.key ∨ b.key ≤ a.key := by
  rw [key_le_iff, key_le_iff]
  rcases Int.lt_trichotomy a.range.start.line b.range.start.line with hline | hline | hline
  · exact Or.inl (Or.inl hline)
  · rcases Int.lt_trichotomy a.range.start.character b.range.start.character with
      hcolumn | hcolumn | hcolumn
    · exact Or.inl (Or.inr ⟨hline, Or.inl hcolumn⟩)
    · rcases List.le_total a.message b.message with hmessage | hmessage
      · exact Or.inl (Or.inr ⟨hline, Or.inr ⟨hcolumn, hmessage⟩⟩)
      · exact Or.inr (Or.inr ⟨hline.symm, Or.inr ⟨hcolumn.symm, hmessage⟩⟩)
    · exact Or.inr (Or.inr ⟨hline.symm, Or.inl hcolumn⟩)
  · exact Or.inr (Or.inl hline)

theorem key_le_antisymm {a b : Diagnostic} (hab : a.key ≤ b.key) (hba : b.key ≤ a.key) :
    a.key = b.key := by
  rw [key_le_iff] at hab hba
  obtain ⟨hline, hab⟩ := hab.resolve_left (by omega)
  obtain ⟨hcolumn, hab⟩ := hab.resolve_left (by omega)
  obtain ⟨-, hba⟩ := hba.resolve_left (by omega)
  obtain ⟨-, hba⟩ := hba.resolve_left (by omega)
  exact key_eq_iff.mpr ⟨(Place.mk.injEq ..).mpr ⟨hline, hcolumn⟩, List.le_antisymm hab hba⟩

theorem sort_perm (l : List Diagnostic) : (sort l).Perm l := List.mergeSort_perm l le

theorem pairwise_sort (l : List Diagnostic) : (sort l).Pairwise fun a b => a.key ≤ b.key := by
  have htrans : ∀ a b c : Diagnostic, le a b = true → le b c = true → le a c = true :=
    fun a b c hab hbc =>
      le_iff_key_le.mpr (key_le_trans (le_iff_key_le.mp hab) (le_iff_key_le.mp hbc))
  have htotal : ∀ a b : Diagnostic, (le a b || le b a) = true := by
    intro a b
    rw [Bool.or_eq_true, le_iff_key_le, le_iff_key_le]
    exact key_le_total a b
  exact (List.pairwise_mergeSort htrans htotal l).imp le_iff_key_le.mp

end Diagnostic

/-! ### Wordings -/

namespace Rule

/-- What the wording of a problem starts with, in front of the name. -/
def front : Rule → Text
  | duplicateExtends => Text.ofString "only one extends marker is allowed per document"
  | repeatedMarker => Text.ofString "unexpected repeated marker"
  | unmatchedDirective => Text.ofString "marker without matching opener: "
  | unclosedDirective => Text.ofString "unclosed "
  | unmatchedTag => Text.ofString "unmatched closing component </c-"
  | unclosedTag => Text.ofString "unclosed component <c-"

/-- What the wording of a problem ends with, behind the name. -/
def back : Rule → Text
  | duplicateExtends | repeatedMarker | unmatchedDirective => []
  | unclosedDirective => Text.ofString " block"
  | unmatchedTag | unclosedTag => Text.ofString ">"

/-- **What stands around a name tells the rules apart.** The front of one rule continues that of
another only for what is left open, and there the backs differ. -/
theorem eq_of_affixes {r s : Rule} (hfront : r.front <+: s.front ∨ s.front <+: r.front)
    (hback : r.back <:+ s.back ∨ s.back <:+ r.back) : r = s := by
  revert hfront hback
  cases r <;> cases s <;> decide

end Rule

namespace Problem

/-- The directive or component that a problem names, if it names one. -/
def name : Problem → Text
  | duplicateExtends | repeatedMarker => []
  | unmatchedDirective d | unclosedDirective d => d
  | unmatchedTag c | unclosedTag c => c

theorem message_eq (p : Problem) : p.message = p.rule.front ++ p.name ++ p.rule.back := by
  cases p <;> simp [message, rule, name, Rule.front, Rule.back]

theorem eq_of_rule_of_name {p q : Problem} (hrule : p.rule = q.rule) (hname : p.name = q.name) :
    p = q := by
  cases p <;> cases q <;> cases hrule <;> simp_all [name]

theorem front_prefix (p : Problem) : p.rule.front <+: p.message := by
  rw [message_eq, List.append_assoc]
  exact List.prefix_append _ _

theorem back_suffix (p : Problem) : p.rule.back <:+ p.message := by
  rw [message_eq]
  exact List.suffix_append _ _

/-- **Two problems never have the same wording.** -/
theorem message_injective : Function.Injective message := by
  intro p q h
  have hfront : p.rule.front <+: q.message := h ▸ p.front_prefix
  have hback : p.rule.back <:+ q.message := h ▸ p.back_suffix
  have hrule : p.rule = q.rule := Rule.eq_of_affixes
    (List.prefix_or_prefix_of_prefix hfront q.front_prefix)
    (List.suffix_or_suffix_of_suffix hback q.back_suffix)
  rw [message_eq, message_eq, hrule] at h
  exact eq_of_rule_of_name hrule (List.append_cancel_left (List.append_cancel_right h))

end Problem

/-! ### What a report is about -/

/-- The parts of the events that a rule is about. -/
def Rule.parts : Rule → List Part
  | duplicateExtends => [.extendsMarker]
  | repeatedMarker => [.doubleAt]
  | unmatchedDirective => [.closer, .elseBranch]
  | unclosedDirective => [.opener]
  | unmatchedTag => [.closeTag]
  | unclosedTag => [.openTag]

/-- The range of a report about an event with the range `r`. -/
def Checkup.rangeOf (c : Checkup) (r : Range) : Rule → Range
  | .duplicateExtends | .unmatchedDirective | .unclosedDirective => c.wholeLine r.start.line
  | .repeatedMarker | .unmatchedTag => r
  | .unclosedTag => (c.unclosedTag ⟨[], r, 0⟩).range

/-- **The report is about the event.** -/
structure Diagnostic.Concerns (c : Checkup) (d : Diagnostic) (e : Event) : Prop where
  part : ∃ p ∈ d.problem.rule.parts, e.kind.part? = some p
  range : d.range = c.rangeOf e.range d.problem.rule

namespace Finding

variable {c : Checkup} {E : List Event} {v : Finding} {d : Diagnostic}

/-- The report of a finding is about the event of the finding. -/
theorem Holds.exists_concerns (h : v.Holds E) (hd : v.diagnostic? c E = some d) :
    ∃ e ∈ E, d.Concerns c e := by
  -- the kind of the event at an index is told by the part it plays
  have hkind : ∀ {p i e}, (p, i) ∈ v.parts → E[i]? = some e → e.kind.part? = some p := by
    intro p i e hp he
    have hpart := h.kind_part (p, i) hp
    rwa [Event.kindAt, he] at hpart
  cases v with
  | duplicateExtends i | repeatedMarker i | unmatchedCloser i | unmatchedElse i | unmatchedTag i =>
    obtain ⟨e, he, rfl⟩ := Option.map_eq_some_iff.mp hd
    exact ⟨e, List.mem_of_getElem? he, ⟨_, by simp [Rule.parts, Problem.rule,
      Checkup.unmatchedDirective], hkind List.mem_cons_self he⟩, rfl⟩
  | unclosedDirective i =>
    obtain ⟨b, hb, rfl⟩ := Option.map_eq_some_iff.mp hd
    obtain ⟨e, he, rfl⟩ := Option.map_eq_some_iff.mp hb
    exact ⟨e, List.mem_of_getElem? he, ⟨_, List.mem_cons_self, hkind List.mem_cons_self he⟩, rfl⟩
  | unclosedTag k =>
    obtain ⟨t, ht, rfl⟩ := Option.map_eq_some_iff.mp hd
    obtain ⟨e, he, rfl⟩ := Option.map_eq_some_iff.mp ht
    exact ⟨e, List.mem_of_getElem? he, ⟨_, List.mem_cons_self, hkind List.mem_cons_self he⟩, rfl⟩
  | paired i j | consumed i j => cases hd

end Finding

theorem mem_diagnostics_iff {window : Int} {text : Text} {d : Diagnostic} :
    d ∈ (analyze window text).diagnostics ↔ d ∈ (balance ⟨⟨text⟩, effectiveWindow window⟩
      (Event.ofText (Comment.strip text))).found :=
  List.mem_mergeSort

/-- **Every report is about an event.** -/
theorem Pass.exists_concerns_of_mem_found {c : Checkup} {E : List Event} {d : Diagnostic}
    (h : d ∈ (balance c E).found) : ∃ e ∈ E, d.Concerns c e := by
  rw [found_eq_account] at h
  obtain ⟨v, hv, hd⟩ := List.mem_filterMap.mp h
  exact (Event.mem_account_iff.mp hv).exists_concerns hd

/-! ### The key determines the report -/

/-- Two events that play a part that only one kind plays have that kind. -/
theorem Event.Kind.eq_of_part {k k' : Event.Kind} {p : Part} (hp : p = .doubleAt ∨ p = .closeTag)
    (h : k.part? = some p) (h' : k'.part? = some p) : k = k' := by
  revert h h'
  rcases hp with rfl | rfl <;> cases k <;> cases k' <;> simp [part?]

/-- In a strictly ordered list the kind and the start tell events apart. -/
theorem Event.eq_of_precedes {E : List Event} (hE : E.Pairwise Precedes) {e e' : Event}
    (he : e ∈ E) (he' : e' ∈ E) (hkind : e.kind = e'.kind)
    (hstart : e.range.start = e'.range.start) : e = e' := by
  have heither : E.Pairwise fun x y => Precedes x y ∨ Precedes y x := hE.imp Or.inl
  have hsymm : Std.Symm fun x y : Event => Precedes x y ∨ Precedes y x := ⟨fun _ _ => Or.symm⟩
  by_contra hne
  have horder := heither.forall he he' hne
  unfold Precedes Event.line at horder
  rw [hkind, hstart] at horder
  omega

/-- A report that covers a line, or what the window shows, has a range that its start determines. -/
theorem Checkup.rangeOf_eq_of_start (c : Checkup) {r r' : Range} {rule : Rule}
    (hrule : rule ≠ .repeatedMarker ∧ rule ≠ .unmatchedTag)
    (h : (c.rangeOf r rule).start = (c.rangeOf r' rule).start) :
    c.rangeOf r rule = c.rangeOf r' rule := by
  cases rule with
  -- what is reported over the whole line depends on the line alone
  | duplicateExtends | unmatchedDirective | unclosedDirective =>
    have hline := congrArg Place.line h
    exact congrArg c.wholeLine hline
  | repeatedMarker => exact absurd rfl hrule.1
  | unmatchedTag => exact absurd rfl hrule.2
  | unclosedTag =>
    -- what is cut at the end of the line depends on the start alone
    have hstart : r.start = r'.start := h
    unfold rangeOf unclosedTag
    rw [hstart]

/-- **Two reports of one key are equal.** -/
theorem Diagnostic.Concerns.eq_of_key_eq {c : Checkup} {E : List Event} (hE : E.Pairwise Precedes)
    {a b : Diagnostic} {e e' : Event} (he : e ∈ E) (he' : e' ∈ E) (ha : a.Concerns c e)
    (hb : b.Concerns c e') (hkey : a.key = b.key) : a = b := by
  obtain ⟨hstart, hmessage⟩ := key_eq_iff.mp hkey
  have hproblem : a.problem = b.problem := Problem.message_injective hmessage
  obtain ⟨⟨p, hp, hpart⟩, hrange⟩ := ha
  obtain ⟨⟨p', hp', hpart'⟩, hrange'⟩ := hb
  rw [← hproblem] at hp' hrange'
  rw [hrange, hrange'] at hstart
  refine (Diagnostic.mk.injEq ..).mpr ⟨?_, hproblem⟩
  rw [hrange, hrange']
  by_cases hrule : a.problem.rule ≠ .repeatedMarker ∧ a.problem.rule ≠ .unmatchedTag
  · exact c.rangeOf_eq_of_start hrule hstart
  · -- the range is that of the event, and both events are the same
    generalize a.problem.rule = r at hp hp' hrule hstart
    have hcases : r = .repeatedMarker ∨ r = .unmatchedTag := by
      rwa [ne_eq, ne_eq, ← not_or, not_not] at hrule
    rcases hcases with rfl | rfl
    all_goals
      obtain rfl := List.mem_singleton.mp hp
      obtain rfl := List.mem_singleton.mp hp'
      have hkind : e.kind = e'.kind := Event.Kind.eq_of_part (by decide) hpart hpart'
      have hstart' : e.range.start = e'.range.start := hstart
      rw [Event.eq_of_precedes hE he he' hkind hstart']

/-- **The order of the reports is canonical.** The diagnostics of an analysis are what the pass
found, sorted by line, column and wording; two of them with the same line, column and wording are
equal in everything. So no other arrangement of them is sorted, and what is found in another order
and sorted gives the same diagnostics. -/
theorem analyze_diagnostics_canonical (window : Int) (text : Text) :
    let found := (balance ⟨⟨text⟩, effectiveWindow window⟩
      (Event.ofText (Comment.strip text))).found
    let sorted := (analyze window text).diagnostics
    sorted.Perm found ∧
    sorted.Pairwise (fun a b => a.key ≤ b.key) ∧
    (∀ a ∈ found, ∀ b ∈ found, a.key = b.key → a = b) ∧
    (∀ l, l.Perm found → l.Pairwise (fun a b => a.key ≤ b.key) → l = sorted) ∧
    ∀ l, l.Perm found → Diagnostic.sort l = sorted := by
  intro found sorted
  have hperm : sorted.Perm found := Diagnostic.sort_perm found
  have hsorted : sorted.Pairwise fun a b => a.key ≤ b.key := Diagnostic.pairwise_sort found
  -- the key tells the event that a diagnostic is about, and what is said of it
  have hkey : ∀ a ∈ found, ∀ b ∈ found, a.key = b.key → a = b := by
    intro a ha b hb hab
    obtain ⟨e, he, hconcerns⟩ := Pass.exists_concerns_of_mem_found ha
    obtain ⟨e', he', hconcerns'⟩ := Pass.exists_concerns_of_mem_found hb
    exact hconcerns.eq_of_key_eq (Event.pairwise_precedes_ofText _) he he' hconcerns' hab
  have hunique : ∀ l, l.Perm found → l.Pairwise (fun a b => a.key ≤ b.key) → l = sorted := by
    intro l hl hpairs
    -- two sorted arrangements can differ only where keys are equal, and then the diagnostics are
    refine List.Perm.eq_of_pairwise (fun a b ha hb hab hba => ?_) hpairs hsorted
      (hl.trans hperm.symm)
    exact hkey a (hl.mem_iff.mp ha) b (hperm.mem_iff.mp hb) (Diagnostic.key_le_antisymm hab hba)
  exact ⟨hperm, hsorted, hkey, hunique, fun l hl =>
    hunique _ ((Diagnostic.sort_perm l).trans hl) (Diagnostic.pairwise_sort l)⟩

end ViewLint
