import ViewLint.Balance
import ViewLint.Proofs.Text.Lines

/-!
# What the balance pass knows of the text

The pass works on events. Of the text itself it reads only how long its lines are, to tell how far
the range of a report goes. So two texts with the same events and lines of the same lengths get the
same analysis (`analyze_congr`).
-/

namespace ViewLint

/-- Lines of the same lengths. -/
def SameLineLengths (a b : Document) : Prop := ∀ i, (a.line i).length = (b.line i).length

namespace SameLineLengths

variable {a b : Document} (h : SameLineLengths a b) (window : Int)

include h

theorem wholeLine : Checkup.wholeLine ⟨a, window⟩ = Checkup.wholeLine ⟨b, window⟩ := by
  funext i
  unfold Checkup.wholeLine
  dsimp only
  rw [h i]

theorem unmatchedDirective :
    Checkup.unmatchedDirective ⟨a, window⟩ = Checkup.unmatchedDirective ⟨b, window⟩ := by
  funext e
  unfold Checkup.unmatchedDirective
  rw [h.wholeLine]

theorem unclosedDirective :
    Checkup.unclosedDirective ⟨a, window⟩ = Checkup.unclosedDirective ⟨b, window⟩ := by
  funext e
  unfold Checkup.unclosedDirective
  rw [h.wholeLine]

theorem unclosedTag : Checkup.unclosedTag ⟨a, window⟩ = Checkup.unclosedTag ⟨b, window⟩ := by
  funext t
  unfold Checkup.unclosedTag
  dsimp only
  rw [h]

theorem closeBlock (p : Pass) (f : Family) (e : Event) :
    p.closeBlock ⟨a, window⟩ f e = p.closeBlock ⟨b, window⟩ f e := by
  unfold Pass.closeBlock Pass.fence
  rw [h.unmatchedDirective, h.unclosedTag]

theorem apply : Pass.apply ⟨a, window⟩ = Pass.apply ⟨b, window⟩ := by
  funext p e
  unfold Pass.apply
  cases e.kind with
  | extendsMarker => dsimp only; rw [h.wholeLine]
  | elseBranch => dsimp only; rw [h.unmatchedDirective]
  | closer f => exact h.closeBlock window p f e
  | doubleAt => rfl
  | opener f => rfl
  | openTag => rfl
  | closeTag => rfl
  | selfClosedTag => rfl

/-- **The pass sees the lengths of the lines only.** -/
theorem balance (events : List Event) :
    balance ⟨a, window⟩ events = ViewLint.balance ⟨b, window⟩ events := by
  unfold ViewLint.balance Pass.run Pass.finish
  rw [h.apply, h.unclosedDirective, h.unclosedTag]

end SameLineLengths

/-- **The analysis of a text** depends on the lengths of its lines and on its events. -/
theorem analyze_congr {a b : Text} (hlines : SameLineLengths ⟨a⟩ ⟨b⟩)
    (hevents : Event.ofText (Comment.strip a) = Event.ofText (Comment.strip b)) (window : Int) :
    analyze window a = analyze window b := by
  unfold analyze
  rw [hlines.balance, hevents]

end ViewLint
