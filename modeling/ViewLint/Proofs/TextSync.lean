import ViewLint.Edit
import ViewLint.Proofs.Text.Lines
import ViewLint.Proofs.Text.Whole

/-!
# An editor and its server hold the same text

The reference client of this module is an editor that knows nothing of lines: it holds a text as
bytes and splices bytes (`ClientEdit.apply`). Only what it sends is in lines and UTF-16 columns
(`ClientEdit.change`), because the protocol wants it so. `applyChanges_eq_client` says that a server
which applies the changes, in calls of any size, holds the client's text after each of them.

The point is a round trip: the place that the client computes for an offset leads the server back to
that offset (`Document.offsetUTF16_clientPlace`). The client counts the UTF-16 units from the start
of the line to the offset. The server decodes the line, without its terminator, until it has counted
as many. The two agree because the line is decoded alone as it is decoded inside the text, and
because the offset lies in the line (`Document.exists_line_eq_append`).
-/

namespace ViewLint

open Text (byte IsBoundary EndsLine lastLine runes)

/-! ### The reference client -/

/-- The length of a text in UTF-16 units. -/
def utf16Length (text : Text) : Nat := ((runes text).map Text.Rune.units).sum

/-- The place of an offset as a client counts it: the newlines before it, and the UTF-16 length of
what stands between the last of them and the offset. -/
def clientPlace (text : Text) (offset : Nat) : Place where
  line := (text.take offset).count (byte '\n')
  character := utf16Length (lastLine (text.take offset))

/-- The offset stands right behind a carriage return that ends a line or the text. -/
def AfterLineReturn (text : Text) (offset : Nat) : Prop :=
  (text.take offset).getLast? = some (byte '\r') ∧
    ((text.drop offset).head? = some (byte '\n') ∨ offset = text.length)

instance (text : Text) (offset : Nat) : Decidable (AfterLineReturn text offset) :=
  inferInstanceAs (Decidable (_ ∧ _))

/-- An offset at which a client can edit: between two characters, and not inside a line end. -/
def Editable (text : Text) (offset : Nat) : Prop :=
  IsBoundary text offset ∧ ¬ AfterLineReturn text offset

/-- An edit of a client. -/
inductive ClientEdit where
  /-- Replaces the bytes from `start` to `stop`. -/
  | splice (start stop : Nat) (new : Text)
  /-- Replaces the whole text. -/
  | replace (new : Text)
  deriving DecidableEq

namespace ClientEdit

/-- The text of the client after an edit. -/
def apply (text : Text) : ClientEdit → Text
  | splice start stop new => text.take start ++ new ++ text.drop stop
  | replace new => new

/-- The edit can be made in the text. -/
def Fits (text : Text) : ClientEdit → Prop
  | splice start stop _ =>
    start ≤ stop ∧ stop ≤ text.length ∧ Editable text start ∧ Editable text stop
  | replace _ => True

/-- What the client sends for an edit. -/
def change (text : Text) : ClientEdit → Change
  | splice start stop new => ⟨some ⟨clientPlace text start, clientPlace text stop⟩, new⟩
  | replace new => ⟨none, new⟩

/-- The text of the client after some edits. -/
def applyAll (text : Text) (edits : List ClientEdit) : Text := edits.foldl apply text

/-- What the client sends for some edits, each computed on the text before it. -/
def changes (text : Text) : List ClientEdit → List Change
  | [] => []
  | e :: edits => e.change text :: changes (e.apply text) edits

/-- Each edit can be made in the text before it. -/
def FitAll (text : Text) : List ClientEdit → Prop
  | [] => True
  | e :: edits => e.Fits text ∧ FitAll (e.apply text) edits

end ClientEdit

/-! ### Columns -/

theorem utf16Length_eq_total (text : Text) :
    utf16Length text = total Text.Rune.units (runes text) := rfl

/-- On a line that is cut at a boundary, the UTF-16 length of the first part is its column. -/
theorem fromUTF16_utf16Length {column rest : Text}
    (h : runes (column ++ rest) = runes column ++ runes rest) :
    fromUTF16 (column ++ rest) (utf16Length column) = column.length := by
  have hcolumn := take_wholeBefore (fun r _ => r.units_pos) h
  rw [fromUTF16_eq_total, utf16Length_eq_total, hcolumn, ← Text.width_eq_total, Text.width_runes]

/-! ### Lines -/

/-- A carriage return at the end of a text is dropped. -/
theorem dropTail_return (text : Text) :
    (∃ front, text = front ++ [byte '\r'] ∧ Text.dropTail [byte '\r'] text = front) ∨
      (text.getLast? ≠ some (byte '\r') ∧ Text.dropTail [byte '\r'] text = text) := by
  unfold Text.dropTail
  by_cases h : [byte '\r'].isSuffixOf text = true
  · obtain ⟨front, hfront⟩ := List.isSuffixOf_iff_suffix.mp h
    refine Or.inl ⟨front, hfront.symm, ?_⟩
    rw [if_pos h, ← hfront]
    simp
  · refine Or.inr ⟨fun hlast => h ?_, if_neg h⟩
    obtain ⟨front, rfl⟩ := List.getLast?_eq_some_iff.mp hlast
    exact List.isSuffixOf_iff_suffix.mpr (List.suffix_append front _)

/-- **An editable offset lies in its line.** The line goes on behind the offset with some of the
bytes that follow it, and the first byte that is left out continues no character. -/
theorem exists_line_eq_append {column rest : Text} (hcolumn : byte '\n' ∉ column)
    (hreturn : column.getLast? = some (byte '\r') → rest.head? ≠ some (byte '\n') ∧ rest ≠ []) :
    ∃ tail left, rest = tail ++ left ∧
      (∀ c, left.head? = some c → Text.isContinuation c = false) ∧
      Text.dropTail [byte '\r'] ((column ++ rest).takeWhile (· != byte '\n')) = column ++ tail := by
  have hraw : (column ++ rest).takeWhile (· != byte '\n') =
      column ++ rest.takeWhile (· != byte '\n') :=
    List.takeWhile_append_of_pos fun c hc => by
      simpa using fun h : c = byte '\n' => hcolumn (h ▸ hc)
  have hrest : rest = rest.takeWhile (· != byte '\n') ++ rest.dropWhile (· != byte '\n') :=
    List.takeWhile_append_dropWhile.symm
  have hleft : ∀ c, (rest.dropWhile (· != byte '\n')).head? = some c → c = byte '\n' := by
    intro c hc
    have hnot := List.head?_dropWhile_not (· != byte '\n') rest
    rw [hc] at hnot
    simpa using hnot
  rw [hraw]
  generalize rest.takeWhile (· != byte '\n') = line at hrest
  generalize rest.dropWhile (· != byte '\n') = left at hrest hleft
  subst hrest
  rcases dropTail_return (column ++ line) with ⟨front, heq, hdrop⟩ | ⟨-, hdrop⟩
  · -- the line ends with a carriage return, which stands behind the offset
    rcases List.eq_nil_or_concat line with rfl | ⟨line, b, rfl⟩
    · -- the carriage return right before the offset would end the line
      rw [List.append_nil] at heq
      obtain ⟨hne, hnil⟩ := hreturn (by rw [heq, List.getLast?_concat])
      rw [List.nil_append] at hne hnil
      obtain ⟨c, left, rfl⟩ := List.exists_cons_of_ne_nil hnil
      exact absurd (congrArg some (hleft c rfl)) hne
    · rw [List.concat_eq_append, ← List.append_assoc] at heq
      rw [List.concat_eq_append] at hdrop ⊢
      obtain ⟨rfl, hb⟩ := List.append_inj' heq rfl
      obtain rfl := (List.cons.inj hb).1
      refine ⟨line, byte '\r' :: left, by simp, ?_, hdrop⟩
      intro c hc
      obtain rfl := Option.some.inj hc
      decide
  · refine ⟨line, left, rfl, ?_, hdrop⟩
    intro c hc
    rw [hleft c hc]
    decide

/-- Behind a line start a text is decoded on its own. -/
theorem Text.EndsLine.runes_append {front : Text} (h : EndsLine front) (rest : Text) :
    runes (front ++ rest) = runes front ++ runes rest := by
  rcases h with rfl | ⟨front, rfl⟩
  · rfl
  · exact Text.runes_append_of_ascii front (by decide) rest

/-- A boundary of a text is a boundary of its line. -/
theorem runes_line {front column tail left : Text} (hfront : EndsLine front)
    (hbound : runes (front ++ column ++ (tail ++ left)) =
      runes (front ++ column) ++ runes (tail ++ left))
    (hleft : ∀ c, left.head? = some c → Text.isContinuation c = false) :
    runes (column ++ tail) = runes column ++ runes tail := by
  have hline : runes (column ++ (tail ++ left)) = runes column ++ runes (tail ++ left) := by
    rw [List.append_assoc, hfront.runes_append, hfront.runes_append, List.append_assoc] at hbound
    exact List.append_cancel_left hbound
  rw [← List.append_assoc, Text.runes_append_of_not_continuation _ hleft,
    Text.runes_append_of_not_continuation _ hleft, ← List.append_assoc] at hline
  exact List.append_cancel_right hline

/-! ### The round trip -/

/-- **The place that a client computes leads back to its offset.** -/
theorem Document.offsetUTF16_clientPlace {text : Text} {offset : Nat} (hle : offset ≤ text.length)
    (h : Editable text offset) :
    (Document.mk text).offsetUTF16 (clientPlace text offset) = offset := by
  obtain ⟨hbound, hreturn⟩ := h
  have hdecode := hbound.runes_eq
  have hsplit : text.take offset ++ text.drop offset = text := List.take_append_drop offset text
  have hlen : (text.take offset).length = offset := List.length_take_of_le hle
  have hend : offset = text.length ↔ text.drop offset = [] := by
    rw [List.drop_eq_nil_iff]
    omega
  unfold AfterLineReturn at hreturn
  rw [hend] at hreturn
  unfold clientPlace
  generalize text.take offset = before at hsplit hlen hreturn hdecode ⊢
  generalize text.drop offset = rest at hsplit hreturn hdecode
  subst hsplit
  -- what stands before the offset ends with the column of the offset
  obtain ⟨front, hfront, hbefore⟩ := Text.exists_append_lastLine before
  have hnl := Text.not_mem_lastLine before
  generalize lastLine before = column at hbefore hnl ⊢
  subst hbefore
  have hcount : (front ++ column).count (byte '\n') = front.count (byte '\n') := by
    rw [List.count_append, List.count_eq_zero_of_not_mem hnl, Nat.add_zero]
  have hcr : column.getLast? = some (byte '\r') → rest.head? ≠ some (byte '\n') ∧ rest ≠ [] := by
    intro hlast
    rw [not_and, not_or] at hreturn
    refine hreturn ?_
    rw [List.getLast?_append, hlast]
    rfl
  -- the line of the server starts with that column, and is decoded as it is inside the text
  obtain ⟨tail, left, rfl, hleft, hline⟩ := exists_line_eq_append hnl hcr
  have hcolumn := fromUTF16_utf16Length (runes_line hfront hdecode hleft)
  unfold offsetUTF16 fromUTF16Place
  dsimp only
  rw [hcount, List.append_assoc, line_of_endsLine hfront, hline, hcolumn,
    offset_of_endsLine hfront, hline, List.length_append, Int.toNat_natCast]
  rw [List.length_append] at hlen
  omega

/-! ### Whole sessions -/

namespace ClientEdit

/-- The change that a client sends makes its edit. -/
theorem applyChange_change {text : Text} {e : ClientEdit} (h : e.Fits text) :
    applyChange text (e.change text) = e.apply text := by
  cases e with
  | splice start stop new =>
    obtain ⟨hle, hstop, hs, he⟩ := h
    unfold applyChange change
    dsimp only
    rw [Document.offsetUTF16_clientPlace (Nat.le_trans hle hstop) hs,
      Document.offsetUTF16_clientPlace hstop he, Nat.max_eq_right hle]
    rfl
  | replace new => rfl

/-- **After every edit the two texts agree.** -/
theorem applyChanges_take_changes {text : Text} {edits : List ClientEdit} (h : FitAll text edits)
    (k : Nat) : applyChanges text ((changes text edits).take k) = applyAll text (edits.take k) := by
  induction edits generalizing text k with
  | nil => simp [changes, applyChanges, applyAll]
  | cons e edits ih =>
    obtain ⟨he, hrest⟩ := h
    cases k with
    | zero => rfl
    | succ k =>
      have hih := ih hrest k
      unfold applyChanges applyAll at hih ⊢
      rw [changes, List.take_succ_cons, List.take_succ_cons, List.foldl_cons, List.foldl_cons,
        applyChange_change he, hih]

end ClientEdit

/-- Changes may be split over calls. -/
theorem foldl_applyChanges_flatten (text : Text) (calls : List (List Change)) :
    calls.foldl applyChanges text = applyChanges text calls.flatten := by
  induction calls generalizing text with
  | nil => rfl
  | cons call calls ih =>
    rw [List.foldl_cons, ih, List.flatten_cons]
    unfold applyChanges
    rw [List.foldl_append]

/-- **Client and server never hold different texts.** Whatever edits the client makes, and however
the changes it sends are spread over calls, the server holds the client's text after each change
and after each call. -/
theorem applyChanges_eq_client {text : Text} {edits : List ClientEdit}
    (h : ClientEdit.FitAll text edits) :
    (∀ k, applyChanges text ((ClientEdit.changes text edits).take k) =
        ClientEdit.applyAll text (edits.take k)) ∧
      ∀ calls : List (List Change), calls.flatten = ClientEdit.changes text edits →
        ∀ k, (calls.take k).foldl applyChanges text =
          ClientEdit.applyAll text (edits.take (calls.take k).flatten.length) := by
  refine ⟨ClientEdit.applyChanges_take_changes h, fun calls hcalls k => ?_⟩
  -- the changes of the first calls are the first of all changes
  have hprefix : (calls.take k).flatten =
      (ClientEdit.changes text edits).take (calls.take k).flatten.length := by
    rw [← hcalls]
    conv_rhs => rw [← List.take_append_drop k calls, List.flatten_append]
    rw [List.take_append_drop, List.take_left]
  rw [foldl_applyChanges_flatten, hprefix, ClientEdit.applyChanges_take_changes h, ← hprefix]

/-- The client takes out a line end between a character of two units and a malformed byte, in a
call of its own, and a line end again together with a new text, in a second call. -/
theorem applyChanges_eq_client_across_lines :
    let text : Text := [0x61, 0xF0, 0x9F, 0x98, 0x80, 0x0D, 0x0A, 0xFF, 0x62, 0x0A]
    let edits : List ClientEdit :=
      [.splice 5 8 [0xC3, 0xA9, 0x0D, 0x0A], .splice 7 9 [], .replace [0x7A]]
    let first : Change := ⟨some ⟨⟨0, 3⟩, ⟨1, 1⟩⟩, [0xC3, 0xA9, 0x0D, 0x0A]⟩
    let second : Change := ⟨some ⟨⟨0, 4⟩, ⟨1, 0⟩⟩, []⟩
    ClientEdit.FitAll text edits ∧
      [[first]].foldl applyChanges text =
        [0x61, 0xF0, 0x9F, 0x98, 0x80, 0xC3, 0xA9, 0x0D, 0x0A, 0x62, 0x0A] ∧
      applyChanges text [first, second] =
        [0x61, 0xF0, 0x9F, 0x98, 0x80, 0xC3, 0xA9, 0x62, 0x0A] := by
  intro text edits first second
  -- each edit cuts at line ends and rune boundaries of the text it is made to
  have hfit : ClientEdit.FitAll text edits := by
    refine ⟨⟨by decide, by decide, ⟨⟨2, ?_⟩, ?_⟩, ⟨⟨5, ?_⟩, ?_⟩⟩,
      ⟨by decide, by decide, ⟨⟨3, ?_⟩, ?_⟩, ⟨⟨5, ?_⟩, ?_⟩⟩, trivial, trivial⟩
    all_goals decide +kernel
  -- the client sends the second range in the text the first one left
  have hsent : ClientEdit.changes text edits = [first, second, ⟨none, [0x7A]⟩] := by
    decide +kernel
  obtain ⟨hedits, hcalls⟩ := applyChanges_eq_client hfit
  rw [hsent] at hedits hcalls
  exact ⟨hfit, hcalls [[first], [second, ⟨none, [0x7A]⟩]] rfl 1, hedits 2⟩

end ViewLint
