import ViewLint.FileTree.Host
import ViewLint.Proofs.Edit.Splice
import ViewLint.Proofs.Server.Run
import ViewLint.Proofs.Text.WordAt
import ViewLint.Server.Answer

/-!
# A snippet replaces the word at the cursor

A snippet comes with an edit if its label stands at the cursor, with or without an `@`.
`snippet_edits_replace_word` says that such an edit is about these bytes and no others: an editor that
sends it back as a change gets the text with the snippet in their place.

The word is searched in bytes, on the line without its terminator, and the edit names it in UTF-16
columns, which are turned into bytes again when the change is made. The bytes of a label are ASCII
(`Completion.ascii_of_mem_snippets`), and so the word stands between two characters, whatever is around
it. There a column survives the way to UTF-16 and back, and the change cuts the text around the word
(`applyChange_piece`).
-/

namespace ViewLint

open Text (byte runes EndsLine Occurrence)

/-! ### Pieces of a line as ranges -/

namespace Text

/-- A text of ASCII bytes stands between two characters. -/
theorem runes_around_ascii {word : Text} (hne : word ≠ []) (hascii : ∀ b ∈ word, b < 0x80)
    (before after : Text) :
    runes (before ++ (word ++ after)) = runes before ++ runes (word ++ after) ∧
      runes (before ++ word ++ after) = runes (before ++ word) ++ runes after := by
  constructor
  · obtain ⟨b, rest, rfl⟩ := List.exists_cons_of_ne_nil hne
    refine runes_append_of_not_continuation before fun c hc => ?_
    obtain rfl := Option.some.inj hc
    exact not_isContinuation_of_ascii (hascii b List.mem_cons_self)
  · obtain ⟨front, b, rfl⟩ := (List.eq_nil_or_concat' word).resolve_left hne
    have hlast : b < 0x80 := hascii b (List.mem_append_right _ List.mem_cons_self)
    rw [← List.append_assoc]
    exact runes_append_of_ascii (before ++ front) hlast after

end Text

namespace Document

/-- A line outside the document is empty. -/
theorem line_of_outside {doc : Document} {i : Int} (h : i < 0 ∨ (doc.lineCount : Int) ≤ i) :
    doc.line i = [] := by
  unfold line
  split
  · rfl
  · have hlen : doc.rawLines.length ≤ i.toNat := by
      change doc.lineCount ≤ i.toNat
      omega
    rw [List.getD_eq_getElem?_getD, List.getElem?_eq_none hlen]
    rfl

section

variable {front line left : Text} (hfront : EndsLine front)
  (hline : (mk (front ++ (line ++ left))).line (front.count (byte '\n')) = line)

include hfront hline

/-- Between two characters of a line, a column that is sent in UTF-16 leads back to its byte. -/
theorem offsetUTF16_toUTF16Place {column rest : Text} (hcut : line = column ++ rest)
    (hrunes : runes (column ++ rest) = runes column ++ runes rest) :
    (mk (front ++ (line ++ left))).offsetUTF16
        ((mk (front ++ (line ++ left))).toUTF16Place ⟨front.count (byte '\n'), column.length⟩) =
      front.length + column.length := by
  have hle : column.length ≤ line.length := by
    rw [hcut]
    exact (List.prefix_append column rest).length_le
  -- the column is a rune boundary, so it comes back from UTF-16 as it was
  have hback : fromUTF16 line (toUTF16 line column.length) = column.length := by
    rw [hcut]
    exact fromUTF16_toUTF16 hrunes
  unfold offsetUTF16 fromUTF16Place toUTF16Place
  dsimp only
  rw [hline, hback, offset_of_line hfront hline, Int.toNat_natCast, Nat.min_eq_left hle]

/-- **A change over a piece of a line replaces this piece.** The piece stands between two characters, and
the change names it in UTF-16 columns. -/
theorem applyChange_piece {before word after : Text} (hcut : line = before ++ (word ++ after))
    (hstart : runes (before ++ (word ++ after)) = runes before ++ runes (word ++ after))
    (hstop : runes (before ++ word ++ after) = runes (before ++ word) ++ runes after)
    (new : Text) :
    applyChange (front ++ (line ++ left))
        ⟨some ((mk (front ++ (line ++ left))).toUTF16Range
          (.onLine (front.count (byte '\n')) before.length (before.length + word.length : Nat))),
          new⟩ =
      front ++ (before ++ (new ++ after) ++ left) := by
  -- both ends of the word come back as the offsets where it was cut
  have hfirst := offsetUTF16_toUTF16Place hfront hline hcut hstart
  have hlast := offsetUTF16_toUTF16Place hfront hline (hcut.trans (List.append_assoc ..).symm) hstop
  rw [List.length_append] at hlast
  have htake : (front ++ (before ++ (word ++ after) ++ left)).take (front.length + before.length) =
      front ++ before := by
    rw [← List.length_append, List.append_assoc before, ← List.append_assoc front, List.take_left]
  have hdrop : (front ++ (before ++ (word ++ after) ++ left)).drop
      (front.length + (before.length + word.length)) = after ++ left := by
    rw [← List.drop_drop, List.drop_left, List.append_assoc before, ← List.drop_drop, List.drop_left,
      List.append_assoc word, List.drop_left]
  unfold applyChange toUTF16Range Range.onLine
  dsimp only
  rw [hfirst, hlast, Nat.max_eq_right (by omega), hcut, htake, hdrop]
  simp only [List.append_assoc]

end

end Document

/-! ### Suggestions -/

namespace Completion

open scoped Text.Bytewise

/-- The labels of the snippets are words of ASCII bytes. -/
theorem ascii_of_mem_snippets :
    ∀ s ∈ snippets, s.label ≠ [] ∧ ∀ b ∈ s.label, b < 0x80 := by
  decide

/-- A suggestion is a component, which has no range, or a snippet. -/
theorem mem_complete {r : Option Resolver} {c : Context} {item : Item} (h : item ∈ complete r c) :
    (item.kind ≠ .snippet ∧ item.range = none) ∨ ∃ s ∈ snippets, item = Item.ofSnippet c s := by
  unfold complete at h
  -- the two halves of the list: components, then snippets
  rcases List.mem_append.mp h with h | h
  · -- a component item is no snippet and carries no range
    left
    unfold components at h
    split at h
    · split at h
      · cases h
      · obtain ⟨l, -, rfl⟩ := List.mem_map.mp h
        refine ⟨?_, rfl⟩
        obtain ⟨label, kind⟩ := l
        cases kind <;> exact nofun
    · cases h
  · right
    obtain ⟨s, hs, rfl⟩ := List.mem_map.mp h
    exact ⟨s, hs, rfl⟩

/-- A snippet has a range just in case its word is found at the cursor. -/
theorem isSome_range_ofSnippet_iff (c : Context) (s : Snippet) :
    (Item.ofSnippet c s).range.isSome = true ↔
      ∃ o ∈ Text.occurrences (Text.atWord s.label) c.text, o.touches c.character = true := by
  rw [← Text.isSome_wordAt_iff (Text.fits_atWord s.label)]
  unfold Item.ofSnippet
  dsimp only
  rw [Option.isSome_map]

/-- The byte column of the cursor is in its line, so that it is not moved again. -/
theorem Context.ofPlace_fromUTF16Place (doc : Document) (place : Place) :
    Context.ofPlace doc (doc.fromUTF16Place place) =
      ⟨place.line, doc.line place.line, fromUTF16 (doc.line place.line) place.character⟩ := by
  have hle := (isBoundary_fromUTF16 (doc.line place.line) place.character).le_length
  unfold ofPlace Document.fromUTF16Place
  dsimp only
  rw [Int.toNat_natCast, Nat.min_eq_left hle]

/-- **An edit replaces the word at the cursor.** A label, with or without an `@`, stands on the line of
the cursor, and the cursor is in it or at one of its ends. The range is on this line, and a change over it
puts the new text where the word stands. -/
structure Replaces (doc : Document) (place : Place) (label new : Text) (range : Range)
    (front before word after left : Text) : Prop where
  text_eq : doc.text = front ++ (before ++ (word ++ after) ++ left)
  /-- The line stands behind as many line ends as its number says. -/
  endsLine : EndsLine front
  count : (front.count (byte '\n') : Int) = place.line
  line_eq : doc.line place.line = before ++ (word ++ after)
  word_eq : word = label ∨ word = byte '@' :: label
  start_le : before.length ≤ fromUTF16 (doc.line place.line) place.character
  le_stop : fromUTF16 (doc.line place.line) place.character ≤ before.length + word.length
  start_line : range.start.line = place.line
  stop_line : range.stop.line = place.line
  edit : applyChanges doc.text [⟨some range, new⟩] = front ++ (before ++ (new ++ after) ++ left)

/-- **The word at the cursor is replaced**, if its bytes are ASCII and the edit is sent in UTF-16
columns. -/
theorem exists_replaces {doc : Document} {place : Place} {label : Text} (hne : label ≠ [])
    (hascii : ∀ b ∈ label, b < 0x80) {o : Occurrence}
    (ho : Text.wordAt (doc.line place.line) (fromUTF16 (doc.line place.line) place.character)
      (Text.atWord label) = some o) (new : Text) :
    ∃ front before word after left, Replaces doc place label new
      (doc.toUTF16Range (.onLine place.line o.start o.stop)) front before word after left := by
  obtain ⟨before, word, after, hline, hwordne, hword, rfl, hle, hge⟩ :=
    Text.exists_split_of_wordAt hne ho
  have hwordascii : ∀ b ∈ word, b < 0x80 := by
    rcases hword with rfl | rfl
    · exact hascii
    · exact List.forall_mem_cons.mpr ⟨by decide, hascii⟩
  -- outside the document there are no words
  have hinside : ¬ (place.line < 0 ∨ (doc.lineCount : Int) ≤ place.line) := by
    intro hout
    rw [Document.line_of_outside hout] at hline
    exact hwordne (List.append_eq_nil_iff.mp (List.append_eq_nil_iff.mp hline.symm).2).1
  rw [not_or, Int.not_lt, Int.not_le] at hinside
  obtain ⟨front, left, hfront, hcount, -, -, htext⟩ := Document.exists_line hinside.1 hinside.2
  obtain ⟨hstart, hstop⟩ := Text.runes_around_ascii hwordne hwordascii before after
  refine ⟨front, before, word, after, left, {
    text_eq := by rw [htext, hline]
    endsLine := hfront
    count := hcount
    line_eq := hline
    word_eq := hword
    start_le := Int.ofNat_le.mp hle
    le_stop := Int.ofNat_le.mp hge
    start_line := rfl
    stop_line := rfl
    edit := ?_ }⟩
  obtain ⟨text⟩ := doc
  dsimp only at htext ⊢
  generalize hcontent : (Document.mk text).line place.line = line at htext hline
  subst htext
  rw [← hcount] at hcontent ⊢
  exact Document.applyChange_piece hfront hcontent hline hstart hstop new

end Completion

/-- **The edit of a suggestion replaces exactly the word at the cursor.** In an open template there are
suggestions at any place. A suggestion has an edit just in case it is a snippet and the cursor touches
an occurrence of its label on the line, with or without an `@`; and the edit replaces such a word by the
text of the snippet. The documents of the server are as a run leaves them. -/
theorem snippet_edits_replace_word (s : Server) (hagree : s.DocumentsAgree) {uri : Text}
    {doc : OpenDocument} (hdoc : s.template? uri = some doc) (place : Place) :
    ∃ items, s.completion? uri place = some items ∧ ∀ item ∈ items,
      (item.range.isSome = true ↔ item.kind = .snippet ∧
        ∃ o ∈ Text.occurrences (Text.atWord item.label) ((Document.mk doc.text).line place.line),
          o.touches (fromUTF16 ((Document.mk doc.text).line place.line) place.character) = true) ∧
      ∀ range, item.range = some range → ∃ front before word after left,
        Completion.Replaces ⟨doc.text⟩ place item.label item.insertText range
          front before word after left := by
  unfold Server.completion?
  rw [hdoc, ← (hagree.agrees_of_template? hdoc).lines_eq]
  refine ⟨_, rfl, fun item hitem => ?_⟩
  -- each item of the reply is one of `complete` with its range turned to UTF-16
  obtain ⟨item, hmem, rfl⟩ := List.mem_map.mp hitem
  unfold Server.byteplace at hmem
  rw [Completion.Context.ofPlace_fromUTF16Place] at hmem
  dsimp only
  -- a component has no edit; a snippet has one where its word is touched
  rcases Completion.mem_complete hmem with ⟨hkind, hnone⟩ | ⟨snippet, hsnippet, rfl⟩
  · rw [hnone]
    exact ⟨⟨nofun, fun h => absurd h.1 hkind⟩, nofun⟩
  · constructor
    · rw [Option.isSome_map, Completion.isSome_range_ofSnippet_iff]
      exact (and_iff_right rfl).symm
    · intro range hrange
      -- the range is that of an occurrence `o` of the word, and that one is replaced
      obtain ⟨bytes, hbytes, rfl⟩ := Option.map_eq_some_iff.mp hrange
      obtain ⟨o, ho, rfl⟩ := Option.map_eq_some_iff.mp hbytes
      obtain ⟨hne, hascii⟩ := Completion.ascii_of_mem_snippets snippet hsnippet
      exact Completion.exists_replaces hne hascii ho snippet.body

/-- A word behind a malformed byte and a character of two units, with the cursor beyond the carriage
return that ends the line. -/
theorem snippet_edits_replace_word_malformed :
    let text := [0xFF, 0xF0, 0x9F, 0x98, 0x80] ++ Text.ofString "@if\r\nx"
    let item : DocumentItem := ⟨Text.ofString "file:///p/a.view.php", [], 1, text⟩
    let doc := OpenDocument.ofItem (Text.ofString "/") item
    let s := (Server.start (FileTree.host {}) (Text.ofString "/") [] none).after (.didOpen item)
    s.DocumentsAgree ∧ s.template? doc.uri = some doc ∧
      ∃ items, s.completion? doc.uri ⟨0, 99⟩ = some items ∧ ∃ item ∈ items,
        item.range = some ⟨⟨0, 3⟩, ⟨0, 6⟩⟩ ∧
        (∃ front before word after left, Completion.Replaces ⟨text⟩ ⟨0, 99⟩ (Text.ofString "if")
          item.insertText ⟨⟨0, 3⟩, ⟨0, 6⟩⟩ front before word after left) ∧
        applyChanges text [⟨some ⟨⟨0, 3⟩, ⟨0, 6⟩⟩, item.insertText⟩] =
          [0xFF, 0xF0, 0x9F, 0x98, 0x80] ++ item.insertText ++ Text.ofString "\r\nx" := by
  intro text item doc s
  have hagree : s.DocumentsAgree :=
    Server.documentsAgree_after (Server.keysAgree_start _ _ _ none)
      (Server.documentsAgree_start _ _ _ none) _
  have hdoc : s.template? doc.uri = some doc := by decide +kernel
  obtain ⟨items, hitems, hall⟩ := snippet_edits_replace_word s hagree hdoc ⟨0, 99⟩
  let item : Completion.Item :=
    { label := Text.ofString "if"
      kind := .snippet
      detail := Text.ofString "ViewPHP @if ... @endif"
      insertText := Text.ofString "@if ($\x7b1:condition\x7d)\n\t$0\n@endif"
      isSnippet := true
      range := some ⟨⟨0, 3⟩, ⟨0, 6⟩⟩ }
  -- the first item offered is the `@if` snippet
  have hfirst : (s.completion? doc.uri ⟨0, 99⟩).bind List.head? = some item := by decide +kernel
  rw [hitems] at hfirst
  have hmem : item ∈ items := List.mem_of_head? hfirst
  have hreplaces := (hall item hmem).2 ⟨⟨0, 3⟩, ⟨0, 6⟩⟩ rfl
  exact ⟨hagree, hdoc, items, hitems, item, hmem, rfl, hreplaces, by decide +kernel⟩

end ViewLint
