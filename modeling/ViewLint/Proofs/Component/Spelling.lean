import ViewLint.Proofs.Component.Contained
import ViewLint.Proofs.Text.Places

/-!
# The spellings of a tag

Words with a dot or a hyphen between neighbours make a component name, and which of the two separators
stands where makes no difference to the file. `file_known_by_words` says that the file of such a tag has
a tag, that this is the spelling with dots only, that it leads to the same file, and that two spellings
lead to the same file if and only if they have the same words.

The words are the way to the file, with the suffix behind the last one (`Resolver.pathFor_tag`). So what
stands between the slashes of this way can be read back (`Resolver.tagFor_pathFor_tag`), and it tells the
words.
-/

namespace ViewLint

open Text (byte)

namespace Text

theorem join_cons (sep piece : Text) (pieces : List Text) :
    join sep (piece :: pieces) = piece ++ pieces.flatMap (sep ++ ·) := by
  induction pieces generalizing piece with
  | nil => exact (List.append_nil piece).symm
  | cons next pieces ih =>
    change piece ++ sep ++ join sep (next :: pieces) = _
    rw [ih, List.flatMap_cons, List.append_assoc, List.append_assoc]

/-- What is added to the last piece is added to the whole. -/
theorem join_append_last (sep : Text) (front : List Text) (last tail : Text) :
    join sep (front ++ [last ++ tail]) = join sep (front ++ [last]) ++ tail := by
  cases front with
  | nil => rfl
  | cons piece front =>
    rw [List.cons_append, List.cons_append, join_cons, join_cons, List.flatMap_append,
      List.flatMap_append, List.flatMap_singleton, List.flatMap_singleton]
    simp only [List.append_assoc]

/-- Another separator can be put between pieces that do not have it. -/
theorem replaceByte_join {old : UInt8} (new : Text) {pieces : List Text}
    (h : ∀ piece ∈ pieces, old ∉ piece) :
    replaceByte old new (join [old] pieces) = join new pieces := by
  -- a piece without `old` is left as it is
  have hkept : ∀ {piece : Text}, old ∉ piece → replaceByte old new piece = piece := by
    intro piece hpiece
    calc replaceByte old new piece
        = piece.flatMap fun b => [b] := by
          refine List.flatMap_congr fun b hb => if_neg ?_
          rintro rfl
          exact hpiece hb
      _ = piece := List.flatMap_singleton' piece
  cases pieces with
  | nil => rfl
  | cons piece pieces =>
    obtain ⟨hpiece, hpieces⟩ := List.forall_mem_cons.mp h
    -- the pieces after the first, each with its separator replaced
    have hall : replaceByte old new (pieces.flatMap ([old] ++ ·)) = pieces.flatMap (new ++ ·) := by
      unfold replaceByte
      rw [List.flatMap_assoc]
      refine List.flatMap_congr fun next hnext => ?_
      rw [List.singleton_append, List.flatMap_cons, if_pos rfl]
      exact congrArg (new ++ ·) (hkept (hpieces next hnext))
    rw [join_cons, join_cons, ← hall, replaceByte, List.flatMap_append]
    exact congrArg (· ++ _) (hkept hpiece)

end Text

/-! ### Spellings -/

/-- **A well-formed component name**: words, with a dot or a hyphen between neighbours. -/
structure Spelling where
  first : Text
  /-- The other words, each with the separator before it. -/
  rest : List (UInt8 × Text)
  words_spec : ∀ word ∈ first :: rest.map Prod.snd, word ≠ [] ∧ ∀ b ∈ word, Text.isWordByte b = true
  separators_spec : ∀ p ∈ rest, p.1 = byte '.' ∨ p.1 = byte '-'

namespace Spelling

/-- The words of a name. -/
def words (name : Spelling) : List Text := name.first :: name.rest.map Prod.snd

/-- The name as it is written. -/
def text (name : Spelling) : Text := name.first ++ name.rest.flatMap fun p => p.1 :: p.2

/-- The tag of a name. -/
def tag (name : Spelling) : Text := Resolver.tagHead ++ name.text

/-- The same words with dots between them. -/
def dotted (name : Spelling) : Spelling where
  first := name.first
  rest := name.rest.map fun p => (byte '.', p.2)
  words_spec := by
    rw [List.map_map]
    exact name.words_spec
  separators_spec := by
    intro p hp
    obtain ⟨q, -, rfl⟩ := List.mem_map.mp hp
    exact Or.inl rfl

theorem words_dotted (name : Spelling) : name.dotted.words = name.words := by
  unfold words dotted
  rw [List.map_map]
  rfl

theorem tag_dotted (name : Spelling) :
    name.dotted.tag = Resolver.tagHead ++ Text.join (Text.ofString ".") name.words := by
  unfold tag text words dotted
  rw [Text.join_cons, List.flatMap_map, List.flatMap_map]
  rfl

theorem words_ne_nil (name : Spelling) : name.words ≠ [] := List.cons_ne_nil _ _

theorem ne_nil_of_mem_words {name : Spelling} {word : Text} (h : word ∈ name.words) : word ≠ [] :=
  (name.words_spec word h).1

/-- A word has no byte that separates words, in a name or on a way. -/
theorem not_mem_word {name : Spelling} {word : Text} (h : word ∈ name.words) {b : UInt8}
    (hb : Text.isWordByte b = false) : b ∉ word := by
  intro hmem
  rw [(name.words_spec word h).2 b hmem] at hb
  cases hb

/-- **On the way to the file there are slashes between the words.** -/
theorem nameToPath_text (name : Spelling) :
    Resolver.nameToPath name.text = Text.join [Path.slash] name.words := by
  have hword : ∀ word ∈ name.words, Resolver.nameToPath word = word := fun word h =>
    (Resolver.nameToPath_eq_self_iff word).mpr
      ⟨not_mem_word h (by decide), not_mem_word h (by decide)⟩
  obtain ⟨hfirst, hrest⟩ := List.forall_mem_cons.mp hword
  unfold words
  rw [Text.join_cons, List.flatMap_map, text, Resolver.nameToPath, List.map_append, List.map_flatMap]
  refine congrArg₂ (· ++ ·) hfirst (List.flatMap_congr fun p hp => ?_)
  rw [List.map_cons, if_pos (name.separators_spec p hp)]
  exact congrArg (Path.slash :: ·) (hrest p.2 (List.mem_map_of_mem hp))

theorem split_nameToPath (name : Spelling) :
    Text.split Path.slash (Resolver.nameToPath name.text) = name.words := by
  rw [nameToPath_text]
  exact Text.split_join name.words_ne_nil fun _ h => not_mem_word h (by decide)

end Spelling

namespace Resolver

open scoped Text.Bytewise

variable {r : Resolver}

section

variable (hroot : Path.isAbsolute r.root = true) (hdot : r.suffix.head? = some (byte '.'))
  (hslash : Path.slash ∉ r.suffix)

include hroot hdot hslash

/-- **The words of a name are the way to its file**, and the suffix belongs to the last one. -/
theorem pathFor_tag (name : Spelling) :
    ∃ front last, name.words = front ++ [last] ∧
      (∀ s ∈ front ++ [last ++ r.suffix], Path.IsProper s) ∧
      r.pathFor name.tag = Path.below r.dir (front ++ [last ++ r.suffix]) := by
  obtain ⟨front, last, hsplit, hnames⟩ := exists_names hdot hslash hroot name.tag
  rw [Spelling.tag, Text.dropHead_append, name.split_nameToPath] at hsplit
  have hne : ∀ s ∈ front ++ [last], s ≠ [] := fun s hs =>
    Spelling.ne_nil_of_mem_words (hsplit ▸ hs)
  -- no word is empty, so that none is skipped and the suffix does not stand alone
  have hkept : front.filter (!·.isEmpty) = front := by
    rw [List.filter_eq_self]
    intro s hs
    simpa using hne s (List.mem_append_left _ hs)
  have hlast : last ≠ [] := hne last (List.mem_append_right _ List.mem_cons_self)
  obtain ⟨hproper, hpath⟩ := hnames fun hnil => absurd hnil hlast
  rw [hkept] at hproper hpath
  exact ⟨front, last, hsplit, hproper, hpath⟩

/-- Names with the same words lead to the same file. -/
theorem pathFor_tag_congr {name other : Spelling} (h : name.words = other.words) :
    r.pathFor name.tag = r.pathFor other.tag := by
  obtain ⟨front, last, hwords, -, hpath⟩ := pathFor_tag hroot hdot hslash name
  obtain ⟨front', last', hwords', -, hpath'⟩ := pathFor_tag hroot hdot hslash other
  rw [hwords, hwords'] at h
  obtain ⟨rfl, hlast⟩ := List.append_inj' h rfl
  obtain rfl := List.head_eq_of_cons_eq hlast
  rw [hpath, hpath']

/-- The way to the file of a name, seen from the components directory. -/
theorem relative_pathFor_tag (name : Spelling) :
    Path.relative r.dir (r.pathFor name.tag) =
      some (Text.join [Path.slash] name.words ++ r.suffix) := by
  obtain ⟨front, last, hwords, hproper, hpath⟩ := pathFor_tag hroot hdot hslash name
  have hne := List.append_ne_nil_of_right_ne_nil front (List.cons_ne_nil (last ++ r.suffix) [])
  rw [hpath, Path.relative_below (isRooted_dir hroot) hproper hne, Text.join_append_last, hwords]

/-- **The tag of the file of a name is the name with dots.** -/
theorem tagFor_pathFor_tag (name : Spelling) :
    r.tagFor (r.pathFor name.tag) =
      some (tagHead ++ Text.join (Text.ofString ".") name.words) := by
  have hway := relative_pathFor_tag hroot hdot hslash name
  -- the way starts with a word, so it does not lead out of the directory
  have hinside : Path.up.isPrefixOf (Text.join [Path.slash] name.words ++ r.suffix) = false := by
    have hmem : name.first ∈ name.words := List.mem_cons_self
    obtain ⟨b, word, hfirst⟩ := List.exists_cons_of_ne_nil (Spelling.ne_nil_of_mem_words hmem)
    have hb : byte '.' ≠ b := by
      rintro rfl
      exact Spelling.not_mem_word hmem (by decide) (hfirst ▸ List.mem_cons_self)
    rw [Spelling.words, Text.join_cons, hfirst]
    exact Bool.and_eq_false_imp.mpr fun h => absurd (beq_iff_eq.mp h) hb
  have hsuffix : r.suffix.isSuffixOf (Text.join [Path.slash] name.words ++ r.suffix) = true :=
    List.isSuffixOf_iff_suffix.mpr (List.suffix_append _ _)
  have hstem : Text.dropTail r.suffix (Text.join [Path.slash] name.words ++ r.suffix) =
      Text.join [Path.slash] name.words :=
    List.append_cancel_right (Text.dropTail_append_of_isSuffixOf hsuffix)
  unfold tagFor
  rw [hway]
  dsimp only
  rw [hinside, hsuffix, if_neg (by decide), hstem, Text.replaceByte_join]
  exact fun word h => Spelling.not_mem_word h (by decide)

end

/-- **The file of a well-formed tag is known by its words.** Let the root be absolute, and let the suffix
start with a dot and hold no slash. The file of a tag made of words with dots and hyphens between them
has a tag, which is the words with dots between them and leads to the same file. Two such tags have the
same file if and only if they have the same words. -/
theorem file_known_by_words (r : Resolver) (hroot : Path.isAbsolute r.root = true)
    (hdot : r.suffix.head? = some (byte '.')) (hslash : Path.slash ∉ r.suffix) (name : Spelling) :
    r.tagFor (r.pathFor name.tag) =
      some (tagHead ++ Text.join (Text.ofString ".") name.words) ∧
    r.pathFor (tagHead ++ Text.join (Text.ofString ".") name.words) = r.pathFor name.tag ∧
    ∀ other : Spelling, r.pathFor name.tag = r.pathFor other.tag ↔ name.words = other.words := by
  refine ⟨tagFor_pathFor_tag hroot hdot hslash name, ?_, fun other => ⟨fun hpath => ?_, fun hwords => ?_⟩⟩
  · rw [← name.tag_dotted]
    exact pathFor_tag_congr hroot hdot hslash name.words_dotted
  · -- the way to the common file spells both
    have hway := relative_pathFor_tag hroot hdot hslash name
    rw [hpath, relative_pathFor_tag hroot hdot hslash other, Option.some_inj,
      List.append_cancel_right_eq] at hway
    have hsplit := congrArg (Text.split Path.slash) hway
    rw [Text.split_join other.words_ne_nil fun _ h => Spelling.not_mem_word h (by decide),
      Text.split_join name.words_ne_nil fun _ h => Spelling.not_mem_word h (by decide)] at hsplit
    exact hsplit.symm
  · exact pathFor_tag_congr hroot hdot hslash hwords

/-- Two spellings of three words, where the components directory is outside the project and the suffix
is a single dot. -/
theorem file_known_by_words_hyphens :
    let r : Resolver :=
      ⟨FileTree.host {}, Text.ofString "/srv/app", Text.ofString "..//x/../views", Text.ofString "."⟩
    let name : Spelling :=
      ⟨Text.ofString "nav", [(byte '-', Text.ofString "Bar_2"), (byte '.', Text.ofString "x")],
        by decide, by decide⟩
    let other : Spelling :=
      ⟨Text.ofString "nav", [(byte '.', Text.ofString "Bar_2"), (byte '-', Text.ofString "x")],
        by decide, by decide⟩
    name.tag = Text.ofString "c-nav-Bar_2.x" ∧
      r.pathFor name.tag = Text.ofString "/srv/views/nav/Bar_2/x." ∧
      r.tagFor (Text.ofString "/srv/views/nav/Bar_2/x.") = some (Text.ofString "c-nav.Bar_2.x") ∧
      r.pathFor name.tag = r.pathFor other.tag := by
  intro r name other
  obtain ⟨htag, -, hother⟩ :=
    file_known_by_words r (by decide) (by decide) (by decide) name
  have hpath : r.pathFor name.tag = Text.ofString "/srv/views/nav/Bar_2/x." := by decide +kernel
  rw [hpath] at htag
  exact ⟨by decide, hpath, htag, (hother other).mpr (by decide)⟩

end Resolver

end ViewLint
