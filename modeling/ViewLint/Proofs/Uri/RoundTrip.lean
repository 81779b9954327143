import Mathlib.Data.FinEnum
import Mathlib.Data.List.TakeWhile
import Mathlib.Data.UInt
import ViewLint.Uri
import ViewLint.Proofs.Path.Clean

/-!
# From a path to its URI and back

A path is written into a URI byte by byte, and every byte is found again when the URI is read
(`Uri.parse?_written`). But the path that was read goes through the escapes once more, so a name that
looks escaped itself (`Uri.LooksEscaped`) does not come back: `Uri.reread` is what does.

`Uri.file_uri_round_trip` says exactly which paths are restored, which files share a key, and for which
URIs normalizing is idempotent, all seen from the root. That a path which looks escaped never comes
back is a matter of length: every replaced escape is shorter, and cleaning adds nothing.
-/

namespace ViewLint.Uri

/-! ### Escapes -/

theorem escapesComplete_cons {b : UInt8} (h : b ≠ Text.byte '%') (rest : Text) :
    escapesComplete (b :: rest) = escapesComplete rest := by
  match rest with
  | [] => simpa [escapesComplete] using h
  | [c] => simpa [escapesComplete] using fun _ => h
  | _ :: _ :: _ => rw [escapesComplete, if_neg h]

theorem decodeEscapes_cons {b : UInt8} (h : b ≠ Text.byte '%') (rest : Text) :
    decodeEscapes (b :: rest) = b :: decodeEscapes rest := by
  match rest with
  | [] => rfl
  | [_] => rfl
  | _ :: _ :: _ => rw [decodeEscapes, if_neg fun hand => h hand.1]

theorem escapesComplete_escape {c d : UInt8} (hc : Text.isHexDigit c = true)
    (hd : Text.isHexDigit d = true) (rest : Text) :
    escapesComplete (Text.byte '%' :: c :: d :: rest) = escapesComplete rest := by
  rw [escapesComplete, if_pos rfl, hc, hd, Bool.true_and, Bool.true_and]

theorem decodeEscapes_escape {c d : UInt8} (hc : Text.isHexDigit c = true)
    (hd : Text.isHexDigit d = true) (rest : Text) :
    decodeEscapes (Text.byte '%' :: c :: d :: rest) =
      (Text.hexValue c * 16 + Text.hexValue d).toUInt8 :: decodeEscapes rest := by
  rw [decodeEscapes, if_pos ⟨rfl, hc, hd⟩]

theorem decodeEscapes_of_not_mem {text : Text} (h : Text.byte '%' ∉ text) :
    decodeEscapes text = text := by
  induction text with
  | nil => rfl
  | cons b rest ih =>
    rw [List.mem_cons, not_or] at h
    rw [decodeEscapes_cons (Ne.symm h.1), ih h.2]

/-- A text with complete escapes, read from the left. -/
inductive Complete : Text → Prop
  | nil : Complete []
  | plain {b : UInt8} {rest : Text} : b ≠ Text.byte '%' → Complete rest → Complete (b :: rest)
  | escape {c d : UInt8} {rest : Text} : Text.isHexDigit c = true → Text.isHexDigit d = true →
      Complete rest → Complete (Text.byte '%' :: c :: d :: rest)

theorem complete_of_escapesComplete {text : Text} (h : escapesComplete text = true) :
    Complete text := by
  fun_induction escapesComplete text with
  | case1 => exact .nil
  | case2 b => exact .plain (by simpa using h) .nil
  | case3 b c =>
    rw [Bool.and_eq_true, bne_iff_ne, bne_iff_ne] at h
    exact .plain h.1 (.plain h.2 .nil)
  | case4 c d rest ih =>
    rw [Bool.and_eq_true, Bool.and_eq_true] at h
    exact .escape h.1.1 h.1.2 (ih h.2)
  | case5 b c d rest hb ih => exact .plain hb (ih h)

theorem Complete.length_decodeEscapes_le {text : Text} (h : Complete text) :
    (decodeEscapes text).length ≤ text.length := by
  induction h with
  | nil => exact Nat.le_refl _
  | plain hb _ ih =>
    rw [decodeEscapes_cons hb, List.length_cons, List.length_cons]
    omega
  | escape hc hd _ ih =>
    rw [decodeEscapes_escape hc hd]
    simp only [List.length_cons]
    omega

/-- Replacing the escapes of a text that has some makes it shorter. -/
theorem Complete.length_decodeEscapes_lt {text : Text} (h : Complete text)
    (hmem : Text.byte '%' ∈ text) : (decodeEscapes text).length < text.length := by
  induction h with
  | nil => exact absurd hmem List.not_mem_nil
  | plain hb _ ih =>
    have hrest := ih ((List.mem_cons.mp hmem).resolve_left (Ne.symm hb))
    rw [decodeEscapes_cons hb, List.length_cons, List.length_cons]
    omega
  | escape hc hd hrest _ =>
    have hle := hrest.length_decodeEscapes_le
    rw [decodeEscapes_escape hc hd]
    simp only [List.length_cons]
    omega

/-! ### Written paths -/

theorem isPathByte_spec : ∀ b : UInt8, isPathByte b = true →
    isControl b = false ∧ b ≠ Text.byte '#' ∧ b ≠ Text.byte '?' ∧ b ≠ Text.byte '%' := by
  decide +kernel

theorem isPathByte_of_isHexDigit : ∀ b : UInt8, Text.isHexDigit b = true → isPathByte b = true := by
  decide +kernel

theorem hex_two_spec : ∀ b : UInt8, let digits := (Text.hex 2 b.toNat).map Text.upper
    digits = [digits.getD 0 0, digits.getD 1 0] ∧
      Text.isHexDigit (digits.getD 0 0) = true ∧ Text.isHexDigit (digits.getD 1 0) = true ∧
      (Text.hexValue (digits.getD 0 0) * 16 + Text.hexValue (digits.getD 1 0)).toUInt8 = b := by
  decide +kernel

theorem escapeByte_cases (b : UInt8) :
    (isPathByte b = true ∧ escapeByte b = [b]) ∨
      ∃ c d, escapeByte b = [Text.byte '%', c, d] ∧ Text.isHexDigit c = true ∧
        Text.isHexDigit d = true ∧ (Text.hexValue c * 16 + Text.hexValue d).toUInt8 = b := by
  by_cases hb : isPathByte b = true
  · exact Or.inl ⟨hb, if_pos hb⟩
  · obtain ⟨hdigits, hc, hd, hvalue⟩ := hex_two_spec b
    refine Or.inr ⟨_, _, ?_, hc, hd, hvalue⟩
    unfold escapeByte
    rw [if_neg hb, ← hdigits]

/-- **A written path is read back.** -/
theorem unescape?_escapePath (path : Text) : unescape? (escapePath path) = some path := by
  -- byte by byte: one that may stand in a path is left, any other becomes `%` and two digits
  have hboth : escapesComplete (escapePath path) = true ∧ decodeEscapes (escapePath path) = path := by
    induction path with
    | nil => exact ⟨rfl, rfl⟩
    | cons b rest ih =>
      change escapesComplete (escapeByte b ++ escapePath rest) = true ∧
        decodeEscapes (escapeByte b ++ escapePath rest) = b :: rest
      rcases escapeByte_cases b with ⟨hb, heq⟩ | ⟨c, d, heq, hc, hd, hvalue⟩
      · have hne := (isPathByte_spec b hb).2.2.2
        rw [heq, List.singleton_append, escapesComplete_cons hne, decodeEscapes_cons hne, ih.2]
        exact ⟨ih.1, rfl⟩
      · rw [heq]
        change escapesComplete (Text.byte '%' :: c :: d :: escapePath rest) = true ∧
          decodeEscapes (Text.byte '%' :: c :: d :: escapePath rest) = b :: rest
        rw [escapesComplete_escape hc hd, decodeEscapes_escape hc hd, hvalue, ih.2]
        exact ⟨ih.1, rfl⟩
  unfold unescape?
  rw [if_pos hboth.1, hboth.2]

theorem escapePath_spec {path : Text} {b : UInt8} (h : b ∈ escapePath path) :
    isControl b = false ∧ b ≠ Text.byte '#' ∧ b ≠ Text.byte '?' := by
  -- the escaped path has path bytes and `%` only
  have hclass : isPathByte b = true ∨ b = Text.byte '%' := by
    obtain ⟨a, -, hmem⟩ := List.mem_flatMap.mp h
    rcases escapeByte_cases a with ⟨ha, heq⟩ | ⟨c, d, heq, hc, hd, -⟩
    · rw [heq, List.mem_singleton] at hmem
      exact Or.inl (hmem ▸ ha)
    · rw [heq] at hmem
      simp only [List.mem_cons, List.not_mem_nil, or_false] at hmem
      rcases hmem with rfl | rfl | rfl
      · exact Or.inr rfl
      · exact Or.inl (isPathByte_of_isHexDigit _ hc)
      · exact Or.inl (isPathByte_of_isHexDigit _ hd)
  rcases hclass with hb | rfl
  · obtain ⟨hcontrol, hhash, hquery, -⟩ := isPathByte_spec b hb
    exact ⟨hcontrol, hhash, hquery⟩
  · decide

/-! ### Reading a written URI -/

theorem before_eq_self {b : UInt8} {text : Text} (h : b ∉ text) : before b text = text := by
  refine List.takeWhile_eq_self_iff.mpr fun a ha => bne_iff_ne.mpr ?_
  rintro rfl
  exact h ha

/-- Behind the scheme of files and two slashes, a rooted text in which no part ends is the path. -/
theorem parse?_file {tail : Text}
    (h : ∀ b ∈ Path.slash :: tail, isControl b = false ∧ b ≠ Text.byte '#' ∧ b ≠ Text.byte '?') :
    parse? (Text.ofString "file://" ++ Path.slash :: tail) =
      (unescape? (Path.slash :: tail)).map fun path => (fileScheme, path) := by
  have hhead : ∀ b ∈ Text.ofString "file://",
      isControl b = false ∧ b ≠ Text.byte '#' ∧ b ≠ Text.byte '?' := by
    decide +kernel
  have hall : ∀ b ∈ Text.ofString "file://" ++ Path.slash :: tail,
      isControl b = false ∧ b ≠ Text.byte '#' ∧ b ≠ Text.byte '?' := by
    intro b hb
    exact (List.mem_append.mp hb).elim (hhead b) (h b)
  have hmain : before (Text.byte '#') (Text.ofString "file://" ++ Path.slash :: tail) =
      Text.ofString "file://" ++ Path.slash :: tail :=
    before_eq_self fun hmem => (hall _ hmem).2.1 rfl
  have hcontrol : (Text.ofString "file://" ++ Path.slash :: tail).any isControl = false :=
    List.any_eq_false.mpr fun b hb => Bool.not_eq_true _ ▸ (hall b hb).1
  have hstar : Text.ofString "file://" ++ Path.slash :: tail ≠ Text.ofString "*" := fun heq =>
    absurd (List.head_eq_of_cons_eq heq) (by decide)
  have hscheme : scheme? (Text.ofString "file://" ++ Path.slash :: tail) =
      some (fileScheme, Text.ofString "//" ++ Path.slash :: tail) := rfl
  have hquery : before (Text.byte '?') (Text.ofString "//" ++ Path.slash :: tail) =
      Text.ofString "//" ++ Path.slash :: tail := by
    refine before_eq_self fun hmem => ?_
    rcases List.mem_append.mp hmem with hmem | hmem
    · exact absurd hmem (by decide)
    · exact (h _ hmem).2.2 rfl
  unfold parse?
  rw [hmain]
  simp only [hcontrol]
  rw [List.drop_eq_nil_of_le (Nat.le_succ _), if_neg (by decide), if_neg hstar, hscheme]
  simp only [Option.bind_eq_bind, Option.bind_some, hquery]
  -- what is left to decide stands in the first three bytes
  rfl

theorem escapePath_slash (rest : Text) :
    escapePath (Path.slash :: rest) = Path.slash :: escapePath rest := rfl

/-- **The URI of a rooted path is read back as the path.** -/
theorem parse?_written {path : Text} (h : Path.isAbsolute path = true) :
    parse? (Text.ofString "file://" ++ escapePath path) = some (fileScheme, path) := by
  obtain ⟨rest, rfl⟩ := Path.exists_cons_of_isAbsolute h
  have hbytes := fun b (hb : b ∈ escapePath (Path.slash :: rest)) => escapePath_spec hb
  rw [escapePath_slash] at hbytes ⊢
  rw [parse?_file hbytes, ← escapePath_slash, unescape?_escapePath]
  rfl

/-! ### From the root -/

/-- The directory at the top. -/
def root : Text := [Path.slash]

/-- The path has an escape, and all its escapes are complete. -/
def LooksEscaped (path : Text) : Prop := Text.byte '%' ∈ path ∧ escapesComplete path = true

instance (path : Text) : Decidable (LooksEscaped path) := inferInstanceAs (Decidable (_ ∧ _))

/-- The path that comes back for a path: if it looks escaped, its escapes are replaced. -/
def reread (path : Text) : Text :=
  if LooksEscaped path then Path.clean (decodeEscapes path) else path

theorem unescape?_getD (path : Text) :
    (unescape? path).getD path = if LooksEscaped path then decodeEscapes path else path := by
  unfold unescape?
  by_cases hcomplete : escapesComplete path = true
  · rw [if_pos hcomplete, Option.getD_some]
    by_cases hmem : Text.byte '%' ∈ path
    · rw [if_pos ⟨hmem, hcomplete⟩]
    · rw [if_neg fun hlooks => hmem hlooks.1, decodeEscapes_of_not_mem hmem]
  · rw [if_neg hcomplete, if_neg fun hlooks => hcomplete hlooks.2]
    rfl

theorem isAbsolute_decodeEscapes {path : Text} (h : Path.isAbsolute path = true) :
    Path.isAbsolute (decodeEscapes path) = true := by
  obtain ⟨rest, rfl⟩ := Path.exists_cons_of_isAbsolute h
  rw [decodeEscapes_cons (by decide)]
  exact Path.isAbsolute_cons _

theorem isRooted_reread {path : Text} (h : Path.IsRooted path) : Path.IsRooted (reread path) := by
  unfold reread
  split
  · exact Path.isRooted_clean (isAbsolute_decodeEscapes h.isAbsolute)
  · exact h

/-- **A path comes back unless it looks escaped.** -/
theorem reread_eq_self_iff {path : Text} (h : Path.IsRooted path) :
    reread path = path ↔ ¬LooksEscaped path := by
  unfold reread
  constructor
  · -- what is decoded is shorter, and cleaning does not make it longer again
    intro heq hlooks
    rw [if_pos hlooks] at heq
    have hshorter := (complete_of_escapesComplete hlooks.2).length_decodeEscapes_lt hlooks.1
    have hclean := Path.length_clean_le (isAbsolute_decodeEscapes h.isAbsolute)
    rw [heq] at hclean
    omega
  · intro hlooks
    rw [if_neg hlooks]

/-- At the top a dropped slash comes back, so that drive letters do not matter. -/
theorem absolute_dropDriveSlash {path : Text} (h : Path.isAbsolute path = true) :
    Path.absolute root (dropDriveSlash path) = Path.clean path := by
  obtain ⟨rest, rfl⟩ := Path.exists_cons_of_isAbsolute h
  unfold dropDriveSlash
  split
  · -- a drive: the slash before it is dropped, and being at the top `absolute` puts it back
    next hdrive =>
    rw [List.drop_one, List.tail_cons]
    unfold Path.absolute
    split
    · next hrest =>
      obtain ⟨below, rfl⟩ := Path.exists_cons_of_isAbsolute hrest
      rw [Path.clean_slash_slash]
    · cases rest with
      | nil => exact absurd hdrive.2 (by decide)
      | cons b rest => exact Path.clean_slash_slash (b :: rest)
  · -- no drive: the path is left as it is
    unfold Path.absolute
    rw [if_pos h]

theorem absolute_of_isRooted {path : Text} (h : Path.IsRooted path) :
    Path.absolute root path = path := by
  unfold Path.absolute
  rw [if_pos h.isAbsolute, h.clean_eq]

theorem ofPath_of_isRooted {path : Text} (h : Path.IsRooted path) :
    ofPath root path = Text.ofString "file://" ++ escapePath path := by
  obtain ⟨rest, hrest⟩ := Path.exists_cons_of_isAbsolute h.isAbsolute
  unfold ofPath
  rw [absolute_of_isRooted h, if_neg (by rw [hrest]; exact Bool.false_ne_true)]

theorem ofPath_inj {p q : Text} (hp : Path.IsRooted p) (hq : Path.IsRooted q) :
    ofPath root p = ofPath root q ↔ p = q := by
  constructor
  · -- reading both URIs gives both paths
    intro heq
    have hread := congrArg parse? heq
    rw [ofPath_of_isRooted hp, ofPath_of_isRooted hq, parse?_written hp.isAbsolute,
      parse?_written hq.isAbsolute] at hread
    exact congrArg Prod.snd (Option.some.inj hread)
  · rintro rfl
    rfl

theorem toPath?_ofPath {path : Text} (h : Path.IsRooted path) :
    toPath? root (ofPath root path) = some (reread path) := by
  rw [ofPath_of_isRooted h]
  unfold toPath?
  rw [if_neg (by exact Bool.false_ne_true), parse?_written h.isAbsolute]
  change some (Path.absolute root (dropDriveSlash ((unescape? path).getD path))) = _
  rw [unescape?_getD]
  unfold reread
  split
  · rw [absolute_dropDriveSlash (isAbsolute_decodeEscapes h.isAbsolute)]
  · rw [absolute_dropDriveSlash h.isAbsolute, h.clean_eq]

theorem isRooted_of_toPath? {uri path : Text} (h : toPath? root uri = some path) :
    Path.IsRooted path := by
  unfold toPath? at h
  split at h
  · exact absurd h (by simp)
  split at h
  · exact absurd h (by simp)
  split at h
  · exact absurd h (by simp)
  · rw [← Option.some.inj h]
    exact Path.isRooted_absolute (Path.isAbsolute_cons _) _

theorem normalize_of_toPath? {uri path : Text} (h : toPath? root uri = some path) :
    normalize root uri = ofPath root path := by
  unfold normalize
  rw [h]

theorem normalize_ofPath {path : Text} (h : Path.IsRooted path) :
    normalize root (ofPath root path) = ofPath root (reread path) :=
  normalize_of_toPath? (toPath?_ofPath h)

/-- **Normalizing is idempotent exactly where the path that is named does not look escaped.** -/
theorem normalize_normalize_iff (uri : Text) :
    normalize root (normalize root uri) = normalize root uri ↔
      ∀ path, toPath? root uri = some path → ¬LooksEscaped path := by
  -- no file URI: it is left as it is, and there is no path to look escaped
  cases hpath : toPath? root uri with
  | none =>
    have hself : normalize root uri = uri := by
      unfold normalize
      rw [hpath]
    rw [hself]
    exact ⟨fun _ _ h => absurd h (by simp), fun _ => hself⟩
  -- a file URI: twice normalized is the path reread twice
  | some path =>
    have hrooted := isRooted_of_toPath? hpath
    rw [normalize_of_toPath? hpath, normalize_ofPath hrooted,
      ofPath_inj (isRooted_reread hrooted) hrooted, reread_eq_self_iff hrooted]
    constructor
    · intro hlooks other heq
      rwa [← Option.some.inj heq]
    · intro h
      exact h path rfl

/-- **From a path to its URI and back, seen from the root.**

1. A rooted clean path comes back as `reread` says, and it is restored if and only if it does not look
   escaped.
2. Two files share a key if and only if their paths come back as the same path; if neither looks
   escaped, they are the same file.
3. Normalizing a URI twice is normalizing it once if and only if the path that it names does not look
   escaped. -/
theorem file_uri_round_trip (p q uri : Text) :
    (Path.IsRooted p → toPath? root (ofPath root p) = some (reread p) ∧
      (toPath? root (ofPath root p) = some p ↔ ¬LooksEscaped p)) ∧
    (Path.IsRooted p → Path.IsRooted q →
      (normalize root (ofPath root p) = normalize root (ofPath root q) ↔ reread p = reread q) ∧
        (¬LooksEscaped p → ¬LooksEscaped q →
          normalize root (ofPath root p) = normalize root (ofPath root q) → p = q)) ∧
    (normalize root (normalize root uri) = normalize root uri ↔
      ∀ path, toPath? root uri = some path → ¬LooksEscaped path) := by
  refine ⟨fun hp => ?_, fun hp hq => ?_, normalize_normalize_iff uri⟩
  · refine ⟨toPath?_ofPath hp, ?_⟩
    rw [toPath?_ofPath hp, Option.some_inj]
    exact reread_eq_self_iff hp
  · rw [normalize_ofPath hp, normalize_ofPath hq, ofPath_inj (isRooted_reread hp) (isRooted_reread hq)]
    refine ⟨Iff.rfl, fun hp' hq' heq => ?_⟩
    rwa [(reread_eq_self_iff hp).mpr hp', (reread_eq_self_iff hq).mpr hq'] at heq

/-- A percent sign that starts no escape comes back, and so does a blank. -/
theorem file_uri_round_trip_incomplete :
    Path.IsRooted (Text.ofString "/a b/100%") ∧
      toPath? root (ofPath root (Text.ofString "/a b/100%")) = some (Text.ofString "/a b/100%") := by
  have hrooted : Path.IsRooted (Text.ofString "/a b/100%") := ⟨by decide, by decide +kernel⟩
  obtain ⟨hpath, -, -⟩ := file_uri_round_trip (Text.ofString "/a b/100%") [] []
  exact ⟨hrooted, (hpath hrooted).2.mpr (by decide +kernel)⟩

/-- The file `a%41` at the top is not found again: its URI leads to the file `aA`, with which it shares
its key. A URI that names it has a normal form that is not normal. -/
theorem percent_path_not_restored :
    Path.IsRooted (Text.ofString "/a%41") ∧ Path.IsRooted (Text.ofString "/aA") ∧
      toPath? root (ofPath root (Text.ofString "/a%41")) = some (Text.ofString "/aA") ∧
      normalize root (ofPath root (Text.ofString "/a%41")) =
        normalize root (ofPath root (Text.ofString "/aA")) ∧
      toPath? root (Text.ofString "file:///a%252541") = some (Text.ofString "/a%41") ∧
      normalize root (normalize root (Text.ofString "file:///a%252541")) ≠
        normalize root (Text.ofString "file:///a%252541") := by
  refine ⟨⟨by decide, by decide +kernel⟩, ⟨by decide, by decide +kernel⟩, ?_⟩
  decide +kernel

end ViewLint.Uri
