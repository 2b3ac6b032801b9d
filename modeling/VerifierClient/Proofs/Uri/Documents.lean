import VerifierClient.Proofs.Line.Reader
import VerifierClient.Proofs.Text.Replacement
import VerifierClient.Uri

/-!
# The URI of a document and its path

Sessions and results are kept under the URI of a document, so two files must not share a URI and one
file must not have two. Both follow from the way back: what a URI stands for, read as a path, has
the components that the URI was made of.

* `Uri.percentDecode_percentEncode` — whatever is encoded beside the percent sign, bytes come back;
* `Uri.toPath_ofNames` — the path of a URI lists its names, perhaps with a slash at the end;
* `Path.components_of_isAbsolute` — what is between the slashes of an absolute path, without
  empty and `.` pieces;
* `document_uris_faithful` — the URIs of two paths are the same exactly if their components are.
-/

namespace VerifierClient

-- ---------------------------------------------------------------------------
-- Bytes
-- ---------------------------------------------------------------------------

namespace Text

theorem toList_loop (bytes : ByteArray) (i : Nat) (done : List UInt8) :
    ByteArray.toList.loop bytes i done = done.reverse ++ bytes.data.toList.drop i := by
  fun_induction ByteArray.toList.loop bytes i done with
  | case1 i done hi ih =>
    have hlength : i < bytes.data.toList.length := by simpa using hi
    have hget : bytes.get! i = bytes.data.toList[i] := by
      simp [ByteArray.get!, getElem!_pos bytes.data i hi]
    rw [ih, List.drop_eq_getElem_cons hlength, hget, List.reverse_cons, List.append_assoc,
      List.singleton_append]
  | case2 i done hi =>
    have hlength : bytes.data.toList.length ≤ i := by simpa using hi
    rw [List.drop_eq_nil_of_le hlength, List.append_nil]

theorem toUTF8_toList (text : String) :
    text.toUTF8.toList = text.toList.flatMap String.utf8EncodeChar := by
  rw [ByteArray.toList, toList_loop, List.drop_zero, utf8_toList]
  rfl

/-- Characters are read back from their bytes. -/
theorem decodeLossy_encoded (chars : List Char) :
    decodeLossy ⟨(chars.flatMap String.utf8EncodeChar).toArray⟩ = String.ofList chars := by
  have hbytes : (⟨(chars.flatMap String.utf8EncodeChar).toArray⟩ : ByteArray) =
      (String.ofList chars).toUTF8 := by
    ext1
    rw [← Array.toList_inj, utf8_toList, String.toList_ofList]
  rw [hbytes, decodeLossy_toUTF8]

end Text

-- ---------------------------------------------------------------------------
-- Percent-encoding
-- ---------------------------------------------------------------------------

namespace Uri

theorem hexValue?_hexDigit : ∀ n < 16, hexValue? (hexDigit n) = some n := by decide

theorem percentDecode_percentEncodeByte (b : UInt8) (rest : List Char) :
    percentDecode (percentEncodeByte b ++ rest) = b :: percentDecode rest := by
  have hb : b.toNat < 256 := b.toNat_lt
  have hvalue : UInt8.ofNat (b.toNat / 16 * 16 + b.toNat % 16) = b := by
    rw [Nat.div_add_mod', UInt8.ofNat_toNat]
  rw [percentEncodeByte, List.cons_append, List.cons_append, List.cons_append, List.nil_append,
    percentDecode, hexValue?_hexDigit _ (by omega), hexValue?_hexDigit _ (by omega)]
  exact congrArg (· :: percentDecode rest) hvalue

theorem percentDecode_cons {c : Char} (hc : c ≠ '%') (rest : List Char) :
    percentDecode (c :: rest) = String.utf8EncodeChar c ++ percentDecode rest := by
  have hbytes : (String.singleton c).toUTF8.toList = String.utf8EncodeChar c := by
    rw [Text.toUTF8_toList]
    simp
  rw [percentDecode, hbytes]
  intro a b more hpercent _
  exact hc hpercent

theorem percentDecode_percentEncode {reserved : Char → Bool} (hpercent : reserved '%' = true)
    (text : String) (rest : List Char) :
    percentDecode (percentEncode reserved text ++ rest) =
      text.toList.flatMap String.utf8EncodeChar ++ percentDecode rest := by
  rw [percentEncode, ← Text.toUTF8_toList]
  induction text.toUTF8.toList with
  | nil => rfl
  | cons b bytes ih =>
    rw [List.flatMap_cons, List.append_assoc]
    split
    next hplain =>
      simp only [Bool.and_eq_true, decide_eq_true_eq, Bool.not_eq_true'] at hplain
      have hc : Char.ofNat b.toNat ≠ '%' := by
        intro hc
        rw [hc, hpercent] at hplain
        cases hplain.2
      have hascii : b.toNat < 0x80 := Nat.lt_trans (UInt8.lt_iff_toNat_lt.1 hplain.1.2) (by decide)
      rw [List.singleton_append, percentDecode_cons hc, Text.encode_one hascii, ih]
      rfl
    next => rw [percentDecode_percentEncodeByte, ih, List.cons_append]

-- ---------------------------------------------------------------------------
-- The path of a URI
-- ---------------------------------------------------------------------------

/-- Names, each after a slash. -/
def spelled (names : List String) : List Char := names.flatMap fun name => '/' :: name.toList

theorem percentDecode_names (names : List String) :
    percentDecode (names.flatMap fun name => '/' :: percentEncode isReservedInName name) =
      (spelled names).flatMap String.utf8EncodeChar := by
  induction names with
  | nil => rfl
  | cons name names ih =>
    rw [List.flatMap_cons, List.cons_append, percentDecode_cons (by decide),
      percentDecode_percentEncode rfl, ih]
    simp only [spelled, List.flatMap_cons, List.flatMap_append, List.cons_append]

/-- The path with the given names. -/
def rooted (names : List String) : List Char := if names.isEmpty then ['/'] else spelled names

theorem drop_fileScheme (chars : List Char) :
    (fileScheme ++ String.ofList chars).toList.drop fileScheme.length = chars := by
  rw [String.toList_append, String.toList_ofList, ← String.length_toList, List.drop_left]

theorem percentDecode_ofNames (names : List String) :
    percentDecode ((ofNames names).text.toList.drop fileScheme.length) =
      (rooted names).flatMap String.utf8EncodeChar := by
  cases names with
  | nil =>
    have hroot : (ofNames []).text = fileScheme ++ String.ofList ['/'] := rfl
    rw [hroot, drop_fileScheme, percentDecode_cons (by decide)]
    rfl
  | cons name names =>
    have htext : (ofNames (name :: names)).text = fileScheme ++ String.ofList
        ((name :: names).flatMap fun name => '/' :: percentEncode isReservedInName name) := rfl
    rw [htext, drop_fileScheme, percentDecode_names]
    rfl

/-- The path of a URI is the one whose names it was made of. After the letter of a drive it has a
slash at the end. -/
theorem toPath_ofNames (names : List String) :
    (ofNames names).toPath = String.ofList (rooted names) ∨
      (ofNames names).toPath = String.ofList (rooted names ++ ['/']) := by
  have hslash : (rooted names).flatMap String.utf8EncodeChar ++ [47] =
      (rooted names ++ ['/']).flatMap String.utf8EncodeChar := by
    rw [List.flatMap_append]
    rfl
  rw [toPath, percentDecode_ofNames]
  split
  · rw [hslash, Text.decodeLossy_encoded]
    exact .inr rfl
  · rw [Text.decodeLossy_encoded]
    exact .inl rfl

end Uri

-- ---------------------------------------------------------------------------
-- The components of a path
-- ---------------------------------------------------------------------------

namespace Path

theorem pieces_eq_splitOn (chars : List Char) : pieces chars = chars.splitOn '/' := by
  induction chars with
  | nil => rfl
  | cons c rest ih =>
    rw [pieces, List.splitOn_cons_eq_if_modifyHead, ih]
    by_cases hc : c = '/'
    · simp [hc]
    · obtain ⟨piece, more, hpieces⟩ := List.exists_cons_of_ne_nil (List.splitOn_ne_nil '/' rest)
      simp [hc, hpieces]

theorem isAbsolute_iff {path : String} :
    isAbsolute path = true ↔ ∃ rest, path.toList = '/' :: rest := by
  unfold isAbsolute
  cases path.toList with
  | nil => simp
  | cons c rest => simp

/-- The components of an absolute path are what stands between its slashes, without empty and
`.` pieces. -/
theorem components_of_isAbsolute {path : String} (h : isAbsolute path = true) :
    components path = ⟨true, steps (path.toList.splitOn '/')⟩ := by
  obtain ⟨rest, hpath⟩ := isAbsolute_iff.1 h
  have hpieces : pieces path.toList = [] :: pieces rest := by
    rw [hpath, pieces, if_pos rfl]
  rw [components, ← pieces_eq_splitOn, hpieces, h]

/-- A name that can stand between slashes. -/
structure IsName (name : String) : Prop where
  nonempty : name ≠ ""
  ne_dot : name ≠ "."
  slash : '/' ∉ name.toList

theorem slash_not_mem_of_mem_splitOn {chars piece : List Char} (h : piece ∈ chars.splitOn '/') :
    '/' ∉ piece := by
  induction chars generalizing piece with
  | nil =>
    rw [List.splitOn_nil, List.mem_singleton] at h
    simp [h]
  | cons c rest ih =>
    obtain ⟨first, more, hrest⟩ := List.exists_cons_of_ne_nil (List.splitOn_ne_nil '/' rest)
    rw [List.splitOn_cons_eq_if_modifyHead] at h
    by_cases hc : c = '/'
    · rw [if_pos (by simp [hc])] at h
      rcases List.mem_cons.1 h with rfl | hmem
      · simp
      · exact ih hmem
    · rw [if_neg (by simp [hc]), hrest, List.modifyHead_cons] at h
      rw [hrest] at ih
      rcases List.mem_cons.1 h with rfl | hmem
      · have hfirst : '/' ∉ first := ih List.mem_cons_self
        simp [hfirst, Ne.symm hc]
      · exact ih (List.mem_cons_of_mem first hmem)

theorem isName_of_mem_steps {chars : List Char} {name : String}
    (h : name ∈ steps (chars.splitOn '/')) : IsName name := by
  obtain ⟨piece, hpiece, rfl⟩ := List.mem_map.1 h
  obtain ⟨hmem, hkept⟩ := List.mem_filter.1 hpiece
  have hkept : piece ≠ [] ∧ piece ≠ ['.'] := of_decide_eq_true hkept
  refine ⟨?_, ?_, ?_⟩
  · intro hempty
    exact hkept.1 (String.ofList_injective hempty)
  · intro hdot
    exact hkept.2 (String.ofList_injective hdot)
  · rw [String.toList_ofList]
    exact slash_not_mem_of_mem_splitOn hmem

/-- Every slash before a name ends what stands before it. -/
theorem splitOn_spelled {start : List Char} (hstart : '/' ∉ start) {names : List String}
    (h : ∀ name ∈ names, IsName name) :
    (start ++ Uri.spelled names).splitOn '/' = start :: names.map String.toList := by
  induction names generalizing start with
  | nil =>
    rw [Uri.spelled, List.flatMap_nil, List.append_nil, List.splitOn_eq_singleton hstart]
    rfl
  | cons name names ih =>
    obtain ⟨hname, hnames⟩ := List.forall_mem_cons.1 h
    have hspelled : Uri.spelled (name :: names) = '/' :: (name.toList ++ Uri.spelled names) := rfl
    rw [hspelled, List.splitOn_append_cons_self_of_not_mem hstart, ih hname.slash hnames]
    rfl

theorem steps_names {names : List String} (h : ∀ name ∈ names, IsName name) :
    steps (names.map String.toList) = names := by
  have hkept : (names.map String.toList).filter (fun piece => piece ≠ [] ∧ piece ≠ ['.']) =
      names.map String.toList := by
    refine List.filter_eq_self.2 fun piece hpiece => ?_
    obtain ⟨name, hname, rfl⟩ := List.mem_map.1 hpiece
    rw [decide_eq_true_eq]
    refine ⟨fun hempty => (h name hname).nonempty ?_, fun hdot => (h name hname).ne_dot ?_⟩
    · exact String.toList_injective hempty
    · exact String.toList_injective hdot
  rw [steps, hkept, List.map_map]
  simp

theorem steps_append (pieces more : List (List Char)) :
    steps (pieces ++ more) = steps pieces ++ steps more := by
  rw [steps, List.filter_append, List.map_append]
  rfl

theorem steps_rooted {names : List String} (h : ∀ name ∈ names, IsName name) :
    steps ((Uri.rooted names).splitOn '/') = names := by
  cases names with
  | nil => rfl
  | cons name names =>
    have hrooted : Uri.rooted (name :: names) = [] ++ Uri.spelled (name :: names) := rfl
    rw [hrooted, splitOn_spelled List.not_mem_nil h, ← List.singleton_append, steps_append,
      steps_names h]
    rfl

/-- Whatever path a URI has, its names are the components. -/
theorem components_toPath_ofNames {names : List String} (h : ∀ name ∈ names, IsName name) :
    components (Uri.ofNames names).toPath = ⟨true, names⟩ := by
  have hfirst : ∃ rest, Uri.rooted names = '/' :: rest := by
    cases names with
    | nil => exact ⟨[], rfl⟩
    | cons name names => exact ⟨name.toList ++ Uri.spelled names, rfl⟩
  obtain ⟨rest, hrest⟩ := hfirst
  rcases Uri.toPath_ofNames names with hpath | hpath
  · have habsolute : isAbsolute (Uri.ofNames names).toPath = true := by
      rw [hpath, isAbsolute_iff, String.toList_ofList]
      exact ⟨rest, hrest⟩
    rw [components_of_isAbsolute habsolute, hpath, String.toList_ofList, steps_rooted h]
  · have habsolute : isAbsolute (Uri.ofNames names).toPath = true := by
      rw [hpath, isAbsolute_iff, String.toList_ofList, hrest]
      exact ⟨rest ++ ['/'], rfl⟩
    rw [components_of_isAbsolute habsolute, hpath, String.toList_ofList,
      List.splitOn_append_cons_self, steps_append, steps_rooted h]
    rw [List.splitOn_nil]
    simp [steps]

end Path

-- ---------------------------------------------------------------------------
-- Documents
-- ---------------------------------------------------------------------------

theorem documentUri_of_isAbsolute (cwd : String) {path : String} (h : Path.isAbsolute path = true) :
    documentUri cwd path = .ok (.ofNames (Path.components path).names) := by
  have hempty : path.isEmpty = false := by
    obtain ⟨rest, hrest⟩ := Path.isAbsolute_iff.1 h
    rw [← Bool.not_eq_true, String.isEmpty_iff]
    rintro rfl
    cases hrest
  have habsolute : (Path.components path).absolute = true := by
    rw [Path.components_of_isAbsolute h]
  rw [documentUri, hempty, absoluteNames]
  simp [habsolute]

/-- The URI of an absolute path has a path with the same components. -/
theorem components_toPath_of_isAbsolute {path : String} (h : Path.isAbsolute path = true) :
    Path.components (Uri.ofNames (Path.components path).names).toPath = Path.components path := by
  rw [Path.components_of_isAbsolute h]
  exact Path.components_toPath_ofNames fun name hname => Path.isName_of_mem_steps hname

/-- Every absolute path has a URI, wherever the program runs. The path of this URI has the
components of the path that it was made of, and two paths have the same URI exactly if they have the
same components, which are the pieces between slashes other than empty ones and `.`; a `..` is
kept. -/
theorem document_uris_faithful (cwd cwd' p q : String) (hp : Path.isAbsolute p = true)
    (hq : Path.isAbsolute q = true) :
    ∃ u v, documentUri cwd p = .ok u ∧ documentUri cwd' q = .ok v ∧
      Path.components u.toPath = Path.components p ∧
      (u = v ↔ Path.components p = Path.components q) ∧
      Path.components p = ⟨true, ((p.toList.splitOn '/').filter fun piece =>
        piece ≠ [] ∧ piece ≠ ['.']).map String.ofList⟩ := by
  refine ⟨_, _, documentUri_of_isAbsolute cwd hp, documentUri_of_isAbsolute cwd' hq,
    components_toPath_of_isAbsolute hp, ⟨fun huri => ?_, fun hsame => ?_⟩,
    Path.components_of_isAbsolute hp⟩
  · rw [← components_toPath_of_isAbsolute hp, huri, components_toPath_of_isAbsolute hq]
  · rw [hsame]

/-- One file under two paths, with a percent sign and a letter that is not ASCII in its name, and
a directory that is not the one above it. -/
theorem document_uris_faithful_spellings :
    (∃ u, documentUri "/work" "/src//./é%2F" = .ok u ∧ documentUri "/" "/src/é%2F/" = .ok u ∧
      Path.components u.toPath = ⟨true, ["src", "é%2F"]⟩) ∧
    documentUri "/" "/src/.." ≠ documentUri "/" "/" := by
  have hfile : Path.components "/src//./é%2F" = ⟨true, ["src", "é%2F"]⟩ := by decide +kernel
  have hspelled : Path.components "/src/é%2F/" = ⟨true, ["src", "é%2F"]⟩ := by decide +kernel
  obtain ⟨u, v, hu, hv, hback, hsame, -⟩ :=
    document_uris_faithful "/work" "/" "/src//./é%2F" "/src/é%2F/" rfl rfl
  obtain ⟨u', v', hu', hv', -, hsame', -⟩ :=
    document_uris_faithful "/" "/" "/src/.." "/" rfl rfl
  refine ⟨⟨u, hu, ?_, hback.trans hfile⟩, ?_⟩
  · rw [hv, hsame.2 (hfile.trans hspelled.symm)]
  · rw [hu', hv']
    intro heq
    have hcomponents := hsame'.1 (Except.ok.inj heq)
    revert hcomponents
    decide +kernel

end VerifierClient
