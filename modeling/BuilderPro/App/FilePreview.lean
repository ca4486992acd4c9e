import BuilderPro.App.FsExplorer
import BuilderPro.Lib.Utf8Lossy

/-!
# The file preview

`read_file_preview` asks for a file's size, reads the file afterwards, and shows it as text judging
by its first 8 KiB.  What it shows of a file that stays as it is follows from the content
(`readFilePreview_preview`), and a file that grows or shrinks in between is not shown as what it is
not.
-/

namespace BuilderPro

abbrev previewCap : ℕ := 1024 * 1024

abbrev binaryProbeLen : ℕ := 8 * 1024

inductive FilePreview
  | text (content : String) (truncated : Bool) (size : ℕ)
  | binary (size : ℕ)
  | tooLarge (size : ℕ)
  deriving DecidableEq

def buildPreview (size : ℕ) (bytes : List UInt8) : FilePreview :=
  let probeLen := min bytes.length binaryProbeLen
  let probe := bytes.take probeLen
  if 0 ∈ probe ∨ Utf8.decode probe = none then .binary size
  else .text (Utf8.decodeLossy bytes) (bytes.length < size) size

def buildPreviewCapped (statSize : ℕ) (bytes : List UInt8) : FilePreview :=
  if previewCap < bytes.length then .tooLarge bytes.length
  else buildPreview statSize bytes

/-- `read_file_preview_inner`; the tree may change between `metadata` and `File::open`. -/
def readFilePreviewInner (atStat atRead : FileTree) (root rel : PathBuf) :
    Except FsError FilePreview := do
  let path ← validatedExisting atStat root rel
  match atStat.node path with
  | none => .error .notFound
  | some .dir => .error (.io "cannot preview a directory")
  | some (.link _) => .error (.io "not a regular file")
  | some (.file content) =>
    if previewCap < content.length then return .tooLarge content.length
    match (atRead.canonicalize (absolutePath path)).bind atRead.node with
    | some (.file bytes) => return buildPreviewCapped content.length (bytes.take (previewCap + 1))
    | some _ => .error (.io "Is a directory (os error 21)")
    | none => .error .notFound

def readFilePreview (atStat atRead : FileTree) (slot : WorkspaceRootsCache) (root rel : PathBuf) :
    Except FsError FilePreview := do
  ensureFsRoot atStat slot root
  readFilePreviewInner atStat atRead root rel

/-! ## What is shown -/

/-- What the content is judged by. -/
def probeOf (content : List UInt8) : List UInt8 := content.take binaryProbeLen

/-- The beginning of some UTF-8 text. -/
def BeginsText (bytes : List UInt8) : Prop :=
  ∃ more, (Utf8.decode (bytes ++ more)).isSome = true

/-- What a file that did not change is shown as. -/
structure Previews (content : List UInt8) (answer : FilePreview) : Prop where
  text : 0 ∉ probeOf content → (Utf8.decode (probeOf content)).isSome = true →
    answer = .text (Utf8.decodeLossy content) false content.length
  binary : 0 ∈ probeOf content ∨ ¬BeginsText (probeOf content) → answer = .binary content.length
  shown : ∀ shown truncated size, answer = .text shown truncated size →
    shown = Utf8.decodeLossy content ∧ truncated = false ∧ size = content.length
  exact : ∀ shown truncated size, answer = .text shown truncated size →
    (Utf8.bytes shown = content ↔ (Utf8.decode content).isSome = true)

/-- What a file of so many bytes that held others when it was read is shown as. -/
structure PreviewsChanged (statSize : ℕ) (available : List UInt8) (answer : FilePreview) :
    Prop where
  tooLarge : previewCap < statSize ∨ previewCap < available.length ↔
    ∃ size, answer = .tooLarge size
  truncated : ∀ shown truncated size, answer = .text shown truncated size →
    size = statSize ∧ (truncated = true ↔ available.length < statSize)
  binary : ∀ size, answer = .binary size → size = statSize

variable {s t : FileTree} {slot : WorkspaceRootsCache} {root rel : PathBuf} {p : List String}
  {content bytes : List UInt8} {size : ℕ}

theorem probe_eq (bytes : List UInt8) :
    bytes.take (min bytes.length binaryProbeLen) = probeOf bytes := by
  rw [probeOf, List.take_eq_take_iff]
  omega

theorem buildPreview_of_text (hnul : 0 ∉ probeOf bytes)
    (hutf8 : (Utf8.decode (probeOf bytes)).isSome = true) :
    buildPreview size bytes
      = .text (Utf8.decodeLossy bytes) (decide (bytes.length < size)) size := by
  simp only [buildPreview, probe_eq]
  rw [if_neg]
  rintro (hmem | hnone)
  · exact hnul hmem
  · rw [hnone] at hutf8
    simp at hutf8

theorem buildPreview_of_binary (h : 0 ∈ probeOf bytes ∨ Utf8.decode (probeOf bytes) = none) :
    buildPreview size bytes = .binary size := by
  simp only [buildPreview, probe_eq]
  rw [if_pos h]

/-- Text or binary, by the probe. -/
theorem buildPreview_cases (size : ℕ) (bytes : List UInt8) :
    (0 ∉ probeOf bytes ∧ (Utf8.decode (probeOf bytes)).isSome = true ∧
        buildPreview size bytes
          = .text (Utf8.decodeLossy bytes) (decide (bytes.length < size)) size) ∨
      ((0 ∈ probeOf bytes ∨ Utf8.decode (probeOf bytes) = none) ∧
        buildPreview size bytes = .binary size) := by
  by_cases h : 0 ∈ probeOf bytes ∨ Utf8.decode (probeOf bytes) = none
  · exact .inr ⟨h, buildPreview_of_binary h⟩
  · rw [not_or, ← ne_eq, Option.ne_none_iff_isSome] at h
    exact .inl ⟨h.1, h.2, buildPreview_of_text h.1 h.2⟩

theorem not_beginsText_iff_or (h : 0 ∈ probeOf bytes ∨ ¬BeginsText (probeOf bytes)) :
    0 ∈ probeOf bytes ∨ Utf8.decode (probeOf bytes) = none := by
  rcases h with hnul | hbegins
  · exact .inl hnul
  · right
    by_contra hsome
    refine hbegins ⟨[], ?_⟩
    rw [List.append_nil]
    exact Option.isSome_iff_ne_none.2 hsome

theorem previews_buildPreview (content : List UInt8) :
    Previews content (buildPreview content.length content) := by
  have hlt : ¬content.length < content.length := Nat.lt_irrefl _
  constructor
  · intro hnul hutf8
    rw [buildPreview_of_text hnul hutf8]
    simp
  · intro h
    exact buildPreview_of_binary (not_beginsText_iff_or h)
  · intro shown truncated size h
    rcases buildPreview_cases content.length content with ⟨-, -, heq⟩ | ⟨-, heq⟩ <;> rw [heq] at h
    · injection h with h₁ h₂ h₃
      subst h₁ h₂ h₃
      simp
    · injection h
  · intro shown truncated size h
    rcases buildPreview_cases content.length content with ⟨-, -, heq⟩ | ⟨-, heq⟩ <;> rw [heq] at h
    · injection h with h₁ h₂ h₃
      subst h₁
      exact Utf8.bytes_decodeLossy
    · injection h

/-! ## The read -/

theorem readFilePreview_eq (hroot : ensureFsRoot s slot root = .ok ())
    (hpath : validatedExisting s root rel = .ok p) (hstat : s.node p = some (.file content))
    (hread : t.node p = some (.file bytes)) :
    readFilePreview s t slot root rel
      = .ok (if previewCap < content.length then .tooLarge content.length
        else buildPreviewCapped content.length (bytes.take (previewCap + 1))) := by
  have hreal : t.canonicalize (absolutePath p) = some p := by
    apply t.canonicalize_absolutePath
    constructor
    · rw [hread]
      exact Option.some_ne_none _
    · intro target h
      rw [hread] at h
      injection h with h
      injection h
  unfold readFilePreview readFilePreviewInner
  rw [hroot]
  simp only [hpath, hstat, hreal, hread, Option.bind_some, bind, Except.bind, pure, Except.pure]
  split_ifs <;> rfl

/-- What is read of a file is all of it up to the cap, and too much of one beyond. -/
theorem buildPreviewCapped_take (size : ℕ) (bytes : List UInt8) :
    buildPreviewCapped size (bytes.take (previewCap + 1))
      = if previewCap < bytes.length then .tooLarge (previewCap + 1)
        else buildPreview size bytes := by
  unfold buildPreviewCapped
  by_cases h : previewCap < bytes.length
  · have hlen : (bytes.take (previewCap + 1)).length = previewCap + 1 := by
      rw [List.length_take]
      omega
    rw [if_pos h, hlen, if_pos (Nat.lt_succ_self _)]
  · rw [List.take_of_length_le (by omega), if_neg h, if_neg h]

theorem previewsChanged_capped (content bytes : List UInt8) :
    PreviewsChanged content.length bytes
      (if previewCap < content.length then .tooLarge content.length
        else buildPreviewCapped content.length (bytes.take (previewCap + 1))) := by
  rw [buildPreviewCapped_take]
  by_cases hstat : previewCap < content.length
  · rw [if_pos hstat]
    exact ⟨by simp [hstat], by simp, by simp⟩
  · rw [if_neg hstat]
    by_cases hread : previewCap < bytes.length
    · rw [if_pos hread]
      exact ⟨by simp [hread], by simp, by simp⟩
    · rw [if_neg hread]
      rcases buildPreview_cases content.length bytes with ⟨-, -, heq⟩ | ⟨-, heq⟩ <;> rw [heq]
      · refine ⟨by simp [hstat, hread], ?_, by simp⟩
        intro shown truncated size h
        injection h with h₁ h₂ h₃
        subst h₂ h₃
        simp
      · exact ⟨by simp [hstat, hread], by simp, by simp⟩

/-- A file that stays as it is up to the cap is shown by what it contains; one that changes between
the two calls is too large exactly if it was beyond the cap at one of them, and text that is shown
is marked truncated exactly if there was less of it than the size that is stated. -/
theorem readFilePreview_preview (hroot : ensureFsRoot s slot root = .ok ())
    (hpath : validatedExisting s root rel = .ok p) (hstat : s.node p = some (.file content))
    (hread : t.node p = some (.file bytes)) :
    ∃ answer, readFilePreview s t slot root rel = .ok answer ∧
      PreviewsChanged content.length bytes answer ∧
      (bytes = content → content.length ≤ previewCap → Previews content answer) := by
  refine ⟨_, readFilePreview_eq hroot hpath hstat hread, previewsChanged_capped content bytes, ?_⟩
  rintro rfl hcap
  rw [if_neg (by omega), buildPreviewCapped_take, if_neg (by omega)]
  exact previews_buildPreview bytes

/-- A root with one file. -/
def oneFile (content : List UInt8) : FileTree where
  node p := if p = [] then some .dir else if p = ["notes.txt"] then some (.file content) else none
  paths := [[], ["notes.txt"]]
  cwd := []
  maxLinks := 8
  node_root := rfl
  node_parent p name h := by
    rcases p with _ | ⟨first, p⟩
    · rfl
    · simp at h
  mem_paths p h := by
    split_ifs at h with h₁ h₂ <;> simp_all

def oneRoot : WorkspaceRootsCache := .loaded [("notes", [[.rootDir]])]

theorem oneFile_root (content : List UInt8) :
    ensureFsRoot (oneFile content) oneRoot [.rootDir] = .ok () := by
  rfl

theorem oneFile_path (content : List UInt8) :
    validatedExisting (oneFile content) [.rootDir] [.normal "notes.txt"] = .ok ["notes.txt"] := by
  rfl

theorem oneFile_node (content : List UInt8) :
    (oneFile content).node ["notes.txt"] = some (.file content) := by
  rfl

theorem readFilePreview_oneFile :
    ∃ answer, readFilePreview (oneFile [0x68, 0x69]) (oneFile [0x68, 0x69]) oneRoot [.rootDir]
        [.normal "notes.txt"] = .ok answer ∧
      PreviewsChanged 2 [0x68, 0x69] answer ∧ Previews [0x68, 0x69] answer := by
  obtain ⟨answer, hanswer, hchanged, hsame⟩ := readFilePreview_preview
    (oneFile_root [0x68, 0x69]) (oneFile_path _) (oneFile_node _) (oneFile_node [0x68, 0x69])
  exact ⟨answer, hanswer, hchanged, hsame rfl (by decide)⟩

/-- Text for as long as it is looked at. -/
def latin1Tail : List UInt8 := List.replicate binaryProbeLen 0x61 ++ [0xFF]

theorem probeOf_latin1Tail : probeOf latin1Tail = List.replicate binaryProbeLen 0x61 := by
  rw [probeOf, latin1Tail, List.take_left' List.length_replicate]

theorem nul_not_mem_latin1Tail : 0 ∉ probeOf latin1Tail := by
  rw [probeOf_latin1Tail]
  intro h
  have h := List.eq_of_mem_replicate h
  simp at h

theorem length_latin1Tail : latin1Tail.length = binaryProbeLen + 1 := by
  rw [latin1Tail, List.length_append, List.length_replicate, List.length_singleton]

theorem decode_latin1Tail : Utf8.decode latin1Tail = none := by
  rw [Option.eq_none_iff_forall_ne_some]
  intro text h
  have hmem : (0xFF : UInt8) ∈ Utf8.bytes text := by
    rw [Utf8.decode_eq_some.1 h, latin1Tail]
    simp
  exact absurd (Utf8.lt_of_mem_bytes hmem) (by decide)

theorem buildPreview_latin1Tail :
    buildPreview latin1Tail.length latin1Tail
      = .text (Utf8.decodeLossy latin1Tail) false latin1Tail.length := by
  have hutf8 : (Utf8.decode (probeOf latin1Tail)).isSome = true := by
    rw [probeOf_latin1Tail]
    apply Utf8.isSome_decode_of_ascii
    intro b hb
    rw [List.eq_of_mem_replicate hb]
    decide
  rw [buildPreview_of_text nul_not_mem_latin1Tail hutf8]
  simp

/-- What is not UTF-8 is shown as text, and of a file that shrank nothing is marked. -/
theorem text_not_utf8 :
    (latin1Tail.length ≤ previewCap ∧
      ¬((∃ shown truncated size,
          readFilePreview (oneFile latin1Tail) (oneFile latin1Tail) oneRoot [.rootDir]
            [.normal "notes.txt"] = .ok (.text shown truncated size)) ↔
        (Utf8.decode latin1Tail).isSome = true ∧ 0 ∉ latin1Tail.take 8192)) ∧
    readFilePreview (oneFile [0x61, 0x62]) (oneFile [0]) oneRoot [.rootDir]
      [.normal "notes.txt"] = .ok (.binary 2) := by
  have hcap : latin1Tail.length ≤ previewCap := by
    rw [length_latin1Tail]
    decide
  refine ⟨⟨hcap, fun h => ?_⟩, ?_⟩
  · have htext := h.1 ⟨Utf8.decodeLossy latin1Tail, false, latin1Tail.length, by
      rw [readFilePreview_eq (oneFile_root _) (oneFile_path _) (oneFile_node _) (oneFile_node _),
        if_neg (by omega), buildPreviewCapped_take, if_neg (by omega), buildPreview_latin1Tail]⟩
    rw [decode_latin1Tail] at htext
    simp at htext
  · rw [readFilePreview_eq (oneFile_root _) (oneFile_path _) (oneFile_node _) (oneFile_node _),
      if_neg (by decide), buildPreviewCapped_take, if_neg (by decide)]
    exact congrArg Except.ok (buildPreview_of_binary (.inl (by decide)))

end BuilderPro
