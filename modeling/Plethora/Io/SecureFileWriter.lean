/-
# The secure writer

`SecureFileWriter` writes a file only if its canonical path is on the white list
and it is there already and can be written; every refusal is an `IOException`.
The file is written by the `CopyingFileWriter`.

A file that may be created, as far as the list is concerned, is thus never
created (`write_refused`). A file that is there gets what the writer leaves in
it, under each name that resolves to its path (`write_trusted`).

Key definitions: `FileSystem.store`, `FileSystem.Normalizing`, `SecureFileWriter.write`.
Key theorems: `SecureFileWriter.write_refused`, `SecureFileWriter.write_trusted`,
`JavaFile.normalize_separators`.
-/
import Plethora.Io.CopyingFileWriter
import Plethora.Io.FileAccess

namespace Plethora

/-! ### Files that change -/

/-- What is in a file that can be read. -/
def FileNode.content (f : FileNode) : List UInt8 :=
  match f.streamRead with
  | .contents data => data
  | _ => []

/-- The file with other contents; a directory has none. -/
def FileNode.written (f : FileNode) (data : List UInt8) : FileNode :=
  if h : f.isDirectory = true then f
  else { f with streamRead := .contents data, mappedRead := .contents data, directory := fun hd => absurd hd h }

namespace FileSystem

variable (fs : FileSystem)

/-- Both names resolve, and to one path. -/
def sameFile (a b : Text) : Bool :=
  (fs.getCanonicalPath a).any fun p => (fs.getCanonicalPath b).any fun q => p.names = q.names

/-- The file of this name holds the data. -/
def store (fileName : Text) (data : List UInt8) : FileSystem where
  getCanonicalPath := fs.getCanonicalPath
  file name := if fs.sameFile name fileName then (fs.file name).map (·.written data) else fs.file name
  same := by
    intro a b p q m n ha hb he hm hn
    have hsame : fs.sameFile a fileName = fs.sameFile b fileName := by
      simp only [sameFile, ha, hb, Option.any_some, he]
    rw [← hsame] at hn
    split at hm
    · rename_i hs
      rw [if_pos hs] at hn
      obtain ⟨m', hm', rfl⟩ := Option.map_eq_some_iff.mp hm
      obtain ⟨n', hn', rfl⟩ := Option.map_eq_some_iff.mp hn
      rw [fs.same ha hb he hm' hn']
    · rename_i hs
      rw [if_neg hs] at hn
      exact fs.same ha hb he hm hn

/-- Names that are one path once separators are no longer doubled are one file:
`java.io.File` keeps no other. -/
def Normalizing : Prop :=
  ∀ a b, JavaFile.normalize a = JavaFile.normalize b →
    fs.getCanonicalPath a = fs.getCanonicalPath b ∧ fs.file a = fs.file b

/-- The files as `java.io.File` sees them. -/
def normalized : FileSystem where
  getCanonicalPath name := fs.getCanonicalPath (JavaFile.normalize name)
  file name := fs.file (JavaFile.normalize name)
  same ha hb he hm hn := fs.same ha hb he hm hn

theorem normalized_normalizing : fs.normalized.Normalizing := by
  intro a b h
  simp [normalized, h]

end FileSystem

def FileAccessPermission.isWritePermittedPath (P : FileAccessPermission) (path : Text) : Bool :=
  FileAccessPermission.checkPath path P.writePaths

namespace SecureFileWriter

/-- The file, once its path is permitted. -/
def getTrustedValidWritableFile (P : FileAccessPermission) (fs : FileSystem) (fileName : Text) :
    Except FileException FileNode := do
  if P.isWritePermittedPath (← FileAccessPermission.canonicalPath fs fileName) then
    match fs.file fileName with
    | some f => if f.canWrite then pure f else .error .io
    | none => .error .io
  else .error .io

def fileException : CopyingFileWriter.Thrown → FileException
  | .ioException => .io
  | .illegalArgument => .unchecked .illegalArgument

/-- What the writer's end leaves of the files. -/
def stored (fs : FileSystem) (fileName : Text) :
    Outcome CopyingFileWriter.Thrown CopyingFileWriter.Files Bool → Outcome FileException FileSystem Bool
  | .returned done files => .returned done (fs.store fileName files.dest)
  | .thrown e files => .thrown (fileException e) (fs.store fileName files.dest)
  | .unfinished => .unfinished

/-- `write(fileName, str)`, with how the steps of the writer come out. -/
def write (P : FileAccessPermission) (io : CopyingFileWriter.StepOutcomes) (fileName str : Text) :
    Eff FileException FileSystem Bool := do
  let fs ← Eff.get
  let f ← Eff.lift (getTrustedValidWritableFile P fs fileName)
  fun fs => stored fs fileName (CopyingFileWriter.fileWrite io str ⟨[], f.content⟩)

end SecureFileWriter

/-! ### Names -/

namespace JavaFile

theorem collapse_separators : ∀ a t : Text, collapse (a ++ '/' :: '/' :: t) = collapse (a ++ '/' :: t)
  | [], t => by simp [collapse]
  | c :: a, t => by
    have hhead : (a ++ '/' :: '/' :: t).head? = (a ++ '/' :: t).head? := by cases a <;> rfl
    simp only [List.cons_append, collapse, hhead, collapse_separators a t]

theorem normalize_separators (a t : Text) : normalize (a ++ '/' :: '/' :: t) = normalize (a ++ '/' :: t) := by
  simp only [normalize, collapse_separators]

end JavaFile

/-! ### What is stored -/

namespace FileSystem

variable {fs : FileSystem} {fileName : Text} {data : List UInt8}

/-- A file that is not a directory, may be read and written, and holds the data. -/
structure Keeps (fs : FileSystem) (fileName : Text) (data : List UInt8) : Prop where
  found : ∃ f, fs.file fileName = some f ∧ f.isDirectory = false ∧ f.canRead = true ∧ f.canWrite = true ∧
    f.streamRead = .contents data

theorem Keeps.unique {data' : List UInt8} (h : fs.Keeps fileName data) (h' : fs.Keeps fileName data') :
    data = data' := by
  obtain ⟨f, hf, -, -, -, hread⟩ := h.found
  obtain ⟨f', hf', -, -, -, hread'⟩ := h'.found
  rw [hf] at hf'
  cases hf'
  rw [hread] at hread'
  cases hread'
  rfl

theorem store_keeps {p : CanonicalPath} (hp : fs.getCanonicalPath fileName = some p) (h : fs.Keeps fileName data)
    (data' : List UInt8) : (fs.store fileName data').Keeps fileName data' := by
  obtain ⟨f, hf, hd, hr, hw, -⟩ := h.found
  have hsame : fs.sameFile fileName fileName = true := by simp [sameFile, hp]
  refine ⟨f.written data', ?_, ?_⟩
  · simp [store, hsame, hf]
  · simp [FileNode.written, hd, hr, hw]

theorem store_normalizing (h : fs.Normalizing) : (fs.store fileName data).Normalizing := by
  intro a b hab
  obtain ⟨hc, hf⟩ := h a b hab
  refine ⟨hc, ?_⟩
  have hsame : fs.sameFile a fileName = fs.sameFile b fileName := by simp only [sameFile, hc]
  simp only [store, hsame, hf]

end FileSystem

/-! ### What is written -/

namespace SecureFileWriter

variable {P : FileAccessPermission} {fs : FileSystem} {fileName str : Text} {io : CopyingFileWriter.StepOutcomes}

theorem trusted_ok_iff {f : FileNode} : getTrustedValidWritableFile P fs fileName = .ok f ↔
    ∃ p, fs.getCanonicalPath fileName = some p ∧ P.isWritePermittedPath p.getPath = true ∧
      fs.file fileName = some f ∧ f.canWrite = true := by
  unfold getTrustedValidWritableFile
  rw [bind_eq_ok]
  constructor
  · rintro ⟨t, ht, h⟩
    obtain ⟨p, hp, rfl⟩ := canonicalPath_ok.mp ht
    refine ⟨p, hp, ?_⟩
    split at h
    · rename_i hpermitted
      split at h
      · rename_i g hg
        split at h
        · rename_i hw
          cases h
          exact ⟨hpermitted, hg, hw⟩
        · cases h
      · cases h
    · cases h
  · rintro ⟨p, hp, hpermitted, hf, hw⟩
    refine ⟨p.getPath, canonicalPath_ok.mpr ⟨p, hp, rfl⟩, ?_⟩
    rw [if_pos hpermitted, hf]
    exact if_pos hw

/-- Every refusal is an `IOException`. -/
theorem trusted_error {e : FileException} (h : getTrustedValidWritableFile P fs fileName = .error e) : e = .io := by
  unfold getTrustedValidWritableFile FileAccessPermission.canonicalPath orIOException at h
  cases hc : fs.getCanonicalPath fileName with
  | none =>
    rw [hc] at h
    cases h
    rfl
  | some p =>
    simp only [hc, Option.map_some, bind, Except.bind] at h
    split at h
    · split at h
      · split at h
        · cases h
        · cases h
          rfl
      · cases h
        rfl
    · cases h
      rfl

/-- **A file that is not there, or cannot be written, stays as it is**, though
the list permits it. -/
theorem write_refused (h : ∀ f, fs.file fileName = some f → f.canWrite = false) :
    write P io fileName str fs = .thrown .io fs := by
  cases hf : getTrustedValidWritableFile P fs fileName with
  | ok f =>
    obtain ⟨p, -, -, hfile, hw⟩ := trusted_ok_iff.mp hf
    rw [h f hfile] at hw
    cases hw
  | error e =>
    obtain rfl := trusted_error hf
    simp only [write, Eff.bind_apply, Eff.get, hf]
    rfl

theorem write_trusted {f : FileNode} (h : getTrustedValidWritableFile P fs fileName = .ok f) :
    write P io fileName str fs = stored fs fileName (CopyingFileWriter.fileWrite io str ⟨[], f.content⟩) := by
  simp only [write, Eff.bind_apply, Eff.get, h]
  rfl

theorem write_kept {p : CanonicalPath} {data : List UInt8} (hp : fs.getCanonicalPath fileName = some p)
    (hP : P.isWritePermittedPath p.getPath = true) (h : fs.Keeps fileName data) :
    write P io fileName str fs = stored fs fileName (CopyingFileWriter.fileWrite io str ⟨[], data⟩) := by
  obtain ⟨f, hf, -, -, hw, hread⟩ := h.found
  have hcontent : f.content = data := by rw [FileNode.content, hread]
  rw [write_trusted (trusted_ok_iff.mpr ⟨p, hp, hP, hf, hw⟩), hcontent]

end SecureFileWriter

end Plethora
