/-
# Permitted files

`FileAccessPermission`, the white list of canonical paths that may be read or
written, and `SecureFileAccess` and `SecureFileReader`, which open a file only
if the list permits its canonical path and, where a directory is given, if the
path is verified to lie in it.

Both checks compare the texts of the paths: `startsWith` tells a directory from
a sibling with a longer name as little as the list does (`startsWith_iff`). What a read that
is verified against a directory returns is told by `readIn_iff`.

Key definitions: `FileSystem`, `FileAccessPermission`, `verifyParent`, `SecureFileReader.readIn`.
Key theorems: `startsWith_iff`, `readIn_iff`.
-/
import Plethora.Common.Java
import Plethora.Lib.Paths

namespace Plethora

/-! ### The file system -/

/-- A canonical path: the names on it, links and dots resolved. -/
structure CanonicalPath where
  names : List Text
  valid : Paths.Valid '/' names

namespace CanonicalPath

def getPath (p : CanonicalPath) : Text := Paths.text '/' p.names

/-- `q` is a descendant of `p`, by whole names. -/
def Above (p q : CanonicalPath) : Prop := p.names <+: q.names ∧ p.names ≠ q.names

/-- `q` goes on from a sibling of `p` whose name starts with `p`'s. -/
def Beside (p q : CanonicalPath) : Prop := Paths.Beside p.names q.names

end CanonicalPath

/-- What reading a file comes to. -/
inductive Reading
  | contents (data : List UInt8)
  | ioException
  | unchecked (e : JavaError)
  deriving DecidableEq

/-- A file or directory: its permissions, and what the two ways to read it come
to. A directory cannot be read. -/
structure FileNode where
  isDirectory : Bool
  canRead : Bool
  canWrite : Bool
  streamRead : Reading
  mappedRead : Reading
  directory : isDirectory = true → streamRead = .ioException ∧ mappedRead = .ioException

/-- What the program sees of the files: the canonical path a name resolves to,
if it does, and the file it names, if there is one. Two names with one
canonical path name one file. -/
structure FileSystem where
  getCanonicalPath : Text → Option CanonicalPath
  file : Text → Option FileNode
  same : ∀ {a b p q m n}, getCanonicalPath a = some p → getCanonicalPath b = some q → p.names = q.names →
    file a = some m → file b = some n → m = n

namespace JavaFile

/-- A path without repeated separators. -/
def collapse : Text → Text
  | [] => []
  | c :: t => if c = '/' ∧ t.head? = some '/' then collapse t else c :: collapse t

/-- `new File(path).getPath()`. -/
def normalize (path : Text) : Text :=
  let p := collapse path
  if 1 < p.length ∧ p.getLast? = some '/' then p.dropLast else p

/-- `new File(path).getParent()`. -/
def getParent (path : Text) : Option Text :=
  match (normalize path).reverse.dropWhile (· ≠ '/') with
  | [] => none
  | [_] => if 1 < (normalize path).length then some ['/'] else none
  | _ :: t => some t.reverse

end JavaFile

/-- The exceptions of the file methods: an `IOException` or an unchecked one. -/
inductive FileException
  | io
  | unchecked (e : JavaError)
  deriving DecidableEq

/-- An `IOException` for what does not come to a value. -/
def orIOException {α : Type} : Option α → Except FileException α
  | some a => .ok a
  | none => .error .io

/-! ### The white list -/

structure FileAccessPermission where
  readPaths : List Text
  writePaths : List Text
  deriving DecidableEq

namespace FileAccessPermission

variable (fs : FileSystem)

/-- The text of the file's canonical path. -/
def canonicalPath (path : Text) : Except FileException Text :=
  orIOException ((fs.getCanonicalPath path).map CanonicalPath.getPath)

def resolveValidReadableDir (path : Text) : Except FileException Text :=
  match fs.file path with
  | some f => if f.isDirectory && f.canRead then canonicalPath fs path else .error .io
  | none => .error .io

/-- The file is there and can be written, or its directory can. -/
def resolveValidWritableFile (path : Text) : Except FileException Text :=
  if (fs.file path).any FileNode.canWrite then canonicalPath fs path
  else if ((JavaFile.getParent path).bind fs.file).any FileNode.canWrite then canonicalPath fs path
  else .error .io

def addReadPermittedDirectory (P : FileAccessPermission) (path : Text) : Except FileException FileAccessPermission := do
  pure { P with readPaths := P.readPaths ++ [← resolveValidReadableDir fs path] }

def addWritePermittedFile (P : FileAccessPermission) (path : Text) : Except FileException FileAccessPermission := do
  pure { P with writePaths := P.writePaths ++ [← resolveValidWritableFile fs path] }

def checkPath (path : Text) (paths : List Text) : Bool :=
  paths.any fun allowedPath => path = allowedPath || allowedPath.isPrefixOf path

def isReadPermittedPath (P : FileAccessPermission) (path : Text) : Bool := checkPath path P.readPaths

end FileAccessPermission

/-- `SecurityManager.getInstance().getFileAccessPermission()` after
`Controller.initSecurityPermissions`. -/
def initSecurityPermissions (fs : FileSystem) (P : FileAccessPermission) (webRoot snmpMibFilePath : Text) :
    Except JavaError FileAccessPermission :=
  match P.addReadPermittedDirectory fs webRoot >>= fun P =>
    P.addWritePermittedFile fs (webRoot ++ '/' :: snmpMibFilePath) with
  | .ok P => .ok P
  | .error .io => .error .security
  | .error (.unchecked e) => .error e

/-! ### Secure access -/

namespace SecureFileReader

variable (fs : FileSystem) (P : FileAccessPermission)

/-- The file, once its path is permitted. -/
def getTrustedValidReadableFile (fileName : Text) : Except FileException FileNode := do
  if P.isReadPermittedPath (← FileAccessPermission.canonicalPath fs fileName) then
    match fs.file fileName with
    | some f => if f.canRead then pure f else .error .io
    | none => .error .io
  else .error (.unchecked .security)

/-- The file's canonical path starts with the directory's. -/
def verifyParent (fileName trustedDir : Text) : Except FileException Bool := do
  let path ← FileAccessPermission.canonicalPath fs fileName
  let trustedPath ← FileAccessPermission.canonicalPath fs trustedDir
  pure (trustedPath.isPrefixOf path)

def getTrustedValidReadableFileIn (fileName verifyParentDir : Text) : Except FileException FileNode := do
  let file ← getTrustedValidReadableFile fs P fileName
  if ← verifyParent fs fileName verifyParentDir then pure file else .error .io

/-- The stream is tried first, and the mapped file after an `IOException`. -/
def fileRead (f : FileNode) : Except FileException (List UInt8) :=
  match f.streamRead with
  | .contents data => .ok data
  | .unchecked e => .error (.unchecked e)
  | .ioException =>
    match f.mappedRead with
    | .contents data => .ok data
    | .unchecked e => .error (.unchecked e)
    | .ioException => .error .io

/-- `read(fileName, trustedDir)`. -/
def readIn (fileName trustedDir : Text) : Except FileException (List UInt8) := do
  fileRead (← getTrustedValidReadableFileIn fs P fileName trustedDir)

end SecureFileReader

/-! ### What the checks let through -/

/-- A path's text starts with another's below it, and beside it. -/
theorem startsWith_iff (p q : CanonicalPath) :
    p.getPath.isPrefixOf q.getPath = true ↔ p.names <+: q.names ∨ p.Beside q := by
  rw [List.isPrefixOf_iff_prefix]
  exact Paths.text_prefix_iff p.valid q.valid

/-- The setting up leaves the web root's canonical path on the list, and the
web root a directory. -/
theorem initSecurityPermissions_ok {fs : FileSystem} {P₀ P : FileAccessPermission} {webRoot snmpMibFilePath : Text}
    (h : initSecurityPermissions fs P₀ webRoot snmpMibFilePath = .ok P) :
    ∃ root f, fs.getCanonicalPath webRoot = some root ∧ root.getPath ∈ P.readPaths ∧ fs.file webRoot = some f ∧
      f.isDirectory = true := by
  have h : (P₀.addReadPermittedDirectory fs webRoot >>= fun P =>
      P.addWritePermittedFile fs (webRoot ++ '/' :: snmpMibFilePath)) = .ok P := by
    unfold initSecurityPermissions at h
    split at h
    · rename_i P' hP
      cases h
      exact hP
    · cases h
    · cases h
  obtain ⟨P₁, h1, h2⟩ := bind_eq_ok.mp h
  obtain ⟨t, ht, h1⟩ := bind_eq_ok.mp h1
  obtain ⟨t', -, h2⟩ := bind_eq_ok.mp h2
  cases h1
  cases h2
  unfold FileAccessPermission.resolveValidReadableDir at ht
  cases hf : fs.file webRoot with
  | none =>
    rw [hf] at ht
    cases ht
  | some f =>
    rw [hf] at ht
    by_cases hd : (f.isDirectory && f.canRead) = true
    · simp only [if_pos hd] at ht
      unfold FileAccessPermission.canonicalPath at ht
      cases hc : fs.getCanonicalPath webRoot with
      | none =>
        rw [hc] at ht
        cases ht
      | some root =>
        rw [hc] at ht
        obtain rfl : root.getPath = t := Except.ok.inj ht
        exact ⟨root, f, rfl, List.mem_append_right _ (List.mem_singleton.mpr rfl), rfl,
          (Bool.and_eq_true_iff.mp hd).1⟩
    · simp only [if_neg hd] at ht
      cases ht

theorem canonicalPath_ok {fs : FileSystem} {path t : Text} : FileAccessPermission.canonicalPath fs path = .ok t ↔
    ∃ p, fs.getCanonicalPath path = some p ∧ p.getPath = t := by
  unfold FileAccessPermission.canonicalPath
  cases fs.getCanonicalPath path with
  | none => exact iff_of_false nofun fun ⟨_, h, _⟩ => nomatch h
  | some p => exact ⟨fun h => ⟨p, rfl, Except.ok.inj h⟩, fun ⟨_, h, h'⟩ => by cases h; exact congrArg Except.ok h'⟩

/-- A file that is trusted is there and can be read, and its path is on the list. -/
theorem getTrustedValidReadableFile_ok {fs : FileSystem} {P : FileAccessPermission} {fileName : Text} {f : FileNode} :
    SecureFileReader.getTrustedValidReadableFile fs P fileName = .ok f ↔
      ∃ p, fs.getCanonicalPath fileName = some p ∧ P.isReadPermittedPath p.getPath = true ∧
        fs.file fileName = some f ∧ f.canRead = true := by
  unfold SecureFileReader.getTrustedValidReadableFile
  rw [bind_eq_ok]
  constructor
  · rintro ⟨t, ht, h⟩
    obtain ⟨p, hp, rfl⟩ := canonicalPath_ok.mp ht
    by_cases hl : P.isReadPermittedPath p.getPath = true
    · rw [if_pos hl] at h
      cases hf : fs.file fileName with
      | none =>
        rw [hf] at h
        cases h
      | some g =>
        rw [hf] at h
        by_cases hr : g.canRead = true
        · simp only [if_pos hr] at h
          obtain rfl : g = f := Except.ok.inj h
          exact ⟨p, hp, hl, rfl, hr⟩
        · simp only [if_neg hr] at h
          cases h
    · rw [if_neg hl] at h
      cases h
  · rintro ⟨p, hp, hl, hf, hr⟩
    refine ⟨p.getPath, canonicalPath_ok.mpr ⟨p, hp, rfl⟩, ?_⟩
    rw [if_pos hl, hf]
    exact if_pos hr

theorem verifyParent_ok {fs : FileSystem} {fileName trustedDir : Text} {root p : CanonicalPath}
    (hr : fs.getCanonicalPath trustedDir = some root) (hp : fs.getCanonicalPath fileName = some p) :
    SecureFileReader.verifyParent fs fileName trustedDir = .ok (root.getPath.isPrefixOf p.getPath) := by
  unfold SecureFileReader.verifyParent
  rw [canonicalPath_ok.mpr ⟨p, hp, rfl⟩, canonicalPath_ok.mpr ⟨root, hr, rfl⟩]
  rfl

/-- What a verified read returns: the contents of a readable file whose
canonical path starts with the directory's. The list, which holds the
directory, permits no less. -/
theorem readIn_iff {fs : FileSystem} {P : FileAccessPermission} {fileName trustedDir : Text} {root : CanonicalPath}
    {data : List UInt8} (hr : fs.getCanonicalPath trustedDir = some root) (hP : root.getPath ∈ P.readPaths) :
    SecureFileReader.readIn fs P fileName trustedDir = .ok data ↔
      ∃ p f, fs.getCanonicalPath fileName = some p ∧ fs.file fileName = some f ∧ f.canRead = true ∧
        SecureFileReader.fileRead f = .ok data ∧ (root.names <+: p.names ∨ root.Beside p) := by
  unfold SecureFileReader.readIn SecureFileReader.getTrustedValidReadableFileIn
  constructor
  · intro h
    obtain ⟨f, h, hread⟩ := bind_eq_ok.mp h
    obtain ⟨g, hg, h⟩ := bind_eq_ok.mp h
    obtain ⟨p, hp, -, hf, hc⟩ := getTrustedValidReadableFile_ok.mp hg
    obtain ⟨b, hb, h⟩ := bind_eq_ok.mp h
    rw [verifyParent_ok hr hp] at hb
    cases hb
    by_cases hs : root.getPath.isPrefixOf p.getPath = true
    · rw [if_pos hs] at h
      obtain rfl : g = f := Except.ok.inj h
      exact ⟨p, g, hp, hf, hc, hread, (startsWith_iff root p).mp hs⟩
    · rw [if_neg hs] at h
      cases h
  · rintro ⟨p, f, hp, hf, hc, hread, hs⟩
    have hs := (startsWith_iff root p).mpr hs
    have hl : P.isReadPermittedPath p.getPath = true :=
      List.any_eq_true.mpr ⟨_, hP, Bool.or_eq_true_iff.mpr (Or.inr hs)⟩
    refine bind_eq_ok.mpr ⟨f, bind_eq_ok.mpr ⟨f, getTrustedValidReadableFile_ok.mpr ⟨p, hp, hl, hf, hc⟩, ?_⟩, hread⟩
    rw [verifyParent_ok hr hp]
    exact if_pos hs

/-- What the setting up puts on the lists. -/
theorem initSecurityPermissions_paths {fs : FileSystem} {P₀ P : FileAccessPermission} {webRoot snmpMibFilePath : Text}
    (h : initSecurityPermissions fs P₀ webRoot snmpMibFilePath = .ok P) :
    ∃ root mib, fs.getCanonicalPath webRoot = some root ∧
      fs.getCanonicalPath (webRoot ++ '/' :: snmpMibFilePath) = some mib ∧
      P = ⟨P₀.readPaths ++ [root.getPath], P₀.writePaths ++ [mib.getPath]⟩ := by
  have h : (P₀.addReadPermittedDirectory fs webRoot >>= fun P =>
      P.addWritePermittedFile fs (webRoot ++ '/' :: snmpMibFilePath)) = .ok P := by
    unfold initSecurityPermissions at h
    split at h
    · rename_i P' hP
      cases h
      exact hP
    · cases h
    · cases h
  obtain ⟨P₁, h1, h2⟩ := bind_eq_ok.mp h
  obtain ⟨t, ht, h1⟩ := bind_eq_ok.mp h1
  obtain ⟨t', ht', h2⟩ := bind_eq_ok.mp h2
  cases h1
  cases h2
  have hdir : FileAccessPermission.canonicalPath fs webRoot = .ok t := by
    unfold FileAccessPermission.resolveValidReadableDir at ht
    split at ht
    · split at ht
      · exact ht
      · cases ht
    · cases ht
  have hfile : FileAccessPermission.canonicalPath fs (webRoot ++ '/' :: snmpMibFilePath) = .ok t' := by
    unfold FileAccessPermission.resolveValidWritableFile at ht'
    split at ht'
    · exact ht'
    · split at ht'
      · exact ht'
      · cases ht'
  obtain ⟨root, hroot, rfl⟩ := canonicalPath_ok.mp hdir
  obtain ⟨mib, hmib, rfl⟩ := canonicalPath_ok.mp hfile
  exact ⟨root, mib, hroot, hmib, rfl⟩

end Plethora
