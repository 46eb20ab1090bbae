/-
# Static pages

`StaticPageHandler`: a request's path is put after the web root as it is, dots
and separators and all, and the file it then names is read through the secure
reader, verified against the web root.

A page is therefore a file of the web root or of a sibling of it with a longer
name; it is the former for every request whose path does not lead to the latter
(`handleRequest_confined_iff`).

Key definitions: `StaticPageHandler`, `handleRequest`, `requestedFile`.
Key theorems: `handleRequest_contents_iff`, `handleRequest_confined_iff`.
-/
import Plethora.Io.FileAccess
import Plethora.Lib.Charset
import Plethora.Lib.Pieces

namespace Plethora

/-- What a request is answered with: the contents of a file, or the error page,
which is `null` until the handler has one. -/
inductive Page
  | contents (fileName : Text) (data : List UInt8)
  | error (page : Option (List UInt8))
  deriving DecidableEq

def Page.bytes : Page → Option (List UInt8)
  | .contents _ data => some data
  | .error page => page

structure StaticPageHandler where
  webRoot : Text
  permission : FileAccessPermission
  HEADER : Option (List UInt8)
  FOOTER : Option (List UInt8)
  ERROR : List UInt8

namespace StaticPageHandler

def ERROR_MSG : Text :=
  ("<html>Please verify the web server configuration, cannot find required html content, ".toList ++
    "please set up web.root in application.properties</html>".toList)

def INDEX_FILE : Text := ['i', 'n', 'd', 'e', 'x', '.', 'h', 't', 'm', 'l']

def HEADER_FILE : Text := "tmpl/header.html".toList

def FOOTER_FILE : Text := "tmpl/footer.html".toList

def ERROR_FILE : Text := "tmpl/error.html".toList

def resolvedPath (webRoot path : Text) : Text := webRoot ++ '/' :: trim path

/-- An `IOException` gives the error page as it then is; others pass through. -/
def readFileContents (fs : FileSystem) (permission : FileAccessPermission) (webRoot : Text)
    (ERROR : Option (List UInt8)) (path : Text) : Except JavaError Page :=
  match SecureFileReader.readIn fs permission path webRoot with
  | .ok data => .ok (.contents path data)
  | .error .io => .ok (.error ERROR)
  | .error (.unchecked e) => .error e

/-- The constructor; its own error page is not there yet. -/
def create (fs : FileSystem) (permission : FileAccessPermission) (webRoot : Text) : Except JavaError StaticPageHandler := do
  let header ← readFileContents fs permission webRoot none (resolvedPath webRoot HEADER_FILE)
  let footer ← readFileContents fs permission webRoot none (resolvedPath webRoot FOOTER_FILE)
  let error ← readFileContents fs permission webRoot none (resolvedPath webRoot ERROR_FILE)
  pure ⟨webRoot, permission, header.bytes, footer.bytes, error.bytes.getD (Utf8.encode ERROR_MSG)⟩

/-- The file a request names: the index for an empty one. -/
def requestedFile (webRoot requestPath : Text) : Text :=
  resolvedPath webRoot (if requestPath = ['/'] ∨ requestPath.length < 1 then INDEX_FILE else requestPath)

def handleRequest (H : StaticPageHandler) (fs : FileSystem) (requestPath : Text) : Except JavaError Page :=
  readFileContents fs H.permission H.webRoot (some H.ERROR) (requestedFile H.webRoot requestPath)

/-- What a handler is made with. -/
theorem create_ok {fs : FileSystem} {permission : FileAccessPermission} {webRoot : Text} {H : StaticPageHandler}
    (h : create fs permission webRoot = .ok H) : H.webRoot = webRoot ∧ H.permission = permission := by
  obtain ⟨_, -, h⟩ := bind_eq_ok.mp h
  obtain ⟨_, -, h⟩ := bind_eq_ok.mp h
  obtain ⟨_, -, h⟩ := bind_eq_ok.mp h
  cases h
  exact ⟨rfl, rfl⟩

/-- A request is answered with a file's contents if that is what the verified
read of the file it names returns. -/
theorem handleRequest_contents_iff {H : StaticPageHandler} {fs : FileSystem} {requestPath fileName : Text}
    {data : List UInt8} : H.handleRequest fs requestPath = .ok (.contents fileName data) ↔
      fileName = requestedFile H.webRoot requestPath ∧
        SecureFileReader.readIn fs H.permission fileName H.webRoot = .ok data := by
  unfold handleRequest readFileContents
  constructor
  · intro h
    split at h
    · rename_i d hd
      cases h
      exact ⟨rfl, hd⟩
    · cases h
    · cases h
  · rintro ⟨rfl, h⟩
    rw [h]

/-- **A request is answered with no file outside of the web root if and only if
its path names no readable file in, or called like, a sibling of the web root
whose name starts with the web root's.** -/
theorem handleRequest_confined_iff {fs : FileSystem} {P₀ P : FileAccessPermission} {webRoot snmpMibFilePath : Text}
    {H : StaticPageHandler} (hP : initSecurityPermissions fs P₀ webRoot snmpMibFilePath = .ok P)
    (hH : create fs P webRoot = .ok H) (requestPath : Text) :
    (∀ fileName data, H.handleRequest fs requestPath = .ok (.contents fileName data) →
      ∃ root p, fs.getCanonicalPath webRoot = some root ∧ fs.getCanonicalPath fileName = some p ∧ root.Above p) ↔
    ¬ ∃ root p f data, fs.getCanonicalPath webRoot = some root ∧
      fs.getCanonicalPath (requestedFile webRoot requestPath) = some p ∧
      fs.file (requestedFile webRoot requestPath) = some f ∧ f.canRead = true ∧
      SecureFileReader.fileRead f = .ok data ∧ root.Beside p := by
  obtain ⟨root, d, hroot, hlist, hd, hdir⟩ := initSecurityPermissions_ok hP
  obtain ⟨rfl, rfl⟩ := create_ok hH
  constructor
  · rintro h ⟨root', p, f, data, hroot', hp, hf, hc, hread, hb⟩
    rw [hroot] at hroot'
    cases hroot'
    have hok := (readIn_iff hroot hlist).mpr ⟨p, f, hp, hf, hc, hread, Or.inr hb⟩
    obtain ⟨root', p', hroot', hp', habove⟩ := h _ _ (handleRequest_contents_iff.mpr ⟨rfl, hok⟩)
    rw [hroot] at hroot'
    cases hroot'
    rw [hp] at hp'
    cases hp'
    exact Paths.not_prefix_of_beside hb habove.1
  · intro hno fileName data h
    obtain ⟨rfl, hok⟩ := handleRequest_contents_iff.mp h
    obtain ⟨p, f, hp, hf, hc, hread, hs⟩ := (readIn_iff hroot hlist).mp hok
    rcases hs with hs | hb
    · refine ⟨root, p, hroot, hp, hs, fun he => ?_⟩
      -- the web root itself is a directory, and those cannot be read
      obtain rfl : d = f := fs.same hroot hp he hd hf
      obtain ⟨h1, h2⟩ := d.directory hdir
      rw [SecureFileReader.fileRead, h1, h2] at hread
      cases hread
    · exact absurd ⟨root, p, f, data, hroot, hp, hf, hc, hread, hb⟩ hno

/-! ### A file system without links -/

/-- The names a path leads to from `stack`, with the dots resolved. -/
def resolve : List Text → List Text → List Text
  | stack, [] => stack.reverse
  | stack, n :: ns =>
    if n = [] ∨ n = ['.'] then resolve stack ns
    else if n = ['.', '.'] then resolve stack.tail ns
    else resolve (n :: stack) ns

theorem resolve_valid : ∀ {ns stack : List Text}, Paths.Valid '/' stack → (∀ n ∈ ns, '/' ∉ n) →
    Paths.Valid '/' (resolve stack ns)
  | [], stack, h, _ => fun n hn => h n (List.mem_reverse.mp hn)
  | n :: ns, stack, h, hns => by
    have htail : ∀ m ∈ ns, '/' ∉ m := fun m hm => hns m (List.mem_cons_of_mem _ hm)
    rw [resolve]
    split
    · exact resolve_valid h htail
    · rename_i hn
      rw [not_or] at hn
      split
      · exact resolve_valid (fun m hm => h m (List.mem_of_mem_tail hm)) htail
      · refine resolve_valid (fun m hm => ?_) htail
        rcases List.mem_cons.mp hm with rfl | hm
        · exact ⟨hn.1, hns _ (List.mem_cons_self ..)⟩
        · exact h m hm

def plainFiles (files : List (List Text × FileNode)) : FileSystem where
  getCanonicalPath path :=
    some ⟨resolve [] (path.splitOn '/'), resolve_valid nofun fun _ h => Pieces.not_mem_of_mem_splitOn h⟩
  file path := files.lookup (resolve [] (path.splitOn '/'))
  same := fun {a b p q m n} hp hq he hm hn => by
    cases hp
    cases hq
    have he : resolve [] (a.splitOn '/') = resolve [] (b.splitOn '/') := he
    rw [← he, hm] at hn
    exact Option.some.inj hn

def directoryNode : FileNode := ⟨true, true, true, .ioException, .ioException, fun _ => ⟨rfl, rfl⟩⟩

def fileNode (data : List UInt8) : FileNode := ⟨false, true, true, .contents data, .contents data, nofun⟩

/-- A web root with an index, and a sibling with a longer name. -/
def siblings : FileSystem :=
  plainFiles [([['s', 'r', 'v']], directoryNode), ([['s', 'r', 'v'], ['w', 'w', 'w']], directoryNode),
    ([['s', 'r', 'v'], ['w', 'w', 'w'], INDEX_FILE], fileNode [1]),
    ([['s', 'r', 'v'], ['w', 'w', 'w', '2']], directoryNode),
    ([['s', 'r', 'v'], ['w', 'w', 'w', '2'], ['k', 'e', 'y']], fileNode [2])]

def WEB_ROOT : Text := ['/', 's', 'r', 'v', '/', 'w', 'w', 'w']

def permitted : FileAccessPermission := ⟨[WEB_ROOT], [WEB_ROOT ++ ['/', 'm', 'i', 'b']]⟩

theorem siblings_permitted : initSecurityPermissions siblings ⟨[], []⟩ WEB_ROOT ['m', 'i', 'b'] = .ok permitted := by rfl

def siblingsHandler : StaticPageHandler := ⟨WEB_ROOT, permitted, none, none, Utf8.encode ERROR_MSG⟩

theorem siblings_created : create siblings permitted WEB_ROOT = .ok siblingsHandler := by rfl

/-- The request for the index stays in the web root. -/
theorem handleRequest_confined_iff_index : create siblings permitted WEB_ROOT = .ok siblingsHandler ∧
    ∀ fileName data, siblingsHandler.handleRequest siblings ['/'] = .ok (.contents fileName data) →
      ∃ root p, siblings.getCanonicalPath WEB_ROOT = some root ∧ siblings.getCanonicalPath fileName = some p ∧
        root.Above p := by
  refine ⟨siblings_created, (handleRequest_confined_iff siblings_permitted siblings_created ['/']).mpr ?_⟩
  rintro ⟨root, p, f, data, hroot, hp, -, -, -, hb⟩
  cases hroot
  cases hp
  exact Paths.not_prefix_of_beside hb (by decide)

/-- A request that goes up from the web root and down into the sibling. -/
def escape : Text := ['/', '.', '.', '/', 'w', 'w', 'w', '2', '/', 'k', 'e', 'y']

/-- It is answered with a file of the sibling. -/
theorem siblings_escape : initSecurityPermissions siblings ⟨[], []⟩ WEB_ROOT ['m', 'i', 'b'] = .ok permitted ∧
    create siblings permitted WEB_ROOT = .ok siblingsHandler ∧
    siblingsHandler.handleRequest siblings escape = .ok (.contents (WEB_ROOT ++ '/' :: escape) [2]) ∧
    ¬ ∃ root p, siblings.getCanonicalPath WEB_ROOT = some root ∧
      siblings.getCanonicalPath (WEB_ROOT ++ '/' :: escape) = some p ∧ root.Above p := by
  refine ⟨rfl, rfl, by decide, ?_⟩
  rintro ⟨root, p, hroot, hp, h, -⟩
  cases hroot
  cases hp
  exact absurd h (by decide)

end StaticPageHandler

end Plethora
