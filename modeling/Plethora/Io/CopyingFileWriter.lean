/-
# Writing a file by way of a copy

`CopyingFileWriter`. The text is written to a temporary file, which is renamed
to the destination, or else copied into it; if one of these steps throws an
`IOException`, the text is written to the destination directly. How each step
comes out is given (`StepOutcomes`).

What is written last need not be whole: `Util.close` swallows the exception of
a stream that cannot be flushed. And what has failed need not leave the
destination as it was: it is cut to nothing before it is copied or written to,
and the copy reports failure even where it succeeds. So a write is all or
nothing exactly if none of this comes to pass (`fileWrite_iff`).

Key definitions: `CopyingFileWriter.StepOutcomes`, `CopyingFileWriter.fileWrite`,
`CopyingFileWriter.AllOrNothing`, `CopyingFileWriter.Sound`.
Key theorems: `CopyingFileWriter.checkedWrite_cases`, `CopyingFileWriter.uncheckedWrite_cases`,
`CopyingFileWriter.fileWrite_iff`.
-/
import Plethora.Common.Java
import Plethora.Lib.Charset
import Plethora.Lib.Effects

namespace Plethora

namespace CopyingFileWriter

/-! ### The steps -/

/-- How writing to a stream and closing it comes out: all bytes are in the
file, or `write` throws after some, or closing fails with some of them in the
buffer. The number is of those that are in the file. -/
inductive Stream
  | written
  | failed (count : ℕ)
  | cutOff (count : ℕ)
  deriving DecidableEq

namespace Stream

/-- What is in the file. -/
def content (bytes : List UInt8) : Stream → List UInt8
  | written => bytes
  | failed count => bytes.take count
  | cutOff count => bytes.take count

def throws : Stream → Bool
  | failed _ => true
  | _ => false

end Stream

/-- How the transfer between the channels comes out: it copies a number of
bytes, or one of `size`, `transferFrom` and `close` throws after these. -/
inductive Copy
  | copied (count : ℕ)
  | failed (count : ℕ)
  deriving DecidableEq

def Copy.count : Copy → ℕ
  | copied count => count
  | failed count => count

/-- How the steps come out, should they be taken: true if a check or a call
succeeds. -/
structure StepOutcomes where
  createTempFile : Bool
  tempCanRead : Bool
  fileCanWrite : Bool
  openTemp : Bool
  writeTemp : Stream
  renameTo : Bool
  sourceCanRead : Bool
  destCanWrite : Bool
  openSource : Bool
  openDest : Bool
  copy : Copy
  directCanWrite : Bool
  openDirect : Bool
  writeDirect : Stream

/-- The contents of the temporary file and of the destination. -/
structure Files where
  temp : List UInt8
  dest : List UInt8

inductive Thrown
  | ioException
  | illegalArgument

/-! ### The writer -/

def ioException {α : Type} : Eff Thrown Files α := Eff.lift (.error .ioException)

def check (ok : Bool) : Eff Thrown Files Unit := if ok then pure () else ioException

/-- What is written to a file that has been opened, and its close, which throws
nothing. -/
def writeStream (put : List UInt8 → Files → Files) (stream : Stream) (bytes : List UInt8) : Eff Thrown Files Unit := do
  Eff.modify (put (stream.content bytes))
  if stream.throws then ioException else pure ()

section Writer

variable (io : StepOutcomes)

def uncheckedWrite (str : Text) : Eff Thrown Files Bool :=
  if str = [] then pure true
  else do
    check io.directCanWrite
    check io.openDirect
    writeStream (fun content files => { files with dest := content }) io.writeDirect (Utf8.encode str)
    return true

/-- Opening the destination leaves nothing in it. A transfer that comes to its
end returns false too. -/
def fileCopyByTransfer : Eff Thrown Files Bool := do
  check (io.sourceCanRead && io.destCanWrite)
  check io.openSource
  check io.openDest
  Eff.modify fun files => { files with dest := files.temp.take io.copy.count }
  match io.copy with
  | .copied _ => return false
  | .failed _ => ioException

def fileCopy : Eff Thrown Files Bool :=
  if io.renameTo then do
    Eff.modify fun files => { files with dest := files.temp }
    return true
  else fileCopyByTransfer io

def checkedWrite (str : Text) : Eff Thrown Files Bool :=
  if str = [] then pure true
  else do
    check io.createTempFile
    if !io.tempCanRead || !io.fileCanWrite then Eff.lift (.error .illegalArgument)
    else
      check io.openTemp
      writeStream (fun content files => { files with temp := content }) io.writeTemp (Utf8.encode str)
      fileCopy io

/-- The `catch` of `fileWrite`, and what follows it. -/
def catchChecked (str : Text) : Outcome Thrown Files Bool → Outcome Thrown Files Bool
  | .thrown .ioException files => uncheckedWrite io str files
  | outcome => outcome

/-- `fileWrite`, of a file that is not null. -/
def fileWrite (str : Text) : Eff Thrown Files Bool :=
  if str = [] then pure true else fun files => catchChecked io str (checkedWrite io str files)

end Writer

/-- With true the destination holds the text, and otherwise what it did. -/
def AllOrNothing (old bytes : List UInt8) : Outcome Thrown Files Bool → Prop
  | .returned true files => files.dest = bytes
  | .returned false files => files.dest = old
  | .thrown _ files => files.dest = old
  | .unfinished => False

/-! ### Which steps are taken -/

namespace StepOutcomes

variable (io : StepOutcomes)

/-- The temporary file is written, for all that is noticed. -/
def WroteTemp : Prop :=
  io.createTempFile = true ∧ io.tempCanRead = true ∧ io.fileCanWrite = true ∧ io.openTemp = true ∧
    io.writeTemp.throws = false

/-- The destination is opened to be copied to. -/
def Copies : Prop :=
  io.WroteTemp ∧ io.renameTo = false ∧ io.sourceCanRead = true ∧ io.destCanWrite = true ∧ io.openSource = true ∧
    io.openDest = true

/-- Writing by way of a copy throws an `IOException`. -/
def Falls : Prop :=
  (io.createTempFile = true → io.tempCanRead = true ∧ io.fileCanWrite = true) ∧
    (io.WroteTemp → io.renameTo = false) ∧ (io.Copies → ∃ count, io.copy = .failed count)

/-- The destination is opened to be written to. -/
def Opens : Prop := io.directCanWrite = true ∧ io.openDirect = true

end StepOutcomes

/-- The condition on the steps. -/
structure Sound (io : StepOutcomes) (old bytes : List UInt8) : Prop where
  /-- What is renamed is whole. -/
  renamed : io.WroteTemp → io.renameTo = true → io.writeTemp.content bytes = bytes
  /-- A copy that comes to its end is of what there was. -/
  copied : io.Copies → ∀ count, io.copy = .copied count → (io.writeTemp.content bytes).take count = old
  /-- What is written directly is whole, -/
  cutOff : io.Falls → io.Opens → ∀ count, io.writeDirect = .cutOff count → bytes.take count = bytes
  /-- or is what there was, where `write` throws. -/
  failed : io.Falls → io.Opens → ∀ count, io.writeDirect = .failed count → bytes.take count = old
  /-- A copy that throws leaves what there was, where nothing is written then. -/
  unopened : io.Falls → ¬ io.Opens → io.Copies → (io.writeTemp.content bytes).take io.copy.count = old

/-! ### What the two ways to write come to -/

variable {io : StepOutcomes} {str : Text} {files : Files}

@[simp] theorem check_true_bind {α : Type} (x : Unit → Eff Thrown Files α) : (check true >>= x) = x () := rfl

theorem writeStream_throws_bind {stream : Stream} (h : stream.throws = true) (put : List UInt8 → Files → Files)
    (bytes : List UInt8) {α : Type} (x : Unit → Eff Thrown Files α) :
    (writeStream put stream bytes >>= x) files = .thrown .ioException (put (stream.content bytes) files) := by
  rw [writeStream, if_pos h]
  rfl

theorem writeStream_bind {stream : Stream} (h : stream.throws = false) (put : List UInt8 → Files → Files)
    (bytes : List UInt8) {α : Type} (x : Unit → Eff Thrown Files α) :
    (writeStream put stream bytes >>= x) files = x () (put (stream.content bytes) files) := by
  rw [writeStream, if_neg (Bool.eq_false_iff.mp h)]
  rfl

/-- How the direct write ends. -/
inductive Unchecked (io : StepOutcomes) (str : Text) (files : Files) : Outcome Thrown Files Bool → Prop
  | unopened (h : ¬ io.Opens) : Unchecked io str files (.thrown .ioException files)
  | written (h : io.Opens) (hw : io.writeDirect = .written) :
      Unchecked io str files (.returned true { files with dest := Utf8.encode str })
  | failed (h : io.Opens) (count : ℕ) (hw : io.writeDirect = .failed count) :
      Unchecked io str files (.thrown .ioException { files with dest := (Utf8.encode str).take count })
  | cutOff (h : io.Opens) (count : ℕ) (hw : io.writeDirect = .cutOff count) :
      Unchecked io str files (.returned true { files with dest := (Utf8.encode str).take count })

theorem uncheckedWrite_cases (hs : str ≠ []) : Unchecked io str files (uncheckedWrite io str files) := by
  rw [uncheckedWrite, if_neg hs]
  cases hc : io.directCanWrite with
  | false => exact .unopened fun h => Bool.false_ne_true (hc.symm.trans h.1)
  | true =>
    rw [check_true_bind]
    cases ho : io.openDirect with
    | false => exact .unopened fun h => Bool.false_ne_true (ho.symm.trans h.2)
    | true =>
      rw [check_true_bind]
      cases hw : io.writeDirect with
      | written => exact .written ⟨hc, ho⟩ hw
      | failed count => exact .failed ⟨hc, ho⟩ count hw
      | cutOff count => exact .cutOff ⟨hc, ho⟩ count hw

/-- How the write by way of a copy ends. -/
inductive Checked (io : StepOutcomes) (str : Text) (files : Files) : Outcome Thrown Files Bool → Prop
  | refused (h : ¬ io.Falls) (hc : ¬ io.WroteTemp) : Checked io str files (.thrown .illegalArgument files)
  | renamed (h : io.WroteTemp) (hr : io.renameTo = true) (temp : List UInt8) :
      Checked io str files (.returned true ⟨temp, io.writeTemp.content (Utf8.encode str)⟩)
  | copied (h : io.Copies) (count : ℕ) (hc : io.copy = .copied count) (temp : List UInt8) :
      Checked io str files (.returned false ⟨temp, (io.writeTemp.content (Utf8.encode str)).take count⟩)
  | uncopied (h : io.Falls) (hc : io.Copies) (temp : List UInt8) :
      Checked io str files
        (.thrown .ioException ⟨temp, (io.writeTemp.content (Utf8.encode str)).take io.copy.count⟩)
  | intact (h : io.Falls) (hc : ¬ io.Copies) (temp : List UInt8) :
      Checked io str files (.thrown .ioException ⟨temp, files.dest⟩)

theorem falls_of_not_wroteTemp (h : io.createTempFile = true → io.tempCanRead = true ∧ io.fileCanWrite = true)
    (hw : ¬ io.WroteTemp) : io.Falls :=
  ⟨h, fun hw' => absurd hw' hw, fun hc => absurd hc.1 hw⟩

/-- With a temporary file, the transfer ends in one of three ways. -/
theorem transfer_cases (hw : io.WroteTemp) (hr : io.renameTo = false) :
    Checked io str files (fileCopyByTransfer io ⟨io.writeTemp.content (Utf8.encode str), files.dest⟩) := by
  have hperms : io.createTempFile = true → io.tempCanRead = true ∧ io.fileCanWrite = true := fun _ => ⟨hw.2.1, hw.2.2.1⟩
  have hintact : ¬ io.Copies → io.Falls := fun hc => ⟨hperms, fun _ => hr, fun hc' => absurd hc' hc⟩
  unfold fileCopyByTransfer
  cases hread : (io.sourceCanRead && io.destCanWrite) with
  | false =>
    have hc : ¬ io.Copies := by
      rintro ⟨-, -, h, h', -⟩
      rw [h, h'] at hread
      cases hread
    exact .intact (hintact hc) hc _
  | true =>
    rw [check_true_bind]
    cases hs : io.openSource with
    | false =>
      have hc : ¬ io.Copies := fun h => Bool.false_ne_true (hs.symm.trans h.2.2.2.2.1)
      exact .intact (hintact hc) hc _
    | true =>
      rw [check_true_bind]
      cases hd : io.openDest with
      | false =>
        have hc : ¬ io.Copies := fun h => Bool.false_ne_true (hd.symm.trans h.2.2.2.2.2)
        exact .intact (hintact hc) hc _
      | true =>
        rw [check_true_bind]
        have hboth := (Bool.and_eq_true _ _).mp hread
        have hc : io.Copies := ⟨hw, hr, hboth.1, hboth.2, hs, hd⟩
        cases hcopy : io.copy with
        | copied count => exact .copied hc count hcopy _
        | failed count =>
          have hfalls : io.Falls := ⟨hperms, fun _ => hr, fun _ => ⟨count, hcopy⟩⟩
          have hend : Checked io str files (.thrown .ioException ⟨io.writeTemp.content (Utf8.encode str),
              (io.writeTemp.content (Utf8.encode str)).take io.copy.count⟩) := .uncopied hfalls hc _
          rw [hcopy] at hend
          exact hend

/-- **How the write by way of a copy ends.** -/
theorem checkedWrite_cases (hs : str ≠ []) : Checked io str files (checkedWrite io str files) := by
  rw [checkedWrite, if_neg hs]
  cases hcreate : io.createTempFile with
  | false =>
    have hw : ¬ io.WroteTemp := fun h => Bool.false_ne_true (hcreate.symm.trans h.1)
    have hfalls : io.Falls := falls_of_not_wroteTemp (fun h => absurd (hcreate.symm.trans h) Bool.false_ne_true) hw
    exact .intact hfalls (fun hc => hw hc.1) files.temp
  | true =>
    rw [check_true_bind]
    by_cases hperms : io.tempCanRead = true ∧ io.fileCanWrite = true
    · have hno : ¬ (!io.tempCanRead || !io.fileCanWrite) = true := by simp [hperms.1, hperms.2]
      rw [if_neg hno]
      cases hopen : io.openTemp with
      | false =>
        have hw : ¬ io.WroteTemp := fun h => Bool.false_ne_true (hopen.symm.trans h.2.2.2.1)
        exact .intact (falls_of_not_wroteTemp (fun _ => hperms) hw) (fun hc => hw hc.1) files.temp
      | true =>
        rw [check_true_bind]
        cases hthrows : io.writeTemp.throws with
        | true =>
          have hw : ¬ io.WroteTemp := fun h => Bool.false_ne_true (h.2.2.2.2.symm.trans hthrows)
          rw [writeStream_throws_bind hthrows]
          exact .intact (falls_of_not_wroteTemp (fun _ => hperms) hw) (fun hc => hw hc.1) _
        | false =>
          have hw : io.WroteTemp := ⟨hcreate, hperms.1, hperms.2, hopen, hthrows⟩
          rw [writeStream_bind hthrows, fileCopy]
          cases hr : io.renameTo with
          | true => exact .renamed hw hr _
          | false => exact transfer_cases hw hr
    · have hyes : (!io.tempCanRead || !io.fileCanWrite) = true := by
        rw [Bool.or_eq_true, Bool.not_eq_true', Bool.not_eq_true']
        by_contra h
        simp only [not_or, Bool.not_eq_false] at h
        exact hperms h
      rw [if_pos hyes]
      exact .refused (fun h => hperms (h.1 hcreate)) fun h => hperms ⟨h.2.1, h.2.2.1⟩

/-! ### All or nothing -/

variable {old : List UInt8}

/-- The direct write, from a destination that may have changed. -/
theorem uncheckedWrite_iff (hs : str ≠ []) :
    AllOrNothing old (Utf8.encode str) (uncheckedWrite io str files) ↔
      (io.Opens → ∀ count, io.writeDirect = .cutOff count → (Utf8.encode str).take count = Utf8.encode str) ∧
      (io.Opens → ∀ count, io.writeDirect = .failed count → (Utf8.encode str).take count = old) ∧
      (¬ io.Opens → files.dest = old) := by
  generalize hr : uncheckedWrite io str files = result
  have hcases : Unchecked io str files (uncheckedWrite io str files) := uncheckedWrite_cases hs
  rw [hr] at hcases
  cases hcases with
  | unopened h =>
    refine ⟨fun hall => ⟨fun ho => absurd ho h, fun ho => absurd ho h, fun _ => hall⟩, fun hall => hall.2.2 h⟩
  | written h hw =>
    refine iff_of_true rfl ⟨fun _ count hc => ?_, fun _ count hc => ?_, fun hno => absurd h hno⟩
    · rw [hw] at hc
      cases hc
    · rw [hw] at hc
      cases hc
  | failed h count hw =>
    constructor
    · refine fun hall => ⟨fun _ count' hc => ?_, fun _ count' hc => ?_, fun hno => absurd h hno⟩
      · rw [hw] at hc
        cases hc
      · rw [hw] at hc
        cases hc
        exact hall
    · exact fun hall => hall.2.1 h count hw
  | cutOff h count hw =>
    constructor
    · refine fun hall => ⟨fun _ count' hc => ?_, fun _ count' hc => ?_, fun hno => absurd h hno⟩
      · rw [hw] at hc
        cases hc
        exact hall
      · rw [hw] at hc
        cases hc
    · exact fun hall => hall.1 h count hw

theorem not_falls_of_copied (hc : io.Copies) {count : ℕ} (h : io.copy = .copied count) : ¬ io.Falls := by
  intro hf
  obtain ⟨count', h'⟩ := hf.2.2 hc
  rw [h] at h'
  cases h'

/-- Where the write by way of a copy throws, the rest is the direct write. -/
theorem sound_iff_of_falls (hf : io.Falls) {bytes : List UInt8} :
    Sound io old bytes ↔
      (io.Opens → ∀ count, io.writeDirect = .cutOff count → bytes.take count = bytes) ∧
      (io.Opens → ∀ count, io.writeDirect = .failed count → bytes.take count = old) ∧
      (¬ io.Opens → io.Copies → (io.writeTemp.content bytes).take io.copy.count = old) := by
  constructor
  · exact fun h => ⟨h.cutOff hf, h.failed hf, h.unopened hf⟩
  · rintro ⟨hcut, hfailed, hunopened⟩
    refine ⟨fun hw hr => ?_, fun hc count hcopy => ?_, fun _ => hcut, fun _ => hfailed, fun _ => hunopened⟩
    · exact absurd ((hf.2.1 hw).symm.trans hr) Bool.false_ne_true
    · exact absurd hf (not_falls_of_copied hc hcopy)

theorem fileWrite_eq (hs : str ≠ []) : fileWrite io str files = catchChecked io str (checkedWrite io str files) :=
  congrFun (if_neg hs) files

/-- **A write is all or nothing exactly if its steps are sound.** -/
theorem fileWrite_iff (io : StepOutcomes) (old : List UInt8) (hs : str ≠ []) :
    AllOrNothing old (Utf8.encode str) (fileWrite io str ⟨[], old⟩) ↔ Sound io old (Utf8.encode str) := by
  rw [fileWrite_eq hs]
  generalize hr : checkedWrite io str ⟨[], old⟩ = result
  have hcases : Checked io str ⟨[], old⟩ (checkedWrite io str ⟨[], old⟩) := checkedWrite_cases hs
  rw [hr] at hcases
  cases hcases with
  | refused h hw =>
    exact iff_of_true rfl ⟨fun h' => absurd h' hw, fun h' => absurd h'.1 hw, fun h' => absurd h' h,
      fun h' => absurd h' h, fun h' => absurd h' h⟩
  | renamed h hren temp =>
    have hf : ¬ io.Falls := fun hf => absurd ((hf.2.1 h).symm.trans hren) Bool.false_ne_true
    have hc : ¬ io.Copies := fun hc => absurd (hc.2.1.symm.trans hren) Bool.false_ne_true
    constructor
    · exact fun hall => ⟨fun _ _ => hall, fun h' => absurd h' hc, fun h' => absurd h' hf, fun h' => absurd h' hf,
        fun h' => absurd h' hf⟩
    · exact fun hsound => hsound.renamed h hren
  | copied h count hcopy temp =>
    have hf := not_falls_of_copied h hcopy
    constructor
    · refine fun hall => ⟨fun _ hren => absurd (h.2.1.symm.trans hren) Bool.false_ne_true, fun _ count' hcopy' => ?_,
        fun h' => absurd h' hf, fun h' => absurd h' hf, fun h' => absurd h' hf⟩
      rw [hcopy] at hcopy'
      cases hcopy'
      exact hall
    · exact fun hsound => hsound.copied h count hcopy
  | uncopied h hc temp =>
    rw [sound_iff_of_falls h]
    refine (uncheckedWrite_iff hs).trans ?_
    refine and_congr_right fun _ => and_congr_right fun _ => forall_congr' fun _ => ?_
    exact ⟨fun h _ => h, fun h => h hc⟩
  | intact h hc temp =>
    rw [sound_iff_of_falls h]
    refine (uncheckedWrite_iff hs).trans ?_
    refine and_congr_right fun _ => and_congr_right fun _ => forall_congr' fun _ => ?_
    exact iff_of_true rfl fun hc' => absurd hc' hc

/-- All steps succeed. -/
def allSucceed : StepOutcomes where
  createTempFile := true
  tempCanRead := true
  fileCanWrite := true
  openTemp := true
  writeTemp := .written
  renameTo := true
  sourceCanRead := true
  destCanWrite := true
  openSource := true
  openDest := true
  copy := .copied 2
  directCanWrite := true
  openDirect := true
  writeDirect := .written

theorem fileWrite_iff_allSucceed :
    AllOrNothing [48] (Utf8.encode "ok".toList) (fileWrite allSucceed "ok".toList ⟨[], [48]⟩) := by
  have hno : ¬ allSucceed.Falls := fun h => absurd (h.2.1 ⟨rfl, rfl, rfl, rfl, rfl⟩) (by decide)
  refine (fileWrite_iff allSucceed [48] (by decide)).mpr ⟨fun _ _ => rfl, fun h => ?_, fun h => absurd h hno,
    fun h => absurd h hno, fun h => absurd h hno⟩
  exact absurd h.2.1 (by decide)

/-- The file cannot be renamed, and is copied: the writer says that it failed. -/
theorem copied_not_true :
    ¬ (∀ (io : StepOutcomes) (old : List UInt8) (str : Text), str ≠ [] →
      AllOrNothing old (Utf8.encode str) (fileWrite io str ⟨[], old⟩)) ∧
    fileWrite { allSucceed with renameTo := false } "ok".toList ⟨[], [48]⟩ =
      .returned false ⟨Utf8.encode "ok".toList, Utf8.encode "ok".toList⟩ := by
  have hrun : fileWrite { allSucceed with renameTo := false } "ok".toList ⟨[], [48]⟩ =
      .returned false ⟨Utf8.encode "ok".toList, Utf8.encode "ok".toList⟩ := by rfl
  refine ⟨fun h => ?_, hrun⟩
  have hall := h { allSucceed with renameTo := false } [48] "ok".toList (by decide)
  rw [hrun] at hall
  have hsame : Utf8.encode "ok".toList = [48] := hall
  exact absurd hsame (by decide)

end CopyingFileWriter

end Plethora
