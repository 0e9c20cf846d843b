import Mathlib.Logic.Function.Basic
import TryAndLearn.Machine.Trace

/-!
# `CurlDownloader`

`Download` names a file after the last part of the URL and fetches the URL into it,
unless the file is there already.  `fopen` with mode `"wb"` creates the file before the
transfer starts, and `~FileHandle` closes it on every way out of the branch.

What libcurl does in a call is the `Transfer` of the call: it writes some bytes to the
`FILE` it was given and returns some code.  The file is opened successfully.
-/

namespace TryAndLearn
namespace CurlDownloader

inductive Entry
  | file (content : List UInt8)
  | directory
  deriving DecidableEq, Repr

/-- What there is at a path. -/
abbrev FileSystem := List Char → Option Entry

/-- What `curl_easy_perform` does: the bytes it writes and the `CURLcode` it returns. -/
structure Transfer where
  written : List UInt8
  code : Nat
  deriving DecidableEq, Repr

/-- `CURLE_OK` -/
def curleOk : Nat := 0

structure Call where
  url : List Char
  transfer : Transfer
  deriving DecidableEq, Repr

/-- `access(path, F_OK) == 0` -/
def access (fs : FileSystem) (path : List Char) : Bool := (fs path).isSome

/-- `fopen(path, "wb")`, which leaves an empty file. -/
def fopen (fs : FileSystem) (path : List Char) : FileSystem :=
  Function.update fs path (some (.file []))

/-- Bytes written at the end of an open file. -/
def fwrite (fs : FileSystem) (path : List Char) (bytes : List UInt8) : FileSystem :=
  match fs path with
  | some (.file content) => Function.update fs path (some (.file (content ++ bytes)))
  | some .directory | none => fs

/-- `s.find_last_of(c)`, `none` for `npos`. -/
def findLastOf (c : Char) : List Char → Option Nat
  | [] => none
  | d :: s =>
    match findLastOf c s with
    | some pos => some (pos + 1)
    | none => if d = c then some 0 else none

/-- `model_dir_ + url.substr(url.find_last_of('/'))`.  Without a `'/'` in the URL `substr`
throws. -/
def filePath (modelDir url : List Char) : Option (List Char) :=
  (findLastOf '/' url).map fun pos => modelDir ++ url.drop pos

/-- The path returned, empty for a transfer that failed, and the file system after the
call. -/
def download (modelDir : List Char) (fs : FileSystem) (c : Call) :
    Option (List Char × FileSystem) :=
  (filePath modelDir c.url).map fun path =>
    if access fs path then (path, fs)
    else
      let fs := fwrite (fopen fs path) path c.transfer.written
      if c.transfer.code ≠ curleOk then ([], fs) else (path, fs)

/-! ## Sequences of calls -/

/-- A call of `Download` that has returned. -/
structure Event where
  call : Call
  before : FileSystem
  returned : List Char
  after : FileSystem

def see (modelDir : List Char) (fs : FileSystem) (c : Call) (_ : FileSystem) : List Event :=
  (download modelDir fs c).toList.map fun (returned, after) => ⟨c, fs, returned, after⟩

/-- Any file system and calls with URLs that contain a `'/'`. -/
def machine (modelDir : List Char) : Machine FileSystem Call where
  init _ := True
  step fs c := (download modelDir fs c).map Prod.snd

/-! ## The call as cases -/

/-- The call leaves at `path` what its transfer has written. -/
def fetched (fs : FileSystem) (path : List Char) (c : Call) : FileSystem :=
  Function.update fs path (some (.file c.transfer.written))

inductive Downloaded (fs : FileSystem) (c : Call) (path : List Char) :
    List Char → FileSystem → Prop
  | skipped {entry} (h : fs path = some entry) : Downloaded fs c path path fs
  | done (h : fs path = none) (hok : c.transfer.code = curleOk) :
      Downloaded fs c path path (fetched fs path c)
  | failed (h : fs path = none) (hfail : c.transfer.code ≠ curleOk) :
      Downloaded fs c path [] (fetched fs path c)

section

variable {modelDir url path : List Char} {fs fs' : FileSystem} {c : Call}

theorem findLastOf_isSome (c : Char) (s : List Char) : (findLastOf c s).isSome ↔ c ∈ s := by
  induction s with
  | nil => simp [findLastOf]
  | cons d s ih =>
    cases hs : findLastOf c s with
    | some pos =>
      rw [hs] at ih
      simp [findLastOf, hs, ih.mp rfl]
    | none =>
      rw [hs] at ih
      have hnot : c ∉ s := fun h => absurd (ih.mpr h) (by simp)
      by_cases hd : d = c
      · simp [findLastOf, hs, hd]
      · simp [findLastOf, hs, hd, hnot, Ne.symm hd]

/-- What `find_last_of` finds is there. -/
theorem getElem?_of_findLastOf {c : Char} {s : List Char} {pos : Nat}
    (h : findLastOf c s = some pos) : s[pos]? = some c := by
  induction s generalizing pos with
  | nil => cases h
  | cons d s ih =>
    unfold findLastOf at h
    split at h
    · rename_i pos' hs
      obtain rfl := Option.some.inj h
      rw [List.getElem?_cons_succ]
      exact ih hs
    · obtain ⟨hd, hpos⟩ := Option.ite_none_right_eq_some.mp h
      rw [← Option.some.inj hpos, hd]
      rfl

/-- A call is possible if the URL has a `'/'`. -/
theorem filePath_isSome : (filePath modelDir url).isSome ↔ '/' ∈ url := by
  rw [filePath, Option.isSome_map]
  exact findLastOf_isSome '/' url

/-- The path ends in the last part of the URL, which starts with its `'/'`. -/
theorem filePath_ne_nil (h : filePath modelDir url = some path) : path ≠ [] := by
  obtain ⟨pos, hpos, rfl⟩ := Option.map_eq_some_iff.mp h
  have hslash := getElem?_of_findLastOf hpos
  intro hnil
  have hdrop : url.drop pos = [] := (List.append_eq_nil_iff.mp hnil).2
  have hlt := (List.getElem?_eq_some_iff.mp hslash).1
  have := List.drop_eq_nil_iff.mp hdrop
  omega

theorem fwrite_fopen (fs : FileSystem) (path : List Char) (c : Call) :
    fwrite (fopen fs path) path c.transfer.written = fetched fs path c := by
  simp [fwrite, fopen, fetched]

theorem downloaded_of_download {returned : List Char}
    (h : download modelDir fs c = some (returned, fs')) :
    ∃ path, filePath modelDir c.url = some path ∧ Downloaded fs c path returned fs' := by
  obtain ⟨path, hpath, h⟩ := Option.map_eq_some_iff.mp h
  refine ⟨path, hpath, ?_⟩
  rw [fwrite_fopen] at h
  cases hfs : fs path with
  | some entry =>
    rw [access, hfs] at h
    obtain ⟨rfl, rfl⟩ := Prod.mk.inj h
    exact .skipped hfs
  | none =>
    simp only [access, hfs, Option.isSome_none, Bool.false_eq_true, if_false] at h
    by_cases hcode : c.transfer.code = curleOk
    · rw [if_neg (not_not.mpr hcode)] at h
      obtain ⟨rfl, rfl⟩ := Prod.mk.inj h
      exact .done hfs hcode
    · rw [if_pos hcode] at h
      obtain ⟨rfl, rfl⟩ := Prod.mk.inj h
      exact .failed hfs hcode

end

end CurlDownloader
end TryAndLearn
