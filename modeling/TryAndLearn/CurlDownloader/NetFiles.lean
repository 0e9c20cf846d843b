import Mathlib.Data.List.Induction
import TryAndLearn.CurlDownloader.Leftovers

/-!
# A session of downloads

`IsNetFile` tells the URLs that may be given to `Download`: they have a `'/'`, so no call
throws.  What a session of calls leaves behind is what there was before, and for each
missing file what the first call for it has written (`stored`).  The name of a file has no
`'/'`, so a new file is in the model directory itself.
-/

namespace TryAndLearn
namespace CurlDownloader

/-- `BeginWith(s, prefix)` -/
def beginWith (s pre : List Char) : Bool :=
  if s.length < pre.length then false else decide (pre = s.take pre.length)

def protocols : List (List Char) :=
  ["http://".toList, "https://".toList, "ftp://".toList]

/-- The loop of `IsNetFile` ends at the first protocol that fits. -/
def isNetFile (url : List Char) : Bool := protocols.any (beginWith url)

/-- The model directory is there, with its entries for itself and its parent. -/
def IsDirectory (fs : FileSystem) (dir : List Char) : Prop :=
  ∀ name ∈ [[], ['.'], ['.', '.']], fs (dir ++ '/' :: name) = some .directory

/-- What the calls leave at `path` if nothing was there before. -/
def stored (modelDir : List Char) (calls : List Call) (path : List Char) : Option Entry :=
  (calls.find? fun c => filePath modelDir c.url = some path).map fun c =>
    .file c.transfer.written

/-- `path` is a file in `dir` and not further down or up. -/
def Inside (dir path : List Char) : Prop :=
  ∃ name, path = dir ++ '/' :: name ∧ '/' ∉ name ∧ name ∉ [[], ['.'], ['.', '.']]

section

variable {modelDir path url returned : List Char} {fs₀ fs fs' : FileSystem} {c : Call}
  {calls : List Call} {log before after : List Event} {e : Event}

/-! ## Which URLs and which paths -/

theorem beginWith_iff {s pre : List Char} : beginWith s pre = true ↔ pre <+: s := by
  rw [List.prefix_iff_eq_take, beginWith]
  by_cases hlen : s.length < pre.length
  · simp only [if_pos hlen, Bool.false_eq_true, false_iff]
    intro heq
    have := congrArg List.length heq
    rw [List.length_take] at this
    omega
  · simp only [if_neg hlen, decide_eq_true_eq]

/-- Every protocol has a `'/'`. -/
theorem slash_of_isNetFile (h : isNetFile url = true) : '/' ∈ url := by
  obtain ⟨pre, hpre, hbegin⟩ := List.any_eq_true.mp h
  have hslash : ∀ pre ∈ protocols, '/' ∈ pre := by decide
  exact (beginWith_iff.mp hbegin).subset (hslash pre hpre)

/-- `find_last_of` finds the last one. -/
theorem drop_of_findLastOf {d : Char} {s : List Char} {pos : Nat}
    (h : findLastOf d s = some pos) : ∃ name, s.drop pos = d :: name ∧ d ∉ name := by
  induction s generalizing pos with
  | nil => cases h
  | cons x s ih =>
    unfold findLastOf at h
    split at h
    · rename_i pos' hs
      obtain rfl := Option.some.inj h
      exact ih hs
    · rename_i hs
      obtain ⟨rfl, hpos⟩ := Option.ite_none_right_eq_some.mp h
      obtain rfl := Option.some.inj hpos
      refine ⟨s, rfl, fun hmem => ?_⟩
      rw [← findLastOf_isSome, hs] at hmem
      exact absurd hmem (by decide)

theorem filePath_cases (h : filePath modelDir url = some path) :
    ∃ name, path = modelDir ++ '/' :: name ∧ '/' ∉ name := by
  obtain ⟨pos, hpos, rfl⟩ := Option.map_eq_some_iff.mp h
  obtain ⟨name, hdrop, hname⟩ := drop_of_findLastOf hpos
  exact ⟨name, by rw [hdrop], hname⟩

/-! ## What a session leaves -/

theorem stored_append (modelDir : List Char) (calls : List Call) (c : Call) (p : List Char) :
    stored modelDir (calls ++ [c]) p = (stored modelDir calls p).or
      (if filePath modelDir c.url = some p then some (.file c.transfer.written) else none) := by
  simp only [stored, List.find?_append, List.find?_singleton]
  cases calls.find? fun c => filePath modelDir c.url = some p with
  | some c' => rfl
  | none => by_cases hp : filePath modelDir c.url = some p <;> simp [hp]

/-- A call puts its file where there is none. -/
theorem Downloaded.files (h : Downloaded fs c path returned fs') (p : List Char) :
    fs' p = (fs p).or (if path = p then some (.file c.transfer.written) else none) := by
  have hfetched (hnone : fs path = none) :
      fetched fs path c p =
        (fs p).or (if path = p then some (.file c.transfer.written) else none) := by
    by_cases hp : path = p
    · subst hp
      rw [fetched_self, hnone, if_pos rfl]
      rfl
    · rw [fetched_of_ne (Ne.symm hp), if_neg hp, Option.or_none]
  cases h with
  | skipped hentry =>
    by_cases hp : path = p
    · subst hp
      rw [hentry]
      rfl
    · rw [if_neg hp, Option.or_none]
  | done hnone _ | failed hnone _ => exact hfetched hnone

theorem session_stored (h : Session modelDir fs₀ fs log) (p : List Char) :
    fs p = (fs₀ p).or (stored modelDir (log.map Event.call) p) := by
  refine h.traced_invariant
    (I := fun fs log => fs p = (fs₀ p).or (stored modelDir (log.map Event.call) p)) ?_ ?_
  · intro fs fs' log c _ _ hs hI
    obtain ⟨⟨returned, fs''⟩, hd, rfl⟩ := Option.map_eq_some_iff.mp hs
    obtain ⟨path, hpath, hcases⟩ := downloaded_of_download hd
    have hcalls : (log ++ see modelDir fs c fs'').map Event.call = log.map Event.call ++ [c] := by
      simp [see, hd]
    rw [hcalls, stored_append, ← Option.or_assoc, ← hI, hpath]
    simpa only [Option.some.injEq] using hcases.files p
  · exact Option.or_none.symm

/-- A path that is stored is that of a call. -/
theorem filePath_of_stored {entry : Entry} (h : stored modelDir calls path = some entry) :
    ∃ c ∈ calls, filePath modelDir c.url = some path := by
  obtain ⟨c, hc, _⟩ := Option.map_eq_some_iff.mp h
  exact ⟨c, List.mem_of_find?_eq_some hc, by simpa using List.find?_some hc⟩

theorem session_inside (hdir : IsDirectory fs₀ modelDir) (h : Session modelDir fs₀ fs log)
    (hp : fs path ≠ fs₀ path) : Inside modelDir path := by
  have hfs := session_stored h path
  have hnone : fs₀ path = none := by
    by_contra hsome
    obtain ⟨entry, hentry⟩ := Option.ne_none_iff_exists'.mp hsome
    rw [hentry] at hfs hp
    exact hp hfs
  rw [hnone, Option.none_or] at hfs
  obtain ⟨entry, hentry⟩ := Option.ne_none_iff_exists'.mp fun heq => hp (heq.trans hnone.symm)
  obtain ⟨c, _, hpath⟩ := filePath_of_stored (hfs.symm.trans hentry)
  obtain ⟨name, rfl, hname⟩ := filePath_cases hpath
  refine ⟨name, rfl, hname, fun hmem => ?_⟩
  exact absurd (hnone.symm.trans (hdir name hmem)) (by simp)

/-- What a call returns: its path, unless it has to fetch the file and fails. -/
theorem session_returned (h : Session modelDir fs₀ fs log) (hlog : log = before ++ e :: after) :
    ∃ path, filePath modelDir e.call.url = some path ∧
      (e.returned = path ∨ e.returned = []) ∧
      (e.returned = [] ↔ fs₀ path = none ∧ stored modelDir (before.map Event.call) path = none ∧
        e.call.transfer.code ≠ curleOk) := by
  obtain ⟨hbefore, hd⟩ := session_before h hlog
  obtain ⟨path, hpath, hcases⟩ := downloaded_of_download hd
  have hne := filePath_ne_nil hpath
  have hfs := session_stored hbefore path
  refine ⟨path, hpath, ?_⟩
  rw [← and_assoc, ← Option.or_eq_none_iff, ← hfs]
  generalize e.returned = back at hcases
  generalize e.after = fs' at hcases
  cases hcases with
  | skipped hentry => simp [hne, hentry]
  | done _ hok => simp [hne, hok]
  | failed hnone hfail => simp [hnone, hfail]

/-! ## Calls with the URLs of net files -/

theorem exists_download (hurl : '/' ∈ c.url) (fs : FileSystem) :
    ∃ r, download modelDir fs c = some r := by
  obtain ⟨path, hpath⟩ := Option.isSome_iff_exists.mp (filePath_isSome.mpr hurl)
  exact ⟨_, by rw [download, hpath]; rfl⟩

/-- No call throws. -/
theorem exists_session (hnet : ∀ c ∈ calls, isNetFile c.url = true) (fs₀ : FileSystem) :
    ∃ fs log, Session modelDir fs₀ fs log ∧ log.map Event.call = calls := by
  induction calls using List.reverseRecOn with
  | nil => exact ⟨fs₀, [], .refl, rfl⟩
  | append_singleton calls c ih =>
    obtain ⟨fs, log, hsession, hcalls⟩ := ih fun c hc => hnet c (List.mem_append_left _ hc)
    have hslash := slash_of_isNetFile (hnet c (by simp))
    obtain ⟨⟨returned, fs'⟩, hd⟩ : ∃ r, download modelDir fs c = some r :=
      exists_download hslash fs
    have hstep : (machine modelDir).step fs c = some fs' := by
      show (download modelDir fs c).map Prod.snd = some fs'
      rw [hd]
      rfl
    refine ⟨fs', log ++ see modelDir fs c fs',
      hsession.tail (a := c) trivial (Machine.traced_step.mpr ⟨hstep, rfl⟩), ?_⟩
    simp [see, hd, hcalls]

end

/-- An empty model directory. -/
def emptyDirectory (path : List Char) : Option Entry :=
  if path ∈ ["./".toList, "./.".toList, "./..".toList] then some .directory else none

/-- Two servers have a file of the same name, and the second transfer would fail. -/
def twoServers : List Call :=
  [⟨"https://a/m".toList, [1], curleOk⟩, ⟨"ftp://b/m".toList, [2], 18⟩]

end CurlDownloader
end TryAndLearn
