import TryAndLearn.CurlDownloader.Basic

/-!
# What a failed download leaves behind

The file of a call is created before its transfer, and nothing removes it when the
transfer fails.  A later call for the same file finds it there and takes it for a model
that has been downloaded.

A file that is there is never written again, so the first call for a file decides what is
in it (`Known`).
-/

namespace TryAndLearn
namespace CurlDownloader

section

variable (modelDir : List Char)

/-- A sequence of calls takes the file system from `fs₀` to `fs`. -/
abbrev Session (fs₀ fs : FileSystem) (log : List Event) : Prop :=
  ((machine modelDir).traced (see modelDir)).Run (Machine.lift Machine.anyStep)
    (fs₀, []) (fs, log)

/-- The call found nothing at `path` and put `entry` there. -/
def Event.Wrote (e : Event) (path : List Char) (entry : Entry) : Prop :=
  filePath modelDir e.call.url = some path ∧ e.before path = none ∧
    entry = .file e.call.transfer.written

/-- A call that fails changes nothing, and a path that is returned names a file that was
there from the start or that a successful transfer has written. -/
structure NoTrace (fs₀ : FileSystem) (log : List Event) : Prop where
  failed : ∀ e ∈ log, e.returned = [] → e.after = e.before
  returned : ∀ before e after, log = before ++ e :: after → e.returned ≠ [] →
    (fs₀ e.returned).isSome ∨
      ∃ e' ∈ before ++ [e], ∃ entry, e.after e.returned = some entry ∧
        e'.Wrote modelDir e.returned entry ∧ e'.call.transfer.code = curleOk

/-- The transfer of the first call for a file that was not there from the start is a
success. -/
def FirstSucceeds (fs₀ : FileSystem) (calls : List Call) : Prop :=
  ∀ before c after path, calls = before ++ c :: after → filePath modelDir c.url = some path →
    fs₀ path = none → (∀ c' ∈ before, filePath modelDir c'.url ≠ some path) →
    c.transfer.code = curleOk

/-- What is known of the files after the calls of `log`. -/
structure Known (fs₀ fs : FileSystem) (log : List Event) : Prop where
  kept : ∀ path, fs₀ path ≠ none → fs path = fs₀ path
  there : ∀ e ∈ log, ∀ path, filePath modelDir e.call.url = some path → fs path ≠ none
  origin : ∀ path entry, fs path = some entry →
    fs₀ path = some entry ∨ ∃ e ∈ log, e.Wrote modelDir path entry

end

section Calls

variable {modelDir path returned : List Char} {fs₀ fs fs' : FileSystem} {c : Call}
  {log before after : List Event} {e : Event}

@[simp] theorem fetched_self (fs : FileSystem) (path : List Char) (c : Call) :
    fetched fs path c path = some (.file c.transfer.written) := Function.update_self _ _ _

theorem fetched_of_ne {p : List Char} (h : p ≠ path) : fetched fs path c p = fs p :=
  Function.update_of_ne h _ _

/-- A call leaves alone what is there, and makes its own file be there. -/
theorem Downloaded.kept (h : Downloaded fs c path returned fs') :
    (∀ p, fs p ≠ none → fs' p = fs p) ∧ fs' path ≠ none := by
  have hfetched (hnone : fs path = none) :
      (∀ p, fs p ≠ none → fetched fs path c p = fs p) ∧ fetched fs path c path ≠ none := by
    refine ⟨fun p hp => fetched_of_ne fun heq => hp ?_, by simp⟩
    rw [heq]
    exact hnone
  cases h with
  | skipped hentry => exact ⟨fun _ _ => rfl, by simp [hentry]⟩
  | done hnone _ | failed hnone _ => exact hfetched hnone

/-- What is new after a call is what its transfer has written. -/
theorem Downloaded.origin {p : List Char} {entry : Entry}
    (h : Downloaded fs c path returned fs') (hp : fs' p = some entry) :
    fs p = some entry ∨ p = path ∧ fs path = none ∧ entry = .file c.transfer.written := by
  have hfetched (hnone : fs path = none) (hp : fetched fs path c p = some entry) :
      fs p = some entry ∨ p = path ∧ fs path = none ∧ entry = .file c.transfer.written := by
    by_cases heq : p = path
    · rw [heq, fetched_self] at hp
      exact .inr ⟨heq, hnone, (Option.some.inj hp).symm⟩
    · rw [fetched_of_ne heq] at hp
      exact .inl hp
  cases h with
  | skipped _ => exact .inl hp
  | done hnone _ | failed hnone _ => exact hfetched hnone hp

theorem known_step (hpath : filePath modelDir c.url = some path)
    (h : Downloaded fs c path returned fs') (hk : Known modelDir fs₀ fs log) :
    Known modelDir fs₀ fs' (log ++ [⟨c, fs, returned, fs'⟩]) where
  kept p hp := by
    have hfs := hk.kept p hp
    rw [h.kept.1 p (by rw [hfs]; exact hp), hfs]
  there e he p hep := by
    rcases List.mem_append.mp he with he | he
    · have hfs := hk.there e he p hep
      rw [h.kept.1 p hfs]
      exact hfs
    · rw [List.mem_singleton.mp he] at hep
      obtain rfl := Option.some.inj (hpath.symm.trans hep)
      exact h.kept.2
  origin p entry hp := by
    rcases h.origin hp with hp | ⟨rfl, hnone, rfl⟩
    · rcases hk.origin p entry hp with hp | ⟨e, he, hw⟩
      · exact .inl hp
      · exact .inr ⟨e, List.mem_append_left _ he, hw⟩
    · exact .inr ⟨_, List.mem_append_right _ List.mem_cons_self, hpath, hnone, rfl⟩

theorem session_known (h : Session modelDir fs₀ fs log) : Known modelDir fs₀ fs log := by
  refine h.traced_invariant (I := Known modelDir fs₀) ?_ ?_
  · intro fs fs' log c _ _ hs hk
    obtain ⟨⟨returned, fs''⟩, hd, rfl⟩ := Option.map_eq_some_iff.mp hs
    obtain ⟨path, hpath, hcases⟩ := downloaded_of_download hd
    rw [see, hd]
    exact known_step hpath hcases hk
  · exact ⟨fun _ _ => rfl, fun e he => absurd he List.not_mem_nil, fun _ _ hp => .inl hp⟩

/-- A call of the record was made in the state its predecessors led to. -/
theorem session_before (h : Session modelDir fs₀ fs log) (hlog : log = before ++ e :: after) :
    Session modelDir fs₀ e.before before ∧
      download modelDir e.before e.call = some (e.returned, e.after) := by
  refine h.invariant (I := fun p => ∀ before e after, p.2 = before ++ e :: after →
    Session modelDir fs₀ e.before before ∧
      download modelDir e.before e.call = some (e.returned, e.after)) ?_ ?_ before e after hlog
  · intro ⟨fs, log⟩ ⟨fs', log'⟩ c hrun _ htraced ih before e after heq
    obtain ⟨hs, rfl⟩ := Machine.traced_step.mp htraced
    obtain ⟨⟨returned, fs''⟩, hd, rfl⟩ := Option.map_eq_some_iff.mp hs
    rw [see, hd] at heq
    rcases Machine.append_single_split heq with ⟨rest, hlog, _⟩ | ⟨rfl, rfl, _⟩
    · exact ih before e rest hlog
    · exact ⟨hrun, hd⟩
  · intro before e after heq
    exact absurd heq (by simp)

/-- A call that finds nothing at its path is the first one for that path. -/
theorem session_first (h : Session modelDir fs₀ fs log) (hlog : log = before ++ e :: after)
    (hnone : e.before path = none) :
    fs₀ path = none ∧ ∀ c ∈ before.map Event.call, filePath modelDir c.url ≠ some path := by
  have hk := session_known (session_before h hlog).1
  constructor
  · by_contra hfs
    rw [hk.kept path hfs] at hnone
    exact hfs hnone
  · intro c hc hpath
    obtain ⟨e', he', rfl⟩ := List.mem_map.mp hc
    exact hk.there e' he' path hpath hnone

/-- If first calls succeed, so does every call that finds nothing at its path. -/
theorem FirstSucceeds.code_eq (hf : FirstSucceeds modelDir fs₀ (log.map Event.call))
    (h : Session modelDir fs₀ fs log) (hlog : log = before ++ e :: after)
    (hpath : filePath modelDir e.call.url = some path) (hnone : e.before path = none) :
    e.call.transfer.code = curleOk := by
  have hcalls : log.map Event.call = before.map Event.call ++ e.call :: after.map Event.call := by
    rw [hlog, List.map_append, List.map_cons]
  obtain ⟨hfs, hothers⟩ := session_first h hlog hnone
  exact hf _ e.call _ path hcalls hpath hfs hothers

theorem noTrace_of_firstSucceeds (h : Session modelDir fs₀ fs log)
    (hf : FirstSucceeds modelDir fs₀ (log.map Event.call)) : NoTrace modelDir fs₀ log where
  failed e he hreturned := by
    obtain ⟨before, after, hlog⟩ := List.append_of_mem he
    obtain ⟨path, hpath, hcases⟩ := downloaded_of_download (session_before h hlog).2
    have hne := filePath_ne_nil hpath
    generalize hback : e.returned = back at hcases hreturned
    generalize hend : e.after = fs' at hcases
    cases hcases with
    | skipped _ | done _ _ => exact absurd hreturned hne
    | failed hnone hfail => exact absurd (hf.code_eq h hlog hpath hnone) hfail
  returned before e after hlog hreturned := by
    obtain ⟨hbefore, hd⟩ := session_before h hlog
    obtain ⟨path, hpath, hcases⟩ := downloaded_of_download hd
    have hk := known_step hpath hcases (session_known hbefore)
    have hback : e.returned = path := by
      generalize e.returned = back at hcases hreturned
      generalize e.after = fs' at hcases
      cases hcases with
      | skipped _ | done _ _ => rfl
      | failed _ _ => exact absurd rfl hreturned
    rw [hback]
    obtain ⟨entry, hentry⟩ := Option.ne_none_iff_exists'.mp hcases.kept.2
    rcases hk.origin path entry hentry with hfs | ⟨e', he', hw⟩
    · left
      rw [hfs]
      rfl
    · obtain ⟨before', after', hlog'⟩ : ∃ before' after', log = before' ++ e' :: after' := by
        refine List.append_of_mem ?_
        rw [hlog]
        rcases List.mem_append.mp he' with he' | he'
        · exact List.mem_append_left _ he'
        · obtain rfl := List.mem_singleton.mp he'
          exact List.mem_append_right _ List.mem_cons_self
      exact .inr ⟨e', he', entry, hentry, hw, hf.code_eq h hlog' hw.1 hw.2.1⟩

theorem firstSucceeds_of_noTrace (h : Session modelDir fs₀ fs log)
    (hn : NoTrace modelDir fs₀ log) : FirstSucceeds modelDir fs₀ (log.map Event.call) := by
  intro befores c afters path hcalls hpath hfs hothers
  obtain ⟨before, rest, hlog, hbefore, hrest⟩ := List.map_eq_append_iff.mp hcalls
  obtain ⟨e, after, rfl, rfl, _⟩ := List.map_eq_cons_iff.mp hrest
  obtain ⟨hsession, hd⟩ := session_before h hlog
  obtain ⟨path', hpath', hcases⟩ := downloaded_of_download hd
  obtain rfl := Option.some.inj (hpath.symm.trans hpath')
  by_contra hfail
  have hnone : e.before path = none := by
    cases hentry : e.before path with
    | none => rfl
    | some entry =>
      rcases (session_known hsession).origin path entry hentry with habs | ⟨e', he', hw⟩
      · exact absurd (hfs.symm.trans habs) (by simp)
      · exact absurd hw.1 (hothers e'.call (hbefore ▸ List.mem_map_of_mem he'))
  have hmem : e ∈ log := by
    rw [hlog]
    exact List.mem_append_right _ List.mem_cons_self
  have hfailed := hn.failed e hmem
  generalize e.returned = back at hcases hfailed
  generalize e.after = fs' at hcases hfailed
  cases hcases with
  | skipped hentry => exact absurd (hnone.symm.trans hentry) (by simp)
  | done _ hok => exact hfail hok
  | failed _ _ =>
    have hsame := congrFun (hfailed rfl) path
    rw [fetched_self, hnone] at hsame
    exact absurd hsame (by simp)

end Calls

/-- Failed downloads leave no trace in a sequence of calls exactly if none of them was
needed: the first call for each missing file succeeds. -/
theorem failed_leaves_no_trace {modelDir : List Char} {fs₀ fs : FileSystem} {log : List Event}
    (h : Session modelDir fs₀ fs log) :
    NoTrace modelDir fs₀ log ↔ FirstSucceeds modelDir fs₀ (log.map Event.call) :=
  ⟨firstSucceeds_of_noTrace h, noTrace_of_firstSucceeds h⟩

/-- A transfer that is cut off leaves its byte behind, and the second call takes the file
for the model. -/
theorem failed_leaves_no_trace_fails :
    ∃ fs e₁ e₂, Session ['.'] (fun _ => none) fs [e₁, e₂] ∧
      e₁.call = ⟨['h', '/', 'm'], [1], 18⟩ ∧ e₁.returned = [] ∧
      e₂.call = ⟨['h', '/', 'm'], [], 18⟩ ∧ e₂.returned = ['.', '/', 'm'] ∧
      e₂.after ['.', '/', 'm'] = some (.file [1]) ∧
      ¬ NoTrace ['.'] (fun _ => none) [e₁, e₂] := by
  refine ⟨_, _, _,
    Machine.run_of_exec [⟨['h', '/', 'm'], [1], 18⟩, ⟨['h', '/', 'm'], [], 18⟩] rfl,
    rfl, rfl, rfl, rfl, by decide, fun hn => ?_⟩
  have hsame := congrFun (hn.failed _ List.mem_cons_self rfl) ['.', '/', 'm']
  exact absurd hsame (by decide)

/-- The first call fetches the file, and the second, whose transfer would fail, makes
none. -/
theorem failed_leaves_no_trace_fetched :
    ∃ fs e₁ e₂, Session ['.'] (fun _ => none) fs [e₁, e₂] ∧
      e₁.call = ⟨['h', '/', 'm'], [1], 0⟩ ∧ e₂.call = ⟨['h', '/', 'm'], [], 18⟩ ∧
      NoTrace ['.'] (fun _ => none) [e₁, e₂] := by
  have hsession : ∃ fs e₁ e₂, Session ['.'] (fun _ => none) fs [e₁, e₂] ∧
      e₁.call = ⟨['h', '/', 'm'], [1], 0⟩ ∧ e₂.call = ⟨['h', '/', 'm'], [], 18⟩ :=
    ⟨_, _, _,
      Machine.run_of_exec [⟨['h', '/', 'm'], [1], 0⟩, ⟨['h', '/', 'm'], [], 18⟩] rfl, rfl, rfl⟩
  obtain ⟨fs, e₁, e₂, hrun, h₁, h₂⟩ := hsession
  refine ⟨fs, e₁, e₂, hrun, h₁, h₂, (failed_leaves_no_trace hrun).mpr ?_⟩
  intro before c after path hcalls hpath _ hothers
  rw [List.map_cons, List.map_cons, h₁, h₂] at hcalls
  cases before with
  | nil =>
    obtain ⟨rfl, _⟩ := List.cons.inj hcalls
    rfl
  | cons c₁ rest =>
    obtain ⟨rfl, hrest⟩ := List.cons.inj hcalls
    cases rest with
    | nil =>
      obtain ⟨rfl, _⟩ := List.cons.inj hrest
      exact absurd hpath (hothers ⟨['h', '/', 'm'], [1], 0⟩ List.mem_cons_self)
    | cons c₂ rest =>
      obtain ⟨_, hrest⟩ := List.cons.inj hrest
      exact absurd hrest (by simp)

end CurlDownloader
end TryAndLearn
