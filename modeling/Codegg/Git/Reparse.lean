import Codegg.Git.Reading.Basic
import Codegg.Git.Render

/-!
# Reading rendered words again

How a scanner reads the words a rendering is made of: a flag that is there or not, the operands,
and the paths after the separator.
-/
namespace Codegg.Git

open Codegg.Library.ArgScan RepoPath

variable {t : String} {ts ws : List String} {path : RepoPath} {paths : List RepoPath}

section Scans

variable {ε σ : Type} {step : σ → String → Step ε σ String}

theorem scan_cons_next {s s' : σ} (h : step s t = .next s') :
    scan step s (t :: ts) = scan step s' ts := by
  rw [scan.eq_def]
  simp [h]

theorem scan_cons_rest {s : σ} {k : List String → Except ε σ} (h : step s t = .rest k) :
    scan step s (t :: ts) = k ts := by
  rw [scan.eq_def]
  simp [h]

theorem scan_cons_one {s : σ} {v : String} {k : Option String → Except ε σ} (h : step s t = .one k)
    :
    scan step s (t :: v :: ts) = k (some v) >>= fun s' => scan step s' ts := by
  rw [scan.eq_def]
  simp [h]

theorem scan_singleton (s : σ) (t : String) : scan step s [t] = (step s t).apply [] := by
  rw [scan.eq_def]
  dsimp only
  cases step s t <;> rfl

theorem scan_cons_attempt {s : σ} {x : Except ε σ} (h : step s t = .attempt x) :
    scan step s (t :: ts) = x >>= fun s' => scan step s' ts := by
  rw [scan.eq_def]
  cases x with
  | error e => simp [h, Step.attempt]
  | ok s' => simp [h, Step.attempt]

/-- A flag that is there when `b` holds brings the scanner to the state for `b`. -/
theorem scan_pushIf (state : Bool → σ) (b : Bool) (h : step (state false) t = .next (state true)) :
    scan step (state false) (pushIf b t ++ ts) = scan step (state b) ts := by
  cases b with
  | false => rfl
  | true => exact scan_cons_next h

/-- An option that is there when it has a value brings the scanner to the state for the value. -/
theorem scan_pushOption {step : σ → String → Step ε σ String} (state : Option String → σ)
    (k : Option String → Except ε σ) (value : Option String) (h : step (state none) t = .one k)
    (hk : ∀ v, k (some v) = .ok (state (some v))) :
    scan step (state none) (pushOption t value ++ ts) = scan step (state value) ts := by
  cases value with
  | none => rfl
  | some v =>
    refine (scan_cons_one h).trans ?_
    rw [hk]
    rfl

/-- Operands that are collected are read in turn. -/
theorem scan_collect (state : List String → σ) (ops : List String)
    (h : ∀ done, ∀ t ∈ ops, step (state done) t = .next (state (done ++ [t]))) (done : List String) :
    scan step (state done) ops = .ok (state (done ++ ops)) := by
  induction ops generalizing done with
  | nil => simp [scan]
  | cons t ops ih =>
    rw [scan_cons_next (h done t (by simp)), ih fun done u hu => h done u (by simp [hu])]
    simp

end Scans

section Paths

variable {canonicalize : Canonicalize}

theorem text_of_toRepoPath {s : String} (h : toRepoPath canonicalize s = .ok path) :
    path.text = normalizePath s ∧ canonicalize path.text = none :=
  text_of_new (mapError_eq_ok.mp h)

/-- A word whose `./` prefixes hide no absolute path. -/
def staysRelative (w : String) : Prop := isAbsolute (normalizePath w) = false

instance : DecidablePred staysRelative := fun w =>
  inferInstanceAs (Decidable (isAbsolute (normalizePath w) = false))

theorem texts_of_mapM_toRepoPath (h : ws.mapM (toRepoPath canonicalize) = .ok paths) :
    paths.map text = ws.map normalizePath ∧
      ∀ p ∈ paths, canonicalize p.text = none := by
  induction ws generalizing paths with
  | nil =>
    cases h
    simp
  | cons w ws ih =>
    rw [List.mapM_cons] at h
    obtain ⟨path, hpath, h⟩ := bind_eq_ok.mp h
    obtain ⟨rest, hrest, h⟩ := bind_eq_ok.mp h
    cases h
    obtain ⟨htext, hnone⟩ := text_of_toRepoPath hpath
    simp_all

theorem length_of_mapM (h : ws.mapM (toRepoPath canonicalize) = .ok paths) :
    paths.length = ws.length := by
  simpa using congrArg List.length (texts_of_mapM_toRepoPath h).1

theorem toRepoPath_text (h : canonicalize path.text = none) :
    toRepoPath canonicalize path.text = .ok path ↔ isAbsolute path.text = false := by
  unfold toRepoPath
  rw [new_text h]
  cases isAbsolute path.text <;> simp

theorem eq_of_toRepoPath_text {path' : RepoPath} (h : toRepoPath canonicalize path.text = .ok path') :
    path' = path := by
  have htext : path'.text = path.text := (text_of_toRepoPath h).1.trans path.normal
  cases path
  cases htext
  rfl

theorem mapM_toRepoPath_texts (h : ∀ p ∈ paths, canonicalize p.text = none) :
    (paths.map text).mapM (toRepoPath canonicalize) = .ok paths ↔
      ∀ p ∈ paths, isAbsolute p.text = false := by
  induction paths with
  | nil => simp [pure, Except.pure]
  | cons p paths ih =>
    have hp := toRepoPath_text (h p (by simp))
    have hps := ih fun q hq => h q (by simp [hq])
    rw [List.map_cons, List.mapM_cons]
    simp only [bind_eq_ok, List.forall_mem_cons, ← hp, ← hps]
    constructor
    · rintro ⟨q, hq, qs, hqs, heq⟩
      cases heq
      exact ⟨hq, hqs⟩
    · exact fun hall => ⟨p, hall.1, paths, hall.2, rfl⟩

/-- Paths that were read from words are read again from their texts exactly when none of the
words hides an absolute path. -/
theorem mapM_toRepoPath_again (h : ws.mapM (toRepoPath canonicalize) = .ok paths) :
    (paths.map text).mapM (toRepoPath canonicalize) = .ok paths ↔
      ∀ w ∈ ws, staysRelative w := by
  obtain ⟨htexts, hcan⟩ := texts_of_mapM_toRepoPath h
  rw [mapM_toRepoPath_texts hcan]
  have hmem : (∀ t ∈ paths.map text, isAbsolute t = false) ↔
      ∀ t ∈ ws.map normalizePath, isAbsolute t = false := by rw [htexts]
  simpa [staysRelative] using hmem

/-- The paths after the separator are read as its words. -/
theorem scan_dashes {σ : Type} {step : σ → String → Step ParseError σ String} {s : σ}
    (setPaths : List RepoPath → σ)
    (h : step s "--" = .rest fun rest => do
      let paths ← collectPathsAfterDoubleDash canonicalize rest
      return setPaths paths) (paths : List RepoPath) :
    scan step s ("--" :: paths.map text) =
      (paths.map text).mapM (toRepoPath canonicalize) >>= fun paths =>
        .ok (setPaths paths) :=
  scan_cons_rest h

theorem scan_pathsAfterDd {σ : Type} {step : σ → String → Step ParseError σ String} {s : σ}
    (setPaths : List RepoPath → σ) (hnil : setPaths [] = s)
    (h : step s "--" = .rest fun rest => do
      let paths ← collectPathsAfterDoubleDash canonicalize rest
      return setPaths paths) (paths : List RepoPath) :
    scan step s (pushPathsAfterDd paths) =
      (paths.map text).mapM (toRepoPath canonicalize) >>= fun paths =>
        .ok (setPaths paths) := by
  cases paths with
  | nil =>
    rw [← hnil]
    rfl
  | cons p paths => exact scan_dashes setPaths h (p :: paths)

/-- Rendered paths, read again. -/
def pathsAgain (canonicalize : Canonicalize) (paths : List RepoPath) :
    Except ParseError (List RepoPath) :=
  (paths.map text).mapM (toRepoPath canonicalize)

theorem scan_givenPaths {σ : Type} {step : σ → String → Step ParseError σ String} {s : σ}
    (setPaths : Option (List RepoPath) → σ) (hnone : setPaths none = s)
    (h : step s "--" = .rest fun rest => do
      let paths ← collectPathsAfterDoubleDash canonicalize rest
      return setPaths (some paths)) (paths : Option (List RepoPath)) :
    scan step s (pushGivenPaths paths) =
      paths.mapM (pathsAgain canonicalize) >>= fun paths => .ok (setPaths paths) := by
  cases paths with
  | none =>
    rw [← hnone]
    rfl
  | some paths =>
    refine (scan_dashes (fun paths => setPaths (some paths)) h paths).trans ?_
    change _ = (pathsAgain canonicalize paths >>= fun paths => .ok (some paths)) >>= _
    unfold pathsAgain
    cases (paths.map text).mapM (toRepoPath canonicalize) <;> rfl

theorem texts_of_mapM_toPathspec {specs : List Pathspec} (h : ws.mapM toPathspec = .ok specs) :
    specs.map Pathspec.text = ws := by
  induction ws generalizing specs with
  | nil =>
    cases h
    rfl
  | cons w ws ih =>
    rw [List.mapM_cons] at h
    obtain ⟨spec, hspec, h⟩ := bind_eq_ok.mp h
    obtain ⟨rest, hrest, h⟩ := bind_eq_ok.mp h
    cases h
    simp [ih hrest, text_of_toPathspec hspec]

end Paths

section Options

/-- An optional name that was read from a word has the word as its text. -/
theorem map_text_of_mapM {α : Type} {f : String → Except ParseError α} {text : α → String}
    (hf : ∀ {s a}, f s = .ok a → text a = s) {word : Option String} {o : Option α}
    (h : word.mapM f = .ok o) : o.map text = word := by
  cases word with
  | none =>
    cases h
    rfl
  | some s =>
    obtain ⟨a, ha, h⟩ := bind_eq_ok.mp (show (f s >>= fun a => .ok (some a)) = .ok o from h)
    cases h
    exact congrArg some (hf ha)

end Options

section Argv

variable {canonicalize : Canonicalize}

/-- Without global options the subcommand is read at once. -/
theorem parseGitArgv_cons {sub : String} (args : List String)
    (hsub : sub ∉ ["-C", "--git-dir", "--work-tree"]) :
    parseGitArgv canonicalize ("git" :: sub :: args) =
      parseSubcommand canonicalize ("git" :: sub :: args) sub args := by
  have hglobals : consumeGlobalOptions false (sub :: args) = .ok ⟨false, sub :: args⟩ := by
    simp only [List.mem_cons, List.not_mem_nil, or_false, not_or] at hsub
    rw [consumeGlobalOptions.eq_def]
    simp [hsub]
  unfold parseGitArgv
  simp only [hglobals, ok_bind]
  cases hop : parseSubcommand canonicalize ("git" :: sub :: args) sub args <;> rfl

end Argv

section Operands

theorem isFlag_of_mem_operands {I : Reading} (h : t ∈ Reading.operands I) :
    isFlag t = false := by
  simp only [Reading.operands, List.mem_map, List.mem_filter] at h
  obtain ⟨a, ⟨-, ha⟩, rfl⟩ := h
  simpa using ha

theorem isFlag_of_head?_operands {I : Reading} (h : (Reading.operands I).head? = some t) :
    isFlag t = false :=
  isFlag_of_mem_operands (List.mem_of_mem_head? h)

/-- An operand is no flag that a parser knows. -/
theorem operand_eq_iff {u : String} (ht : isFlag t = false) (hu : isFlag u = true) :
    t = u ↔ False := by
  refine iff_false_intro ?_
  rintro rfl
  simp [ht] at hu

end Operands

end Codegg.Git
